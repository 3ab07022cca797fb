import VisualDigest.Regions
import VisualDigest.HashesExact

/-! One byte of an accepted payload replaced by another. Every place of the format answers for its
own byte: the change is refused where it stands, or it is seen in one field of the digest. -/
namespace VisualDigest.Substitution
open Checked LittleEndian RecordFormat Format Hashes Decoder Wire Grammar RecordExact FrontExact
open DecoderExact Violations UnknownRecords HashesExact Regions

theorem setDiffers {b : List UInt8} {i : Nat} {x : UInt8} (inside : i < b.length)
    (other : b[i]? ≠ some x) : b.set i x ≠ b := by
  intro same
  have read := congrArg (fun bytes : List UInt8 => bytes[i]?) same
  simp only [List.getElem?_set_self inside] at read
  exact other read.symm

theorem setWord {α : Type} [Word α] (w : α) (i : Nat) (x : UInt8) : ∃ v : α, le v = (le w).set i x :=
  leSurjective _ (by rw [List.length_set,leLength])

theorem entrySet (e : HashEntry) {r : Nat} (inside : r < 6) (x : UInt8) :
    ∃ e' : HashEntry, e'.bytes = e.bytes.set r x ∧ (r ≠ 0 → e'.tag = e.tag) ∧
      (r ≠ 1 → e'.len = e.len) ∧ (r < 2 → e'.value = e.value) := by
  match r with
  | 0 => exact ⟨{e with tag := x},rfl,by simp⟩
  | 1 => exact ⟨{e with len := x},rfl,by simp⟩
  | r+2 =>
    obtain ⟨v,same⟩ := setWord e.value r x
    exact ⟨{e with value := v},by simp [HashEntry.bytes,same],by simp⟩

theorem entriesSet {es : List HashEntry} {j r : Nat} {e e' : HashEntry} {x : UInt8}
    (found : es[j]? = some e) (inside : r < 6) (same : e'.bytes = e.bytes.set r x) :
    (es.flatMap HashEntry.bytes).set (j*6+r) x = (es.set j e').flatMap HashEntry.bytes := by
  induction es generalizing j with
  | nil => contradiction
  | cons first es ih =>
    have size : first.bytes.length = 6 := rfl
    cases j with
    | zero =>
      cases found
      rw [List.set_cons_zero,List.flatMap_cons,List.flatMap_cons,same,Nat.zero_mul,Nat.zero_add,
        List.set_append_left _ _ (by omega)]
    | succ j =>
      have place : (j+1)*6 + r - 6 = j*6 + r := by omega
      rw [List.set_cons_succ,List.flatMap_cons,List.flatMap_cons,
        List.set_append_right _ _ (by rw [size]; omega),size,place,ih found]

section
variable (f : Front) (rest : List UInt8) (x : UInt8)

theorem setMagic {i : Nat} (inside : i < 4) : (f.bytes ++ rest).set i x =
    {f with magic := f.magic.set ⟨i,inside⟩ x}.bytes ++ rest := by
  rw [Front.bytes,Front.bytes,List.append_assoc,List.append_assoc,
    List.set_append_left _ _ (by rw [f.magic.toList_length]; exact inside),List.Vector.toList_set]

theorem setVersion : (f.bytes ++ rest).set 4 x = {f with version := x}.bytes ++ rest := by
  rw [Front.bytes,Front.bytes,List.append_assoc,List.append_assoc,
    List.set_append_right _ _ f.magic.toList_length.le,f.magic.toList_length]
  rfl

theorem setCounter {i : Nat} (low : 5 ≤ i) (high : i < 9) :
    ∃ c, (f.bytes ++ rest).set i x = {f with frameCounter := c}.bytes ++ rest := by
  obtain ⟨c,same⟩ := setWord f.frameCounter (i-5) x
  obtain ⟨k,rfl⟩ := Nat.exists_eq_add_of_le low
  refine ⟨c,?_⟩
  have width : (le f.frameCounter).length = 4 := rfl
  have place : 5 + k - 4 = k + 1 := by omega
  rw [Nat.add_sub_cancel_left] at same
  rw [Front.bytes,Front.bytes,List.append_assoc,List.append_assoc,
    List.set_append_right _ _ (by rw [f.magic.toList_length]; omega),f.magic.toList_length,place,
    List.cons_append,List.set_cons_succ,List.append_assoc,
    List.set_append_left _ _ (by rw [width]; omega),same]
  simp

theorem setEntry {i j r : Nat} (place : i = 10 + j*6 + r) {e : HashEntry}
    (found : f.entries.toList[j]? = some e) (small : j < 8) (inside : r < 6) {e' : HashEntry}
    (same : e'.bytes = e.bytes.set r x) :
    (f.bytes ++ rest).set i x = {f with entries := f.entries.set ⟨j,small⟩ e'}.bytes ++ rest := by
  have before := beforeCount f
  have size := entriesLength f.entries.toList
  rw [f.entries.toList_length] at size
  have cut : i - 9 = j*6 + r + 1 := by omega
  rw [frontShape,frontShape,List.set_append_right _ _ (by omega),before,cut,List.set_cons_succ,
    List.set_append_left _ _ (by omega),entriesSet found inside same,List.Vector.toList_set]

end

theorem entrySame {e e' : HashEntry} (tag : e'.tag = e.tag) (len : e'.len = e.len)
    (value : e'.value = e.value) : e' = e := by
  cases e
  cases e'
  cases tag
  cases len
  cases value
  rfl

theorem versionRefused {f : Front} (magic : f.magic = digestMagic)
    (wrong : f.version ≠ digestSchemaVersion) :
    f.refusal? = some (.unsupportedSchemaVersion f.version) := by
  rw [Front.refusal?,if_neg (not_not_intro magic),if_pos wrong]

theorem countRefused {f : Front} (magic : f.magic = digestMagic)
    (version : f.version = digestSchemaVersion) (few : f.count < 8) :
    f.refusal? = some (.recordCountTooSmall f.count) := by
  rw [Front.refusal?,if_neg (not_not_intro magic),if_neg (not_not_intro version)]
  exact if_pos few

theorem hashRefusalNone {n : Nat} {pairs : List (UInt8 × HashEntry)} :
    hashRefusal n pairs = none ↔ ∀ pair ∈ pairs, pair.2.reason? pair.1 = none := by
  induction pairs generalizing n with
  | nil => simp [hashRefusal]
  | cons first rest ih =>
    obtain ⟨expected,e⟩ := first
    rw [hashRefusal,List.forall_mem_cons]
    cases reason : e.reason? expected with
    | some text => simp
    | none => simpa using ih

section
variable {f : Front} (accepted : f.refusal? = none) {j : Nat} (small : j < 8) (e' : HashEntry)
include accepted

theorem editedRefusal : {f with entries := f.entries.set ⟨j,small⟩ e'}.refusal? =
    (e'.reason? (UInt8.ofNat (0x11+j))).map (.malformedHashBlock (10+j*6)) := by
  obtain ⟨magic,version,eight,hashes⟩ := frontAccepted.mp accepted
  have size := f.entries.toList_length
  have own : (expectedHashTags.zip (f.entries.set ⟨j,small⟩ e').toList)[j]? =
      some (UInt8.ofNat (0x11+j),e') := by
    rw [List.Vector.toList_set]
    exact List.getElem?_zip_eq_some.mpr ⟨expectedAt j small,List.getElem?_set_self (by omega)⟩
  have others : ∀ k pair, k ≠ j →
      (expectedHashTags.zip (f.entries.set ⟨j,small⟩ e').toList)[k]? = some pair →
      pair.2.reason? pair.1 = none := by
    intro k pair apart found
    rw [List.Vector.toList_set] at found
    obtain ⟨tag,entry⟩ := List.getElem?_zip_eq_some.mp found
    rw [List.getElem?_set_ne apart.symm] at entry
    exact hashRefusalNone.mp hashes pair
      (List.mem_of_getElem? (List.getElem?_zip_eq_some.mpr ⟨tag,entry⟩))
  have passed := @headerPassed {f with entries := f.entries.set ⟨j,small⟩ e'} magic version eight
  rw [passed]
  cases reason : e'.reason? (UInt8.ofNat (0x11+j)) with
  | some text =>
    refine hashRefusalFirst.mpr ⟨j,_,e',text,own,reason,by rw [Nat.zero_add],?_⟩
    intro k below pair found
    exact others k pair (by omega) found
  | none =>
    refine hashRefusalNone.mpr fun pair member => ?_
    obtain ⟨k,found⟩ := List.mem_iff_getElem?.mp member
    by_cases same : k = j
    · subst same
      cases own.symm.trans found
      exact reason
    · exact others k pair same found

end

theorem storedEntry (f : Front) {j : Nat} (small : j < 8) :
    stored f.hashes (UInt8.ofNat (j+1)) = (f.entries.get ⟨j,small⟩).value := by
  have index : j = 0 ∨ j = 1 ∨ j = 2 ∨ j = 3 ∨ j = 4 ∨ j = 5 ∨ j = 6 ∨ j = 7 := by omega
  rw [← List.Vector.get_map f.entries HashEntry.value]
  rcases index with rfl | rfl | rfl | rfl | rfl | rfl | rfl | rfl <;> rfl

theorem knownIndex {t : UInt8} (known : KnownTag t) : ∃ j < 8, t = UInt8.ofNat (j+1) := by
  rcases knownTags known with rfl | rfl | rfl | rfl | rfl | rfl | rfl | rfl
  · exact ⟨0,by decide,rfl⟩
  · exact ⟨1,by decide,rfl⟩
  · exact ⟨2,by decide,rfl⟩
  · exact ⟨3,by decide,rfl⟩
  · exact ⟨4,by decide,rfl⟩
  · exact ⟨5,by decide,rfl⟩
  · exact ⟨6,by decide,rfl⟩
  · exact ⟨7,by decide,rfl⟩

theorem indexTag {j k : Nat} (left : j < 8) (right : k < 8) :
    UInt8.ofNat (j+1) = UInt8.ofNat (k+1) ↔ j = k := by
  rw [← UInt8.toNat_inj,UInt8.toNat_ofNat',UInt8.toNat_ofNat']
  omega

theorem editedHashes (f : Front) {j : Nat} (small : j < 8) {e' : HashEntry}
    (differs : e'.value ≠ (f.entries.get ⟨j,small⟩).value) {t : UInt8} (known : KnownTag t) :
    stored {f with entries := f.entries.set ⟨j,small⟩ e'}.hashes t ≠ stored f.hashes t ↔
      t = UInt8.ofNat (j+1) := by
  obtain ⟨k,inside,rfl⟩ := knownIndex known
  rw [storedEntry _ inside,storedEntry f inside,indexTag inside small]
  by_cases same : k = j
  · subst same
    simpa [List.Vector.get_set_same] using differs
  · have apart : (⟨j,small⟩ : Fin 8) ≠ ⟨k,inside⟩ := fun equal => same (Fin.mk.inj equal).symm
    simp [List.Vector.get_set_of_ne apart,same]

theorem leadKept {bytes : Slice UInt8} {f : Front} (accepted : f.refusal? = none)
    {lead : List RawRecord} {second : List UInt8} {trailer : UInt32}
    (shape : bytes.data = f.bytes ++ (recordFormat.encAll lead ++ second ++ le trailer)) :
    (∃ later, decode bytes = .ok ⟨f.frameCounter,f.hashes,(lead ++ later).filterMap RawRecord.event?,
      (lead ++ later).filterMap RawRecord.unknown?,trailer⟩) ∨
    ∃ k refusal, 58 + (recordFormat.encAll lead).length ≤ k ∧
      decode bytes = .error (.err (refusalError k refusal)) := by
  obtain ⟨later,tail,rfl,ended⟩ := splitExists recordFormat second
  rw [← List.append_assoc (recordFormat.encAll lead),← encAllAppend] at shape
  by_cases empty : tail = []
  · rw [empty,List.append_nil] at shape
    exact .inl ⟨later,decodesWhole accepted shape⟩
  · obtain ⟨refusal,refused⟩ := ended.resolve_left empty
    refine .inr ⟨_,refusal,?_,decodesRefused accepted empty refused shape⟩
    rw [encAllAppend,List.length_append]
    omega

section
variable {changed : Slice UInt8} {p : Payload}

theorem frontSubstituted {f : Front} (accepted : f.refusal? = none)
    (edited : changed.data = f.bytes ++ (p.region ++ le p.framebufferHash)) :
    decode changed = .ok {p.digest with frameCounter := f.frameCounter, channelHashes := f.hashes} :=
  decodesWhole accepted edited

variable {i : Nat} {x : UInt8} (shape : changed.data = p.bytes.set i x) (differs : changed.data ≠ p.bytes)
include shape

theorem changedShape : changed.data =
    ((frontOf p).bytes ++ (p.region ++ le p.framebufferHash)).set i x := by
  rw [shape,payloadBytes]

theorem countSubstituted (place : i = 9) : decode changed =
    if x < 8 then .error (.err (.recordCountTooSmall x)) else .ok p.digest := by
  subst place
  have edited := changedShape shape
  rw [setCount] at edited
  split
  · rename_i few
    exact frontDecides edited (trailerBehind _ _) (countRefused rfl rfl few)
  · rename_i many
    have accepted := countingAccepted (payloadAccepted p) (UInt8.not_lt.mp many)
    exact frontSubstituted accepted edited

include differs

omit shape in
theorem frontChanged {f : Front} (edited : changed.data = f.bytes ++ (p.region ++ le p.framebufferHash)) :
    f ≠ frontOf p := by
  rintro rfl
  rw [← payloadBytes] at edited
  exact differs edited

theorem magicSubstituted (inside : i < 4) : ∃ magic : List.Vector UInt8 4,
    changed.data.take 4 = magic.toList ∧ decode changed = .error (.err (.badMagic magic)) := by
  have edited := changedShape shape
  rw [setMagic _ _ _ inside] at edited
  have wrong : (frontOf p).magic.set ⟨i,inside⟩ x ≠ digestMagic := by
    intro same
    apply frontChanged differs edited
    rw [same]
    rfl
  refine ⟨(frontOf p).magic.set ⟨i,inside⟩ x,?_,?_⟩
  · rw [edited,magicAt]
  · exact frontDecides edited (trailerBehind _ _) (if_pos wrong)

theorem versionSubstituted (place : i = 4) :
    decode changed = .error (.err (.unsupportedSchemaVersion x)) := by
  subst place
  have edited := changedShape shape
  rw [setVersion] at edited
  have wrong : x ≠ digestSchemaVersion := by
    rintro rfl
    exact frontChanged differs edited rfl
  exact frontDecides edited (trailerBehind _ _) (versionRefused rfl wrong)

theorem counterSubstituted (low : 5 ≤ i) (high : i < 9) : ∃ frameCounter, frameCounter ≠ p.frameCounter ∧
    decode changed = .ok {p.digest with frameCounter := frameCounter} := by
  have edited := changedShape shape
  obtain ⟨c,counted⟩ := setCounter (frontOf p) (p.region ++ le p.framebufferHash) x low high
  rw [counted] at edited
  have accepted : {frontOf p with frameCounter := c}.refusal? = none := payloadAccepted p
  refine ⟨c,?_,frontSubstituted accepted edited⟩
  rintro rfl
  exact frontChanged differs edited rfl

theorem hashSubstituted {j r : Nat} (small : j < 8) (inside : r < 6) (place : i = 10 + j*6 + r) :
    (r = 0 → decode changed =
      .error (.err (.malformedHashBlock (10+j*6) "hash record has unexpected tag"))) ∧
    (r = 1 → decode changed =
      .error (.err (.malformedHashBlock (10+j*6) "hash record length byte is not 4"))) ∧
    (2 ≤ r → ∃ h, decode changed = .ok {p.digest with channelHashes := h} ∧
      ∀ t, KnownTag t → (stored h t ≠ stored p.hashes t ↔ t = UInt8.ofNat (j+1))) := by
  have accepted := payloadAccepted p
  obtain ⟨e,entry,pair⟩ := pairAt (frontOf p) small
  have right : e = ⟨UInt8.ofNat (0x11+j),4,e.value⟩ :=
    acceptedEntries (frontAccepted.mp accepted).2.2.2 _ (List.mem_of_getElem? pair)
  have tag : e.tag = UInt8.ofNat (0x11+j) := congrArg HashEntry.tag right
  have len : e.len = 4 := congrArg HashEntry.len right
  obtain ⟨e',same,keepsTag,keepsLen,keepsValue⟩ := entrySet e inside x
  have edited := changedShape shape
  rw [setEntry _ _ _ place entry small inside same] at edited
  have refusal := editedRefusal accepted small e'
  have apart : e' ≠ e := by
    rintro rfl
    refine frontChanged differs edited ?_
    have still : (frontOf p).entries.set ⟨j,small⟩ e' = (frontOf p).entries := List.Vector.eq _ _ (by
      obtain ⟨short,read⟩ := List.getElem?_eq_some_iff.mp entry
      rw [List.Vector.toList_set,← read]
      exact List.set_getElem_self short)
    rw [still]
  refine ⟨?_,?_,?_⟩
  · rintro rfl
    have wrong : e'.tag ≠ UInt8.ofNat (0x11+j) := fun back =>
      apart (entrySame (back.trans tag.symm) (keepsLen (by decide)) (keepsValue (by decide)))
    rw [HashEntry.reason?,if_pos wrong] at refusal
    exact frontDecides edited (trailerBehind _ _) refusal
  · rintro rfl
    have wrong : e'.len ≠ 4 := fun back =>
      apart (entrySame (keepsTag (by decide)) (back.trans len.symm) (keepsValue (by decide)))
    have own : e'.tag = UInt8.ofNat (0x11+j) := (keepsTag (by decide)).trans tag
    rw [HashEntry.reason?,if_neg (not_not_intro own),if_pos wrong] at refusal
    exact frontDecides edited (trailerBehind _ _) refusal
  · intro value
    have ownTag : e'.tag = UInt8.ofNat (0x11+j) := (keepsTag (by omega)).trans tag
    have ownLen : e'.len = 4 := (keepsLen (by omega)).trans len
    rw [HashEntry.reason?,if_neg (not_not_intro ownTag),if_neg (not_not_intro ownLen)] at refusal
    have read : (frontOf p).entries.get ⟨j,small⟩ = e := by
      rw [List.Vector.get_eq_get_toList]
      exact (List.getElem?_eq_some_iff.mp entry).2
    have wrong : e'.value ≠ ((frontOf p).entries.get ⟨j,small⟩).value := by
      rw [read]
      exact fun back => apart (entrySame (keepsTag (by omega)) (keepsLen (by omega)) back)
    exact ⟨_,frontSubstituted refusal edited,fun t known => editedHashes (frontOf p) small wrong known⟩

theorem trailerSubstituted (inside : i < p.bytes.length) (last : p.bytes.length ≤ i + 4) :
    ∃ framebufferHash, framebufferHash ≠ p.framebufferHash ∧
      decode changed = .ok {p.digest with framebufferHash := framebufferHash} := by
  have front := frontLength (frontOf p)
  have size := payloadSize p
  obtain ⟨t,word⟩ := setWord p.framebufferHash (i - (58 + p.region.length)) x
  have before : ((frontOf p).bytes ++ p.region).length = 58 + p.region.length := by
    rw [List.length_append,front]
  have edited := changedShape shape
  rw [← List.append_assoc,List.set_append_right _ _ (by omega),before,← word,List.append_assoc] at edited
  refine ⟨t,?_,decodesWhole (payloadAccepted p) edited⟩
  rintro rfl
  rw [← payloadBytes] at edited
  exact differs edited

omit differs in
theorem regionSubstituted (low : 58 ≤ i) (high : i + 4 < p.bytes.length) :
    ∃ (n : Nat) (r : RawRecord), p.records[n]? = some r ∧
      58 + (recordFormat.encAll (p.records.take n)).length ≤ i ∧
      i < 58 + (recordFormat.encAll (p.records.take n)).length + r.bytes.length ∧
      ((∃ later, decode changed = .ok {p.digest with
          rawRecords := (p.records.take n ++ later).filterMap RawRecord.event?
          unknownRecords := (p.records.take n ++ later).filterMap RawRecord.unknown?}) ∨
        ∃ k refusal, 58 + (recordFormat.encAll (p.records.take n)).length ≤ k ∧
          decode changed = .error (.err (refusalError k refusal))) := by
  have front := frontLength (frontOf p)
  have size := payloadSize p
  obtain ⟨j,rfl⟩ := Nat.exists_eq_add_of_le low
  have inside : j < p.region.length := by omega
  obtain ⟨n,part,_,taken,stopped⟩ := encAllCut recordFormat p.records inside.le
  have length := (List.length_take_of_le inside.le).symm.trans
    ((congrArg List.length taken).trans List.length_append)
  have edited := changedShape shape
  have place : 58 + j - (frontOf p).bytes.length = j := by omega
  have cut : p.region.set j x =
      recordFormat.encAll (p.records.take n) ++ (part ++ x::p.region.drop (j+1)) := by
    rw [← List.append_assoc,← taken]
    exact List.set_eq_take_append_cons_drop.trans (if_pos inside)
  rw [List.set_append_right _ _ (by omega),place,List.set_append_left _ _ inside,cut] at edited
  have answer := leadKept (payloadAccepted p) edited
  rcases stopped with rfl | ⟨r,rest,found,split,left⟩
  · -- the byte is the first of its record
    have more : n < p.records.length := by
      by_contra all
      rw [List.take_of_length_le (by omega),List.length_nil] at length
      exact absurd length (Nat.ne_of_lt inside)
    have positive := encPositive recordFormat p.records[n]
    rw [List.length_nil] at length
    exact ⟨n,_,List.getElem?_eq_getElem more,by omega,by rw [← recordEnc]; omega,answer⟩
  · have whole := (congrArg List.length split).trans List.length_append
    have positive := List.length_pos_of_ne_nil left
    exact ⟨n,r,found,by omega,by rw [← recordEnc]; omega,answer⟩

end

/- The answers to a payload, read before as `d`, with its byte `i` replaced by `x`: one for each
place of the format. -/
structure SubstitutionAnswers (bytes : List UInt8) (d : Digest) (i : Nat) (x : UInt8)
    (changed : Slice UInt8) : Prop where
  magic : i < 4 → ∃ magic : List.Vector UInt8 4, changed.data.take 4 = magic.toList ∧
    decode changed = .error (.err (.badMagic magic))
  version : i = 4 → decode changed = .error (.err (.unsupportedSchemaVersion x))
  counter : 5 ≤ i → i < 9 → ∃ frameCounter, frameCounter ≠ d.frameCounter ∧
    decode changed = .ok {d with frameCounter := frameCounter}
  count : i = 9 → decode changed = if x < 8 then .error (.err (.recordCountTooSmall x)) else .ok d
  hashes : ∀ {j r}, j < 8 → r < 6 → i = 10 + j*6 + r →
    (r = 0 → decode changed =
      .error (.err (.malformedHashBlock (10+j*6) "hash record has unexpected tag"))) ∧
    (r = 1 → decode changed =
      .error (.err (.malformedHashBlock (10+j*6) "hash record length byte is not 4"))) ∧
    (2 ≤ r → ∃ h, decode changed = .ok {d with channelHashes := h} ∧
      ∀ t, KnownTag t → (stored h t ≠ stored d.channelHashes t ↔ t = UInt8.ofNat (j+1)))
  -- the records in front of the one hit are returned as before, or an error stands behind them
  region : 58 ≤ i → i + 4 < bytes.length → ∃ (p : Payload) (n : Nat) (r : RawRecord),
    p.bytes = bytes ∧ p.records[n]? = some r ∧
    58 + (recordFormat.encAll (p.records.take n)).length ≤ i ∧
    i < 58 + (recordFormat.encAll (p.records.take n)).length + r.bytes.length ∧
    ((∃ later, decode changed = .ok {d with
        rawRecords := (p.records.take n ++ later).filterMap RawRecord.event?
        unknownRecords := (p.records.take n ++ later).filterMap RawRecord.unknown?}) ∨
      ∃ k refusal, 58 + (recordFormat.encAll (p.records.take n)).length ≤ k ∧
        decode changed = .error (.err (refusalError k refusal)))
  trailer : bytes.length ≤ i + 4 → ∃ framebufferHash, framebufferHash ≠ d.framebufferHash ∧
    decode changed = .ok {d with framebufferHash := framebufferHash}

theorem byteSubstituted {bytes changed : Slice UInt8} {d : Digest} {i : Nat} {x : UInt8}
    (decoded : decode bytes = .ok d) (inside : i < bytes.data.length) (other : bytes.data[i]? ≠ some x)
    (shape : changed.data = bytes.data.set i x) : SubstitutionAnswers bytes.data d i x changed := by
  obtain ⟨p,whole,rfl⟩ := decodedPayload decoded
  have differs := setDiffers inside other
  rw [← shape,← whole] at differs
  rw [← whole] at shape inside ⊢
  refine ⟨magicSubstituted shape differs,versionSubstituted shape differs,
    counterSubstituted shape differs,countSubstituted shape,hashSubstituted shape differs,?_,
    trailerSubstituted shape differs inside⟩
  intro low high
  obtain ⟨n,r,region⟩ := regionSubstituted shape low high
  exact ⟨p,n,r,rfl,region⟩

def lengthenedFrame : Slice UInt8 where
  data := timeoutFrame.data.set 59 9
  bounded := by decide

theorem byteSubstitutedLength :
    SubstitutionAnswers timeoutFrame.data timeoutDigest 59 9
      lengthenedFrame :=
  byteSubstituted timeoutDecodes (by decide) (by decide) rfl

end VisualDigest.Substitution
