import VisualDigest.Grammar

/-! The fixed front of a payload: any 58 bytes are a front, and the decoder reports the
first check such a front fails. -/
namespace VisualDigest.FrontExact
open Checked LittleEndian FieldCodec Format Hashes Decoder Grammar

structure HashEntry where
  tag : UInt8
  len : UInt8
  value : UInt32
  deriving DecidableEq

def HashEntry.bytes (e : HashEntry) : List UInt8 := e.tag::e.len::le e.value

def HashEntry.reason? (expected : UInt8) (e : HashEntry) : Option String :=
  if e.tag ≠ expected then some "hash record has unexpected tag"
  else if e.len ≠ 4 then some "hash record length byte is not 4"
  else none

def hashRefusal : Nat → List (UInt8 × HashEntry) → Option DecodeError
  | _, [] => none
  | i, (expected,e)::rest => match e.reason? expected with
    | some reason => some (.malformedHashBlock (10+i*6) reason)
    | none => hashRefusal (i+1) rest

structure Front where
  magic : List.Vector UInt8 4
  version : UInt8
  frameCounter : UInt32
  count : UInt8
  entries : List.Vector HashEntry 8
  deriving DecidableEq

namespace Front

def bytes (f : Front) : List UInt8 :=
  f.magic.toList ++ f.version::(le f.frameCounter ++ f.count::f.entries.toList.flatMap HashEntry.bytes)

def hashes (f : Front) : ChannelHashes := channelHashesOf (f.entries.map HashEntry.value)

def refusal? (f : Front) : Option DecodeError :=
  if f.magic ≠ digestMagic then some (.badMagic f.magic)
  else if f.version ≠ digestSchemaVersion then some (.unsupportedSchemaVersion f.version)
  else if f.count < UInt8.ofNat numHashChannels then some (.recordCountTooSmall f.count)
  else hashRefusal 0 (expectedHashTags.zip f.entries.toList)

end Front

theorem entriesLength (es : List HashEntry) : (es.flatMap HashEntry.bytes).length = es.length * 6 := by
  induction es with
  | nil => rfl
  | cons e es ih =>
    rw [List.flatMap_cons,List.length_append,ih,List.length_cons,Nat.succ_mul,Nat.add_comm]
    rfl

theorem frontLength (f : Front) : f.bytes.length = 58 := by
  have counter : (le f.frameCounter).length = 4 := rfl
  simp only [Front.bytes,List.length_append,List.length_cons,entriesLength,List.Vector.toList_length,
    counter]

theorem entriesExist (block : List UInt8) (size : block.length = 48) :
    ∃ es : List.Vector HashEntry 8, es.toList.flatMap HashEntry.bytes = block := by
  have total : Total (pair byte (pair byte (word UInt32))) :=
    pairTotal byteTotal (pairTotal byteTotal (wordTotal UInt32))
  obtain ⟨raws,count,rfl⟩ := totalMany total 8 size
  refine ⟨⟨raws.map fun r => ⟨r.1,r.2.1,r.2.2⟩,by rw [List.length_map,count]⟩,?_⟩
  rw [List.Vector.toList_mk,List.flatMap_map]
  rfl

theorem frontExists {b : List UInt8} (long : 58 ≤ b.length) :
    ∃ (f : Front) (rest : List UInt8), b = f.bytes ++ rest := by
  have total : Total (pair (word UInt32) (pair byte (pair (word UInt32) byte))) :=
    pairTotal (wordTotal UInt32) (pairTotal byteTotal (pairTotal (wordTotal UInt32) byteTotal))
  obtain ⟨⟨magic,version,frameCounter,count⟩,header⟩ := total (b.take 10) (by
    rw [List.length_take]
    exact Nat.min_eq_left (by omega))
  obtain ⟨entries,block⟩ := entriesExist ((b.drop 10).take 48) (by
    rw [List.length_take,List.length_drop]
    omega)
  refine ⟨⟨toLeBytes magic,version,frameCounter,count,entries⟩,(b.drop 10).drop 48,?_⟩
  have joined : b = b.take 10 ++ ((b.drop 10).take 48 ++ (b.drop 10).drop 48) := by
    rw [List.take_append_drop,List.take_append_drop]
  rw [← header,← block] at joined
  refine joined.trans ?_
  change (le magic ++ ([version] ++ (le frameCounter ++ [count]))) ++ _ = _
  simp only [Front.bytes,List.append_assoc,List.cons_append,List.nil_append]
  rfl

section
variable {bytes : List UInt8} (small : bytes.length ≤ isizeMax)
include small

theorem readHashAt {pre post : List UInt8} {expected : UInt8} {i : Nat} {e : HashEntry}
    {v : List.Vector UInt32 8} (shape : bytes = pre ++ (e.bytes ++ post))
    (cursor : pre.length = 10 + i*6) (inside : i < 8) :
    readHash bytes v (expected,i) = match e.reason? expected with
      | some reason => fail (.malformedHashBlock (10+i*6) reason)
      | none => .ok (v.set ⟨i,inside⟩ e.value) := by
  have top := smallUsize
  have first : index bytes (10+i*6) = (.ok e.tag : Exec DecodeError _) := by
    rw [shape,← cursor]
    exact indexAt pre e.tag _
  have second : index bytes (10+i*6+1) = (.ok e.len : Exec DecodeError _) := by
    have found := indexAt (ε := DecodeError) (pre ++ [e.tag]) e.len (le e.value ++ post)
    rw [shape,← cursor]
    simpa [HashEntry.bytes] using found
  have third := readLeAt (ε := DecodeError) (sliceUsize small) (10+i*6+2) (pre ++ [e.tag,e.len]) e.value
    post (by simp [shape,HashEntry.bytes]) (by simp [cursor])
  have times : i*6 ≤ usizeMax := by omega
  have offset : 10 + i*6 ≤ usizeMax := by omega
  have lenAt : 10 + i*6 + 1 ≤ usizeMax := by omega
  have valueAt : 10 + i*6 + 2 ≤ usizeMax := by omega
  simp only [readHash,digestHeaderLen,recordHashSize,mulOk times,bind,Except.bind,addOk offset,
    addOk lenAt,addOk valueAt,first,second,third,HashEntry.reason?]
  by_cases tag : e.tag = expected
  · by_cases len : e.len = 4
    · simp [tag,len,failIf,setAtOk inside]
    · simp [tag,len,failIf,fail]
  · simp [tag,failIf,fail]

theorem hashLoop {post : List UInt8} (ts : List UInt8) : ∀ (es : List HashEntry) (i : Nat)
    (pre : List UInt8) (v : List.Vector UInt32 8), ts.length = es.length →
    bytes = pre ++ (es.flatMap HashEntry.bytes ++ post) → pre.length = 10 + i*6 → i + es.length = 8 →
    match hashRefusal i (ts.zip es) with
    | some error => (ts.zipIdx i).foldlM (readHash bytes) v = fail error
    | none => ∃ w, (ts.zipIdx i).foldlM (readHash bytes) v = .ok w ∧
        w.toList = v.toList.take i ++ es.map HashEntry.value := by
  induction ts with
  | nil =>
    intro es i pre v same shape cursor count
    obtain rfl := List.length_eq_zero_iff.mp same.symm
    have whole : v.toList.take i = v.toList := by
      rw [List.take_of_length_le]
      rw [v.toList_length]
      simpa using count.ge
    exact ⟨v,rfl,by rw [whole,List.map_nil,List.append_nil]⟩
  | cons t ts ih =>
    intro es i pre v same shape cursor count
    cases es with
    | nil => contradiction
    | cons e es =>
      rw [List.length_cons] at count
      rw [List.flatMap_cons,List.append_assoc] at shape
      have inside : i < 8 := by omega
      have entry := @readHashAt _ small _ _ t _ _ v shape cursor inside
      rw [List.zip_cons_cons,hashRefusal,List.zipIdx_cons,List.foldlM_cons,entry]
      cases e.reason? t with
      | some reason => rfl
      | none =>
        have later := ih es (i+1) (pre ++ e.bytes) (v.set ⟨i,inside⟩ e.value) (by simpa using same)
          (by rw [List.append_assoc]; exact shape)
          (by rw [List.length_append,cursor,Nat.succ_mul]; rfl) (by omega)
        have kept : (v.set ⟨i,inside⟩ e.value).toList.take (i+1) = v.toList.take i ++ [e.value] := by
          rw [List.Vector.toList_set,List.take_add_one,List.take_set_of_le (Nat.le_refl i)]
          simp [inside]
        rw [kept,List.append_assoc] at later
        exact later

end

theorem fixedShort {b : List UInt8} (short : b.length < 62) :
    decodeFixed b = fail (.short b.length) := by
  have below : b.length < minPayload := short
  simp only [decodeFixed,failIfHolds below]
  rfl

theorem hashesExact {f : Front} {rest : List UInt8} (small : (f.bytes ++ rest).length ≤ isizeMax) :
    match hashRefusal 0 (expectedHashTags.zip f.entries.toList) with
    | some error => expectedHashTags.zipIdx.foldlM (readHash (f.bytes ++ rest))
        (List.Vector.replicate 8 0) = fail error
    | none => expectedHashTags.zipIdx.foldlM (readHash (f.bytes ++ rest))
        (List.Vector.replicate 8 0) = .ok (f.entries.map HashEntry.value) := by
  have shape : f.bytes ++ rest = f.magic.toList ++ f.version::(le f.frameCounter ++ [f.count]) ++
      (f.entries.toList.flatMap HashEntry.bytes ++ rest) := by simp [Front.bytes]
  have loop := hashLoop small expectedHashTags f.entries.toList 0 _ (List.Vector.replicate 8 0)
    (by rw [List.Vector.toList_length]; rfl) shape (by simp; rfl) (by simp)
  split at loop
  · exact loop
  · obtain ⟨w,ran,values⟩ := loop
    have same : w = f.entries.map HashEntry.value := List.Vector.eq _ _ (by
      rw [values,List.Vector.toList_map]; rfl)
    rw [← same]
    exact ran

theorem fixedExact {f : Front} {rest : List UInt8} (room : 4 ≤ rest.length)
    (small : (f.bytes ++ rest).length ≤ isizeMax) :
    decodeFixed (f.bytes ++ rest) = match f.refusal? with
      | some error => fail error
      | none => .ok (f.frameCounter,f.hashes) := by
  have size := frontLength f
  have top := sliceUsize small
  have long : ¬ (f.bytes ++ rest).length < minPayload := by
    have least : minPayload = 62 := rfl
    rw [List.length_append]
    omega
  have shape : f.bytes ++ rest = f.magic.toList ++ (f.version::(le f.frameCounter ++ (f.count::
      (f.entries.toList.flatMap HashEntry.bytes ++ rest)))) := by simp [Front.bytes]
  have magic := readArrayAt (ε := DecodeError) top 0 [] f.magic _ shape rfl
  have version : index (f.bytes ++ rest) 4 = (.ok f.version : Exec DecodeError _) := by
    have found := indexAt (ε := DecodeError) f.magic.toList f.version (le f.frameCounter ++ (f.count::
      (f.entries.toList.flatMap HashEntry.bytes ++ rest)))
    rwa [← shape,f.magic.toList_length] at found
  have counter := readLeAt (ε := DecodeError) top 5 (f.magic.toList ++ [f.version])
    f.frameCounter (f.count::(f.entries.toList.flatMap HashEntry.bytes ++ rest)) (by simp [shape])
    (by simp)
  have count : index (f.bytes ++ rest) 9 = (.ok f.count : Exec DecodeError _) := by
    have found := indexAt (ε := DecodeError) (f.magic.toList ++ f.version::le f.frameCounter) f.count
      (f.entries.toList.flatMap HashEntry.bytes ++ rest)
    have at' : (f.magic.toList ++ f.version::le f.frameCounter).length = 9 := by simp; rfl
    rw [at'] at found
    rw [shape]
    simpa using found
  have block := hashesExact small
  simp only [decodeFixed,failIfNot long,bind,Except.bind,magic,version,counter,count,Front.refusal?]
  by_cases otherMagic : f.magic ≠ digestMagic
  · rw [failIfHolds otherMagic,if_pos otherMagic]; rfl
  by_cases otherVersion : f.version ≠ digestSchemaVersion
  · rw [failIfNot otherMagic,if_neg otherMagic,failIfHolds otherVersion,if_pos otherVersion]; rfl
  by_cases few : f.count < UInt8.ofNat numHashChannels
  · rw [failIfNot otherMagic,if_neg otherMagic,failIfNot otherVersion,if_neg otherVersion,
      failIfHolds few,if_pos few]
    rfl
  rw [failIfNot otherMagic,if_neg otherMagic,failIfNot otherVersion,if_neg otherVersion,
    failIfNot few,if_neg few]
  cases refused : hashRefusal 0 (expectedHashTags.zip f.entries.toList) with
  | none =>
    rw [refused] at block
    simp only [block]
    rfl
  | some error =>
    rw [refused] at block
    simp only [block]
    rfl

theorem headerPassed {f : Front} (magic : f.magic = digestMagic)
    (version : f.version = digestSchemaVersion) (eight : 8 ≤ f.count) :
    f.refusal? = hashRefusal 0 (expectedHashTags.zip f.entries.toList) := by
  have many : ¬ f.count < UInt8.ofNat numHashChannels := UInt8.not_lt.mpr eight
  rw [Front.refusal?,if_neg (not_not_intro magic),if_neg (not_not_intro version),if_neg many]

theorem frontAccepted {f : Front} : f.refusal? = none ↔ f.magic = digestMagic ∧
    f.version = digestSchemaVersion ∧ 8 ≤ f.count ∧
    hashRefusal 0 (expectedHashTags.zip f.entries.toList) = none := by
  constructor
  · intro accepted
    unfold Front.refusal? at accepted
    split at accepted <;> try contradiction
    rename_i magic
    split at accepted <;> try contradiction
    rename_i version
    split at accepted <;> try contradiction
    rename_i many
    exact ⟨not_not.mp magic,not_not.mp version,UInt8.not_lt.mp many,accepted⟩
  · rintro ⟨magic,version,eight,hashes⟩
    rw [headerPassed magic version eight,hashes]

def hashEntries (h : ChannelHashes) : List.Vector HashEntry 8 :=
  ⟨[⟨0x11,4,h.keypress⟩,⟨0x12,4,h.lineRendered⟩,⟨0x13,4,h.sceneTransition⟩,
    ⟨0x14,4,h.bootloaderDecision⟩,⟨0x15,4,h.pasteReceived⟩,⟨0x16,4,h.bootloaderTimeout⟩,
    ⟨0x17,4,h.modeSwitch⟩,⟨0x18,4,h.modeCycle⟩],rfl⟩

def frontOf (p : Payload) : Front :=
  ⟨digestMagic,digestSchemaVersion,p.frameCounter,p.count,hashEntries p.hashes⟩

theorem payloadBytes (p : Payload) :
    p.bytes = (frontOf p).bytes ++ (p.region ++ le p.framebufferHash) := by
  simp [Payload.bytes,Payload.header,Front.bytes,frontOf,digestMagic,digestSchemaVersion,hashBlock,
    hashEntries,hashRecord,HashEntry.bytes]

theorem payloadAccepted (p : Payload) : (frontOf p).refusal? = none :=
  frontAccepted.mpr ⟨rfl,rfl,p.counted,rfl⟩

theorem acceptedEntries {i : Nat} {pairs : List (UInt8 × HashEntry)}
    (accepted : hashRefusal i pairs = none) : ∀ pair ∈ pairs, pair.2 = ⟨pair.1,4,pair.2.value⟩ := by
  induction pairs generalizing i with
  | nil => simp
  | cons first rest ih =>
    obtain ⟨expected,e⟩ := first
    simp only [hashRefusal] at accepted
    split at accepted <;> try contradiction
    rename_i passed
    unfold HashEntry.reason? at passed
    split at passed <;> try contradiction
    rename_i tag
    split at passed <;> try contradiction
    rename_i len
    intro pair member
    cases member with
    | head => rw [← not_not.mp tag,← not_not.mp len]
    | tail _ later => exact ih accepted pair later

theorem acceptedHashes {entries : List.Vector HashEntry 8}
    (accepted : hashRefusal 0 (expectedHashTags.zip entries.toList) = none) :
    entries = hashEntries (channelHashesOf (entries.map HashEntry.value)) := by
  have shape := acceptedEntries accepted
  match entries with
  | ⟨[a,b,c,d,e,f,g,h],size⟩ =>
    refine List.Vector.eq _ _ ?_
    change [a,b,c,d,e,f,g,h] =
      [⟨0x11,4,a.value⟩,⟨0x12,4,b.value⟩,⟨0x13,4,c.value⟩,⟨0x14,4,d.value⟩,
        ⟨0x15,4,e.value⟩,⟨0x16,4,f.value⟩,⟨0x17,4,g.value⟩,⟨0x18,4,h.value⟩]
    simp [expectedHashTags] at shape
    simp only [List.cons.injEq,and_true]
    exact shape

theorem acceptedPayload {f : Front} (accepted : f.refusal? = none) (records : List RawRecord)
    (framebufferHash : UInt32) :
    ∃ p : Payload, frontOf p = f ∧ p.records = records ∧ p.framebufferHash = framebufferHash := by
  obtain ⟨magic,version,eight,hashes⟩ := frontAccepted.mp accepted
  refine ⟨⟨f.frameCounter,f.count,eight,f.hashes,records,framebufferHash⟩,?_,rfl,rfl⟩
  rw [frontOf,Front.hashes,← acceptedHashes hashes,← magic,← version]

end VisualDigest.FrontExact
