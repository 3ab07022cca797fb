import VisualDigest.Acceptance

/-! Why a byte string is refused: the first check it fails, at the place where it fails. The
checks are stated on the bytes, apart from the code that makes them. -/
namespace VisualDigest.Violations
open Checked LittleEndian FieldCodec RecordFormat Format Hashes Decoder Wire Grammar RecordExact FrontExact
open DecoderExact

def HashRecordAt (b : List UInt8) (i : Nat) : Prop :=
  b[10+i*6]? = some (UInt8.ofNat (0x11+i)) ∧ b[10+i*6+1]? = some 4

instance (b i) : Decidable (HashRecordAt b i) := by unfold HashRecordAt; infer_instance

def hashReason (b : List UInt8) (i : Nat) : String :=
  if b[10+i*6]? ≠ some (UInt8.ofNat (0x11+i)) then "hash record has unexpected tag"
  else "hash record length byte is not 4"

structure FrontPasses (b : List UInt8) : Prop where
  long : 62 ≤ b.length
  magic : b.take 4 = digestMagic.toList
  version : b[4]? = some digestSchemaVersion
  counted : ∃ count, b[9]? = some count ∧ 8 ≤ count
  hashes : ∀ i < 8, HashRecordAt b i

/- The bytes from 58 up to `k`, no further than the trailer, are a sequence of records. -/
structure Lead (b : List UInt8) (rs : List RawRecord) (k : Nat) : Prop where
  start : 58 ≤ k
  inside : k + 4 ≤ b.length
  records : (b.take k).drop 58 = recordFormat.encAll rs

structure LastLead (b : List UInt8) (k : Nat) : Prop where
  lead : ∃ rs, Lead b rs k
  last : ∀ rs l, Lead b rs l → l ≤ k

/- The value is none of a record with the known tag: it has the wrong length or holds a
discriminant that is not assigned. -/
def WrongValue (tag : UInt8) (value : List UInt8) : Prop :=
  value.length ≠ WireRecord.width tag ∨
  (tag = 0x03 ∧ (value[8]?.bind decodePhase = none ∨ value[9]?.bind decodePhase = none)) ∨
  (tag = 0x04 ∧ value[8]?.bind decodeBootloaderChoice = none)

inductive FirstViolation (b : List UInt8) : DecodeError → Prop where
  | short (few : b.length < 62) : FirstViolation b (.short b.length)
  | badMagic {magic : List.Vector UInt8 4} (long : 62 ≤ b.length) (read : b.take 4 = magic.toList)
      (wrong : magic ≠ digestMagic) : FirstViolation b (.badMagic magic)
  | unsupportedSchemaVersion {version : UInt8} (long : 62 ≤ b.length)
      (magic : b.take 4 = digestMagic.toList) (read : b[4]? = some version)
      (wrong : version ≠ digestSchemaVersion) :
      FirstViolation b (.unsupportedSchemaVersion version)
  | recordCountTooSmall {count : UInt8} (long : 62 ≤ b.length)
      (magic : b.take 4 = digestMagic.toList) (version : b[4]? = some digestSchemaVersion)
      (read : b[9]? = some count) (wrong : count < 8) :
      FirstViolation b (.recordCountTooSmall count)
  | malformedHashBlock {i : Nat} (long : 62 ≤ b.length) (magic : b.take 4 = digestMagic.toList)
      (version : b[4]? = some digestSchemaVersion) (counted : ∃ count, b[9]? = some count ∧ 8 ≤ count)
      (inside : i < 8) (least : ∀ j < i, HashRecordAt b j) (wrong : ¬ HashRecordAt b i) :
      FirstViolation b (.malformedHashBlock (10+i*6) (hashReason b i))
  | trailing {k : Nat} (passes : FrontPasses b) (lead : LastLead b k) (orphan : k + 1 + 4 = b.length) :
      FirstViolation b (.trailing 1)
  | truncatedValue {k : Nat} {tag len : UInt8} (passes : FrontPasses b) (lead : LastLead b k)
      (tagged : b[k]? = some tag) (declared : b[k+1]? = some len) (room : k + 2 + 4 ≤ b.length)
      (long : b.length < k + 2 + len.toNat + 4) : FirstViolation b (.truncatedValue tag k)
  | malformedRawRecord {k : Nat} {tag len : UInt8} (passes : FrontPasses b) (lead : LastLead b k)
      (tagged : b[k]? = some tag) (declared : b[k+1]? = some len)
      (fits : k + 2 + len.toNat + 4 ≤ b.length) (known : KnownTag tag)
      (wrong : WrongValue tag ((b.drop (k+2)).take len.toNat)) :
      FirstViolation b (.malformedRawRecord tag k
        (refusalText tag ((b.drop (k+2)).take len.toNat)))

theorem entryAt {es : List HashEntry} {i : Nat} {e : HashEntry} (found : es[i]? = some e)
    (rest : List UInt8) : ∃ post, (es.flatMap HashEntry.bytes ++ rest).drop (i*6) = e.bytes ++ post := by
  induction es generalizing i with
  | nil => contradiction
  | cons first es ih =>
    rw [List.flatMap_cons,List.append_assoc]
    cases i with
    | zero =>
      cases found
      exact ⟨_,by rw [Nat.zero_mul,List.drop_zero]⟩
    | succ i =>
      obtain ⟨post,later⟩ := ih found
      have size : first.bytes.length = 6 := rfl
      refine ⟨post,?_⟩
      rw [Nat.succ_mul,Nat.add_comm,← List.drop_drop,← size,List.drop_left]
      exact later

theorem byteAt {pre : List UInt8} {n : Nat} (size : pre.length = n) (x : UInt8) (post : List UInt8) :
    (pre ++ x::post)[n]? = some x := by
  subst size
  simp

section
variable (f : Front) (rest : List UInt8)

theorem frontShape : f.bytes ++ rest = (f.magic.toList ++ f.version::le f.frameCounter) ++
    f.count::(f.entries.toList.flatMap HashEntry.bytes ++ rest) := by simp [Front.bytes]

theorem beforeCount : (f.magic.toList ++ f.version::le f.frameCounter).length = 9 := by
  rw [List.length_append,List.length_cons,leLength,f.magic.toList_length]
  rfl

theorem magicAt : (f.bytes ++ rest).take 4 = f.magic.toList := by
  rw [Front.bytes,List.append_assoc]
  exact List.take_left' f.magic.toList_length

theorem versionAt : (f.bytes ++ rest)[4]? = some f.version := by
  rw [Front.bytes,List.append_assoc]
  exact byteAt f.magic.toList_length f.version _

theorem countAt : (f.bytes ++ rest)[9]? = some f.count := by
  rw [frontShape]
  exact byteAt (beforeCount f) f.count _

theorem hashRecordRead {i : Nat} {e : HashEntry} (found : f.entries.toList[i]? = some e) :
    (f.bytes ++ rest)[10+i*6]? = some e.tag ∧ (f.bytes ++ rest)[10+i*6+1]? = some e.len := by
  obtain ⟨post,read⟩ := entryAt found rest
  have cut : (f.bytes ++ rest).drop (10+i*6) = e.bytes ++ post := by
    rw [frontShape,← List.drop_drop,← List.drop_drop (i := 1) (j := 9),
      List.drop_left' (beforeCount f)]
    exact read
  have tag := congrArg (fun bytes : List UInt8 => bytes[0]?) cut
  have len := congrArg (fun bytes : List UInt8 => bytes[1]?) cut
  simp only [List.getElem?_drop,Nat.add_zero] at tag len
  exact ⟨tag,len⟩

theorem hashRecordReason {i : Nat} {e : HashEntry} (found : f.entries.toList[i]? = some e) :
    e.reason? (UInt8.ofNat (0x11+i)) =
      if HashRecordAt (f.bytes ++ rest) i then none else some (hashReason (f.bytes ++ rest) i) := by
  obtain ⟨tag,len⟩ := hashRecordRead f rest found
  simp only [HashRecordAt,hashReason,HashEntry.reason?,tag,len,Option.some.injEq]
  generalize UInt8.ofNat (0x11+i) = expected
  by_cases own : e.tag = expected
  · by_cases four : e.len = 4 <;> simp [own,four]
  · simp [own]

end

theorem hashRefusalFirst {n : Nat} {pairs : List (UInt8 × HashEntry)} {error : DecodeError} :
    hashRefusal n pairs = some error ↔ ∃ i expected e reason, pairs[i]? = some (expected,e) ∧
      e.reason? expected = some reason ∧ error = .malformedHashBlock (10+(n+i)*6) reason ∧
      ∀ j < i, ∀ pair, pairs[j]? = some pair → pair.2.reason? pair.1 = none := by
  induction pairs generalizing n with
  | nil => simp [hashRefusal]
  | cons first rest ih =>
    obtain ⟨expected,e⟩ := first
    rw [hashRefusal]
    constructor
    · intro refused
      cases reason : e.reason? expected with
      | some text =>
        rw [reason] at refused
        exact ⟨0,expected,e,text,rfl,reason,(Option.some.inj refused).symm,by simp⟩
      | none =>
        rw [reason] at refused
        obtain ⟨i,expected',e',text,found,wrong,same,least⟩ := ih.mp refused
        refine ⟨i+1,expected',e',text,found,wrong,?_,?_⟩
        · rw [same,Nat.add_assoc,Nat.add_comm 1]
        · intro j below pair at'
          cases j with
          | zero => cases at'; exact reason
          | succ j => exact least j (by omega) pair at'
    · rintro ⟨i,expected',e',text,found,wrong,rfl,least⟩
      cases i with
      | zero => cases found; rw [wrong]; rfl
      | succ i =>
        rw [least 0 (Nat.succ_pos i) (expected,e) rfl]
        refine ih.mpr ⟨i,expected',e',text,found,wrong,?_,fun j below => least (j+1) (by omega)⟩
        rw [Nat.add_assoc,Nat.add_comm 1]

theorem expectedAt : ∀ i < 8, expectedHashTags[i]? = some (UInt8.ofNat (0x11+i)) := by decide

theorem pairAt (f : Front) {i : Nat} (inside : i < 8) :
    ∃ e, f.entries.toList[i]? = some e ∧
      (expectedHashTags.zip f.entries.toList)[i]? = some (UInt8.ofNat (0x11+i),e) := by
  have size := f.entries.toList_length
  have entry : f.entries.toList[i]? = some f.entries.toList[i] := List.getElem?_eq_getElem (by omega)
  exact ⟨_,entry,List.getElem?_zip_eq_some.mpr ⟨expectedAt i inside,entry⟩⟩

section
variable (f : Front) (rest : List UInt8)

theorem hashRecordPasses {i : Nat} {e : HashEntry} (found : f.entries.toList[i]? = some e) :
    e.reason? (UInt8.ofNat (0x11+i)) = none ↔ HashRecordAt (f.bytes ++ rest) i := by
  rw [hashRecordReason f rest found]
  simp

theorem hashViolation {error : DecodeError} :
    hashRefusal 0 (expectedHashTags.zip f.entries.toList) = some error ↔
      ∃ i < 8, (∀ j < i, HashRecordAt (f.bytes ++ rest) j) ∧ ¬ HashRecordAt (f.bytes ++ rest) i ∧
        error = .malformedHashBlock (10+i*6) (hashReason (f.bytes ++ rest) i) := by
  rw [hashRefusalFirst]
  constructor
  · rintro ⟨i,expected,e,reason,found,wrong,same,least⟩
    have inside : i < 8 := by
      have short := (List.getElem?_eq_some_iff.mp found).1
      rw [List.length_zip,f.entries.toList_length] at short
      exact short.trans_le (Nat.min_le_right _ _)
    obtain ⟨e',entry,pair⟩ := pairAt f inside
    cases pair.symm.trans found
    have answer := hashRecordReason f rest entry
    rw [wrong] at answer
    split at answer <;> try contradiction
    rename_i fails
    refine ⟨i,inside,?_,fails,?_⟩
    · intro j below
      obtain ⟨e'',entry',pair'⟩ := pairAt f (below.trans inside)
      exact (hashRecordPasses f rest entry').mp (least j below _ pair')
    · rw [same,Nat.zero_add,← Option.some.inj answer]
  · rintro ⟨i,inside,least,fails,rfl⟩
    obtain ⟨e,entry,pair⟩ := pairAt f inside
    have answer := hashRecordReason f rest entry
    rw [if_neg fails] at answer
    refine ⟨i,_,e,_,pair,answer,by rw [Nat.zero_add],?_⟩
    intro j below pair' found
    obtain ⟨e',entry',at'⟩ := pairAt f (below.trans inside)
    cases at'.symm.trans found
    exact (hashRecordPasses f rest entry').mpr (least j below)

theorem hashesPass : hashRefusal 0 (expectedHashTags.zip f.entries.toList) = none ↔
    ∀ i < 8, HashRecordAt (f.bytes ++ rest) i := by
  constructor
  · intro accepted i inside
    obtain ⟨e,entry,pair⟩ := pairAt f inside
    have record : e = ⟨UInt8.ofNat (0x11+i),4,e.value⟩ :=
      acceptedEntries accepted _ (List.mem_of_getElem? pair)
    obtain ⟨tag,len⟩ := hashRecordRead f rest entry
    rw [record] at tag len
    exact ⟨tag,len⟩
  · intro records
    cases refused : hashRefusal 0 (expectedHashTags.zip f.entries.toList) with
    | none => rfl
    | some error =>
      obtain ⟨i,inside,_,fails,_⟩ := (hashViolation f rest).mp refused
      exact absurd (records i inside) fails

theorem frontPasses (room : 4 ≤ rest.length) :
    f.refusal? = none ↔ FrontPasses (f.bytes ++ rest) := by
  have size := frontLength f
  rw [frontAccepted,hashesPass f rest]
  constructor
  · rintro ⟨magic,version,eight,hashes⟩
    refine ⟨?_,?_,?_,⟨f.count,countAt f rest,eight⟩,hashes⟩
    · rw [List.length_append]
      omega
    · rw [magicAt,magic]
    · rw [versionAt,version]
  · rintro ⟨_,magic,version,⟨count,read,eight⟩,hashes⟩
    rw [magicAt] at magic
    rw [versionAt] at version
    cases (countAt f rest).symm.trans read
    exact ⟨List.Vector.eq _ _ magic,Option.some.inj version,eight,hashes⟩

theorem frontViolation {error : DecodeError} (room : 4 ≤ rest.length)
    (refused : f.refusal? = some error) : FirstViolation (f.bytes ++ rest) error := by
  have size := frontLength f
  have long : 62 ≤ (f.bytes ++ rest).length := by
    rw [List.length_append]
    omega
  have magicRead := magicAt f rest
  have versionRead := versionAt f rest
  have countRead := countAt f rest
  unfold Front.refusal? at refused
  split at refused
  · rename_i wrong
    cases refused
    exact .badMagic long magicRead wrong
  rename_i magic
  rw [not_not.mp magic] at magicRead
  split at refused
  · rename_i wrong
    cases refused
    exact .unsupportedSchemaVersion long magicRead versionRead wrong
  rename_i version
  rw [not_not.mp version] at versionRead
  split at refused
  · rename_i wrong
    cases refused
    exact .recordCountTooSmall long magicRead versionRead countRead wrong
  rename_i counted
  obtain ⟨i,inside,least,fails,rfl⟩ := (hashViolation f rest).mp refused
  exact .malformedHashBlock long magicRead versionRead ⟨_,countRead,UInt8.not_lt.mp counted⟩ inside
    least fails

end

theorem rightValue (w : WireRecord) (phases : w.tag ≠ 0x03) (choice : w.tag ≠ 0x04) :
    WireRecord.parse w.tag w.value = none ↔ WrongValue w.tag w.value := by
  rw [WireRecord.parseValue,WrongValue,w.valueLength]
  simp [phases,choice]

theorem wrongValue {tag : UInt8} (known : KnownTag tag) (value : List UInt8) :
    WireRecord.parse tag value = none ↔ WrongValue tag value := by
  by_cases len : value.length = WireRecord.width tag
  · rcases knownTags known with rfl | rfl | rfl | rfl | rfl | rfl | rfl | rfl
    · obtain ⟨⟨ts,unicode,scancode⟩,rfl⟩ := keypressTotal value len
      exact rightValue (.keypress ts unicode scancode) (by simp [WireRecord.tag])
        (by simp [WireRecord.tag])
    · obtain ⟨⟨ts,row⟩,rfl⟩ := lineRenderedTotal value len
      exact rightValue (.lineRendered ts row) (by simp [WireRecord.tag]) (by simp [WireRecord.tag])
    · obtain ⟨⟨ts,fromByte,toByte⟩,shape⟩ :=
        pairTotal (wordTotal UInt64) (pairTotal byteTotal byteTotal) value len
      have fields : value = le ts ++ [fromByte,toByte] := shape.symm
      have eighth : value[8]? = some fromByte := by
        rw [fields]
        exact byteAt rfl fromByte [toByte]
      have ninth : value[9]? = some toByte := by
        rw [fields,← List.singleton_append,← List.append_assoc]
        exact byteAt rfl toByte []
      have read := WireRecord.parseSceneTransition ts fromByte toByte
      rw [← fields] at read
      simp only [read,WrongValue,eighth,ninth,Option.bind_some]
      cases decodePhase fromByte <;> cases decodePhase toByte <;> simp [len]
    · obtain ⟨⟨ts,choiceByte,attempt⟩,shape⟩ :=
        pairTotal (wordTotal UInt64) (pairTotal byteTotal (wordTotal UInt32)) value len
      have fields : value = le ts ++ (choiceByte::le attempt) := shape.symm
      have eighth : value[8]? = some choiceByte := by
        rw [fields]
        exact byteAt rfl choiceByte (le attempt)
      have read := WireRecord.parseBootloaderDecision ts choiceByte attempt
      rw [← fields] at read
      simp only [read,WrongValue,eighth,Option.bind_some]
      cases decodeBootloaderChoice choiceByte <;> simp [len]
    · obtain ⟨⟨ts,pasteLen,correct⟩,rfl⟩ := pasteReceivedTotal value len
      exact rightValue (.pasteReceived ts pasteLen correct) (by simp [WireRecord.tag])
        (by simp [WireRecord.tag])
    · obtain ⟨ts,rfl⟩ := leSurjective (α := UInt64) value len
      exact rightValue (.bootloaderTimeout ts) (by simp [WireRecord.tag]) (by simp [WireRecord.tag])
    · obtain ⟨⟨ts,rw,rh,aw,ah⟩,rfl⟩ := modeSwitchTotal value len
      exact rightValue (.modeSwitch ts rw rh aw ah) (by simp [WireRecord.tag])
        (by simp [WireRecord.tag])
    · obtain ⟨⟨ts,count,interrupted⟩,rfl⟩ := modeCycleTotal value len
      exact rightValue (.modeCycle ts count interrupted) (by simp [WireRecord.tag])
        (by simp [WireRecord.tag])
  · exact iff_of_true (WireRecord.parseLength len) (.inl len)

theorem unreadAt {α : Type} {value : List UInt8} {i : Nat} (inside : i < value.length)
    (read : UInt8 → Option α) : value[i]?.bind read = none ↔ read value[i] = none := by
  rw [List.getElem?_eq_getElem inside]
  rfl

/- In numbers: phases go up to 3, choices up to 2. -/
theorem wrongDiscriminants (tag : UInt8) (value : List UInt8) : WrongValue tag value ↔
    value.length ≠ WireRecord.width tag ∨
    (tag = 0x03 ∧
      ((∃ byte, value[8]? = some byte ∧ 3 < byte) ∨ ∃ byte, value[9]? = some byte ∧ 3 < byte)) ∨
    (tag = 0x04 ∧ ∃ byte, value[8]? = some byte ∧ 2 < byte) := by
  by_cases len : value.length = WireRecord.width tag
  · refine or_congr_right (or_congr (and_congr_right ?_) (and_congr_right ?_))
    · rintro rfl
      have ten : value.length = 10 := len
      refine or_congr ?_ ?_ <;>
        rw [unreadAt (by omega),phaseUnknown,List.getElem?_eq_getElem (by omega)] <;> simp
    · rintro rfl
      have thirteen : value.length = 13 := len
      rw [unreadAt (by omega),choiceUnknown,List.getElem?_eq_getElem (by omega)]
      simp
  · exact iff_of_true (.inl len) (.inl len)

theorem headerRead {b : List UInt8} {k : Nat} {tag len : UInt8} {value : List UInt8}
    (behind : b.drop k = tag::len::value) : b[k]? = some tag ∧ b[k+1]? = some len := by
  have first := congrArg (fun bytes : List UInt8 => bytes[0]?) behind
  have second := congrArg (fun bytes : List UInt8 => bytes[1]?) behind
  simp only [List.getElem?_drop,Nat.add_zero] at first second
  exact ⟨first,second⟩

theorem valueRead {b : List UInt8} {k n : Nat} {tag len : UInt8} {value trailer : List UInt8}
    (behind : b.drop k = tag::len::(value ++ trailer)) (inside : n ≤ value.length) :
    (b.drop (k+2)).take n = value.take n := by
  rw [← List.drop_drop,behind]
  exact List.take_append_of_le_length inside

section
variable (f : Front) (rs : List RawRecord) (tail : List UInt8) (framebufferHash : UInt32)

theorem wholeLength : (f.bytes ++ (recordFormat.encAll rs ++ tail ++ le framebufferHash)).length =
    58 + (recordFormat.encAll rs).length + tail.length + 4 := by
  have trailer : (le framebufferHash).length = 4 := rfl
  simp only [List.length_append,frontLength,trailer]
  omega

theorem regionDrop :
    (f.bytes ++ (recordFormat.encAll rs ++ tail ++ le framebufferHash)).drop
      (58 + (recordFormat.encAll rs).length) = tail ++ le framebufferHash := by
  rw [← List.drop_drop,← frontLength f,List.drop_left,List.append_assoc,List.drop_left]

theorem leadWhole : Lead (f.bytes ++ (recordFormat.encAll rs ++ tail ++ le framebufferHash)) rs
    (58 + (recordFormat.encAll rs).length) := by
  refine ⟨Nat.le_add_right _ _,?_,?_⟩
  · rw [wholeLength]
    omega
  · rw [← frontLength f,List.take_length_add_append,List.drop_left,List.append_assoc,List.take_left]

variable {rs tail}

theorem leadSplit (ended : recordFormat.Ended tail) {ss : List RawRecord} {k : Nat}
    (lead : Lead (f.bytes ++ (recordFormat.encAll rs ++ tail ++ le framebufferHash)) ss k) :
    ∃ more, rs = ss ++ more ∧ k = 58 + (recordFormat.encAll ss).length := by
  obtain ⟨start,inside,records⟩ := lead
  rw [wholeLength] at inside
  obtain ⟨l,rfl⟩ := Nat.exists_eq_add_of_le start
  have short : l ≤ (recordFormat.encAll rs ++ tail).length := by
    rw [List.length_append]
    omega
  rw [← frontLength f,List.take_length_add_append,List.drop_left,
    List.take_append_of_le_length short] at records
  have split := List.take_append_drop l (recordFormat.encAll rs ++ tail)
  rw [records] at split
  obtain ⟨more,same,_⟩ := leadPrefix recordFormat split ended
  have size := congrArg List.length records
  rw [List.length_take,Nat.min_eq_left short] at size
  exact ⟨more,same,by rw [size]⟩

theorem lastLead (ended : recordFormat.Ended tail) {k : Nat} :
    LastLead (f.bytes ++ (recordFormat.encAll rs ++ tail ++ le framebufferHash)) k ↔
      k = 58 + (recordFormat.encAll rs).length := by
  have bound : ∀ ss l,
      Lead (f.bytes ++ (recordFormat.encAll rs ++ tail ++ le framebufferHash)) ss l →
      l ≤ 58 + (recordFormat.encAll rs).length := by
    intro ss l lead
    obtain ⟨more,rfl,rfl⟩ := leadSplit f framebufferHash ended lead
    rw [encAllAppend,List.length_append]
    omega
  constructor
  · rintro ⟨⟨ss,lead⟩,last⟩
    exact Nat.le_antisymm (bound ss k lead) (last rs _ (leadWhole f rs tail framebufferHash))
  · rintro rfl
    exact ⟨⟨rs,leadWhole f rs tail framebufferHash⟩,bound⟩

theorem rawViolation {refusal : Refusal} (accepted : f.refusal? = none) (more : tail ≠ [])
    (refused : readRecord tail = .error refusal) :
    FirstViolation (f.bytes ++ (recordFormat.encAll rs ++ tail ++ le framebufferHash))
      (refusalError (58 + (recordFormat.encAll rs).length) refusal) := by
  have room : 4 ≤ (recordFormat.encAll rs ++ tail ++ le framebufferHash).length := by
    rw [List.length_append,leLength]
    exact Nat.le_add_left 4 _
  have passes := (frontPasses f _ room).mp accepted
  have lead : LastLead (f.bytes ++ (recordFormat.encAll rs ++ tail ++ le framebufferHash))
      (58 + (recordFormat.encAll rs).length) :=
    (lastLead f framebufferHash (.inr ⟨refusal,refused⟩)).mpr rfl
  have size := wholeLength f rs tail framebufferHash
  have behind := regionDrop f rs tail framebufferHash
  match tail, more with
  | [b], _ =>
    cases refused
    exact .trailing passes lead (by rw [size]; rfl)
  | tag::len::value, _ =>
    obtain ⟨tagged,declared⟩ := headerRead behind
    rw [List.length_cons,List.length_cons] at size
    by_cases fits : len.toNat ≤ value.length
    · have content := valueRead behind fits
      by_cases known : KnownTag tag
      · cases found : WireRecord.parse tag (value.take len.toNat) with
        | none =>
          have wrong := (wrongValue known _).mp found
          rw [readMalformed fits known found] at refused
          cases refused
          rw [← content] at wrong
          rw [refusalError,← content]
          exact .malformedRawRecord passes lead tagged declared (by omega) known wrong
        | some w =>
          rw [readKnown fits found] at refused
          contradiction
      · rw [readForeign fits known] at refused
        contradiction
    · rw [readTruncated fits] at refused
      cases refused
      exact .truncatedValue passes lead tagged declared (by omega) (by omega)

end

theorem passesShape {b : List UInt8} (passes : FrontPasses b) :
    ∃ (f : Front) (rs : List RawRecord) (tail : List UInt8) (framebufferHash : UInt32),
      b = f.bytes ++ (recordFormat.encAll rs ++ tail ++ le framebufferHash) ∧ f.refusal? = none ∧
      recordFormat.Ended tail := by
  have long := passes.long
  obtain ⟨f,rest,rfl⟩ := frontExists (b := b) (by omega)
  rw [List.length_append,frontLength] at long
  have room : 4 ≤ rest.length := by omega
  obtain ⟨rs,tail,framebufferHash,rfl,ended⟩ := regionExists room
  exact ⟨f,rs,tail,framebufferHash,rfl,(frontPasses f _ room).mpr passes,ended⟩

theorem refusedBehind {b : List UInt8} {k : Nat} (passes : FrontPasses b) (lead : LastLead b k)
    (more : k + 1 + 4 ≤ b.length) :
    ∃ (tail : List UInt8) (framebufferHash : UInt32) (refusal : Refusal),
      b.drop k = tail ++ le framebufferHash ∧ b.length = k + tail.length + 4 ∧
      readRecord tail = .error refusal ∧ Verdict b (.error (refusalError k refusal)) := by
  obtain ⟨f,rs,tail,framebufferHash,rfl,accepted,ended⟩ := passesShape passes
  have size := wholeLength f rs tail framebufferHash
  have position := (lastLead f framebufferHash ended).mp lead
  subst position
  have positive : tail ≠ [] := by
    rintro rfl
    rw [size] at more
    simp at more
  obtain ⟨refusal,refused⟩ := ended.resolve_left positive
  exact ⟨tail,framebufferHash,refusal,regionDrop f rs tail framebufferHash,size,refused,
    .record accepted positive refused⟩

theorem headedTail {b tail : List UInt8} {framebufferHash : UInt32} {k : Nat} {tag len : UInt8}
    (behind : b.drop k = tail ++ le framebufferHash) (size : b.length = k + tail.length + 4)
    (tagged : b[k]? = some tag) (declared : b[k+1]? = some len) (room : k + 2 + 4 ≤ b.length) :
    ∃ value, tail = tag::len::value ∧
      ∀ n ≤ value.length, (b.drop (k+2)).take n = value.take n := by
  rcases tail with _ | ⟨first,_ | ⟨second,value⟩⟩
  · rw [List.length_nil] at size
    omega
  · rw [List.length_singleton] at size
    omega
  · obtain ⟨tagRead,lenRead⟩ := headerRead behind
    cases tagRead.symm.trans tagged
    cases lenRead.symm.trans declared
    exact ⟨value,rfl,fun n inside => valueRead behind inside⟩

theorem violationVerdict {b : List UInt8} {error : DecodeError} (violation : FirstViolation b error) :
    Verdict b (.error error) := by
  have front : ∀ {error}, 62 ≤ b.length → (∀ (f : Front) (rest : List UInt8), b = f.bytes ++ rest →
      f.refusal? = some error) → Verdict b (.error error) := by
    intro error long refused
    obtain ⟨f,rest,shape⟩ := frontExists (b := b) (by omega)
    have size := congrArg List.length shape
    rw [List.length_append,frontLength] at size
    have answer := refused f rest shape
    rw [shape]
    exact .front (by omega) answer
  cases violation with
  | short few => exact .short few
  | badMagic long read wrong =>
    refine front long ?_
    rintro f rest rfl
    rw [magicAt] at read
    cases List.Vector.eq _ _ read
    rw [Front.refusal?,if_pos wrong]
  | unsupportedSchemaVersion long magic read wrong =>
    refine front long ?_
    rintro f rest rfl
    rw [magicAt] at magic
    cases (versionAt f rest).symm.trans read
    rw [Front.refusal?,if_neg (not_not_intro (List.Vector.eq _ _ magic)),if_pos wrong]
  | recordCountTooSmall long magic version read wrong =>
    refine front long ?_
    rintro f rest rfl
    rw [magicAt] at magic
    rw [versionAt] at version
    cases (countAt f rest).symm.trans read
    have few : f.count < UInt8.ofNat numHashChannels := wrong
    rw [Front.refusal?,if_neg (not_not_intro (List.Vector.eq _ _ magic)),
      if_neg (not_not_intro (Option.some.inj version)),if_pos few]
  | malformedHashBlock long magic version counted inside least wrong =>
    refine front long ?_
    rintro f rest rfl
    rw [magicAt] at magic
    rw [versionAt] at version
    obtain ⟨count,read,eight⟩ := counted
    cases (countAt f rest).symm.trans read
    rw [headerPassed (List.Vector.eq _ _ magic) (Option.some.inj version) eight]
    exact (hashViolation f rest).mpr ⟨_,inside,least,wrong,rfl⟩
  | trailing passes lead orphan =>
    obtain ⟨tail,framebufferHash,refusal,behind,size,refused,verdict⟩ :=
      refusedBehind passes lead (by omega)
    have one : tail.length = 1 := by omega
    obtain ⟨single,rfl⟩ := List.length_eq_one_iff.mp one
    cases refused
    exact verdict
  | truncatedValue passes lead tagged declared room long =>
    obtain ⟨tail,framebufferHash,refusal,behind,size,refused,verdict⟩ :=
      refusedBehind passes lead (by omega)
    obtain ⟨value,rfl,_⟩ := headedTail behind size tagged declared (by omega)
    rw [List.length_cons,List.length_cons] at size
    rw [readTruncated (by omega)] at refused
    cases refused
    exact verdict
  | @malformedRawRecord k tag len passes lead tagged declared fits known wrong =>
    obtain ⟨tail,framebufferHash,refusal,behind,size,refused,verdict⟩ :=
      refusedBehind passes lead (by omega)
    obtain ⟨value,rfl,content⟩ := headedTail behind size tagged declared (by omega)
    rw [List.length_cons,List.length_cons] at size
    have inside : len.toNat ≤ value.length := by omega
    rw [content _ inside] at wrong ⊢
    rw [readMalformed inside known ((wrongValue known _).mpr wrong)] at refused
    cases refused
    exact verdict

theorem verdictViolation {b : List UInt8} {error : DecodeError} (verdict : Verdict b (.error error)) :
    FirstViolation b error := by
  cases verdict with
  | short few => exact .short few
  | front room refused => exact frontViolation _ _ room refused
  | record accepted more refused => exact rawViolation _ _ accepted more refused

theorem reachesTrailer {bytes : Slice UInt8} {k : Nat} (passes : FrontPasses bytes.data)
    (lead : LastLead bytes.data k) (whole : k + 4 = bytes.data.length) :
    ∃ d, decode bytes = .ok d := by
  obtain ⟨f,rs,tail,framebufferHash,shape,accepted,ended⟩ := passesShape passes
  have size := wholeLength f rs tail framebufferHash
  rw [shape] at lead whole
  have position := (lastLead f framebufferHash ended).mp lead
  have empty : tail = [] := List.eq_nil_of_length_eq_zero (by omega)
  rw [empty,List.append_nil] at shape
  exact ⟨_,decodesWhole accepted shape⟩

theorem loopLeaves {bytes : List UInt8} {trailerStart fuel : Nat} {s : Cursor}
    (bounded : bytes.length ≤ isizeMax) (low : 58 ≤ trailerStart) (stop : trailerStart ≤ bytes.length)
    (ran : whileLoop (before trailerStart) (recordStep bytes trailerStart) fuel
      ⟨rawRecordsStart,[],[]⟩ = .ok s) : s.pos = trailerStart := by
  obtain ⟨⟨n,steps⟩,leave⟩ := whileEnds ran
  obtain ⟨within,_⟩ := stepsAdvance (fun s => s.pos ≤ trailerStart) Cursor.pos
    (fun _ enter next => (Acceptance.stepMoves bounded stop enter next).symm) steps low
  have reached : ¬ s.pos < trailerStart := of_decide_eq_false leave
  omega

/- An error is the first violation, at its place; the check behind the loop never fires. -/
theorem firstViolationReported (bytes : Slice UInt8) :
    (∀ error, decode bytes = .error (.err error) ↔ FirstViolation bytes.data error) ∧
    (∀ k, FrontPasses bytes.data → LastLead bytes.data k → (∀ d, decode bytes ≠ .ok d) →
      k + 4 < bytes.data.length) ∧
    (∀ extraBytes, decode bytes = .error (.err (.trailing extraBytes)) → extraBytes = 1) ∧
    ∀ fixed trailerStart fuel s, decodeFixed bytes.data = .ok fixed →
      sub (ε := DecodeError) bytes.data.length digestTrailerLen = .ok trailerStart →
      whileLoop (before trailerStart) (recordStep bytes.data trailerStart) fuel
        ⟨rawRecordsStart,[],[]⟩ = .ok s → ¬ s.pos ≠ trailerStart := by
  have reported : ∀ error, decode bytes = .error (.err error) ↔ FirstViolation bytes.data error := by
    intro error
    constructor
    · intro refused
      obtain ⟨answer,verdict,ran⟩ := decodeAnswers bytes
      rw [refused] at ran
      cases answer with
      | ok d => contradiction
      | error error' =>
        cases ran
        exact verdictViolation verdict
    · intro violation
      exact verdictDecodes (violationVerdict violation) (Nat.le_refl _)
  refine ⟨reported,?_,?_,?_⟩
  · intro k passes lead rejected
    obtain ⟨records,_,inside,_⟩ := lead.lead
    by_contra whole
    obtain ⟨d,accepted⟩ := reachesTrailer passes lead (by omega)
    exact rejected d accepted
  · intro extraBytes refused
    cases (reported _).mp refused
    rfl
  · intro fixed trailerStart fuel s front found ran
    have long : ¬ bytes.data.length < 62 := by
      intro few
      rw [fixedShort few] at front
      contradiction
    have enough : digestTrailerLen ≤ bytes.data.length := by
      unfold digestTrailerLen
      omega
    cases (subOk enough).symm.trans found
    exact not_not_intro (loopLeaves bytes.bounded (by unfold digestTrailerLen; omega)
      (Nat.sub_le _ _) ran)

end VisualDigest.Violations
