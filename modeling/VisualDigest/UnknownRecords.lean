import VisualDigest.Violations

/-! Records the decoder does not know: what it takes for one, and that one more of them changes
nothing else. -/
namespace VisualDigest.UnknownRecords
open Checked LittleEndian RecordFormat Format Hashes Decoder Wire Grammar RecordExact FrontExact
open DecoderExact RoundTrip Violations

def shifted (n : Nat) : DecodeError → DecodeError
  | .malformedHashBlock offset reason => .malformedHashBlock (offset+n) reason
  | .malformedRawRecord tag offset reason => .malformedRawRecord tag (offset+n) reason
  | .truncatedValue tag offset => .truncatedValue tag (offset+n)
  | error => error

def inserted (b : List UInt8) (count : UInt8) (k : Nat) (u : UnknownRecord) : List UInt8 :=
  (b.take k).set 9 (count+1) ++ u.tag::UInt8.ofNat u.value.length::u.value ++ b.drop k

theorem refusalShifted (k n : Nat) (refusal : Refusal) :
    refusalError (k+n) refusal = shifted n (refusalError k refusal) := by
  cases refusal <;> rfl

def counting (f : Front) (count : UInt8) : Front := {f with count := count}

theorem setCount (f : Front) (rest : List UInt8) (count : UInt8) :
    (f.bytes ++ rest).set 9 count = (counting f count).bytes ++ rest := by
  have before := beforeCount f
  rw [frontShape,frontShape,List.set_append_right _ _ before.le,before]
  rfl

theorem countingAccepted {f : Front} {count : UInt8} (accepted : f.refusal? = none)
    (eight : 8 ≤ count) : (counting f count).refusal? = none := by
  obtain ⟨magic,version,_,hashes⟩ := frontAccepted.mp accepted
  exact frontAccepted.mpr ⟨magic,version,eight,hashes⟩

section
variable (f : Front) (rs more : List RawRecord) (tail : List UInt8) (framebufferHash : UInt32)

theorem leadTaken : (f.bytes ++ (recordFormat.encAll (rs ++ more) ++ tail ++ le framebufferHash)).take
    (58 + (recordFormat.encAll rs).length) = f.bytes ++ recordFormat.encAll rs := by
  rw [← frontLength f,List.take_length_add_append,encAllAppend,List.append_assoc,List.append_assoc,
    List.take_left]

theorem leadDropped : (f.bytes ++ (recordFormat.encAll (rs ++ more) ++ tail ++ le framebufferHash)).drop
    (58 + (recordFormat.encAll rs).length) = recordFormat.encAll more ++ tail ++ le framebufferHash := by
  rw [← List.drop_drop,← frontLength f,List.drop_left,encAllAppend,List.append_assoc,
    List.append_assoc,List.drop_left,List.append_assoc]

end

theorem insertedShape (f : Front) {rs more : List RawRecord} {tail : List UInt8}
    (framebufferHash : UInt32) (count : UInt8) {u : UnknownRecord} (foreign : ¬ KnownTag u.tag)
    (short : u.value.length < 256) :
    inserted (f.bytes ++ (recordFormat.encAll (rs ++ more) ++ tail ++ le framebufferHash)) count
        (58 + (recordFormat.encAll rs).length) u =
      (counting f (count+1)).bytes ++
        (recordFormat.encAll (rs ++ .unknown u foreign short :: more) ++ tail ++ le framebufferHash) := by
  rw [inserted,leadTaken,leadDropped,setCount,encAllAppend,encAllCons]
  simp [RawRecord.bytes,RawRecord.tag,RawRecord.value]

theorem insertedLength {rs more : List RawRecord} {u : UnknownRecord} (foreign : ¬ KnownTag u.tag)
    (short : u.value.length < 256) :
    (recordFormat.encAll (rs ++ .unknown u foreign short :: more)).length =
      (recordFormat.encAll (rs ++ more)).length + (u.value.length + 2) := by
  have size : (RawRecord.unknown u foreign short).bytes.length = u.value.length + 2 := rfl
  simp only [encAllAppend,encAllCons,recordEnc,List.length_append,size]
  omega

theorem countRises {count : UInt8} (eight : 8 ≤ count) (room : count < 255) : 8 ≤ count + 1 := by
  rw [UInt8.le_iff_toNat_le] at eight ⊢
  rw [UInt8.lt_iff_toNat_lt] at room
  simp at eight room ⊢
  omega

theorem unknownTransparent {bytes bytes' : Slice UInt8} {rs : List RawRecord} {k : Nat}
    {count : UInt8} {u : UnknownRecord} (passes : FrontPasses bytes.data)
    (counted : bytes.data[9]? = some count) (room : count < 255) (lead : Lead bytes.data rs k)
    (foreign : ¬ KnownTag u.tag) (short : u.value.length ≤ 255)
    (shape : bytes'.data = inserted bytes.data count k u) :
    (∀ d, decode bytes = .ok d → ∃ later,
      d.unknownRecords = rs.filterMap RawRecord.unknown? ++ later ∧
      decode bytes' = .ok {d with unknownRecords := rs.filterMap RawRecord.unknown? ++ u::later}) ∧
    ∀ error, decode bytes = .error (.err error) →
      decode bytes' = .error (.err (shifted (u.value.length+2) error)) := by
  obtain ⟨f,all,tail,framebufferHash,whole,accepted,ended⟩ := passesShape passes
  rw [whole] at lead counted shape
  obtain ⟨more,rfl,rfl⟩ := leadSplit f framebufferHash ended lead
  cases (countAt f _).symm.trans counted
  rw [insertedShape f framebufferHash f.count foreign (by omega)] at shape
  have accepted' : (counting f (f.count+1)).refusal? = none :=
    countingAccepted accepted (countRises (frontAccepted.mp accepted).2.2.1 room)
  by_cases empty : tail = []
  · rw [empty,List.append_nil] at whole shape
    have first := decodesWhole accepted whole
    have second := decodesWhole accepted' shape
    constructor
    · intro d decoded
      cases first.symm.trans decoded
      refine ⟨more.filterMap RawRecord.unknown?,List.filterMap_append,?_⟩
      rw [second,List.filterMap_append,List.filterMap_append,List.filterMap_append]
      rfl
    · intro error refused
      rw [first] at refused
      contradiction
  · obtain ⟨refusal,refused⟩ := ended.resolve_left empty
    have first := decodesRefused accepted empty refused whole
    have second := decodesRefused accepted' empty refused shape
    rw [insertedLength,← Nat.add_assoc,refusalShifted] at second
    constructor
    · intro d decoded
      rw [first] at decoded
      contradiction
    · intro error thrown
      cases first.symm.trans thrown
      exact second

theorem hashesCounted : (8 : UInt8) ≤ 8 := by decide

def emptyFront : Front := frontOf ⟨1,8,hashesCounted,.new,[],0⟩

theorem framedBounded {region : List UInt8} (small : region.length ≤ 256) :
    (emptyFront.bytes ++ (region ++ le (0x12345678 : UInt32))).length ≤ isizeMax := by
  have top : 318 ≤ isizeMax := by decide
  rw [List.length_append,List.length_append,frontLength,leLength]
  change 58 + (region.length + 4) ≤ _
  omega

def framed (region : List UInt8) (small : region.length ≤ 256) : Slice UInt8 where
  data := emptyFront.bytes ++ (region ++ le (0x12345678 : UInt32))
  bounded := framedBounded small

/- Two timeouts, the second one whole or cut short, and the same with a record of the reserved tag
0x09 between them. -/
def pairFrame : Slice UInt8 := framed [6,8,5,0,0,0,0,0,0,0,6,8,6,0,0,0,0,0,0,0] (by decide)
def partFrame : Slice UInt8 := framed [6,8,5,0,0,0,0,0,0,0,6,8,6] (by decide)

def pairReserved : Slice UInt8 where
  data := inserted pairFrame.data 8 68 ⟨0x09,[0xab,0xcd]⟩
  bounded := by decide

def partReserved : Slice UInt8 where
  data := inserted partFrame.data 8 68 ⟨0x09,[0xab,0xcd]⟩
  bounded := by decide

theorem pairDecodes : decode pairFrame =
    .ok ⟨1,.new,[.bootloaderTimeout 5,.bootloaderTimeout 6],[],0x12345678⟩ :=
  @decodesWhole _ emptyFront (payloadAccepted _)
    [.known (.bootloaderTimeout 5),.known (.bootloaderTimeout 6)] 0x12345678 rfl

theorem partRefused : decode partFrame = .error (.err (.truncatedValue 6 68)) :=
  @decodesRefused _ emptyFront (payloadAccepted _) [.known (.bootloaderTimeout 5)] 0x12345678 [6,8,6]
    (.truncated 6) (by simp) rfl rfl

theorem unknownTransparentReserved :
    decode pairReserved =
      .ok ⟨1,.new,[.bootloaderTimeout 5,.bootloaderTimeout 6],[⟨0x09,[0xab,0xcd]⟩],0x12345678⟩ ∧
    decode partReserved = .error (.err (.truncatedValue 6 72)) := by
  have passes : FrontPasses pairFrame.data :=
    ⟨by decide,by decide,by decide,⟨8,by decide,by decide⟩,by decide⟩
  have passes' : FrontPasses partFrame.data :=
    ⟨by decide,by decide,by decide,⟨8,by decide,by decide⟩,by decide⟩
  have lead : Lead pairFrame.data [.known (.bootloaderTimeout 5)] 68 := ⟨by decide,by decide,by decide⟩
  have lead' : Lead partFrame.data [.known (.bootloaderTimeout 5)] 68 := ⟨by decide,by decide,by decide⟩
  obtain ⟨later,nothing,decoded⟩ := (@unknownTransparent pairFrame pairReserved _ 68 8
    ⟨0x09,[0xab,0xcd]⟩ passes (by decide) (by decide) lead (by decide) (by decide) rfl).1 _ pairDecodes
  have refused := (@unknownTransparent partFrame partReserved _ 68 8 ⟨0x09,[0xab,0xcd]⟩ passes'
    (by decide) (by decide) lead' (by decide) (by decide) rfl).2 _ partRefused
  cases (nothing : [] = later)
  exact ⟨decoded,refused⟩

def bareFrame : Slice UInt8 where
  data := Payload.bytes ⟨1,8,hashesCounted,.new,[],0x12345678⟩
  bounded := by decide

def reservedFrame : Slice UInt8 where
  data := inserted bareFrame.data 8 58 ⟨0x09,[0xab,0xcd]⟩
  bounded := by decide

/- The tags the format reserves for later versions. -/
def ReservedTag (tag : UInt8) : Prop := (0x09 ≤ tag ∧ tag ≤ 0x10) ∨ 0x19 ≤ tag
instance (tag) : Decidable (ReservedTag tag) := by unfold ReservedTag; infer_instance

def HashTag (tag : UInt8) : Prop := 0x11 ≤ tag ∧ tag ≤ 0x18
instance (tag) : Decidable (HashTag tag) := by unfold HashTag; infer_instance

theorem foreignTags {tag : UInt8} (foreign : ¬ KnownTag tag) :
    ReservedTag tag ↔ tag ≠ 0x00 ∧ ¬ HashTag tag := by
  unfold KnownTag at foreign
  unfold ReservedTag HashTag
  simp only [UInt8.le_iff_toNat_le,ne_eq,← UInt8.toNat_inj] at foreign ⊢
  simp at foreign ⊢
  omega

theorem unknownMember {rs : List RawRecord} {u : UnknownRecord} :
    u ∈ rs.filterMap RawRecord.unknown? ↔
      ∃ foreign short, RawRecord.unknown u foreign short ∈ rs := by
  constructor
  · intro member
    obtain ⟨r,inside,read⟩ := List.mem_filterMap.mp member
    cases r with
    | known w => contradiction
    | unknown v foreign short =>
      cases read
      exact ⟨foreign,short,inside⟩
  · rintro ⟨foreign,short,inside⟩
    exact List.mem_filterMap.mpr ⟨_,inside,rfl⟩

theorem unknownForeign {bytes : Slice UInt8} {d : Digest} (decoded : decode bytes = .ok d) :
    ∃ p : Payload, p.bytes = bytes.data ∧ (∀ u ∈ d.unknownRecords, ¬ KnownTag u.tag) ∧
      (∀ r ∈ p.records, ¬ KnownTag r.tag → ⟨r.tag,r.value⟩ ∈ d.unknownRecords) ∧
      ((∀ u ∈ d.unknownRecords, ReservedTag u.tag) ↔
        ∀ r ∈ p.records, r.tag ≠ 0x00 ∧ ¬ HashTag r.tag) := by
  obtain ⟨p,shape,rfl⟩ := decodedPayload decoded
  refine ⟨p,shape,?_,?_,?_,?_⟩
  · intro u member
    obtain ⟨foreign,_,_⟩ := unknownMember.mp member
    exact foreign
  · intro r inside foreign
    cases r with
    | known w => exact absurd (recordKnown w) foreign
    | unknown u foreign short => exact unknownMember.mpr ⟨foreign,short,inside⟩
  · intro reserved r inside
    cases r with
    | known w => cases w <;> simp [RawRecord.tag,WireRecord.tag,HashTag]
    | unknown u foreign short =>
      exact (foreignTags foreign).mp (reserved u (unknownMember.mpr ⟨foreign,short,inside⟩))
  · intro plain u member
    obtain ⟨foreign,short,inside⟩ := unknownMember.mp member
    exact (foreignTags foreign).mpr (plain _ inside)

theorem unknownForeignReserved :
    ∃ p : Payload, p.bytes = reservedFrame.data ∧
      (∀ u ∈ [(⟨0x09,[0xab,0xcd]⟩ : UnknownRecord)], ¬ KnownTag u.tag) ∧
      (∀ r ∈ p.records, ¬ KnownTag r.tag →
        ⟨r.tag,r.value⟩ ∈ [(⟨0x09,[0xab,0xcd]⟩ : UnknownRecord)]) ∧
      ((∀ u ∈ [(⟨0x09,[0xab,0xcd]⟩ : UnknownRecord)], ReservedTag u.tag) ↔
        ∀ r ∈ p.records, r.tag ≠ 0x00 ∧ ¬ HashTag r.tag) :=
  @unknownForeign reservedFrame ⟨1,.new,[],[⟨0x09,[0xab,0xcd]⟩],0x12345678⟩
    (@decodePayload reservedFrame
      ⟨1,9,by decide,.new,[.unknown ⟨0x09,[0xab,0xcd]⟩ (by decide) (by decide)],0x12345678⟩ rfl)

def displacedFrame : Slice UInt8 where
  data := inserted bareFrame.data 8 58 ⟨0x11,[0,0,0,0]⟩
  bounded := by decide

theorem displacedAccepted : decode displacedFrame = .ok ⟨1,.new,[],[⟨0x11,[0,0,0,0]⟩],0x12345678⟩ ∧
    ¬ ∀ d, decode displacedFrame = .ok d → ∀ u ∈ d.unknownRecords, ReservedTag u.tag := by
  have accepted : decode displacedFrame = .ok ⟨1,.new,[],[⟨0x11,[0,0,0,0]⟩],0x12345678⟩ :=
    @decodePayload displacedFrame
      ⟨1,9,by decide,.new,[.unknown ⟨0x11,[0,0,0,0]⟩ (by decide) (by decide)],0x12345678⟩ rfl
  refine ⟨accepted,fun reserved => ?_⟩
  have hash := reserved _ accepted ⟨0x11,[0,0,0,0]⟩ (List.mem_singleton.mpr rfl)
  exact absurd hash (by decide)

end VisualDigest.UnknownRecords
