import VisualDigest.Wire
import VisualDigest.Library.Framing

/-! Raw records, known and unknown, and whole payloads. -/
namespace VisualDigest.Grammar
open LittleEndian FieldCodec RecordFormat Framing Events Format Hashes Decoder Wire

def KnownTag (tag : UInt8) : Prop := 0x01 ≤ tag ∧ tag ≤ 0x08
instance (tag) : Decidable (KnownTag tag) := by unfold KnownTag; infer_instance

theorem knownTags {tag : UInt8} (known : KnownTag tag) :
    tag = 0x01 ∨ tag = 0x02 ∨ tag = 0x03 ∨ tag = 0x04 ∨ tag = 0x05 ∨ tag = 0x06 ∨ tag = 0x07 ∨
    tag = 0x08 := by
  obtain ⟨low,high⟩ := known
  simp only [← UInt8.toNat_inj]
  have lower : 1 ≤ tag.toNat := low
  have upper : tag.toNat ≤ 8 := high
  simp
  omega

theorem recordKnown (w : WireRecord) : KnownTag w.tag := by
  cases w <;> simp [WireRecord.tag,KnownTag]

inductive RawRecord where
  | known (w : WireRecord)
  | unknown (u : UnknownRecord) (foreign : ¬ KnownTag u.tag) (short : u.value.length < 256)
  deriving DecidableEq

namespace RawRecord

def tag : RawRecord → UInt8
  | known w => w.tag
  | unknown u _ _ => u.tag

def value : RawRecord → List UInt8
  | known w => w.value
  | unknown u _ _ => u.value

theorem valueShort (r : RawRecord) : r.value.length < 256 := by
  cases r with
  | known w => exact w.valueShort
  | unknown u foreign short => exact short

def framed (r : RawRecord) : Tlv := ⟨r.tag,r.value,r.valueShort⟩

def bytes (r : RawRecord) : List UInt8 := r.tag :: UInt8.ofNat r.value.length :: r.value

theorem lengthByte (r : RawRecord) : (UInt8.ofNat r.value.length).toNat = r.value.length :=
  Framing.lengthByte r.framed

theorem bytesLength (r : RawRecord) : r.bytes.length = r.value.length + 2 := rfl

def pushed : RawRecord → Pushed
  | known w => .raw w.event
  | unknown u _ _ => .unknown u

def event? : RawRecord → Option Event
  | known w => some w.event
  | unknown .. => none

def unknown? : RawRecord → Option UnknownRecord
  | known _ => none
  | unknown u _ _ => some u

end RawRecord

inductive Refusal where
  | orphan
  | truncated (tag : UInt8)
  | malformed (tag : UInt8) (reason : String)
  deriving DecidableEq

/- The text for a known tag whose value is refused: the length is looked at first, then the
discriminants in their order. -/
def refusalText (tag : UInt8) (value : List UInt8) : String :=
  if tag = 0x01 then "Keypress value length must be 12"
  else if tag = 0x02 then "LineRendered value length must be 10"
  else if tag = 0x03 then
    if value.length ≠ 10 then "SceneTransition value length must be 10"
    else if (value[8]?.bind decodePhase).isNone then "SceneTransition: unknown from_phase discriminant"
    else "SceneTransition: unknown to_phase discriminant"
  else if tag = 0x04 then
    if value.length ≠ 13 then "BootloaderDecision value length must be 13"
    else "BootloaderDecision: unknown choice discriminant"
  else if tag = 0x05 then "PasteReceived value length must be 11"
  else if tag = 0x06 then "BootloaderTimeout value length must be 8"
  else if tag = 0x07 then "ModeSwitch value length must be 16"
  else "ModeCycle value length must be 13"

def misframed : Misframed → Refusal
  | .orphan => .orphan
  | .truncated tag => .truncated tag

def understood (r : Tlv) : Except Refusal RawRecord :=
  if known : KnownTag r.tag then
    match WireRecord.parse r.tag r.value with
    | some w => .ok (.known w)
    | none => .error (.malformed r.tag (refusalText r.tag r.value))
  else .ok (.unknown ⟨r.tag,r.value⟩ known r.short)

def readRecord (bytes : List UInt8) : Except Refusal (RawRecord × List UInt8) :=
  match readTlv bytes with
  | .ok (r,rest) => (understood r).map fun record => (record,rest)
  | .error fault => .error (misframed fault)

section
variable {tag len : UInt8} {rest : List UInt8}

theorem readTruncated (beyond : ¬ len.toNat ≤ rest.length) :
    readRecord (tag::len::rest) = .error (.truncated tag) := by
  simp only [readRecord,readTlv,if_neg beyond]
  rfl

variable (fits : len.toNat ≤ rest.length)
include fits

theorem readKnown {w : WireRecord} (parsed : WireRecord.parse tag (rest.take len.toNat) = some w) :
    readRecord (tag::len::rest) = .ok (.known w,rest.drop len.toNat) := by
  have known := recordKnown w
  rw [(WireRecord.parseSound parsed).1] at known
  simp only [readRecord,readTlv,if_pos fits,understood,dif_pos known,parsed]
  rfl

theorem readMalformed (known : KnownTag tag) (wrong : WireRecord.parse tag (rest.take len.toNat) = none) :
    readRecord (tag::len::rest) = .error (.malformed tag (refusalText tag (rest.take len.toNat))) := by
  simp only [readRecord,readTlv,if_pos fits,understood,dif_pos known,wrong]
  rfl

theorem readForeign (foreign : ¬ KnownTag tag) : readRecord (tag::len::rest) =
    .ok (.unknown ⟨tag,rest.take len.toNat⟩ foreign (takeShort len rest),rest.drop len.toNat) := by
  simp only [readRecord,readTlv,if_pos fits,understood,dif_neg foreign]
  rfl

end

theorem understoodFramed (r : RawRecord) : understood r.framed = .ok r := by
  cases r with
  | known w =>
    simp only [understood,RawRecord.framed,RawRecord.tag,RawRecord.value,dif_pos (recordKnown w),
      WireRecord.parseValue]
  | unknown u foreign short => exact dif_neg foreign

theorem framedUnderstood {t : Tlv} {r : RawRecord} (read : understood t = .ok r) : r.framed = t := by
  unfold understood at read
  split at read
  · split at read <;> try contradiction
    rename_i w parsed
    cases read
    obtain ⟨tag,value⟩ := WireRecord.parseSound parsed
    simp only [RawRecord.framed,RawRecord.tag,RawRecord.value,tag,value]
  · cases read
    rfl

theorem readSound {bytes : List UInt8} {r : RawRecord} {rest : List UInt8}
    (h : readRecord bytes = .ok (r,rest)) : bytes = r.bytes ++ rest := by
  unfold readRecord at h
  split at h <;> try contradiction
  rename_i t behind framed
  cases read : understood t with
  | error refusal =>
    rw [read] at h
    contradiction
  | ok record =>
    rw [read] at h
    cases h
    rw [tlvSound framed,← framedUnderstood read]
    rfl

theorem readComplete (r : RawRecord) (rest : List UInt8) :
    readRecord (r.bytes ++ rest) = .ok (r,rest) := by
  have framed : readTlv (r.bytes ++ rest) = .ok (r.framed,rest) := tlvComplete r.framed rest
  simp only [readRecord,framed,understoodFramed]
  rfl

def recordFormat : Format RawRecord UInt8 Refusal where
  enc := RawRecord.bytes
  read := readRecord
  nonempty r := by simp [RawRecord.bytes]
  sound := readSound
  complete := readComplete

@[simp] theorem recordEnc (r : RawRecord) : recordFormat.enc r = r.bytes := rfl

def hashRecord (tag : UInt8) (hash : UInt32) : List UInt8 := tag::4::le hash

def hashBlock (h : ChannelHashes) : List UInt8 :=
  hashRecord 0x11 h.keypress ++ hashRecord 0x12 h.lineRendered ++
  hashRecord 0x13 h.sceneTransition ++ hashRecord 0x14 h.bootloaderDecision ++
  hashRecord 0x15 h.pasteReceived ++ hashRecord 0x16 h.bootloaderTimeout ++
  hashRecord 0x17 h.modeSwitch ++ hashRecord 0x18 h.modeCycle

structure Payload where
  frameCounter : UInt32
  count : UInt8
  counted : 8 ≤ count
  hashes : ChannelHashes
  records : List RawRecord
  framebufferHash : UInt32
  deriving DecidableEq

namespace Payload

def header (p : Payload) : List UInt8 :=
  [0x53,0x58,0x44,0x47] ++ [0x02] ++ le p.frameCounter ++ [p.count]

def region (p : Payload) : List UInt8 := recordFormat.encAll p.records

def bytes (p : Payload) : List UInt8 :=
  p.header ++ hashBlock p.hashes ++ p.region ++ le p.framebufferHash

def digest (p : Payload) : Digest where
  frameCounter := p.frameCounter
  channelHashes := p.hashes
  rawRecords := p.records.filterMap RawRecord.event?
  unknownRecords := p.records.filterMap RawRecord.unknown?
  framebufferHash := p.framebufferHash

end Payload

theorem payloadSize (p : Payload) : p.bytes.length = 62 + p.region.length := by
  have counter : (le p.frameCounter).length = 4 := rfl
  have trailer : (le p.framebufferHash).length = 4 := rfl
  have block : (hashBlock p.hashes).length = 48 := rfl
  simp only [Payload.bytes,Payload.header,List.length_append,counter,trailer,block,List.length_cons,
    List.length_nil]
  omega

theorem hashBlockInjective {g h : ChannelHashes} (same : hashBlock g = hashBlock h) : g = h := by
  obtain ⟨g1,g2,g3,g4,g5,g6,g7,g8⟩ := g
  obtain ⟨h1,h2,h3,h4,h5,h6,h7,h8⟩ := h
  simpa [hashBlock,hashRecord,leAppend] using same

theorem payloadInjective {p q : Payload} (same : p.bytes = q.bytes) : p = q := by
  obtain ⟨front,trailer⟩ := List.append_inj' same (by rw [leLength,leLength])
  obtain ⟨fixed,region⟩ := List.append_inj front rfl
  obtain ⟨header,block⟩ := List.append_inj' fixed rfl
  have records := encAllInjective recordFormat region
  have hashes := hashBlockInjective block
  have framebufferHash := leInjective.mp trailer
  have numbers : p.frameCounter = q.frameCounter ∧ p.count = q.count := by
    simpa [Payload.header,leAppend] using header
  cases p
  cases q
  cases records
  cases hashes
  cases framebufferHash
  cases numbers.1
  cases numbers.2
  rfl

end VisualDigest.Grammar
