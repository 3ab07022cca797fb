import VisualDigest.Decoder
import VisualDigest.Library.FieldCodec
import VisualDigest.Library.RecordFormat

/-! The v2 grammar: what a payload is, apart from the code that writes or reads it.
A value of these types is well formed by construction; `bytes` is its only encoding. -/
namespace VisualDigest.Wire
open LittleEndian FieldCodec RecordFormat Events Format Hashes Decoder

theorem decodePhaseWire (phase : Phase) : decodePhase (phaseWire phase) = some phase := by
  cases phase <;> rfl

theorem phaseWireDecode {b : UInt8} {phase : Phase} (h : decodePhase b = some phase) :
    phaseWire phase = b := by
  unfold decodePhase at h
  split at h
  · cases h; symm; assumption
  · split at h
    · cases h; symm; assumption
    · split at h
      · cases h; symm; assumption
      · split at h
        · cases h; symm; assumption
        · contradiction

theorem phaseKnown (byte : UInt8) : (decodePhase byte).isSome ↔ byte ≤ 3 := by
  simp only [decodePhase,phaseAwaiting,phaseStreamExercise,phaseBooting,phaseParked]
  grind

theorem phaseUnknown (byte : UInt8) : decodePhase byte = none ↔ 3 < byte := by
  rw [← UInt8.not_le,← phaseKnown,Option.not_isSome_iff_eq_none]

theorem decodeChoiceWire (choice : BootloaderChoice) :
    decodeBootloaderChoice (choiceWire choice) = some choice := by
  cases choice <;> rfl

theorem choiceWireDecode {b : UInt8} {choice : BootloaderChoice}
    (h : decodeBootloaderChoice b = some choice) : choiceWire choice = b := by
  unfold decodeBootloaderChoice at h
  split at h
  · cases h; symm; assumption
  · split at h
    · cases h; symm; assumption
    · split at h
      · cases h; symm; assumption
      · contradiction

theorem choiceKnown (byte : UInt8) : (decodeBootloaderChoice byte).isSome ↔ byte ≤ 2 := by
  simp only [decodeBootloaderChoice,choiceRecover,choiceIgnore,choiceAnyway]
  grind

theorem choiceUnknown (byte : UInt8) : decodeBootloaderChoice byte = none ↔ 2 < byte := by
  rw [← UInt8.not_le,← choiceKnown,Option.not_isSome_iff_eq_none]

def phaseField : Codec Phase := enum phaseWire decodePhase decodePhaseWire phaseWireDecode
def choiceField : Codec BootloaderChoice :=
  enum choiceWire decodeBootloaderChoice decodeChoiceWire choiceWireDecode

def keypressFields := pair (word UInt64) (pair (word UInt16) (word UInt16))
def lineRenderedFields := pair (word UInt64) (word UInt16)
def sceneTransitionFields := pair (word UInt64) (pair phaseField phaseField)
def bootloaderDecisionFields := pair (word UInt64) (pair choiceField (word UInt32))
def pasteReceivedFields := pair (word UInt64) (pair (word UInt16) byte)
def bootloaderTimeoutFields := word UInt64
def modeSwitchFields := pair (word UInt64)
  (pair (word UInt16) (pair (word UInt16) (pair (word UInt16) (word UInt16))))
def modeCycleFields := pair (word UInt64) (pair (word UInt32) byte)

theorem keypressTotal : Total keypressFields :=
  pairTotal (wordTotal _) (pairTotal (wordTotal _) (wordTotal _))

theorem lineRenderedTotal : Total lineRenderedFields := pairTotal (wordTotal _) (wordTotal _)

theorem pasteReceivedTotal : Total pasteReceivedFields :=
  pairTotal (wordTotal _) (pairTotal (wordTotal _) byteTotal)

theorem modeSwitchTotal : Total modeSwitchFields :=
  pairTotal (wordTotal _) (pairTotal (wordTotal _) (pairTotal (wordTotal _)
    (pairTotal (wordTotal _) (wordTotal _))))

theorem modeCycleTotal : Total modeCycleFields :=
  pairTotal (wordTotal _) (pairTotal (wordTotal _) byteTotal)

inductive WireRecord where
  | keypress (timestampMs : UInt64) (unicode scancode : UInt16)
  | lineRendered (timestampMs : UInt64) (row : UInt16)
  | sceneTransition (timestampMs : UInt64) (fromPhase toPhase : Phase)
  | bootloaderDecision (timestampMs : UInt64) (choice : BootloaderChoice) (attempt : UInt32)
  | pasteReceived (timestampMs : UInt64) (len : UInt16) (correct : UInt8)
  | bootloaderTimeout (timestampMs : UInt64)
  | modeSwitch (timestampMs : UInt64) (requestedW requestedH appliedW appliedH : UInt16)
  | modeCycle (timestampMs : UInt64) (count : UInt32) (interrupted : UInt8)
  deriving DecidableEq, Repr

namespace WireRecord

def tag : WireRecord → UInt8
  | keypress .. => 0x01
  | lineRendered .. => 0x02
  | sceneTransition .. => 0x03
  | bootloaderDecision .. => 0x04
  | pasteReceived .. => 0x05
  | bootloaderTimeout .. => 0x06
  | modeSwitch .. => 0x07
  | modeCycle .. => 0x08

def value : WireRecord → List UInt8
  | keypress ts unicode scancode => keypressFields.enc (ts,unicode,scancode)
  | lineRendered ts row => lineRenderedFields.enc (ts,row)
  | sceneTransition ts f t => sceneTransitionFields.enc (ts,f,t)
  | bootloaderDecision ts choice attempt => bootloaderDecisionFields.enc (ts,choice,attempt)
  | pasteReceived ts len correct => pasteReceivedFields.enc (ts,len,correct)
  | bootloaderTimeout ts => bootloaderTimeoutFields.enc ts
  | modeSwitch ts rw rh aw ah => modeSwitchFields.enc (ts,rw,rh,aw,ah)
  | modeCycle ts count interrupted => modeCycleFields.enc (ts,count,interrupted)

def parse (tag : UInt8) (value : List UInt8) : Option WireRecord :=
  if tag = 0x01 then (keypressFields.dec value).map fun x => keypress x.1 x.2.1 x.2.2
  else if tag = 0x02 then (lineRenderedFields.dec value).map fun x => lineRendered x.1 x.2
  else if tag = 0x03 then (sceneTransitionFields.dec value).map fun x => sceneTransition x.1 x.2.1 x.2.2
  else if tag = 0x04 then
    (bootloaderDecisionFields.dec value).map fun x => bootloaderDecision x.1 x.2.1 x.2.2
  else if tag = 0x05 then (pasteReceivedFields.dec value).map fun x => pasteReceived x.1 x.2.1 x.2.2
  else if tag = 0x06 then (bootloaderTimeoutFields.dec value).map bootloaderTimeout
  else if tag = 0x07 then
    (modeSwitchFields.dec value).map fun x => modeSwitch x.1 x.2.1 x.2.2.1 x.2.2.2.1 x.2.2.2.2
  else if tag = 0x08 then (modeCycleFields.dec value).map fun x => modeCycle x.1 x.2.1 x.2.2
  else none

theorem parseValue (w : WireRecord) : parse w.tag w.value = some w := by
  cases w <;> simp [parse,tag,value,Codec.decEnc]

theorem parseSound {tag : UInt8} {value : List UInt8} {w : WireRecord}
    (h : parse tag value = some w) : w.tag = tag ∧ w.value = value := by
  unfold parse at h
  split at h
  · rename_i same; obtain ⟨x,hx,rfl⟩ := Option.map_eq_some_iff.mp h
    exact ⟨same.symm,keypressFields.encDec hx⟩
  split at h
  · rename_i same; obtain ⟨x,hx,rfl⟩ := Option.map_eq_some_iff.mp h
    exact ⟨same.symm,lineRenderedFields.encDec hx⟩
  split at h
  · rename_i same; obtain ⟨x,hx,rfl⟩ := Option.map_eq_some_iff.mp h
    exact ⟨same.symm,sceneTransitionFields.encDec hx⟩
  split at h
  · rename_i same; obtain ⟨x,hx,rfl⟩ := Option.map_eq_some_iff.mp h
    exact ⟨same.symm,bootloaderDecisionFields.encDec hx⟩
  split at h
  · rename_i same; obtain ⟨x,hx,rfl⟩ := Option.map_eq_some_iff.mp h
    exact ⟨same.symm,pasteReceivedFields.encDec hx⟩
  split at h
  · rename_i same; obtain ⟨x,hx,rfl⟩ := Option.map_eq_some_iff.mp h
    exact ⟨same.symm,bootloaderTimeoutFields.encDec hx⟩
  split at h
  · rename_i same; obtain ⟨x,hx,rfl⟩ := Option.map_eq_some_iff.mp h
    exact ⟨same.symm,modeSwitchFields.encDec hx⟩
  split at h
  · rename_i same; obtain ⟨x,hx,rfl⟩ := Option.map_eq_some_iff.mp h
    exact ⟨same.symm,modeCycleFields.encDec hx⟩
  · contradiction

theorem parseSceneTransition (ts : UInt64) (fromByte toByte : UInt8) :
    parse 0x03 (le ts ++ [fromByte,toByte]) =
      (decodePhase fromByte).bind fun f => (decodePhase toByte).map fun t => sceneTransition ts f t := by
  have peeled := pairDec (word UInt64) (pair phaseField phaseField) ts [fromByte,toByte]
  have fields : sceneTransitionFields.dec (le ts ++ [fromByte,toByte]) =
      ((decodePhase fromByte).bind fun f => (decodePhase toByte).bind fun t => some (f,t)).map
        fun y => (ts,y) := peeled
  change (sceneTransitionFields.dec _).map _ = _
  rw [fields]
  cases decodePhase fromByte <;> cases decodePhase toByte <;> rfl

theorem parseBootloaderDecision (ts : UInt64) (choiceByte : UInt8) (attempt : UInt32) :
    parse 0x04 (le ts ++ (choiceByte::le attempt)) =
      (decodeBootloaderChoice choiceByte).map fun choice => bootloaderDecision ts choice attempt := by
  have peeled := pairDec (word UInt64) (pair choiceField (word UInt32)) ts (choiceByte::le attempt)
  have last : (word UInt32).dec (le attempt) = some attempt := (word UInt32).decEnc attempt
  have fields : bootloaderDecisionFields.dec (le ts ++ (choiceByte::le attempt)) =
      ((decodeBootloaderChoice choiceByte).bind fun choice =>
        ((word UInt32).dec (le attempt)).bind fun n => some (choice,n)).map fun y => (ts,y) := peeled
  change (bootloaderDecisionFields.dec _).map _ = _
  rw [fields,last]
  cases decodeBootloaderChoice choiceByte <;> rfl

def width (tag : UInt8) : Nat :=
  if tag = 0x01 then 12
  else if tag = 0x02 then 10
  else if tag = 0x03 then 10
  else if tag = 0x04 then 13
  else if tag = 0x05 then 11
  else if tag = 0x06 then 8
  else if tag = 0x07 then 16
  else 13

theorem valueLength (w : WireRecord) : w.value.length = width w.tag := by
  cases w <;> simp [value,Codec.encWidth] <;> rfl

theorem valueShort (w : WireRecord) : w.value.length < 256 := by
  rw [valueLength]
  cases w <;> simp [width,tag]

theorem parseLength {tag : UInt8} {value : List UInt8} (differs : value.length ≠ width tag) :
    parse tag value = none := by
  cases found : parse tag value with
  | none => rfl
  | some w =>
    obtain ⟨rfl,rfl⟩ := parseSound found
    exact absurd (valueLength w) differs

def event : WireRecord → Event
  | keypress ts unicode scancode =>
    .keypress ((charFromU32 unicode.toUInt32).getD replacementCharacter) scancode ts
  | lineRendered ts row => .lineRendered row.toUInt64 ts
  | sceneTransition ts f t => .sceneTransition f t ts
  | bootloaderDecision ts choice attempt => .bootloaderDecision choice attempt ts
  | pasteReceived ts len correct => .pasteReceived len.toUInt64 (decide (correct ≠ 0)) ts
  | bootloaderTimeout ts => .bootloaderTimeout ts
  | modeSwitch ts rw rh aw ah => .modeSwitch rw.toUInt32 rh.toUInt32 aw.toUInt32 ah.toUInt32 ts
  | modeCycle ts count interrupted => .modeCycle count (decide (interrupted ≠ 0)) ts

end WireRecord

def narrow : Event → WireRecord
  | .keypress unicode scancode ts => .keypress ts unicode.val.toUInt16 scancode
  | .lineRendered row ts => .lineRendered ts row.toUInt16
  | .sceneTransition f t ts => .sceneTransition ts f t
  | .bootloaderDecision choice attempt ts => .bootloaderDecision ts choice attempt
  | .pasteReceived len correct ts => .pasteReceived ts len.toUInt16 correct.toUInt8
  | .bootloaderTimeout ts => .bootloaderTimeout ts
  | .modeSwitch rw rh aw ah ts => .modeSwitch ts rw.toUInt16 rh.toUInt16 aw.toUInt16 ah.toUInt16
  | .modeCycle count interrupted ts => .modeCycle ts count interrupted.toUInt8

theorem narrowSize (e : Event) : (narrow e).value.length + 2 = sizeOfRecord e := by
  cases e <;> simp [narrow,WireRecord.value,Codec.encWidth] <;> rfl

end VisualDigest.Wire
