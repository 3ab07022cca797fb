import VisualDigest.Encoder

/-! The digest decoder, stage by stage as the source runs it. Every access, slice and
addition is checked; the raw-record loop runs under a bound on its rounds. -/
namespace VisualDigest.Decoder
open Checked LittleEndian Events Format Encoder Hashes

def minPayload : Nat := digestHeaderLen + numHashChannels * recordHashSize + digestTrailerLen
def rawRecordsStart : Nat := digestHeaderLen + hashBlockBytes

abbrev Record := Event

structure UnknownRecord where
  tag : UInt8
  value : List UInt8
  deriving DecidableEq, Repr

structure Digest where
  frameCounter : UInt32
  channelHashes : ChannelHashes
  rawRecords : List Record
  unknownRecords : List UnknownRecord
  framebufferHash : UInt32
  deriving DecidableEq, Repr

inductive DecodeError where
  | short (found : Nat)
  | badMagic (found : List.Vector UInt8 4)
  | unsupportedSchemaVersion (version : UInt8)
  | recordCountTooSmall (found : UInt8)
  | malformedHashBlock (offset : Nat) (reason : String)
  | malformedRawRecord (tag : UInt8) (offset : Nat) (reason : String)
  | truncatedValue (tag : UInt8) (offset : Nat)
  | trailing (extraBytes : Nat)
  deriving DecidableEq

section
variable {ε : Type}

def readArray (n : Nat) (bytes : List UInt8) (start : Nat) : Exec ε (List.Vector UInt8 n) := do
  let stop ← add start n
  toArray n (← slice bytes start stop)

-- The array's length is inferred from the word read, as at the call sites of the source.
def readLe {α : Type} [Word α] (bytes : List UInt8) (start : Nat) : Exec ε α := do
  return fromLeBytes (← readArray (Word.width α) bytes start)

theorem readArrayAt {n : Nat} {bytes : List UInt8} (small : bytes.length ≤ usizeMax) (start : Nat)
    (pre : List UInt8) (v : List.Vector UInt8 n) (post : List UInt8)
    (shape : bytes = pre ++ (v.toList ++ post)) (cursor : start = pre.length) :
    readArray n bytes start = (.ok v : Exec ε _) := by
  subst cursor
  have fits : pre.length + n ≤ usizeMax := by
    rw [shape,List.length_append,List.length_append,v.toList_length] at small
    omega
  have part := sliceAt (ε := ε) pre v.toList post
  rw [← shape,v.toList_length] at part
  simp only [readArray,addOk fits,bind,Except.bind,part]
  exact toArrayOk v

theorem readLeAt {α : Type} [Word α] {bytes : List UInt8} (small : bytes.length ≤ usizeMax)
    (start : Nat) (pre : List UInt8) (x : α) (post : List UInt8)
    (shape : bytes = pre ++ (le x ++ post)) (cursor : start = pre.length) :
    readLe bytes start = (.ok x : Exec ε α) := by
  have array := readArrayAt (ε := ε) small start pre (toLeBytes x) post shape cursor
  simp only [readLe,array,bind,Except.bind,fromToLeBytes]
  rfl

end

def decodePhase (byte : UInt8) : Option Phase :=
  if byte = phaseAwaiting then some .awaiting
  else if byte = phaseStreamExercise then some .streamExercise
  else if byte = phaseBooting then some .booting
  else if byte = phaseParked then some .parked
  else none

def decodeBootloaderChoice (byte : UInt8) : Option BootloaderChoice :=
  if byte = choiceRecover then some .retry
  else if byte = choiceIgnore then some .ignore
  else if byte = choiceAnyway then some .abort
  else none

def charFromU32 (x : UInt32) : Option Char := if valid : x.isValidChar then some ⟨x,valid⟩ else none

def replacementCharacter : Char := '\uFFFD'

def okOr {α : Type} (x : Option α) (error : DecodeError) : Exec DecodeError α :=
  match x with
  | some x => .ok x
  | none => fail error

/-! One arm of the match on the tag. `value` is the record's value, `len` its declared
length; every arm checks the length before it reads. -/
section
variable (tag : UInt8) (pos len : Nat) (value : List UInt8)

def malformed (reason : String) : DecodeError := .malformedRawRecord tag pos reason

def expectLen (expected : Nat) (reason : String) : Exec DecodeError Unit :=
  failIf (len ≠ expected) (malformed tag pos reason)

def decodeKeypress : Exec DecodeError Record := do
  expectLen tag pos len 12 "Keypress value length must be 12"
  let timestampMs : UInt64 ← readLe value 0
  let unicodeU16 : UInt16 ← readLe value 8
  let scancode : UInt16 ← readLe value 10
  let unicode := (charFromU32 unicodeU16.toUInt32).getD replacementCharacter
  return .keypress unicode scancode timestampMs

def decodeLineRendered : Exec DecodeError Record := do
  expectLen tag pos len 10 "LineRendered value length must be 10"
  let timestampMs : UInt64 ← readLe value 0
  let row : UInt16 ← readLe value 8
  return .lineRendered row.toUInt64 timestampMs

def decodeSceneTransition : Exec DecodeError Record := do
  expectLen tag pos len 10 "SceneTransition value length must be 10"
  let timestampMs : UInt64 ← readLe value 0
  let fromPhase ← okOr (decodePhase (← index value 8))
    (malformed tag pos "SceneTransition: unknown from_phase discriminant")
  let toPhase ← okOr (decodePhase (← index value 9))
    (malformed tag pos "SceneTransition: unknown to_phase discriminant")
  return .sceneTransition fromPhase toPhase timestampMs

def decodeBootloaderDecision : Exec DecodeError Record := do
  expectLen tag pos len 13 "BootloaderDecision value length must be 13"
  let timestampMs : UInt64 ← readLe value 0
  let choice ← okOr (decodeBootloaderChoice (← index value 8))
    (malformed tag pos "BootloaderDecision: unknown choice discriminant")
  let attempt : UInt32 ← readLe value 9
  return .bootloaderDecision choice attempt timestampMs

def decodePasteReceived : Exec DecodeError Record := do
  expectLen tag pos len 11 "PasteReceived value length must be 11"
  let timestampMs : UInt64 ← readLe value 0
  let pasteLen : UInt16 ← readLe value 8
  let correct := decide ((← index value 10) ≠ 0)
  return .pasteReceived pasteLen.toUInt64 correct timestampMs

def decodeBootloaderTimeout : Exec DecodeError Record := do
  expectLen tag pos len 8 "BootloaderTimeout value length must be 8"
  let timestampMs : UInt64 ← readLe value 0
  return .bootloaderTimeout timestampMs

def decodeModeSwitch : Exec DecodeError Record := do
  expectLen tag pos len 16 "ModeSwitch value length must be 16"
  let timestampMs : UInt64 ← readLe value 0
  let requestedW : UInt16 ← readLe value 8
  let requestedH : UInt16 ← readLe value 10
  let appliedW : UInt16 ← readLe value 12
  let appliedH : UInt16 ← readLe value 14
  return .modeSwitch requestedW.toUInt32 requestedH.toUInt32 appliedW.toUInt32 appliedH.toUInt32
    timestampMs

def decodeModeCycle : Exec DecodeError Record := do
  expectLen tag pos len 13 "ModeCycle value length must be 13"
  let timestampMs : UInt64 ← readLe value 0
  let count : UInt32 ← readLe value 8
  let interrupted := decide ((← index value 12) ≠ 0)
  return .modeCycle count interrupted timestampMs

end

-- What the match on the tag pushes: a known record or an unknown one.
inductive Pushed where
  | raw (record : Record)
  | unknown (record : UnknownRecord)

def decodeRecord (tag : UInt8) (pos len : Nat) (value : List UInt8) : Exec DecodeError Pushed := do
  if tag = tagKeypress then
    return .raw (← decodeKeypress tag pos len value)
  else if tag = tagLineRendered then
    return .raw (← decodeLineRendered tag pos len value)
  else if tag = tagSceneTransition then
    return .raw (← decodeSceneTransition tag pos len value)
  else if tag = tagBootloaderDecision then
    return .raw (← decodeBootloaderDecision tag pos len value)
  else if tag = tagPasteReceived then
    return .raw (← decodePasteReceived tag pos len value)
  else if tag = tagBootloaderTimeout then
    return .raw (← decodeBootloaderTimeout tag pos len value)
  else if tag = tagModeSwitch then
    return .raw (← decodeModeSwitch tag pos len value)
  else if tag = tagModeCycle then
    return .raw (← decodeModeCycle tag pos len value)
  else
    return .unknown ⟨tag,value⟩

structure Cursor where
  pos : Nat
  rawRecords : List Record
  unknownRecords : List UnknownRecord

def Cursor.push (s : Cursor) (pushed : Pushed) (pos : Nat) : Cursor :=
  match pushed with
  | .raw record => ⟨pos,s.rawRecords ++ [record],s.unknownRecords⟩
  | .unknown record => ⟨pos,s.rawRecords,s.unknownRecords ++ [record]⟩

def before (trailerStart : Nat) (s : Cursor) : Bool := decide (s.pos < trailerStart)

def recordStep (bytes : List UInt8) (trailerStart : Nat) (s : Cursor) : Exec DecodeError Cursor := do
  let headerEnd ← add s.pos 2
  if headerEnd > trailerStart then
    let extraBytes ← sub trailerStart s.pos
    fail (.trailing extraBytes)
  let tag ← index bytes s.pos
  let valueLen := (← index bytes (← add s.pos 1)).toNat
  let valueStart ← add s.pos 2
  let valueEnd ← okOr (checkedAdd valueStart valueLen) (.truncatedValue tag s.pos)
  failIf (valueEnd > trailerStart) (.truncatedValue tag s.pos)
  let value ← slice bytes valueStart valueEnd
  let pushed ← decodeRecord tag s.pos valueLen value
  return s.push pushed valueEnd

def expectedHashTags : List UInt8 :=
  [tagHashKeypress,tagHashLineRendered,tagHashSceneTransition,tagHashBootloaderDecision,
   tagHashPasteReceived,tagHashBootloaderTimeout,tagHashModeSwitch,tagHashModeCycle]

def readHash (bytes : List UInt8) (hashValues : List.Vector UInt32 8) (expected : UInt8 × Nat) :
    Exec DecodeError (List.Vector UInt32 8) := do
  let offset ← add digestHeaderLen (← mul expected.2 recordHashSize)
  let tag ← index bytes offset
  failIf (tag ≠ expected.1) (.malformedHashBlock offset "hash record has unexpected tag")
  let len ← index bytes (← add offset 1)
  failIf (len ≠ 4) (.malformedHashBlock offset "hash record length byte is not 4")
  setAt hashValues expected.2 (← readLe bytes (← add offset 2))

def channelHashesOf (v : List.Vector UInt32 8) : ChannelHashes :=
  ⟨v.get 0,v.get 1,v.get 2,v.get 3,v.get 4,v.get 5,v.get 6,v.get 7⟩

-- Stages 1 to 6: the checks on header and hash block, and what they read.
def decodeFixed (bytes : List UInt8) : Exec DecodeError (UInt32 × ChannelHashes) := do
  failIf (bytes.length < minPayload) (.short bytes.length)
  let magic ← readArray 4 bytes 0
  failIf (magic ≠ digestMagic) (.badMagic magic)
  let schemaVersion ← index bytes 4
  failIf (schemaVersion ≠ digestSchemaVersion) (.unsupportedSchemaVersion schemaVersion)
  let frameCounter : UInt32 ← readLe bytes 5
  let recordCount ← index bytes 9
  failIf (recordCount < UInt8.ofNat numHashChannels) (.recordCountTooSmall recordCount)
  let hashValues ← expectedHashTags.zipIdx.foldlM (readHash bytes) (List.Vector.replicate 8 0)
  return (frameCounter,channelHashesOf hashValues)

-- Stages 7 to 9: the raw records, the check behind the loop, and the trailer.
def decodeBody (fuel : Nat) (bytes : List UInt8) (fixed : UInt32 × ChannelHashes) :
    Exec DecodeError Digest := do
  let trailerStart ← sub bytes.length digestTrailerLen
  let s ← whileLoop (before trailerStart) (recordStep bytes trailerStart) fuel ⟨rawRecordsStart,[],[]⟩
  if s.pos ≠ trailerStart then
    let extraBytes ← sub trailerStart s.pos
    fail (.trailing extraBytes)
  let framebufferHash : UInt32 ← readLe bytes trailerStart
  return ⟨fixed.1,fixed.2,s.rawRecords,s.unknownRecords,framebufferHash⟩

def decodeWithin (fuel : Nat) (bytes : Slice UInt8) : Exec DecodeError Digest := do
  decodeBody fuel bytes.data (← decodeFixed bytes.data)

/- The length bounds the rounds of the loop, so `decode` is never cut off. -/
def decode (bytes : Slice UInt8) : Exec DecodeError Digest := decodeWithin bytes.data.length bytes

end VisualDigest.Decoder
