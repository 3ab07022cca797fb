import VisualDigest.Hashes

/-! The digest encoder over a caller-provided buffer. -/
namespace VisualDigest.Encoder
open Checked LittleEndian Events Format Hashes

def hashBlockBytes : Nat := numHashChannels * recordHashSize
def recordBudget : Nat := digestPayloadCapacity - digestFixedOverhead - hashBlockBytes

structure Selection where
  recordBytes : Nat
  included : Nat
  deriving DecidableEq, Repr

def selectStep {ε : Type} (event : Event) (s : Selection) : Exec ε (ForInStep Selection) := do
  let sz := sizeOfRecord event
  let sum ← add s.recordBytes sz
  if sum > recordBudget then
    return .done s
  let recordBytes ← add s.recordBytes sz
  let included ← add s.included 1
  if included = 255 then
    return .done ⟨recordBytes,included⟩
  return .yield ⟨recordBytes,included⟩

def select {ε : Type} (events : List Event) : Exec ε Selection :=
  forIn events.reverse ⟨0,0⟩ selectStep

def hashChannels (h : ChannelHashes) : List (UInt8 × UInt32) :=
  [(tagHashKeypress,h.keypress),
   (tagHashLineRendered,h.lineRendered),
   (tagHashSceneTransition,h.sceneTransition),
   (tagHashBootloaderDecision,h.bootloaderDecision),
   (tagHashPasteReceived,h.pasteReceived),
   (tagHashBootloaderTimeout,h.bootloaderTimeout),
   (tagHashModeSwitch,h.modeSwitch),
   (tagHashModeCycle,h.modeCycle)]

def writeHashRecord (pos : Nat) (record : UInt8 × UInt32) :
    Writer UInt8 digestPayloadCapacity EncodeError Nat := do
  let stop ← check (add pos recordHashSize)
  check (failIf (stop > digestPayloadCapacity) .internalOverflow)
  store pos record.1
  store (← check (add pos 1)) 4
  copyInto (← check (add pos 2)) (← check (add pos 6)) (le record.2)
  check (add pos recordHashSize)

def writeRecord (pos : Nat) (event : Event) :
    Writer UInt8 digestPayloadCapacity EncodeError Nat := do
  let total := sizeOfRecord event
  let stop ← check (add pos total)
  check (failIf (stop > digestPayloadCapacity) .internalOverflow)
  let (written,buf) ← check (onBuffer (List.Vector.replicate maxRecordSize 0) (eventTlvBytes event))
  let bytes ← check (slice buf.toList 0 written)
  copyInto pos (← check (add pos written)) bytes
  check (add pos written)

/- Encodes a payload and returns its length; `events` stand oldest first. -/
def encode (events : List Event) (frameCounter framebufferHash : UInt32)
    (channelHashes : ChannelHashes) : Writer UInt8 digestPayloadCapacity EncodeError Nat := do
  let selected ← check (select events)
  let firstIdx ← check (sub events.length selected.included)
  let totalRecords ← check (add numHashChannels selected.included)
  let recordsEnd ← check (add (digestHeaderLen + hashBlockBytes) selected.recordBytes)
  let totalLen ← check (add recordsEnd digestTrailerLen)
  check (failIf (totalLen > digestPayloadCapacity) .internalOverflow)
  let pos := 0
  copyInto pos (← check (add pos 4)) digestMagic.toList
  let pos ← check (add pos 4)
  store pos digestSchemaVersion
  let pos ← check (add pos 1)
  copyInto pos (← check (add pos 4)) (le frameCounter)
  let pos ← check (add pos 4)
  store pos (UInt8.ofNat totalRecords)
  let pos ← check (add pos 1)
  let pos ← (hashChannels channelHashes).foldlM writeHashRecord pos
  let pos ← (← check (slice events firstIdx events.length)).foldlM writeRecord pos
  let stop ← check (add pos digestTrailerLen)
  check (failIf (stop > digestPayloadCapacity) .internalOverflow)
  copyInto pos (← check (add pos 4)) (le framebufferHash)
  check (add pos 4)

end VisualDigest.Encoder
