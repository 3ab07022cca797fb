import VisualDigest.Format
import VisualDigest.Library.Writer
import VisualDigest.Library.LittleEndian

/-! The bytes of one event: what the encoder writes is what the hashes read. -/
namespace VisualDigest.Encoder
open Checked LittleEndian Events Format

/- Encodes one event as a TLV record at the start of the buffer; the number of bytes
written is returned. Casts to a narrower word keep its low bits. -/
def eventTlvBytes {ε : Type} (event : Event) : Writer UInt8 maxRecordSize ε Nat := do
  let total := sizeOfRecord event
  let valueLen := UInt8.ofNat (← check (sub total 2))
  match event with
  | .keypress unicode scancode timestampMs =>
    store 0 tagKeypress
    store 1 valueLen
    copyInto 2 10 (le timestampMs)
    let unicodeU16 := unicode.val.toUInt16
    copyInto 10 12 (le unicodeU16)
    copyInto 12 14 (le scancode)
    return 14
  | .lineRendered row timestampMs =>
    store 0 tagLineRendered
    store 1 valueLen
    copyInto 2 10 (le timestampMs)
    let rowU16 := row.toUInt16
    copyInto 10 12 (le rowU16)
    return 12
  | .sceneTransition fromPhase toPhase timestampMs =>
    store 0 tagSceneTransition
    store 1 valueLen
    copyInto 2 10 (le timestampMs)
    store 10 (phaseWire fromPhase)
    store 11 (phaseWire toPhase)
    return 12
  | .bootloaderDecision choice attempt timestampMs =>
    store 0 tagBootloaderDecision
    store 1 valueLen
    copyInto 2 10 (le timestampMs)
    store 10 (choiceWire choice)
    copyInto 11 15 (le attempt)
    return 15
  | .pasteReceived len correct timestampMs =>
    store 0 tagPasteReceived
    store 1 valueLen
    copyInto 2 10 (le timestampMs)
    let lenU16 := len.toUInt16
    copyInto 10 12 (le lenU16)
    store 12 correct.toUInt8
    return 13
  | .bootloaderTimeout timestampMs =>
    store 0 tagBootloaderTimeout
    store 1 valueLen
    copyInto 2 10 (le timestampMs)
    return 10
  | .modeSwitch requestedW requestedH appliedW appliedH timestampMs =>
    store 0 tagModeSwitch
    store 1 valueLen
    copyInto 2 10 (le timestampMs)
    let rw := requestedW.toUInt16
    let rh := requestedH.toUInt16
    let aw := appliedW.toUInt16
    let ah := appliedH.toUInt16
    copyInto 10 12 (le rw)
    copyInto 12 14 (le rh)
    copyInto 14 16 (le aw)
    copyInto 16 18 (le ah)
    return 18
  | .modeCycle count interrupted timestampMs =>
    store 0 tagModeCycle
    store 1 valueLen
    copyInto 2 10 (le timestampMs)
    copyInto 10 14 (le count)
    store 14 interrupted.toUInt8
    return 15

end VisualDigest.Encoder
