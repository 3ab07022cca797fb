import VisualDigest.EventBytes
import VisualDigest.Library.ReflectedCrc

/-! Per-channel rolling accumulators. The checksum crate is a parameter: its types and
calls are those this code uses, and what it computes is stated apart. -/
namespace VisualDigest.Hashes
open Checked Events Format Encoder

structure CrcCrate where
  Digest : Type
  digest : Digest
  digestWithInitial : UInt32 → Digest
  update : Digest → List UInt8 → Digest
  finalize : Digest → UInt32
  checksum : List UInt8 → UInt32

/- The catalogue entry `CRC_32_ISCSI`: reflected input and output, `xorout` all ones. -/
def crc32Iscsi : ReflectedCrc.Params 32 := ⟨0x1edc6f41,0xffffffff,0xffffffff⟩

theorem reflectedOdd : crc32Iscsi.reflected.msb = true := by decide +kernel

/- The crate computes `CRC_32_ISCSI`: behind each digest stands a register, started from
the bit-reversed initial value because the input is reflected. -/
structure ComputesIscsi (crc : CrcCrate) (register : crc.Digest → BitVec 32) : Prop where
  digest : register crc.digest = crc32Iscsi.init.reverse
  digestWithInitial : ∀ initial, register (crc.digestWithInitial initial) = initial.toBitVec.reverse
  update : ∀ d bytes, register (crc.update d bytes) =
    ReflectedCrc.feed crc32Iscsi.reflected (register d) bytes
  finalize : ∀ d, (crc.finalize d).toBitVec = crc32Iscsi.finish (register d)
  checksum : ∀ bytes, crc.checksum bytes = crc.finalize (crc.update crc.digest bytes)

def crc32c (bytes : List UInt8) : UInt32 := ⟨crc32Iscsi.checksum bytes⟩

/- The catalogue's check value, of the digits `123456789`. -/
example : crc32c [0x31,0x32,0x33,0x34,0x35,0x36,0x37,0x38,0x39] = 0xe3069283 := by decide +kernel

structure ChannelHashes where
  keypress : UInt32
  lineRendered : UInt32
  sceneTransition : UInt32
  bootloaderDecision : UInt32
  pasteReceived : UInt32
  bootloaderTimeout : UInt32
  modeSwitch : UInt32
  modeCycle : UInt32
  deriving DecidableEq, Repr

def ChannelHashes.new : ChannelHashes := ⟨0,0,0,0,0,0,0,0⟩

def reverseBits (x : UInt32) : UInt32 := ⟨x.toBitVec.reverse⟩

def resumeInitial (finalized : UInt32) : UInt32 := reverseBits (finalized ^^^ 0xffffffff)

section
variable {ε : Type} (crc : CrcCrate)

def extend (current : UInt32) (event : Event) : Exec ε UInt32 := do
  let (len,buf) ← onBuffer (List.Vector.replicate maxRecordSize 0) (eventTlvBytes event)
  let d := crc.digestWithInitial (resumeInitial current)
  let bytes ← slice buf.toList 0 len
  let d := crc.update d bytes
  return crc.finalize d

def update (self : ChannelHashes) (event : Event) : Exec ε ChannelHashes :=
  match event with
  | .keypress .. => do return {self with keypress := ← extend crc self.keypress event}
  | .lineRendered .. => do return {self with lineRendered := ← extend crc self.lineRendered event}
  | .sceneTransition .. => do
    return {self with sceneTransition := ← extend crc self.sceneTransition event}
  | .bootloaderDecision .. => do
    return {self with bootloaderDecision := ← extend crc self.bootloaderDecision event}
  | .pasteReceived .. => do return {self with pasteReceived := ← extend crc self.pasteReceived event}
  | .bootloaderTimeout .. => do
    return {self with bootloaderTimeout := ← extend crc self.bootloaderTimeout event}
  | .modeSwitch .. => do return {self with modeSwitch := ← extend crc self.modeSwitch event}
  | .modeCycle .. => do return {self with modeCycle := ← extend crc self.modeCycle event}

end
end VisualDigest.Hashes
