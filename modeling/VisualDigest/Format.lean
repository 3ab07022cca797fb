import VisualDigest.Events
import Mathlib.Data.Vector.Basic

/-! Wire-format constants, discriminants and record sizes. -/
namespace VisualDigest.Format
open Events

/- ASCII `SXDG`. -/
def digestMagic : List.Vector UInt8 4 := ⟨[0x53,0x58,0x44,0x47],rfl⟩
def digestSchemaVersion : UInt8 := 0x02

def tagKeypress : UInt8 := 0x01
def tagLineRendered : UInt8 := 0x02
def tagSceneTransition : UInt8 := 0x03
def tagBootloaderDecision : UInt8 := 0x04
def tagPasteReceived : UInt8 := 0x05
def tagBootloaderTimeout : UInt8 := 0x06
def tagModeSwitch : UInt8 := 0x07
def tagModeCycle : UInt8 := 0x08

def tagHashKeypress : UInt8 := 0x11
def tagHashLineRendered : UInt8 := 0x12
def tagHashSceneTransition : UInt8 := 0x13
def tagHashBootloaderDecision : UInt8 := 0x14
def tagHashPasteReceived : UInt8 := 0x15
def tagHashBootloaderTimeout : UInt8 := 0x16
def tagHashModeSwitch : UInt8 := 0x17
def tagHashModeCycle : UInt8 := 0x18

def recordHashSize : Nat := 6
def numHashChannels : Nat := 8

def phaseAwaiting : UInt8 := 0x00
def phaseBooting : UInt8 := 0x01
def phaseParked : UInt8 := 0x02
def phaseStreamExercise : UInt8 := 0x03

def choiceRecover : UInt8 := 0x00
def choiceIgnore : UInt8 := 0x01
def choiceAnyway : UInt8 := 0x02

def digestHeaderLen : Nat := 10
def digestTrailerLen : Nat := 4
def digestFixedOverhead : Nat := digestHeaderLen + digestTrailerLen
def digestPayloadCapacity : Nat := 106
def maxRecordSize : Nat := 18

inductive EncodeError where
  | bufferTooSmall
  | internalOverflow
  deriving DecidableEq, Repr

def phaseWire : Phase → UInt8
  | .awaiting => phaseAwaiting
  | .streamExercise => phaseStreamExercise
  | .booting => phaseBooting
  | .parked => phaseParked

def choiceWire : BootloaderChoice → UInt8
  | .retry => choiceRecover
  | .ignore => choiceIgnore
  | .abort => choiceAnyway

def sizeOfRecord : Event → Nat
  | .keypress .. => 14
  | .lineRendered .. => 12
  | .sceneTransition .. => 12
  | .bootloaderDecision .. => 15
  | .pasteReceived .. => 13
  | .bootloaderTimeout .. => 10
  | .modeSwitch .. => 18
  | .modeCycle .. => 15

theorem sizeLower (event : Event) : 10 ≤ sizeOfRecord event := by
  cases event <;> simp [sizeOfRecord]

theorem sizeUpper (event : Event) : sizeOfRecord event ≤ maxRecordSize := by
  cases event <;> simp [sizeOfRecord,maxRecordSize]

end VisualDigest.Format
