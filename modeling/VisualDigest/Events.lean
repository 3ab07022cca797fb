import Mathlib.Data.UInt

/-! The on-wire event vocabulary. A `usize` is a 64-bit word. -/
namespace VisualDigest.Events

abbrev Usize := UInt64

inductive Phase where
  | awaiting
  | streamExercise
  | booting
  | parked
  deriving DecidableEq, Repr

inductive BootloaderChoice where
  | retry
  | ignore
  | abort
  deriving DecidableEq, Repr

inductive Event where
  | keypress (unicode : Char) (scancode : UInt16) (timestampMs : UInt64)
  | lineRendered (row : Usize) (timestampMs : UInt64)
  | sceneTransition (fromPhase toPhase : Phase) (timestampMs : UInt64)
  | bootloaderDecision (choice : BootloaderChoice) (attempt : UInt32) (timestampMs : UInt64)
  | pasteReceived (len : Usize) (correct : Bool) (timestampMs : UInt64)
  | bootloaderTimeout (timestampMs : UInt64)
  | modeSwitch (requestedW requestedH appliedW appliedH : UInt32) (timestampMs : UInt64)
  | modeCycle (count : UInt32) (interrupted : Bool) (timestampMs : UInt64)
  deriving DecidableEq, Repr

end VisualDigest.Events
