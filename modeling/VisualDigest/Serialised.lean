import VisualDigest.Decoder
import VisualDigest.Library.JsonText

/-! Digests as JSON documents: what the derived serialisers hand to the JSON crate. Field and
variant names are the source's, variants in snake case and as the only key of an object. -/
namespace VisualDigest.Serialised
open Events Hashes Decoder JsonText

def phaseJson : Phase → Json
  | .awaiting => .string "awaiting"
  | .streamExercise => .string "stream_exercise"
  | .booting => .string "booting"
  | .parked => .string "parked"

def bootloaderChoiceJson : BootloaderChoice → Json
  | .retry => .string "retry"
  | .ignore => .string "ignore"
  | .abort => .string "abort"

def eventJson : Event → Json
  | .keypress unicode scancode timestampMs => .object [("keypress",.object
    [("unicode",.string (String.singleton unicode)),("scancode",.number scancode.toNat),
     ("timestamp_ms",.number timestampMs.toNat)])]
  | .lineRendered row timestampMs => .object [("line_rendered",.object
    [("row",.number row.toNat),("timestamp_ms",.number timestampMs.toNat)])]
  | .sceneTransition fromPhase toPhase timestampMs => .object [("scene_transition",.object
    [("from",phaseJson fromPhase),("to",phaseJson toPhase),
     ("timestamp_ms",.number timestampMs.toNat)])]
  | .bootloaderDecision choice attempt timestampMs => .object [("bootloader_decision",.object
    [("choice",bootloaderChoiceJson choice),("attempt",.number attempt.toNat),
     ("timestamp_ms",.number timestampMs.toNat)])]
  | .pasteReceived len correct timestampMs => .object [("paste_received",.object
    [("len",.number len.toNat),("correct",.boolean correct),
     ("timestamp_ms",.number timestampMs.toNat)])]
  | .bootloaderTimeout timestampMs => .object [("bootloader_timeout",.object
    [("timestamp_ms",.number timestampMs.toNat)])]
  | .modeSwitch requestedW requestedH appliedW appliedH timestampMs => .object [("mode_switch",.object
    [("requested_w",.number requestedW.toNat),("requested_h",.number requestedH.toNat),
     ("applied_w",.number appliedW.toNat),("applied_h",.number appliedH.toNat),
     ("timestamp_ms",.number timestampMs.toNat)])]
  | .modeCycle count interrupted timestampMs => .object [("mode_cycle",.object
    [("count",.number count.toNat),("interrupted",.boolean interrupted),
     ("timestamp_ms",.number timestampMs.toNat)])]

def channelHashesJson (h : ChannelHashes) : Json := .object
  [("keypress",.number h.keypress.toNat),("line_rendered",.number h.lineRendered.toNat),
   ("scene_transition",.number h.sceneTransition.toNat),
   ("bootloader_decision",.number h.bootloaderDecision.toNat),
   ("paste_received",.number h.pasteReceived.toNat),
   ("bootloader_timeout",.number h.bootloaderTimeout.toNat),
   ("mode_switch",.number h.modeSwitch.toNat),("mode_cycle",.number h.modeCycle.toNat)]

def unknownRecordJson (u : UnknownRecord) : Json := .object
  [("tag",.number u.tag.toNat),("value",.array (u.value.map fun b => .number b.toNat))]

def digestJson (d : Digest) : Json := .object
  [("frame_counter",.number d.frameCounter.toNat),("channel_hashes",channelHashesJson d.channelHashes),
   ("raw_records",.array (d.rawRecords.map eventJson)),
   ("unknown_records",.array (d.unknownRecords.map unknownRecordJson)),
   ("framebuffer_hash",.number d.framebufferHash.toNat)]

theorem phaseJsonSame {p q : Phase} : phaseJson p = phaseJson q ↔ p = q := by
  cases p <;> cases q <;> simp [phaseJson]

theorem bootloaderChoiceJsonSame {p q : BootloaderChoice} :
    bootloaderChoiceJson p = bootloaderChoiceJson q ↔ p = q := by
  cases p <;> cases q <;> simp [bootloaderChoiceJson]

theorem eventJsonSame {e e' : Event} : eventJson e = eventJson e' ↔ e = e' := by
  cases e <;> cases e' <;>
    simp [eventJson,phaseJsonSame,bootloaderChoiceJsonSame,String.singleton_inj,UInt64.toNat_inj,
      UInt32.toNat_inj,UInt16.toNat_inj]

theorem channelHashesJsonSame {g h : ChannelHashes} :
    channelHashesJson g = channelHashesJson h ↔ g = h := by
  cases g
  cases h
  simp [channelHashesJson,UInt32.toNat_inj]

theorem mappedSame {α : Type} {f : α → Json} (same : ∀ {x y}, f x = f y ↔ x = y) {xs ys : List α} :
    Json.array (xs.map f) = .array (ys.map f) ↔ xs = ys := by
  have injective : Function.Injective f := fun _ _ => same.mp
  rw [Json.array.injEq]
  exact (List.map_injective_iff.mpr injective).eq_iff

theorem unknownRecordJsonSame {u v : UnknownRecord} : unknownRecordJson u = unknownRecordJson v ↔ u = v := by
  have bytes : Json.array (u.value.map fun b => .number b.toNat) =
      .array (v.value.map fun b => .number b.toNat) ↔ u.value = v.value :=
    mappedSame (by simp [UInt8.toNat_inj])
  cases u
  cases v
  simp only [unknownRecordJson,Json.object.injEq,List.cons.injEq,Prod.mk.injEq,true_and,and_true,bytes,
    Json.number.injEq,UInt8.toNat_inj,UnknownRecord.mk.injEq]

theorem digestJsonSame {d e : Digest} : digestJson d = digestJson e ↔ d = e := by
  have raw := @mappedSame _ _ @eventJsonSame d.rawRecords e.rawRecords
  have unknown := @mappedSame _ _ @unknownRecordJsonSame d.unknownRecords e.unknownRecords
  cases d
  cases e
  simp only [digestJson,Json.object.injEq,List.cons.injEq,Prod.mk.injEq,true_and,and_true,raw,unknown,
    channelHashesJsonSame,Json.number.injEq,UInt32.toNat_inj,Digest.mk.injEq]

end VisualDigest.Serialised
