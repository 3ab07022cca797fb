import VisualDigest.Grammar

/-! What the wire loses of an event, and which records an event can be read back from. -/
namespace VisualDigest.Narrowing
open Events Decoder Wire

def Surrogate (n : Nat) : Prop := 0xD800 ≤ n ∧ n ≤ 0xDFFF
instance (n) : Decidable (Surrogate n) := by unfold Surrogate; infer_instance

def normChar (c : Char) : Char :=
  if Surrogate (c.toNat % 65536) then '\uFFFD' else Char.ofNat (c.toNat % 65536)

def normEvent : Event → Event
  | .keypress unicode scancode ts => .keypress (normChar unicode) scancode ts
  | .lineRendered row ts => .lineRendered (row % 65536) ts
  | .sceneTransition f t ts => .sceneTransition f t ts
  | .bootloaderDecision choice attempt ts => .bootloaderDecision choice attempt ts
  | .pasteReceived len correct ts => .pasteReceived (len % 65536) correct ts
  | .bootloaderTimeout ts => .bootloaderTimeout ts
  | .modeSwitch rw rh aw ah ts => .modeSwitch (rw % 65536) (rh % 65536) (aw % 65536) (ah % 65536) ts
  | .modeCycle count interrupted ts => .modeCycle count interrupted ts

def Fits : Event → Prop
  | .keypress unicode .. => unicode.toNat < 65536
  | .lineRendered row _ => row < 65536
  | .pasteReceived len .. => len < 65536
  | .modeSwitch rw rh aw ah _ => rw < 65536 ∧ rh < 65536 ∧ aw < 65536 ∧ ah < 65536
  | _ => True

theorem validCode (u : UInt16) : u.toUInt32.isValidChar ↔ ¬ Surrogate u.toNat := by
  have bound := u.toNat_lt
  simp only [UInt32.isValidChar,Nat.isValidChar,UInt16.toNat_toUInt32,Surrogate]
  omega

theorem charNarrow (c : Char) :
    (charFromU32 c.val.toUInt16.toUInt32).getD replacementCharacter = normChar c := by
  have code : c.val.toUInt16.toNat = c.toNat % 65536 := UInt32.toNat_toUInt16 c.val
  have valid := validCode c.val.toUInt16
  rw [code] at valid
  unfold charFromU32 normChar
  by_cases lost : Surrogate (c.toNat % 65536)
  · rw [dif_neg (fun h => valid.mp h lost),if_pos lost]; rfl
  · have inside : (c.toNat % 65536).isValidChar := by
      have bound : c.toNat % 65536 < 65536 := Nat.mod_lt _ (by decide)
      simp only [Surrogate] at lost
      simp only [Nat.isValidChar]
      omega
    rw [dif_pos (valid.mpr lost),if_neg lost,Char.ofNat,dif_pos inside]
    apply Char.ext
    apply UInt32.toNat_inj.mp
    change c.val.toUInt16.toUInt32.toNat = c.toNat % 65536
    rw [UInt16.toNat_toUInt32,code]

theorem flagNarrow (flag : Bool) : decide (flag.toUInt8 ≠ 0) = flag := by
  cases flag <;> rfl

theorem eventNarrow (e : Event) : (narrow e).event = normEvent e := by
  cases e with
  | keypress unicode scancode ts => simp only [narrow,WireRecord.event,normEvent,charNarrow]
  | pasteReceived len correct ts =>
    simp only [narrow,WireRecord.event,normEvent,flagNarrow,UInt64.toUInt64_toUInt16]
  | modeCycle count interrupted ts => simp only [narrow,WireRecord.event,normEvent,flagNarrow]
  | _ => simp [narrow,WireRecord.event,normEvent]

theorem normCharFits {c : Char} (fits : c.toNat < 65536) : normChar c = c := by
  have valid : ¬ Surrogate c.toNat := by
    have inside : c.toNat.isValidChar := c.valid
    simp only [Nat.isValidChar] at inside
    simp only [Surrogate]
    omega
  unfold normChar
  rw [Nat.mod_eq_of_lt fits,if_neg valid,Char.ofNat_toNat]

theorem normFits {e : Event} (fits : Fits e) : normEvent e = e := by
  cases e with
  | keypress unicode scancode ts => rw [normEvent,normCharFits fits]
  | lineRendered row ts => rw [normEvent,UInt64.mod_eq_of_lt fits]
  | pasteReceived len correct ts => rw [normEvent,UInt64.mod_eq_of_lt fits]
  | modeSwitch rw rh aw ah ts =>
    obtain ⟨h1,h2,h3,h4⟩ := fits
    rw [normEvent,UInt32.mod_eq_of_lt h1,UInt32.mod_eq_of_lt h2,UInt32.mod_eq_of_lt h3,
      UInt32.mod_eq_of_lt h4]
  | sceneTransition | bootloaderDecision | bootloaderTimeout | modeCycle => rfl

def Canonical : WireRecord → Prop
  | .keypress _ unicode _ => ¬ Surrogate unicode.toNat
  | .pasteReceived _ _ correct => correct = 0 ∨ correct = 1
  | .modeCycle _ _ interrupted => interrupted = 0 ∨ interrupted = 1
  | _ => True

theorem charRead (u : UInt16) :
    ((charFromU32 u.toUInt32).getD replacementCharacter).val.toUInt16 = u ↔ ¬ Surrogate u.toNat := by
  unfold charFromU32
  by_cases lost : Surrogate u.toNat
  · rw [dif_neg (fun h => (validCode u).mp h lost)]
    simp only [lost,not_true,iff_false]
    rintro rfl
    exact absurd lost (by decide)
  · rw [dif_pos ((validCode u).mpr lost)]
    simp [lost]

theorem flagRead (b : UInt8) : (decide (b ≠ 0)).toUInt8 = b ↔ b = 0 ∨ b = 1 := by
  by_cases zero : b = 0
  · subst zero
    exact ⟨fun _ => .inl rfl,fun _ => rfl⟩
  · have set : decide (b ≠ 0) = true := decide_eq_true zero
    rw [set]
    change 1 = b ↔ b = 0 ∨ b = 1
    simp [zero,eq_comm]

theorem narrowEvent (w : WireRecord) : narrow w.event = w ↔ Canonical w := by
  cases w with
  | keypress ts unicode scancode => simpa [narrow,WireRecord.event,Canonical] using charRead unicode
  | pasteReceived ts len correct => simpa [narrow,WireRecord.event,Canonical] using flagRead correct
  | modeCycle ts count interrupted =>
    simpa [narrow,WireRecord.event,Canonical] using flagRead interrupted
  | _ => simp [narrow,WireRecord.event,Canonical]

theorem readAgain (w : WireRecord) : (narrow w.event).event = w.event := by
  by_cases canonical : Canonical w
  · rw [(narrowEvent w).mpr canonical]
  · cases w with
    | keypress ts unicode scancode =>
      have lost : charFromU32 unicode.toUInt32 = none :=
        dif_neg (fun valid => canonical ((validCode unicode).mp valid))
      simp only [WireRecord.event,lost]
      rfl
    | pasteReceived ts len correct =>
      simp only [narrow,WireRecord.event,flagNarrow,UInt16.toUInt16_toUInt64]
    | modeCycle ts count interrupted => simp only [narrow,WireRecord.event,flagNarrow]
    | _ => exact absurd trivial canonical

theorem canonicalRead (w : WireRecord) : Canonical (narrow w.event) :=
  (narrowEvent _).mp (congrArg narrow (readAgain w))

end VisualDigest.Narrowing
