import VisualDigest.EncoderExact

/-! What the rolling hashes hold: each channel the check of its own events, in push order,
since the start. -/
namespace VisualDigest.HashesExact
open Checked ReflectedCrc Events Format Hashes Encoder Wire Grammar EncoderExact

section
variable {ε : Type} (crc : CrcCrate)

def extended (current : UInt32) (bytes : List UInt8) : UInt32 :=
  crc.finalize (crc.update (crc.digestWithInitial (resumeInitial current)) bytes)

theorem extendExact (current : UInt32) (e : Event) :
    extend (ε := ε) crc current e = .ok (extended crc current (tlv e)) := by
  obtain ⟨buf,ran,front⟩ := eventTlvSlice (ε := ε) e
  simp only [extend,ran,bind,Except.bind,front]
  rfl

def updated (h : ChannelHashes) (e : Event) : ChannelHashes :=
  match e with
  | .keypress .. => {h with keypress := extended crc h.keypress (tlv e)}
  | .lineRendered .. => {h with lineRendered := extended crc h.lineRendered (tlv e)}
  | .sceneTransition .. => {h with sceneTransition := extended crc h.sceneTransition (tlv e)}
  | .bootloaderDecision .. => {h with bootloaderDecision := extended crc h.bootloaderDecision (tlv e)}
  | .pasteReceived .. => {h with pasteReceived := extended crc h.pasteReceived (tlv e)}
  | .bootloaderTimeout .. => {h with bootloaderTimeout := extended crc h.bootloaderTimeout (tlv e)}
  | .modeSwitch .. => {h with modeSwitch := extended crc h.modeSwitch (tlv e)}
  | .modeCycle .. => {h with modeCycle := extended crc h.modeCycle (tlv e)}

theorem updateExact (h : ChannelHashes) (e : Event) :
    update (ε := ε) crc h e = .ok (updated crc h e) := by
  cases e <;> simp only [update,extendExact,bind,Except.bind,updated] <;> rfl

theorem foldExact (events : List Event) (h : ChannelHashes) :
    events.foldlM (update (ε := ε) crc) h = .ok (events.foldl (updated crc) h) := by
  induction events generalizing h with
  | nil => rfl
  | cons e events ih =>
    rw [List.foldlM_cons,updateExact]
    exact ih _

end

def stored (h : ChannelHashes) (t : UInt8) : UInt32 :=
  if t = 0x01 then h.keypress
  else if t = 0x02 then h.lineRendered
  else if t = 0x03 then h.sceneTransition
  else if t = 0x04 then h.bootloaderDecision
  else if t = 0x05 then h.pasteReceived
  else if t = 0x06 then h.bootloaderTimeout
  else if t = 0x07 then h.modeSwitch
  else h.modeCycle

theorem storedExt {g h : ChannelHashes} (same : ∀ t, KnownTag t → stored g t = stored h t) : g = h := by
  have field : ∀ w : WireRecord, stored g w.tag = stored h w.tag := fun w => same w.tag (recordKnown w)
  cases g
  cases h
  simp only [ChannelHashes.mk.injEq]
  exact ⟨field (.keypress 0 0 0),field (.lineRendered 0 0),field (.sceneTransition 0 .parked .parked),
    field (.bootloaderDecision 0 .abort 0),field (.pasteReceived 0 0 0),field (.bootloaderTimeout 0),
    field (.modeSwitch 0 0 0 0 0),field (.modeCycle 0 0 0)⟩

theorem tlvHead (e : Event) : (tlv e).head? = some (narrow e).tag := rfl

theorem tlvVariant {e e' : Event} (variant : (tlv e).head? = (tlv e').head?) :
    (tlv e).length = (tlv e').length := by
  have tag : (narrow e).tag = (narrow e').tag := Option.some.inj variant
  have size : ∀ e, (tlv e).length = WireRecord.width (narrow e).tag + 2 :=
    fun e => congrArg (· + 2) (narrow e).valueLength
  rw [size,size,tag]

def ofTag (t : UInt8) (events : List Event) : List Event :=
  events.filter fun e => decide ((tlv e).head? = some t)

theorem ofTagCons (t : UInt8) (e : Event) (events : List Event) : ofTag t (e::events) =
    if (tlv e).head? = some t then e :: ofTag t events else ofTag t events := by
  by_cases own : (tlv e).head? = some t <;> simp [ofTag,own]

theorem storedUpdated (crc : CrcCrate) (h : ChannelHashes) (e : Event) {t : UInt8}
    (known : KnownTag t) : stored (updated crc h e) t =
      if (tlv e).head? = some t then extended crc (stored h t) (tlv e) else stored h t := by
  rw [tlvHead]
  rcases knownTags known with rfl | rfl | rfl | rfl | rfl | rfl | rfl | rfl <;> cases e <;>
    simp [updated,stored,narrow,WireRecord.tag]

section
variable {crc : CrcCrate} {register : crc.Digest → BitVec 32} (computes : ComputesIscsi crc register)
include computes

theorem extendedRegister (current : UInt32) (bytes : List UInt8) :
    (extended crc current bytes).toBitVec = crc32Iscsi.finish
      (feed crc32Iscsi.reflected (crc32Iscsi.finish current.toBitVec) bytes) := by
  unfold extended
  rw [computes.finalize,computes.update,computes.digestWithInitial]
  exact congrArg (fun r => crc32Iscsi.finish (feed crc32Iscsi.reflected r bytes))
    (resumeRegister crc32Iscsi current.toBitVec)

theorem extendedNil (current : UInt32) : extended crc current [] = current := by
  apply UInt32.toBitVec_inj.mp
  rw [extendedRegister computes,feedNil,finishFinish]

theorem extendedAppend (current : UInt32) (a b : List UInt8) :
    extended crc (extended crc current a) b = extended crc current (a ++ b) := by
  apply UInt32.toBitVec_inj.mp
  rw [extendedRegister computes,extendedRegister computes,extendedRegister computes,finishFinish,
    feedAppend]

theorem extendedStart (bytes : List UInt8) : extended crc 0 bytes = crc32c bytes := by
  have start : crc32Iscsi.finish (0 : UInt32).toBitVec = crc32Iscsi.init.reverse := by decide +kernel
  apply UInt32.toBitVec_inj.mp
  rw [extendedRegister computes,start]
  rfl

theorem checksumExact (bytes : List UInt8) : crc.checksum bytes = crc32c bytes := by
  apply UInt32.toBitVec_inj.mp
  rw [computes.checksum,computes.finalize,computes.update,computes.digest]
  rfl

theorem extendedInjective {a b : UInt32} {bytes : List UInt8}
    (same : extended crc a bytes = extended crc b bytes) : a = b := by
  have registers := congrArg UInt32.toBitVec same
  rw [extendedRegister computes,extendedRegister computes] at registers
  have fed := feedInjective crc32Iscsi.reflected reflectedOdd bytes (finishInjective _ registers)
  exact UInt32.toBitVec_inj.mp (finishInjective _ fed)

theorem extendedWindow (current : UInt32) {x y : List UInt8} {i : Nat} (same : x.length = y.length)
    (differ : x ≠ y) (agree : ∀ j, j < i ∨ i + 4 ≤ j → x[j]? = y[j]?) :
    extended crc current x ≠ extended crc current y := by
  intro equal
  have registers := congrArg UInt32.toBitVec equal
  rw [extendedRegister computes,extendedRegister computes] at registers
  exact windowDetected crc32Iscsi.reflected reflectedOdd _ same differ (Nat.le_refl 32) agree
    (finishInjective _ registers)

theorem storedFold (events : List Event) (h : ChannelHashes) {t : UInt8} (known : KnownTag t) :
    stored (events.foldl (updated crc) h) t =
      extended crc (stored h t) ((ofTag t events).flatMap tlv) := by
  induction events generalizing h with
  | nil => exact (extendedNil computes _).symm
  | cons e events ih =>
    rw [List.foldl_cons,ih,storedUpdated crc h e known,ofTagCons]
    by_cases own : (tlv e).head? = some t
    · rw [if_pos own,if_pos own,List.flatMap_cons,extendedAppend computes]
    · rw [if_neg own,if_neg own]

theorem extendFold {ε : Type} (events : List Event) (current : UInt32) :
    events.foldlM (extend (ε := ε) crc) current =
      .ok (extended crc current (events.flatMap tlv)) := by
  induction events generalizing current with
  | nil => exact congrArg Except.ok (extendedNil computes current).symm
  | cons e events ih =>
    rw [List.foldlM_cons,extendExact,List.flatMap_cons,← extendedAppend computes]
    exact ih _

end
end VisualDigest.HashesExact
