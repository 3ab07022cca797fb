import VisualDigest.ChannelStates
import VisualDigest.Fidelity
import VisualDigest.Library.CrcPolynomial

/-! What the rolling hashes see of a changed history: they count the ones of a channel modulo two, miss
a change in place just when the generator divides it, and miss a gap just when it leads back to where
it began. -/
namespace VisualDigest.Detection
open Checked ReflectedCrc Events Format Hashes Encoder Decoder Wire Grammar EncoderExact HashesExact
open Narrowing RoundTrip ChannelHistory ZeroHash ChannelStates Fidelity

theorem reflectedEven : EvenGenerator crc32Iscsi.reflected := by decide +kernel

/- The generator is x + 1 times a primitive polynomial of degree 31. -/
theorem reflectedPeriod : orderOf (AdjoinRoot.root (generator crc32Iscsi.reflected)) = 2^31 - 1 :=
  periodExact reflectedOdd (by decide) (by decide +kernel)
    (lucas_lehmer_sufficiency 31 (by norm_num) (by norm_num))

theorem channelTagged {t : UInt8} {events : List Event} {e : Event} (inside : e ∈ ofTag t events) :
    (tlv e).head? = some t :=
  of_decide_eq_true (List.mem_filter.mp inside).2

theorem streamLength {t : UInt8} {es es' : List Event} (own : ∀ e ∈ es, (tlv e).head? = some t)
    (own' : ∀ e ∈ es', (tlv e).head? = some t) (many : es.length = es'.length) :
    (es.flatMap tlv).length = (es'.flatMap tlv).length := by
  induction es generalizing es' with
  | nil => cases List.length_eq_zero_iff.mp many.symm; rfl
  | cons e es ih =>
    cases es' with
    | nil => contradiction
    | cons e' es' =>
      obtain ⟨head,rest⟩ := List.forall_mem_cons.mp own
      obtain ⟨head',rest'⟩ := List.forall_mem_cons.mp own'
      rw [List.flatMap_cons,List.flatMap_cons,List.length_append,List.length_append,
        tlvVariant (head.trans head'.symm),ih rest rest' (Nat.succ.inj many)]

section
variable {crc : CrcCrate} {register : crc.Digest → BitVec 32} (computes : ComputesIscsi crc register)
include computes

theorem extendedSame (current : UInt32) (xs ys : List UInt8) :
    extended crc current xs = extended crc current ys ↔
      feed crc32Iscsi.reflected (crc32Iscsi.finish current.toBitVec) xs =
        feed crc32Iscsi.reflected (crc32Iscsi.finish current.toBitVec) ys := by
  rw [← UInt32.toBitVec_inj,extendedRegister computes,extendedRegister computes]
  exact ⟨finishInjective crc32Iscsi,congrArg _⟩

theorem storedParity (history : List Event) (g : ChannelHashes) {t : UInt8} (known : KnownTag t) :
    ones (stored (history.foldl (updated crc) g) t).toBitVec % 2 =
      (ones (stored g t).toBitVec + byteOnes ((ofTag t history).flatMap tlv)) % 2 := by
  rw [storedFold computes history g known,extendedRegister computes]
  exact resumedParity crc32Iscsi reflectedEven (by decide) _ _

theorem paritiesCounted (g : ChannelHashes) (history : List Event) :
    ∃ h, history.foldlM (update (ε := Empty) crc) g = .ok h ∧ ∀ t, KnownTag t →
      ∃ xs, (ofTag t history).mapM (eventTlv (ε := Empty)) = .ok xs ∧
        ones (stored h t).toBitVec % 2 = (ones (stored g t).toBitVec + byteOnes xs.flatten) % 2 := by
  refine ⟨_,foldExact crc history g,fun t known => ⟨_,tlvsExact _,?_⟩⟩
  rw [← List.flatMap_def]
  exact storedParity computes history g known

theorem collisionsExact (g : ChannelHashes) (history other : List Event) {t : UInt8} (known : KnownTag t)
    (many : (ofTag t history).length = (ofTag t other).length) :
    ∃ h h' xs ys, history.foldlM (update (ε := Empty) crc) g = .ok h ∧
      other.foldlM (update (ε := Empty) crc) g = .ok h' ∧
      (ofTag t history).mapM (eventTlv (ε := Empty)) = .ok xs ∧
      (ofTag t other).mapM (eventTlv (ε := Empty)) = .ok ys ∧
      (stored h t = stored h' t ↔
        generator crc32Iscsi.reflected ∣ message (flips xs.flatten ys.flatten)) ∧
      (byteOnes (flips xs.flatten ys.flatten) % 2 = 1 → stored h t ≠ stored h' t) ∧
      (8 * xs.flatten.length < 2^31 → 1 ≤ byteOnes (flips xs.flatten ys.flatten) →
        byteOnes (flips xs.flatten ys.flatten) ≤ 3 → stored h t ≠ stored h' t) := by
  have same := streamLength (fun e => channelTagged) (fun e => channelTagged) many
  refine ⟨_,_,_,_,foldExact crc history g,foldExact crc other g,tlvsExact _,tlvsExact _,?_⟩
  rw [storedFold computes history g known,storedFold computes other g known,← List.flatMap_def,
    ← List.flatMap_def,Ne,extendedSame computes]
  refine ⟨?_,?_,?_⟩
  · rw [feedSame reflectedOdd (by decide) _ same,messageFlips same]
  · intro odd equal
    have left := feedParity reflectedEven (by decide) (crc32Iscsi.finish (stored g t).toBitVec)
      ((ofTag t history).flatMap tlv)
    have right := feedParity reflectedEven (by decide) (crc32Iscsi.finish (stored g t).toBitVec)
      ((ofTag t other).flatMap tlv)
    have differ := flipsParity same
    rw [equal] at left
    omega
  · intro short some few
    refine fewDetected reflectedOdd reflectedEven (by decide) _ same some few ?_
    rw [reflectedPeriod]
    omega

theorem gapReplay (missed : List Event) (before : ChannelHashes) {newest : List Event}
    (readable : ∀ e ∈ newest, Readable e) :
    (newest.map normEvent).foldl (updated crc) before =
        newest.foldl (updated crc) (missed.foldl (updated crc) before) ↔
      missed.foldl (updated crc) before = before := by
  rw [replayNorm crc before readable,replayExact computes newest]
  have behind := (replayExact computes newest (missed.foldl (updated crc) before) _).mp rfl
  rw [← behind]
  exact eq_comm

theorem loneReturn (before : ChannelHashes) (low : UInt32) (e : Event) :
    updated crc before (withLow low e) = before ↔
      low = connectingWord (stored before (narrow e).tag) (stored before (narrow e).tag) e := by
  have own : (tlv (withLow low e)).head? = some (narrow e).tag := by
    rw [tlvHead,tagWithLow]
  rw [← connected computes]
  constructor
  · intro back
    have channel := congrArg (fun h => stored h (narrow e).tag) back
    simp only [storedUpdated crc before _ (recordKnown (narrow e)),if_pos own] at channel
    exact channel
  · intro back
    refine storedExt fun t known => ?_
    rw [storedUpdated crc before _ known,own]
    by_cases same : some (narrow e).tag = some t
    · cases same
      rw [if_pos rfl,back]
    · rw [if_neg same]

theorem gapsSeen {older missed newest events : List Event} {t : Selection}
    (chosen : select (ε := EncodeError) events = .ok t)
    (inside : newest <:+ events.drop (events.length - t.included)) (readable : ∀ e ∈ newest, Readable e) :
    ∃ before now, older.foldlM (update (ε := Empty) crc) .new = .ok before ∧
      (older ++ missed ++ newest).foldlM (update (ε := Empty) crc) .new = .ok now ∧
      ∀ frameCounter framebufferHash out, ∃ n after d,
        (encode events frameCounter framebufferHash now).exec out = (.ok n,after) ∧
        decode (written after n) = .ok d ∧ newest.length ≤ d.rawRecords.length ∧
        ((d.rawRecords.drop (d.rawRecords.length - newest.length)).foldlM
            (update (ε := Empty) crc) before = .ok d.channelHashes ↔
          missed.foldlM (update (ε := Empty) crc) before = .ok before) ∧
        (∀ t xs, KnownTag t → (ofTag t missed).mapM (eventTlv (ε := Empty)) = .ok xs →
          byteOnes xs.flatten % 2 = 1 → missed.foldlM (update (ε := Empty) crc) before ≠ .ok before) ∧
        ∀ low e, missed = [withLow low e] → (missed.foldlM (update (ε := Empty) crc) before = .ok before ↔
          low = connectingWord (stored before (narrow e).tag) (stored before (narrow e).tag) e) := by
  refine ⟨_,_,foldExact crc older .new,foldExact crc (older ++ missed ++ newest) .new,?_⟩
  intro frameCounter framebufferHash out
  obtain ⟨n,after,d,ran,decoded,enough,read,hashes⟩ := newestRead chosen inside frameCounter
    framebufferHash ((older ++ missed ++ newest).foldl (updated crc) .new) out
  refine ⟨n,after,d,ran,decoded,enough,?_,?_,?_⟩
  · rw [read,hashes,foldExact,foldExact,Except.ok.injEq,Except.ok.injEq,List.foldl_append,List.foldl_append]
    exact gapReplay computes missed _ readable
  · intro t xs known streams odd back
    cases (tlvsExact _).symm.trans streams
    rw [foldExact,Except.ok.injEq] at back
    have counted := storedParity computes missed (older.foldl (updated crc) .new) known
    rw [back,List.flatMap_def] at counted
    omega
  · rintro low e rfl
    rw [foldExact,Except.ok.injEq]
    exact loneReturn computes _ low e

end

theorem paritiesCountedTimeouts : ∃ h,
    [Event.bootloaderTimeout 5,.modeCycle 1 true 6,.bootloaderTimeout 7].foldlM
      (update (ε := Empty) bitwiseCrate) .new = .ok h ∧ ∀ t, KnownTag t →
      ∃ xs, (ofTag t [.bootloaderTimeout 5,.modeCycle 1 true 6,.bootloaderTimeout 7]).mapM
          (eventTlv (ε := Empty)) = .ok xs ∧
        ones (stored h t).toBitVec % 2 = (ones (stored .new t).toBitVec + byteOnes xs.flatten) % 2 :=
  paritiesCounted bitwiseComputes .new [.bootloaderTimeout 5,.modeCycle 1 true 6,.bootloaderTimeout 7]

theorem collisionsExactTimeouts : ∃ h h',
    [Event.bootloaderTimeout 5,.modeCycle 1 true 6].foldlM (update (ε := Empty) bitwiseCrate) .new = .ok h ∧
    [Event.bootloaderTimeout 6].foldlM (update (ε := Empty) bitwiseCrate) .new = .ok h' ∧
    stored h 0x06 ≠ stored h' 0x06 := by
  obtain ⟨h,h',xs,ys,ran,ran',read,read',_,_,seen⟩ := @collisionsExact bitwiseCrate id bitwiseComputes .new
    [.bootloaderTimeout 5,.modeCycle 1 true 6] [.bootloaderTimeout 6] 0x06 (by decide) (by decide)
  cases (tlvsExact _).symm.trans read
  cases (tlvsExact _).symm.trans read'
  exact ⟨h,h',ran,ran',seen (by decide) (by decide) (by decide)⟩

theorem gapsSeenTimeout : ∃ before now,
    [Event.modeCycle 3 true 4].foldlM (update (ε := Empty) bitwiseCrate) .new = .ok before ∧
    ([Event.modeCycle 3 true 4] ++ [Event.bootloaderTimeout 5] ++ [Event.lineRendered 65537 6]).foldlM
      (update (ε := Empty) bitwiseCrate) .new = .ok now ∧
    ∀ frameCounter framebufferHash out, ∃ n after d,
      (encode [.lineRendered 65537 6] frameCounter framebufferHash now).exec out = (.ok n,after) ∧
      decode (written after n) = .ok d ∧
      (d.rawRecords.drop (d.rawRecords.length - 1)).foldlM
        (update (ε := Empty) bitwiseCrate) before ≠ .ok d.channelHashes := by
  obtain ⟨before,now,ran,ranNow,shown⟩ := @gapsSeen bitwiseCrate id bitwiseComputes [.modeCycle 3 true 4]
    [.bootloaderTimeout 5] [.lineRendered 65537 6] [.lineRendered 65537 6] _ (selectExact _)
    (List.suffix_refl _) (by simp [Readable])
  refine ⟨before,now,ran,ranNow,fun frameCounter framebufferHash out => ?_⟩
  obtain ⟨n,after,d,encoded,decoded,_,replay,odd,_⟩ := shown frameCounter framebufferHash out
  refine ⟨n,after,d,encoded,decoded,fun onto => ?_⟩
  exact odd 0x06 _ (by decide) (tlvsExact _) (by decide) (replay.mp onto)

end VisualDigest.Detection
