import VisualDigest.HashesExact
import VisualDigest.RoundTrip

/-! What the hash block tells a host about the events since the start. -/
namespace VisualDigest.ChannelHistory
open Checked LittleEndian ReflectedCrc Events Format Hashes Encoder Decoder Wire Grammar Narrowing
open EncoderExact DecoderExact RoundTrip HashesExact

def bitwiseCrate : CrcCrate where
  Digest := BitVec 32
  digest := crc32Iscsi.init.reverse
  digestWithInitial initial := initial.toBitVec.reverse
  update := feed crc32Iscsi.reflected
  finalize r := ⟨crc32Iscsi.finish r⟩
  checksum := crc32c

theorem bitwiseComputes : ComputesIscsi bitwiseCrate id where
  digest := rfl
  digestWithInitial _ := rfl
  update _ _ := rfl
  finalize _ := rfl
  checksum _ := rfl

theorem hashRecordAt {p : Payload} {t : UInt8} (known : KnownTag t) :
    (p.bytes.drop (10 + 6 * (t.toNat-1))).take 6 = [0x10 + t,4] ++ le (stored p.hashes t) := by
  rcases knownTags known with rfl | rfl | rfl | rfl | rfl | rfl | rfl | rfl <;> rfl

theorem hashesWritten {n : Nat} {after : List.Vector UInt8 digestPayloadCapacity} {p : Payload}
    (long : 62 ≤ n) (front : (written after n).data = p.bytes) {t : UInt8} (known : KnownTag t) :
    (after.toList.drop (10 + 6 * (t.toNat-1))).take 6 = [0x10 + t,4] ++ le (stored p.hashes t) := by
  have bound : t.toNat ≤ 8 := known.2
  have cut : ((after.toList.take n).drop (10 + 6 * (t.toNat-1))).take 6 =
      (after.toList.drop (10 + 6 * (t.toNat-1))).take 6 := by
    rw [List.drop_take,List.take_take,Nat.min_eq_left (by omega)]
  have content : after.toList.take n = p.bytes := front
  rw [← cut,content]
  exact hashRecordAt known

theorem sinceStart {crc : CrcCrate} {register : crc.Digest → BitVec 32}
    (computes : ComputesIscsi crc register) (history : List Event) {t : UInt8} (known : KnownTag t) :
    stored (history.foldl (updated crc) .new) t = crc32c ((ofTag t history).flatMap tlv) := by
  have start : stored .new t = 0 := by
    rcases knownTags known with rfl | rfl | rfl | rfl | rfl | rfl | rfl | rfl <;> rfl
  rw [storedFold computes history .new known,start,extendedStart computes]

theorem hashBlockSinceStart {crc : CrcCrate} {register : crc.Digest → BitVec 32}
    (computes : ComputesIscsi crc register) (history : List Event) :
    ∃ h, history.foldlM (update (ε := Empty) crc) .new = .ok h ∧
      (∀ events frameCounter framebufferHash out, ∃ n after,
        (encode events frameCounter framebufferHash h).exec out = (.ok n,after) ∧ 62 ≤ n ∧
        ∀ t, KnownTag t → (after.toList.drop (10 + 6 * (t.toNat-1))).take 6 =
          [0x10 + t,4] ++ le (crc32c ((ofTag t history).flatMap tlv))) ∧
      (∀ t, ofTag t history = [] → crc32c ((ofTag t history).flatMap tlv) = 0) ∧
      (∀ e, eventTlv (ε := Empty) e = .ok (tlv e)) ∧
      ∀ other, (∀ t, KnownTag t → ofTag t other = ofTag t history) →
        other.foldlM (update (ε := Empty) crc) .new = .ok h := by
  refine ⟨_,foldExact crc history .new,?_,?_,eventTlvExact,?_⟩
  · intro events frameCounter framebufferHash out
    obtain ⟨after,ran,front,_⟩ := encodeWritten events frameCounter framebufferHash
      (history.foldl (updated crc) .new) out
    refine ⟨_,after,ran,Nat.le_add_right _ _,fun t known => ?_⟩
    rw [hashesWritten (Nat.le_add_right _ _) front known,← sinceStart computes history known]
    rfl
  · intro t none
    rw [none]
    decide +kernel
  · intro other same
    rw [foldExact]
    apply congrArg Except.ok
    apply storedExt
    intro t known
    rw [sinceStart computes other known,sinceStart computes history known,same t known]

theorem hashBlockSinceStartTimeouts :
    ∃ h, [Event.bootloaderTimeout 5,.modeCycle 1 true 6,.bootloaderTimeout 7].foldlM
        (update (ε := Empty) bitwiseCrate) .new = .ok h ∧
      (∀ events frameCounter framebufferHash out, ∃ n after,
        (encode events frameCounter framebufferHash h).exec out = (.ok n,after) ∧ 62 ≤ n ∧
        ∀ t, KnownTag t → (after.toList.drop (10 + 6 * (t.toNat-1))).take 6 = [0x10 + t,4] ++
          le (crc32c ((ofTag t [.bootloaderTimeout 5,.modeCycle 1 true 6,.bootloaderTimeout 7]).flatMap
            tlv))) ∧
      (∀ t, ofTag t [.bootloaderTimeout 5,.modeCycle 1 true 6,.bootloaderTimeout 7] = [] →
        crc32c ((ofTag t [.bootloaderTimeout 5,.modeCycle 1 true 6,.bootloaderTimeout 7]).flatMap tlv) =
          0) ∧
      (∀ e, eventTlv (ε := Empty) e = .ok (tlv e)) ∧
      ∀ other, (∀ t, KnownTag t → ofTag t other =
          ofTag t [.bootloaderTimeout 5,.modeCycle 1 true 6,.bootloaderTimeout 7]) →
        other.foldlM (update (ε := Empty) bitwiseCrate) .new = .ok h :=
  hashBlockSinceStart bitwiseComputes _

theorem resumptionExact {crc : CrcCrate} {register : crc.Digest → BitVec 32}
    (computes : ComputesIscsi crc register) :
    (∀ a b, crc.finalize (crc.update (crc.digestWithInitial (resumeInitial (crc.checksum a))) b) =
      crc.checksum (a ++ b)) ∧
    ∀ f, crc.finalize (crc.digestWithInitial (resumeInitial f)) = f ∧
      crc.finalize (crc.update (crc.digestWithInitial (resumeInitial f)) []) = f := by
  refine ⟨fun a b => ?_,fun f => ⟨?_,extendedNil computes f⟩⟩
  · change extended crc (crc.checksum a) b = _
    rw [checksumExact computes,checksumExact computes,← extendedStart computes,
      extendedAppend computes,extendedStart computes]
  · apply UInt32.toBitVec_inj.mp
    have resumed : (resumeInitial f).toBitVec.reverse = crc32Iscsi.finish f.toBitVec :=
      resumeRegister crc32Iscsi f.toBitVec
    rw [computes.finalize,computes.digestWithInitial,resumed,finishFinish]

theorem resumptionExactBitwise :
    (∀ a b, bitwiseCrate.finalize (bitwiseCrate.update
        (bitwiseCrate.digestWithInitial (resumeInitial (bitwiseCrate.checksum a))) b) =
      bitwiseCrate.checksum (a ++ b)) ∧
    ∀ f, bitwiseCrate.finalize (bitwiseCrate.digestWithInitial (resumeInitial f)) = f ∧
      bitwiseCrate.finalize (bitwiseCrate.update
        (bitwiseCrate.digestWithInitial (resumeInitial f)) []) = f :=
  resumptionExact bitwiseComputes

/- The low 16 bits of a key's code point are no surrogate. -/
def Readable : Event → Prop
  | .keypress unicode .. => ¬ Surrogate (unicode.toNat % 65536)
  | _ => True

theorem flagBit (flag : Bool) : flag.toUInt8 = 0 ∨ flag.toUInt8 = 1 := by
  cases flag
  · exact .inl rfl
  · exact .inr rfl

theorem readableCanonical {e : Event} (readable : Readable e) : Canonical (narrow e) := by
  cases e with
  | keypress unicode scancode ts =>
    have code : unicode.val.toUInt16.toNat = unicode.toNat % 65536 := UInt32.toNat_toUInt16 unicode.val
    rw [narrow,Canonical,code]
    exact readable
  | pasteReceived len correct ts => exact flagBit correct
  | modeCycle count interrupted ts => exact flagBit interrupted
  | _ => trivial

theorem tlvNorm {e : Event} (readable : Readable e) : tlv (normEvent e) = tlv e := by
  have again := (narrowEvent (narrow e)).mpr (readableCanonical readable)
  rw [eventNarrow] at again
  rw [tlv,again,tlv]

theorem updatedNorm (crc : CrcCrate) (h : ChannelHashes) {e : Event} (readable : Readable e) :
    updated crc h (normEvent e) = updated crc h e := by
  have same := tlvNorm readable
  cases e <;> simp only [normEvent,updated] at same ⊢ <;> rw [same]

theorem replayNorm (crc : CrcCrate) (h : ChannelHashes) {events : List Event}
    (readable : ∀ e ∈ events, Readable e) :
    (events.map normEvent).foldl (updated crc) h = events.foldl (updated crc) h := by
  induction events generalizing h with
  | nil => rfl
  | cons e events ih =>
    rw [List.map_cons,List.foldl_cons,List.foldl_cons,updatedNorm crc h (readable e (List.mem_cons_self ..))]
    exact ih _ (fun later member => readable later (List.mem_cons_of_mem _ member))

theorem newestRead {events newest : List Event} {t : Selection}
    (chosen : select (ε := EncodeError) events = .ok t)
    (inside : newest <:+ events.drop (events.length - t.included)) (frameCounter framebufferHash : UInt32)
    (now : ChannelHashes) (out : List.Vector UInt8 digestPayloadCapacity) :
    ∃ n after d, (encode events frameCounter framebufferHash now).exec out = (.ok n,after) ∧
      decode (written after n) = .ok d ∧ newest.length ≤ d.rawRecords.length ∧
      d.rawRecords.drop (d.rawRecords.length - newest.length) = newest.map normEvent ∧
      d.channelHashes = now := by
  obtain ⟨after,ran,front,_⟩ := encodeWritten events frameCounter framebufferHash now out
  rw [selectChosen chosen] at inside
  obtain ⟨kept,split⟩ := inside
  have read : (payload events frameCounter framebufferHash now).digest.rawRecords =
      kept.map normEvent ++ newest.map normEvent := by
    rw [← List.map_append,split]
    exact knownEvents _
  have last : (kept.map normEvent ++ newest.map normEvent).length - newest.length =
      (kept.map normEvent).length := by simp
  refine ⟨_,after,_,ran,decodePayload front,?_,?_,rfl⟩
  · rw [read,List.length_append,List.length_map,List.length_map]
    exact Nat.le_add_left _ _
  · rw [read,last,List.drop_left]

theorem replayVerifies (crc : CrcCrate) {older newest events : List Event} {t : Selection}
    (chosen : select (ε := EncodeError) events = .ok t)
    (inside : newest <:+ events.drop (events.length - t.included))
    (readable : ∀ e ∈ newest, Readable e) :
    ∃ before now, older.foldlM (update (ε := Empty) crc) .new = .ok before ∧
      (older ++ newest).foldlM (update (ε := Empty) crc) .new = .ok now ∧
      (∀ e ∈ newest, eventTlv (ε := Empty) (normEvent e) = eventTlv e) ∧
      ∀ frameCounter framebufferHash out, ∃ n after d,
        (encode events frameCounter framebufferHash now).exec out = (.ok n,after) ∧
        decode (written after n) = .ok d ∧ newest.length ≤ d.rawRecords.length ∧
        (d.rawRecords.drop (d.rawRecords.length - newest.length)).foldlM
          (update (ε := Empty) crc) before = .ok d.channelHashes := by
  refine ⟨_,_,foldExact crc older .new,foldExact crc (older ++ newest) .new,?_,?_⟩
  · intro e member
    rw [eventTlvExact,eventTlvExact,tlvNorm (readable e member)]
  intro frameCounter framebufferHash out
  obtain ⟨n,after,d,ran,decoded,enough,read,hashes⟩ := newestRead chosen inside frameCounter
    framebufferHash ((older ++ newest).foldl (updated crc) .new) out
  refine ⟨n,after,d,ran,decoded,enough,?_⟩
  rw [read,hashes,foldExact,replayNorm crc _ readable,← List.foldl_append]

theorem replayVerifiesWide :
    ∃ before now,
      [Event.modeCycle 3 true 4].foldlM (update (ε := Empty) bitwiseCrate) .new = .ok before ∧
      ([Event.modeCycle 3 true 4] ++ [Event.lineRendered 65537 5]).foldlM
        (update (ε := Empty) bitwiseCrate) .new = .ok now ∧
      (∀ e ∈ [Event.lineRendered 65537 5], eventTlv (ε := Empty) (normEvent e) = eventTlv e) ∧
      ∀ frameCounter framebufferHash out, ∃ n after d,
        (encode [.modeCycle 3 true 4,.lineRendered 65537 5] frameCounter framebufferHash now).exec out =
          (.ok n,after) ∧
        decode (written after n) = .ok d ∧ 1 ≤ d.rawRecords.length ∧
        (d.rawRecords.drop (d.rawRecords.length - 1)).foldlM
          (update (ε := Empty) bitwiseCrate) before = .ok d.channelHashes :=
  @replayVerifies bitwiseCrate [.modeCycle 3 true 4] [.lineRendered 65537 5]
    [.modeCycle 3 true 4,.lineRendered 65537 5] _ (selectExact _)
    (List.suffix_append [Event.modeCycle 3 true 4] _) (by simp [Readable])

theorem divergenceKept {crc : CrcCrate} {register : crc.Digest → BitVec 32}
    (computes : ComputesIscsi crc register) :
    (∀ (current : UInt32) (older newer : List Event) (e e' : Event) (x y : List UInt8) (i : Nat),
      eventTlv (ε := Empty) e = .ok x → eventTlv (ε := Empty) e' = .ok y →
      x.head? = y.head? → x ≠ y → (∀ j, j < i ∨ i + 4 ≤ j → x[j]? = y[j]?) →
      ∃ f g, (older ++ [e] ++ newer).foldlM (extend (ε := Empty) crc) current = .ok f ∧
        (older ++ [e'] ++ newer).foldlM (extend (ε := Empty) crc) current = .ok g ∧ f ≠ g) ∧
    ∀ (a b : UInt32) (events : List Event), a ≠ b →
      ∃ f g, events.foldlM (extend (ε := Empty) crc) a = .ok f ∧
        events.foldlM (extend (ε := Empty) crc) b = .ok g ∧ f ≠ g := by
  constructor
  · intro current older newer e e' x y i ran ran' variant differ agree
    cases (eventTlvExact e).symm.trans ran
    cases (eventTlvExact e').symm.trans ran'
    refine ⟨_,_,extendFold computes _ current,extendFold computes _ current,fun equal => ?_⟩
    simp only [List.flatMap_append,List.flatMap_singleton,← extendedAppend computes] at equal
    exact extendedWindow computes _ (tlvVariant variant) differ agree (extendedInjective computes equal)
  · intro a b events apart
    exact ⟨_,_,extendFold computes events a,extendFold computes events b,
      fun equal => apart (extendedInjective computes equal)⟩

theorem divergenceKeptBitwise :
    (∀ (current : UInt32) (older newer : List Event) (e e' : Event) (x y : List UInt8) (i : Nat),
      eventTlv (ε := Empty) e = .ok x → eventTlv (ε := Empty) e' = .ok y →
      x.head? = y.head? → x ≠ y → (∀ j, j < i ∨ i + 4 ≤ j → x[j]? = y[j]?) →
      ∃ f g, (older ++ [e] ++ newer).foldlM (extend (ε := Empty) bitwiseCrate) current = .ok f ∧
        (older ++ [e'] ++ newer).foldlM (extend (ε := Empty) bitwiseCrate) current = .ok g ∧ f ≠ g) ∧
    ∀ (a b : UInt32) (events : List Event), a ≠ b →
      ∃ f g, events.foldlM (extend (ε := Empty) bitwiseCrate) a = .ok f ∧
        events.foldlM (extend (ε := Empty) bitwiseCrate) b = .ok g ∧ f ≠ g :=
  divergenceKept bitwiseComputes

end VisualDigest.ChannelHistory
