import VisualDigest.ZeroHash

/-! The rolling hashes as a state machine: every step can be taken back, and every state leads to
every other. -/
namespace VisualDigest.ChannelStates
open Checked LittleEndian ReflectedCrc Events Format Hashes Encoder Decoder Wire Grammar EncoderExact
open Narrowing HashesExact DecoderExact RoundTrip ChannelHistory ZeroHash

def ofStored (value : UInt8 → UInt32) : ChannelHashes :=
  ⟨value 0x01,value 0x02,value 0x03,value 0x04,value 0x05,value 0x06,value 0x07,value 0x08⟩

theorem storedOf (value : UInt8 → UInt32) {t : UInt8} (known : KnownTag t) :
    stored (ofStored value) t = value t := by
  rcases knownTags known with rfl | rfl | rfl | rfl | rfl | rfl | rfl | rfl <;> rfl

def rewound (finalized : UInt32) (bytes : List UInt8) : UInt32 :=
  ⟨crc32Iscsi.finish (unfeed crc32Iscsi.reflected (crc32Iscsi.finish finalized.toBitVec) bytes)⟩

def rewoundHashes (h : ChannelHashes) (events : List Event) : ChannelHashes :=
  ofStored fun t => rewound (stored h t) ((ofTag t events).flatMap tlv)

section
variable {crc : CrcCrate} {register : crc.Digest → BitVec 32} (computes : ComputesIscsi crc register)
include computes

theorem extendedRewound (finalized : UInt32) (bytes : List UInt8) :
    extended crc (rewound finalized bytes) bytes = finalized := by
  apply UInt32.toBitVec_inj.mp
  rw [extendedRegister computes]
  change crc32Iscsi.finish (feed _ (crc32Iscsi.finish (crc32Iscsi.finish _)) bytes) = _
  rw [finishFinish,feedUnfeed crc32Iscsi.reflected reflectedOdd,finishFinish]

theorem replayExact (events : List Event) (g h : ChannelHashes) :
    events.foldl (updated crc) g = h ↔ g = rewoundHashes h events := by
  constructor
  · rintro rfl
    refine storedExt fun t known => ?_
    rw [rewoundHashes,storedOf _ known,storedFold computes events g known]
    have back := extendedRewound computes (extended crc (stored g t) ((ofTag t events).flatMap tlv))
      ((ofTag t events).flatMap tlv)
    exact (extendedInjective computes back).symm
  · rintro rfl
    refine storedExt fun t known => ?_
    rw [storedFold computes events _ known,rewoundHashes,storedOf _ known,extendedRewound computes]

theorem startRecovered :
    (∀ (events : List Event) (h : ChannelHashes),
      ∃! g, events.foldlM (update (ε := Empty) crc) g = .ok h) ∧
    ∀ {older newest events : List Event} {t : Selection},
      select (ε := EncodeError) events = .ok t → newest <:+ events.drop (events.length - t.included) →
      (∀ e ∈ newest, Readable e) → ∃ now,
      (older ++ newest).foldlM (update (ε := Empty) crc) .new = .ok now ∧
      ∀ frameCounter framebufferHash out, ∃ n after d,
        (encode events frameCounter framebufferHash now).exec out = (.ok n,after) ∧
        decode (written after n) = .ok d ∧ newest.length ≤ d.rawRecords.length ∧
        ∀ g, (d.rawRecords.drop (d.rawRecords.length - newest.length)).foldlM
            (update (ε := Empty) crc) g = .ok d.channelHashes ↔
          older.foldlM (update (ε := Empty) crc) .new = .ok g := by
  constructor
  · intro events h
    refine ⟨rewoundHashes h events,?_,?_⟩
    · dsimp only
      rw [foldExact,(replayExact computes events _ h).mpr rfl]
    · intro g ran
      rw [foldExact] at ran
      exact (replayExact computes events g h).mp (Except.ok.inj ran)
  · intro older newest events t chosen inside readable
    refine ⟨_,foldExact crc (older ++ newest) .new,fun frameCounter framebufferHash out => ?_⟩
    obtain ⟨n,after,d,ran,decoded,enough,read,hashes⟩ := newestRead chosen inside frameCounter
      framebufferHash ((older ++ newest).foldl (updated crc) .new) out
    refine ⟨n,after,d,ran,decoded,enough,fun g => ?_⟩
    rw [read,hashes,foldExact,foldExact,replayNorm crc g readable,Except.ok.injEq,Except.ok.injEq,
      replayExact computes newest]
    have before := (replayExact computes newest (older.foldl (updated crc) .new) _).mp rfl
    rw [List.foldl_append,← before]
    exact eq_comm

end

theorem startRecoveredWide : ∃ now,
    ([Event.modeCycle 3 true 4] ++ [Event.lineRendered 65537 5]).foldlM
      (update (ε := Empty) bitwiseCrate) .new = .ok now ∧
    ∀ frameCounter framebufferHash out, ∃ n after d,
      (encode [.modeCycle 3 true 4,.lineRendered 65537 5] frameCounter framebufferHash now).exec out =
        (.ok n,after) ∧
      decode (written after n) = .ok d ∧ 1 ≤ d.rawRecords.length ∧
      ∀ g, (d.rawRecords.drop (d.rawRecords.length - 1)).foldlM
          (update (ε := Empty) bitwiseCrate) g = .ok d.channelHashes ↔
        [Event.modeCycle 3 true 4].foldlM (update (ε := Empty) bitwiseCrate) .new = .ok g :=
  (startRecovered bitwiseComputes).2 (selectExact [.modeCycle 3 true 4,.lineRendered 65537 5])
    (List.suffix_append [Event.modeCycle 3 true 4] [.lineRendered 65537 5]) (by simp [Readable])

def connectingWord (current target : UInt32) (e : Event) : UInt32 :=
  ⟨filling crc32Iscsi.reflected (crc32Iscsi.finish current.toBitVec) ((tlv e).take 2) ((tlv e).drop 6)
    (crc32Iscsi.finish target.toBitVec)⟩

section
variable {crc : CrcCrate} {register : crc.Digest → BitVec 32} (computes : ComputesIscsi crc register)
include computes

theorem connected (current target low : UInt32) (e : Event) :
    extended crc current (tlv (withLow low e)) = target ↔ low = connectingWord current target e := by
  obtain ⟨head,rest⟩ := lowKept low e
  have size : 8 * (leBytes 4 (timestamp (withLow low e)).toNat).length = 32 := by rw [leBytesLength]
  have reached := fillingExact crc32Iscsi.reflected reflectedOdd (crc32Iscsi.finish current.toBitVec)
    (crc32Iscsi.finish target.toBitVec) ((tlv (withLow low e)).take 2) ((tlv (withLow low e)).drop 6) size
  rw [packLow,← tlvCut,lowStamp,head,rest] at reached
  rw [← UInt32.toBitVec_inj,← UInt32.toBitVec_inj,connectingWord,← reached,extendedRegister computes]
  constructor
  · intro same
    rw [← finishFinish crc32Iscsi (feed _ _ _),same]
  · intro register
    rw [register,finishFinish]

theorem statesConnected (g h : ChannelHashes) {template : List Event}
    (each : ∀ t, KnownTag t → ∃ e, ofTag t template = [e]) (word : Event → UInt32) :
    (template.map fun e => withLow (word e) e).foldlM (update (ε := Empty) crc) g = .ok h ↔
      ∀ e ∈ template, word e = connectingWord (stored g (narrow e).tag) (stored h (narrow e).tag) e := by
  have channel : ∀ t, ofTag t (template.map fun e => withLow (word e) e) =
      (ofTag t template).map fun e => withLow (word e) e := by
    intro t
    rw [ofTag,List.filter_map]
    congr 1
    refine List.filter_congr fun e _ => ?_
    have head : (tlv (withLow (word e) e)).head? = (tlv e).head? := by
      rw [tlvHead,tlvHead,tagWithLow]
    rw [Function.comp_apply,head]
  have own : ∀ {t e}, ofTag t template = [e] → (narrow e).tag = t ∧ e ∈ template := by
    intro t e single
    have member : e ∈ ofTag t template := by rw [single]; exact List.mem_singleton.mpr rfl
    obtain ⟨inside,tagged⟩ := List.mem_filter.mp member
    exact ⟨Option.some.inj (of_decide_eq_true tagged),inside⟩
  rw [foldExact,Except.ok.injEq]
  constructor
  · rintro rfl e inside
    obtain ⟨e',single⟩ := each (narrow e).tag (recordKnown (narrow e))
    have member : e ∈ ofTag (narrow e).tag template :=
      List.mem_filter.mpr ⟨inside,decide_eq_true (tlvHead e)⟩
    rw [single,List.mem_singleton] at member
    subst member
    refine (connected computes _ _ _ e).mp ?_
    rw [storedFold computes _ g (recordKnown (narrow e)),channel,single]
    simp
  · intro words
    refine storedExt fun t known => ?_
    obtain ⟨e,single⟩ := each t known
    obtain ⟨rfl,inside⟩ := own single
    rw [storedFold computes _ g known,channel,single]
    simpa using (connected computes _ _ _ e).mpr (words e inside)

end

def oneEach : List Event :=
  [.keypress 'a' 0 0,.lineRendered 1 0,.sceneTransition .awaiting .booting 0,
   .bootloaderDecision .retry 1 0,.pasteReceived 1 true 0,.bootloaderTimeout 0,
   .modeSwitch 1 1 1 1 0,.modeCycle 1 true 0]

theorem oneEachSingle {t : UInt8} (known : KnownTag t) : ∃ e, ofTag t oneEach = [e] := by
  rcases knownTags known with rfl | rfl | rfl | rfl | rfl | rfl | rfl | rfl <;> exact ⟨_,rfl⟩

theorem statesConnectedBitwise :
    (oneEach.map fun e => withLow (connectingWord 0 7 e) e).foldlM
        (update (ε := Empty) bitwiseCrate) .new = .ok ⟨7,7,7,7,7,7,7,7⟩ ↔
      ∀ e ∈ oneEach, connectingWord 0 7 e = connectingWord (stored .new (narrow e).tag)
        (stored ⟨7,7,7,7,7,7,7,7⟩ (narrow e).tag) e :=
  statesConnected bitwiseComputes .new ⟨7,7,7,7,7,7,7,7⟩ (fun _ known => oneEachSingle known)
    (connectingWord 0 7)

end VisualDigest.ChannelStates
