import VisualDigest.ChannelHistory

/-! Zero as a channel's hash. It stands for no event, and is the check of some events too:
four bytes of a record are free, and exactly one filling of them leads back to zero. -/
namespace VisualDigest.ZeroHash
open LittleEndian ReflectedCrc Events Hashes Wire Grammar EncoderExact HashesExact ChannelHistory

def timestamp : Event → UInt64
  | .keypress _ _ ts => ts
  | .lineRendered _ ts => ts
  | .sceneTransition _ _ ts => ts
  | .bootloaderDecision _ _ ts => ts
  | .pasteReceived _ _ ts => ts
  | .bootloaderTimeout ts => ts
  | .modeSwitch _ _ _ _ ts => ts
  | .modeCycle _ _ ts => ts

def stamped (ts : UInt64) : Event → Event
  | .keypress unicode scancode _ => .keypress unicode scancode ts
  | .lineRendered row _ => .lineRendered row ts
  | .sceneTransition f t _ => .sceneTransition f t ts
  | .bootloaderDecision choice attempt _ => .bootloaderDecision choice attempt ts
  | .pasteReceived len correct _ => .pasteReceived len correct ts
  | .bootloaderTimeout _ => .bootloaderTimeout ts
  | .modeSwitch rw rh aw ah _ => .modeSwitch rw rh aw ah ts
  | .modeCycle count interrupted _ => .modeCycle count interrupted ts

def withLow (low : UInt32) (e : Event) : Event :=
  stamped (UInt64.ofNat (2^32 * ((timestamp e).toNat/2^32) + low.toNat)) e

/- The low timestamp word that brings the channel of `e` to zero behind the events `older`.
It is found by running the register backwards over the rest of the record. -/
def zeroingWord (older : List Event) (e : Event) : UInt32 :=
  ⟨filling crc32Iscsi.reflected crc32Iscsi.init.reverse (older.flatMap tlv ++ (tlv e).take 2)
    ((tlv e).drop 6) (crc32Iscsi.finish 0)⟩

theorem stampedSelf (e : Event) : stamped (timestamp e) e = e := by
  cases e <;> rfl

theorem timestampStamped (ts : UInt64) (e : Event) : timestamp (stamped ts e) = ts := by
  cases e <;> rfl

/-! A record is its tag and length, the low half of the timestamp, the high half, the other
fields. -/

theorem stampedHead (ts : UInt64) (e : Event) : (tlv (stamped ts e)).take 2 = (tlv e).take 2 := by
  cases e <;> rfl

theorem stampedRest (ts : UInt64) (e : Event) :
    (tlv (stamped ts e)).drop 6 = leBytes 4 (ts.toNat/256/256/256/256) ++ (tlv e).drop 10 := by
  cases e <;> rfl

theorem lowBytes (e : Event) : ((tlv e).drop 2).take 4 = leBytes 4 (timestamp e).toNat := by
  cases e <;> rfl

theorem tlvCut (e : Event) :
    tlv e = (tlv e).take 2 ++ leBytes 4 (timestamp e).toNat ++ (tlv e).drop 6 := by
  have rest : (tlv e).drop 2 = ((tlv e).drop 2).take 4 ++ (tlv e).drop 6 := by
    rw [← List.drop_drop (i := 4) (j := 2),List.take_append_drop]
  rw [← lowBytes,List.append_assoc,← rest,List.take_append_drop]

theorem packLow (ts : UInt64) : pack 32 (leBytes 4 ts.toNat) = ts.toUInt32.toBitVec := by
  apply BitVec.eq_of_toNat_eq
  rw [packToNat (by rw [leBytesLength]),leValueMod]
  rfl

theorem zeroExact (older : List Event) (e : Event) :
    crc32c ((older ++ [e]).flatMap tlv) = 0 ↔ (timestamp e).toUInt32 = zeroingWord older e := by
  have cut : (older ++ [e]).flatMap tlv = (older.flatMap tlv ++ (tlv e).take 2) ++
      leBytes 4 (timestamp e).toNat ++ (tlv e).drop 6 := by
    rw [List.flatMap_append,List.flatMap_singleton,List.append_assoc,List.append_assoc,
      ← List.append_assoc ((tlv e).take 2),← tlvCut]
  have size : 8 * (leBytes 4 (timestamp e).toNat).length = 32 := by rw [leBytesLength]
  have reached := fillingExact crc32Iscsi.reflected reflectedOdd crc32Iscsi.init.reverse
    (crc32Iscsi.finish 0) (older.flatMap tlv ++ (tlv e).take 2) ((tlv e).drop 6) size
  rw [packLow,← cut] at reached
  rw [← UInt32.toBitVec_inj,← UInt32.toBitVec_inj,zeroingWord,← reached]
  constructor
  · intro zero
    rw [← finishFinish crc32Iscsi (feed _ _ _)]
    exact congrArg crc32Iscsi.finish zero
  · intro register
    change crc32Iscsi.finish (feed _ _ _) = 0
    rw [register,finishFinish]

theorem lowStamp (low : UInt32) (e : Event) : (timestamp (withLow low e)).toUInt32 = low := by
  have small := low.toNat_lt
  have whole := (timestamp e).toNat_lt
  apply UInt32.toNat_inj.mp
  rw [withLow,timestampStamped,UInt64.toNat_toUInt32,UInt64.toNat_ofNat']
  omega

theorem lowKept (low : UInt32) (e : Event) : (tlv (withLow low e)).take 2 = (tlv e).take 2 ∧
    (tlv (withLow low e)).drop 6 = (tlv e).drop 6 := by
  have small := low.toNat_lt
  have whole := (timestamp e).toNat_lt
  have high : (UInt64.ofNat (2^32 * ((timestamp e).toNat/2^32) + low.toNat)).toNat/256/256/256/256 =
      (timestamp e).toNat/256/256/256/256 := by
    rw [UInt64.toNat_ofNat']
    omega
  refine ⟨stampedHead _ e,?_⟩
  rw [withLow,stampedRest,high,← stampedRest,stampedSelf]

theorem zeroingWordKept (older : List Event) (low : UInt32) (e : Event) :
    zeroingWord older (withLow low e) = zeroingWord older e := by
  rw [zeroingWord,zeroingWord,(lowKept low e).1,(lowKept low e).2]

theorem tagWithLow (low : UInt32) (e : Event) : (narrow (withLow low e)).tag = (narrow e).tag := by
  cases e <;> rfl

theorem ofTagOwn (history : List Event) {e : Event} {t : UInt8} (own : (narrow e).tag = t) :
    ofTag t (history ++ [e]) = ofTag t history ++ [e] := by
  simp [ofTag,tlvHead,own]

theorem zeroHashExact {crc : CrcCrate} {register : crc.Digest → BitVec 32}
    (computes : ComputesIscsi crc register) :
    (∀ history, ∃ h, history.foldlM (update (ε := Empty) crc) .new = .ok h ∧
      ∀ t, KnownTag t → (stored h t = 0 ↔ ofTag t history = [] ∨
        ∃ older e, ofTag t history = older ++ [e] ∧
          (timestamp e).toUInt32 = zeroingWord older e)) ∧
    ∀ history e, ∃! low, ∃ h,
      (history ++ [withLow low e]).foldlM (update (ε := Empty) crc) .new = .ok h ∧
        stored h (narrow e).tag = 0 := by
  have empty : crc32c [] = 0 := by decide +kernel
  constructor
  · intro history
    refine ⟨_,foldExact crc history .new,fun t known => ?_⟩
    rw [sinceStart computes history known]
    rcases List.eq_nil_or_concat (ofTag t history) with unseen | ⟨older,e,newest⟩
    · simp [unseen,empty]
    · rw [newest,List.concat_eq_append,zeroExact]
      simp
  · intro history e
    have known : KnownTag (narrow e).tag := recordKnown (narrow e)
    have decided : ∀ low, (∃ h,
        (history ++ [withLow low e]).foldlM (update (ε := Empty) crc) .new = .ok h ∧
          stored h (narrow e).tag = 0) ↔ low = zeroingWord (ofTag (narrow e).tag history) e := by
      intro low
      have last := zeroExact (ofTag (narrow e).tag history) (withLow low e)
      rw [← ofTagOwn history (tagWithLow low e),← sinceStart computes _ known,lowStamp,
        zeroingWordKept] at last
      rw [foldExact,← last]
      constructor
      · rintro ⟨h,ran,zero⟩
        cases ran
        exact zero
      · exact fun zero => ⟨_,rfl,zero⟩
    exact ⟨_,(decided _).mpr rfl,fun low => (decided low).mp⟩

theorem zeroHashExactBitwise :
    (∀ history, ∃ h, history.foldlM (update (ε := Empty) bitwiseCrate) .new = .ok h ∧
      ∀ t, KnownTag t → (stored h t = 0 ↔ ofTag t history = [] ∨
        ∃ older e, ofTag t history = older ++ [e] ∧
          (timestamp e).toUInt32 = zeroingWord older e)) ∧
    ∀ history e, ∃! low, ∃ h,
      (history ++ [withLow low e]).foldlM (update (ε := Empty) bitwiseCrate) .new = .ok h ∧
        stored h (narrow e).tag = 0 :=
  zeroHashExact bitwiseComputes

theorem timeoutUnseen : ¬ ∀ history h,
    history.foldlM (update (ε := Empty) bitwiseCrate) .new = .ok h →
      ∀ t, KnownTag t → (stored h t = 0 ↔ ofTag t history = []) := by
  intro claimed
  have ran := foldExact (ε := Empty) bitwiseCrate [.bootloaderTimeout 3451949506] .new
  have populated : ofTag 0x06 [.bootloaderTimeout 3451949506] ≠ [] := by decide
  have zero : crc32c ((ofTag 0x06 [.bootloaderTimeout 3451949506]).flatMap tlv) = 0 := by
    decide +kernel
  rw [← sinceStart bitwiseComputes _ (by decide)] at zero
  exact populated ((claimed _ _ ran 0x06 (by decide)).mp zero)

end VisualDigest.ZeroHash
