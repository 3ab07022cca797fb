import VisualDigest.ChannelHistory
import VisualDigest.SlidingWindow

/-! What a payload tells of the run behind it: when two runs give the same bytes, and when the
bytes behind a channel's check are the same. -/
namespace VisualDigest.Fidelity
open Checked LittleEndian RecordFormat Events Format Hashes Encoder Decoder Wire Grammar EncoderExact
open HashesExact RoundTrip ChannelHistory SlidingWindow

/- Alike on the wire: the same variant, the narrowed fields modulo 2^16, the others equal. -/
def Alike : Event → Event → Prop
  | .keypress u s ts, .keypress u' s' ts' =>
    ts = ts' ∧ u.toNat % 65536 = u'.toNat % 65536 ∧ s = s'
  | .lineRendered row ts, .lineRendered row' ts' => ts = ts' ∧ row.toNat % 65536 = row'.toNat % 65536
  | .sceneTransition f t ts, .sceneTransition f' t' ts' => ts = ts' ∧ f = f' ∧ t = t'
  | .bootloaderDecision c a ts, .bootloaderDecision c' a' ts' => ts = ts' ∧ c = c' ∧ a = a'
  | .pasteReceived len correct ts, .pasteReceived len' correct' ts' =>
    ts = ts' ∧ len.toNat % 65536 = len'.toNat % 65536 ∧ correct = correct'
  | .bootloaderTimeout ts, .bootloaderTimeout ts' => ts = ts'
  | .modeSwitch rw rh aw ah ts, .modeSwitch rw' rh' aw' ah' ts' =>
    ts = ts' ∧ rw.toNat % 65536 = rw'.toNat % 65536 ∧ rh.toNat % 65536 = rh'.toNat % 65536 ∧
    aw.toNat % 65536 = aw'.toNat % 65536 ∧ ah.toNat % 65536 = ah'.toNat % 65536
  | .modeCycle count interrupted ts, .modeCycle count' interrupted' ts' =>
    ts = ts' ∧ count = count' ∧ interrupted = interrupted'
  | _, _ => False

theorem flagSame {a b : Bool} : a.toUInt8 = b.toUInt8 ↔ a = b := by
  cases a <;> cases b <;> decide

theorem wideSame {a b : UInt64} : a.toUInt16 = b.toUInt16 ↔ a.toNat % 65536 = b.toNat % 65536 := by
  rw [← UInt16.toNat_inj,UInt64.toNat_toUInt16,UInt64.toNat_toUInt16]

theorem wordSame {a b : UInt32} : a.toUInt16 = b.toUInt16 ↔ a.toNat % 65536 = b.toNat % 65536 := by
  rw [← UInt16.toNat_inj,UInt32.toNat_toUInt16,UInt32.toNat_toUInt16]

theorem narrowAlike {e e' : Event} : narrow e = narrow e' ↔ Alike e e' := by
  cases e <;> cases e' <;> simp [narrow,Alike,wideSame,wordSame,flagSame]

theorem recordsAlike {es es' : List Event} :
    es.map (fun e => RawRecord.known (narrow e)) = es'.map (fun e => RawRecord.known (narrow e)) ↔
      List.Forall₂ Alike es es' := by
  induction es generalizing es' with
  | nil => cases es' <;> simp
  | cons e es ih =>
    cases es' with
    | nil => simp
    | cons e' es' => simp [ih,narrowAlike]

theorem streamRecords (es : List Event) :
    es.flatMap tlv = recordFormat.encAll (es.map fun e => .known (narrow e)) := by
  rw [Format.encAll,List.flatMap_map]
  rfl

theorem streamsAlike {es es' : List Event} :
    es.flatMap tlv = es'.flatMap tlv ↔ List.Forall₂ Alike es es' := by
  rw [streamRecords,streamRecords,← recordsAlike]
  exact ⟨encAllInjective recordFormat,congrArg recordFormat.encAll⟩

theorem encodingsAlike (events events' : List Event) (frameCounter frameCounter' : UInt32)
    (framebufferHash framebufferHash' : UInt32) (h h' : ChannelHashes)
    (out out' : List.Vector UInt8 digestPayloadCapacity) :
    ∃ n n' after after', (encode events frameCounter framebufferHash h).exec out = (.ok n,after) ∧
      (encode events' frameCounter' framebufferHash' h').exec out' = (.ok n',after') ∧
      ((written after n).data = (written after' n').data ↔
        frameCounter = frameCounter' ∧ framebufferHash = framebufferHash' ∧ h = h' ∧
        List.Forall₂ Alike (events.drop (firstIndex events)) (events'.drop (firstIndex events'))) := by
  obtain ⟨after,ran,front,_⟩ := encodeWritten events frameCounter framebufferHash h out
  obtain ⟨after',ran',front',_⟩ := encodeWritten events' frameCounter' framebufferHash' h' out'
  refine ⟨_,_,after,after',ran,ran',?_⟩
  have shown : ∀ events, events.drop (firstIndex events) = selected events := by
    intro events
    rw [firstIndexExact]
    exact BudgetWindow.dropFirst sizeOfRecord recordBudget events
  rw [front,front',shown,shown,← recordsAlike]
  constructor
  · intro same
    obtain ⟨counter,_,hashes,records,trailer⟩ := Payload.mk.inj (payloadInjective same)
    exact ⟨counter,trailer,hashes,records⟩
  · rintro ⟨rfl,rfl,rfl,records⟩
    have count := congrArg List.length records
    rw [List.length_map,List.length_map] at count
    have same : payload events frameCounter framebufferHash h =
        payload events' frameCounter framebufferHash h := by
      simp only [payload,count,records]
    rw [same]

theorem tlvsExact (es : List Event) : es.mapM (eventTlv (ε := Empty)) = .ok (es.map tlv) := by
  induction es with
  | nil => rfl
  | cons e es ih =>
    rw [List.mapM_cons,eventTlvExact,ih]
    rfl

theorem channelStreams {crc : CrcCrate} {register : crc.Digest → BitVec 32}
    (computes : ComputesIscsi crc register) :
    (∀ es es' : List Event, ∃ xs ys, es.mapM (eventTlv (ε := Empty)) = .ok xs ∧
      es'.mapM (eventTlv (ε := Empty)) = .ok ys ∧
      (xs.flatten = ys.flatten ↔ List.Forall₂ Alike es es')) ∧
    ∀ (history other : List Event),
      (∀ t, KnownTag t → List.Forall₂ Alike (ofTag t history) (ofTag t other)) →
      ∀ g, history.foldlM (update (ε := Empty) crc) g = other.foldlM (update (ε := Empty) crc) g := by
  constructor
  · intro es es'
    refine ⟨_,_,tlvsExact es,tlvsExact es',?_⟩
    rw [← List.flatMap_def,← List.flatMap_def]
    exact streamsAlike
  · intro history other alike g
    have same : history.foldl (updated crc) g = other.foldl (updated crc) g := by
      refine storedExt fun t known => ?_
      rw [storedFold computes history g known,storedFold computes other g known,
        streamsAlike.mpr (alike t known)]
    rw [foldExact,foldExact,same]

theorem channelStreamsSwapped :
    [Event.lineRendered 1 4,.bootloaderTimeout 5].foldlM (update (ε := Empty) bitwiseCrate) .new =
    [Event.bootloaderTimeout 5,.lineRendered 65537 4].foldlM (update (ε := Empty) bitwiseCrate) .new := by
  refine (channelStreams bitwiseComputes).2 _ _ (fun t known => ?_) _
  rcases knownTags known with rfl | rfl | rfl | rfl | rfl | rfl | rfl | rfl <;>
    simp [ofTag,tlvHead,narrow,WireRecord.tag,Alike]

end VisualDigest.Fidelity
