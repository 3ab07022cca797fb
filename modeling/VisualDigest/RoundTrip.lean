import VisualDigest.EncoderExact
import VisualDigest.DecoderExact
import VisualDigest.Narrowing

/-! Encoding and decoding undo each other: what an encoding writes, what reading it back
gives, and which payloads are written again as they were read. -/
namespace VisualDigest.RoundTrip
open Checked RecordFormat BudgetWindow Events Format Hashes Encoder Decoder Wire Grammar Narrowing
open EncoderExact DecoderExact

def written (out : List.Vector UInt8 digestPayloadCapacity) (n : Nat) : Slice UInt8 where
  data := out.toList.take n
  bounded := by
    have room : digestPayloadCapacity ≤ isizeMax := by decide
    rw [List.length_take,out.toList_length]
    exact (Nat.min_le_right _ _).trans room

theorem knownEvents (es : List Event) :
    (es.map fun e => RawRecord.known (narrow e)).filterMap RawRecord.event? = es.map normEvent := by
  induction es with
  | nil => rfl
  | cons e es ih =>
    simp only [List.map_cons,List.filterMap_cons,RawRecord.event?,ih,eventNarrow]

theorem knownUnknowns (es : List Event) :
    (es.map fun e => RawRecord.known (narrow e)).filterMap RawRecord.unknown? = [] := by
  induction es with
  | nil => rfl
  | cons e es ih => simp only [List.map_cons,List.filterMap_cons,RawRecord.unknown?,ih]

theorem countAt (p : Payload) : p.bytes[9]? = some p.count := rfl

theorem countWritten {n : Nat} {after : List.Vector UInt8 digestPayloadCapacity} {p : Payload}
    (long : 9 < n) (front : (written after n).data = p.bytes) : after.toList[9]? = some p.count := by
  have cut : (after.toList.take n)[9]? = after.toList[9]? := List.getElem?_take_of_lt long
  have content : after.toList.take n = p.bytes := front
  rw [← cut,content]
  exact countAt p

section
variable (events : List Event) (frameCounter framebufferHash : UInt32) (h : ChannelHashes)

theorem encodeWritten (out : List.Vector UInt8 digestPayloadCapacity) :
    ∃ after, (encode events frameCounter framebufferHash h).exec out =
        (.ok (62 + total sizeOfRecord (selected events)),after) ∧
      (written after (62 + total sizeOfRecord (selected events))).data =
        (payload events frameCounter framebufferHash h).bytes ∧
      after.toList.drop (62 + total sizeOfRecord (selected events)) =
        out.toList.drop (62 + total sizeOfRecord (selected events)) := by
  obtain ⟨after,ran,shape⟩ := encodeExact events frameCounter framebufferHash h out
  rw [← payloadLength events frameCounter framebufferHash h]
  refine ⟨after,ran,?_,?_⟩
  · change after.toList.take _ = _
    rw [shape,List.take_left]
  · rw [shape,List.drop_left]

theorem decodeUndoesEncode (out : List.Vector UInt8 digestPayloadCapacity) :
    ∃ n after d s, (encode events frameCounter framebufferHash h).exec out = (.ok n,after) ∧
      decode (written after n) = .ok d ∧
      d.frameCounter = frameCounter ∧ d.framebufferHash = framebufferHash ∧ d.channelHashes = h ∧
      d.unknownRecords = [] ∧ Longest sizeOfRecord 44 s events ∧ d.rawRecords = s.map normEvent ∧
      (∀ (i : Nat) (e : Event), s[i]? = some e → Fits e → d.rawRecords[i]? = some e) ∧
      ∃ count, after.toList[9]? = some count ∧ count.toNat = 8 + d.rawRecords.length := by
  obtain ⟨after,ran,front,_⟩ := encodeWritten events frameCounter framebufferHash h out
  have read := knownEvents (selected events)
  refine ⟨_,after,(payload events frameCounter framebufferHash h).digest,selected events,ran,
    decodePayload front,rfl,rfl,rfl,knownUnknowns _,windowLongest _ _ _,read,?_,?_⟩
  · intro i e found fits
    have entry : (payload events frameCounter framebufferHash h).digest.rawRecords[i]? =
        ((selected events).map normEvent)[i]? := congrArg (fun es : List Event => es[i]?) read
    rw [entry,List.getElem?_map,found,Option.map_some,normFits fits]
  · refine ⟨_,countWritten (by omega) front,?_⟩
    have size := congrArg List.length read
    rw [List.length_map] at size
    exact (countByte events).trans (congrArg (8 + ·) size.symm)

theorem encodeContract (out : List.Vector UInt8 digestPayloadCapacity) :
    ∃ n after s, (encode events frameCounter framebufferHash h).exec out = (.ok n,after) ∧
      select (ε := EncodeError) events = .ok s ∧ s.included ≤ events.length ∧
      n = 62 + total sizeOfRecord (events.drop (events.length - s.included)) ∧
      62 ≤ n ∧ n ≤ 106 ∧
      (UInt8.ofNat (numHashChannels + s.included)).toNat = numHashChannels + s.included ∧
      (∀ t, ForVisits (selectStep (ε := EncodeError)) events.reverse ⟨0,0⟩ t → t.included ≠ 255) ∧
      after.toList.drop n = out.toList.drop n ∧
      ∀ out', ∃ after', (encode events frameCounter framebufferHash h).exec out' = (.ok n,after') ∧
        after'.toList.take n = after.toList.take n := by
  obtain ⟨after,ran,front,rest⟩ := encodeWritten events frameCounter framebufferHash h out
  have within : total sizeOfRecord (selected events) ≤ 44 := selectedWithin events
  have suffix : events.drop (events.length - (selected events).length) = selected events :=
    dropFirst sizeOfRecord recordBudget events
  refine ⟨_,after,_,ran,selectExact events,windowLength _ _ events,?_,by omega,by omega,
    countByte events,?_,rest,?_⟩
  · rw [suffix]
  · intro t visits
    have few := (visitsInvariant selectKeeps visits soundStart).few
    omega
  · intro out'
    obtain ⟨after',ran',front',_⟩ := encodeWritten events frameCounter framebufferHash h out'
    exact ⟨after',ran',front'.trans front.symm⟩

end

theorem canonicalRecords {rs : List RawRecord} (known : rs.filterMap RawRecord.unknown? = [])
    (canonical : ∀ w, RawRecord.known w ∈ rs → Canonical w) :
    (rs.filterMap RawRecord.event?).map (fun e => RawRecord.known (narrow e)) = rs := by
  induction rs with
  | nil => rfl
  | cons r rs ih =>
    cases r with
    | unknown u foreign short => simp [RawRecord.unknown?] at known
    | known w =>
      simp only [List.filterMap_cons,RawRecord.unknown?] at known
      have later := ih known (fun v member => canonical v (List.mem_cons_of_mem _ member))
      have again := (narrowEvent w).mpr (canonical w (List.mem_cons_self ..))
      simp only [List.filterMap_cons,RawRecord.event?,List.map_cons,again,later]

theorem eventRead {rs : List RawRecord} {e : Event} (member : e ∈ rs.filterMap RawRecord.event?) :
    ∃ w : WireRecord, e = w.event := by
  obtain ⟨r,_,read⟩ := List.mem_filterMap.mp member
  cases r with
  | known w => exact ⟨w,(Option.some.inj read).symm⟩
  | unknown u foreign short => contradiction

def reencoded (p : Payload) : Payload :=
  payload p.digest.rawRecords p.frameCounter p.framebufferHash p.hashes

structure CanonicalPayload (p : Payload) : Prop where
  known : p.digest.unknownRecords = []
  fits : p.region.length ≤ 44
  counted : p.count.toNat = 8 + p.digest.rawRecords.length
  records : ∀ w, RawRecord.known w ∈ p.records → Canonical w

theorem reencodedCanonical {p : Payload} (same : reencoded p = p) : CanonicalPayload p := by
  have records : (selected p.digest.rawRecords).map (fun e => RawRecord.known (narrow e)) = p.records :=
    congrArg Payload.records same
  have read := knownEvents (selected p.digest.rawRecords)
  rw [records] at read
  refine ⟨?_,?_,?_,?_⟩
  · rw [Payload.digest,← records]
    exact knownUnknowns _
  · rw [← same,reencoded,writtenRegion,regionLength]
    exact selectedWithin _
  · have count : p.count = UInt8.ofNat (numHashChannels + (selected p.digest.rawRecords).length) :=
      congrArg Payload.count same.symm
    have size := congrArg List.length read
    rw [List.length_map] at size
    rw [count,countByte,← size]
    rfl
  · intro w member
    rw [← records] at member
    obtain ⟨e,chosen,narrowed⟩ := List.mem_map.mp member
    have inside := (windowLongest sizeOfRecord recordBudget p.digest.rawRecords).suffix.subset chosen
    obtain ⟨v,rfl⟩ := eventRead inside
    cases narrowed
    exact canonicalRead v

theorem canonicalReencoded {p : Payload} (canonical : CanonicalPayload p) : reencoded p = p := by
  have records := canonicalRecords canonical.known canonical.records
  have region : p.region = p.digest.rawRecords.flatMap tlv := by
    rw [Payload.region,← records,Format.encAll,List.flatMap_map]
    rfl
  have size : total sizeOfRecord p.digest.rawRecords = p.region.length := by
    rw [region,regionLength]
  have all : selected p.digest.rawRecords = p.digest.rawRecords := windowWhole (by
    rw [size]
    exact canonical.fits)
  have count : UInt8.ofNat (numHashChannels + p.digest.rawRecords.length) = p.count := by
    apply UInt8.toNat_inj.mp
    rw [canonical.counted,← all]
    exact countByte _
  obtain ⟨frameCounter,count',counted,hashes,rs,framebufferHash⟩ := p
  simp only [reencoded,payload,all,Payload.mk.injEq]
  exact ⟨trivial,count,trivial,records,trivial⟩

theorem reencodes (p : Payload) (out : List.Vector UInt8 digestPayloadCapacity) :
    ∃ after, (encode p.digest.rawRecords p.frameCounter p.framebufferHash p.hashes).exec out =
        (.ok (reencoded p).bytes.length,after) ∧
      (written after (reencoded p).bytes.length).data = (reencoded p).bytes := by
  obtain ⟨after,ran,front,_⟩ := encodeWritten p.digest.rawRecords p.frameCounter p.framebufferHash
    p.hashes out
  have size : (reencoded p).bytes.length = 62 + total sizeOfRecord (selected p.digest.rawRecords) :=
    payloadLength ..
  rw [size]
  exact ⟨after,ran,front⟩

theorem encodeUndoesDecode {bytes : Slice UInt8} {d : Digest} (decoded : decode bytes = .ok d) :
    ∃ p : Payload, p.bytes = bytes.data ∧ ∀ out,
      (∃ after, (encode d.rawRecords d.frameCounter d.framebufferHash d.channelHashes).exec out =
          (.ok bytes.data.length,after) ∧ (written after bytes.data.length).data = bytes.data) ↔
        d.unknownRecords = [] ∧ bytes.data.length - 62 ≤ 44 ∧
        (∃ count, bytes.data[9]? = some count ∧ count.toNat = 8 + d.rawRecords.length) ∧
        ∀ w, RawRecord.known w ∈ p.records → Canonical w := by
  obtain ⟨p,shape,rfl⟩ := decodedPayload decoded
  refine ⟨p,shape,fun out => ?_⟩
  have size := payloadSize p
  rw [← shape]
  obtain ⟨after',ran',front'⟩ := reencodes p out
  constructor
  · rintro ⟨after,ran,front⟩
    obtain ⟨lengths,rfl⟩ := Prod.mk.inj (ran.symm.trans ran')
    rw [← Except.ok.inj lengths] at front'
    have canonical := reencodedCanonical (payloadInjective (front'.symm.trans front))
    have fits := canonical.fits
    exact ⟨canonical.known,by omega,⟨_,countAt p,canonical.counted⟩,canonical.records⟩
  · rintro ⟨known,fits,⟨count,at',counted⟩,records⟩
    cases (countAt p).symm.trans at'
    have same := canonicalReencoded ⟨known,by omega,counted,records⟩
    rw [same] at ran' front'
    exact ⟨after',ran',front'⟩

def encoded (events : List Event) (frameCounter framebufferHash : UInt32) (h : ChannelHashes) :
    Slice UInt8 where
  data := (payload events frameCounter framebufferHash h).bytes
  bounded := by
    have within : total sizeOfRecord (selected events) ≤ 44 := selectedWithin events
    have room : 106 ≤ isizeMax := by decide
    rw [payloadLength]
    omega

theorem encodeUndoesDecodeTimeout :
    ∃ p : Payload, p.bytes = (encoded [.bootloaderTimeout 5] 7 9 .new).data ∧ ∀ out,
      (∃ after, (encode [.bootloaderTimeout 5] 7 9 .new).exec out =
          (.ok (encoded [.bootloaderTimeout 5] 7 9 .new).data.length,after) ∧
          (written after (encoded [.bootloaderTimeout 5] 7 9 .new).data.length).data =
            (encoded [.bootloaderTimeout 5] 7 9 .new).data) ↔
        [] = ([] : List UnknownRecord) ∧
        (encoded [.bootloaderTimeout 5] 7 9 .new).data.length - 62 ≤ 44 ∧
        (∃ count, (encoded [.bootloaderTimeout 5] 7 9 .new).data[9]? = some count ∧
          count.toNat = 8 + 1) ∧
        ∀ w, RawRecord.known w ∈ p.records → Canonical w :=
  @encodeUndoesDecode (encoded [.bootloaderTimeout 5] 7 9 .new)
    ⟨7,.new,[.bootloaderTimeout 5],[],9⟩
    (decodePayload (p := payload [.bootloaderTimeout 5] 7 9 .new) rfl)

end VisualDigest.RoundTrip
