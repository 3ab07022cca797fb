import VisualDigest.Acceptance
import VisualDigest.SlidingWindow

/-! A reader that knows the framing of records and takes their number from the header, but knows no
tag of the second schema version: it walks over the hash block as over any records. -/
namespace VisualDigest.Walk
open Checked LittleEndian RecordFormat Framing Events Format Hashes Encoder Decoder Wire Grammar
open EncoderExact DecoderExact Narrowing RoundTrip Acceptance SlidingWindow

def firstSchema (r : Tlv) : Option Event := (WireRecord.parse r.tag r.value).map WireRecord.event

theorem wordShort (hash : UInt32) : (le hash).length < 256 := by
  rw [leLength]
  decide

def ofHash (record : UInt8 × UInt32) : Tlv := ⟨record.1,le record.2,wordShort record.2⟩

theorem rawWalked (rs : List RawRecord) : tlvFormat.encAll (rs.map RawRecord.framed) = recordFormat.encAll rs := by
  rw [Format.encAll,Format.encAll,List.flatMap_map]
  rfl

theorem hashesWalked (h : ChannelHashes) :
    tlvFormat.encAll ((hashChannels h).map ofHash) = hashBlock h := by
  rw [← writtenHashes,Format.encAll,List.flatMap_map]
  rfl

theorem foreignUnread {r : Tlv} (foreign : ¬ KnownTag r.tag) : firstSchema r = none := by
  rw [firstSchema,Option.map_eq_none_iff]
  cases parsed : WireRecord.parse r.tag r.value with
  | none => rfl
  | some w =>
    have own := recordKnown w
    rw [(WireRecord.parseSound parsed).1] at own
    exact absurd own foreign

theorem rawRead (r : RawRecord) : firstSchema r.framed = r.event? := by
  cases r with
  | known w =>
    change (WireRecord.parse w.tag w.value).map WireRecord.event = some w.event
    rw [WireRecord.parseValue]
    rfl
  | unknown u foreign short => exact foreignUnread foreign

theorem hashUnread (h : ChannelHashes) : ((hashChannels h).map ofHash).filterMap firstSchema = [] := by
  rw [List.filterMap_eq_nil_iff]
  intro r member
  obtain ⟨record,channel,rfl⟩ := List.mem_map.mp member
  refine foreignUnread ?_
  have tags : ∀ record ∈ hashChannels h, ¬ KnownTag record.1 := by
    simp [hashChannels,KnownTag,tagHashKeypress,tagHashLineRendered,tagHashSceneTransition,
      tagHashBootloaderDecision,tagHashPasteReceived,tagHashBootloaderTimeout,tagHashModeSwitch,
      tagHashModeCycle]
  exact tags record channel

def records (p : Payload) : List Tlv := (hashChannels p.hashes).map ofHash ++ p.records.map RawRecord.framed

theorem recordsLength (p : Payload) : (records p).length =
    8 + p.digest.rawRecords.length + p.digest.unknownRecords.length := by
  have channels : ((hashChannels p.hashes).map ofHash).length = 8 := rfl
  rw [records,List.length_append,channels,List.length_map,Nat.add_assoc]
  exact congrArg (8 + ·) (parsedLength p.records).symm

theorem recordsWalked (p : Payload) :
    tlvFormat.readN (records p).length (p.bytes.drop 10) = some (records p,le p.framebufferHash) := by
  have header : p.header.length = 10 := rfl
  refine (readNExact tlvFormat).mpr ⟨?_,rfl⟩
  rw [records,encAllAppend,hashesWalked,rawWalked,Payload.bytes,List.append_assoc,List.append_assoc,
    ← header,List.drop_left,List.append_assoc]
  rfl

theorem recordsRead (p : Payload) : (records p).filterMap firstSchema = p.digest.rawRecords := by
  rw [records,List.filterMap_append,hashUnread,List.nil_append,List.filterMap_map]
  exact List.filterMap_congr fun r _ => rawRead r

theorem walkExact :
    (∀ bytes d, decode bytes = .ok d → ∃ rs,
      tlvFormat.readN (8 + d.rawRecords.length + d.unknownRecords.length) (bytes.data.drop 10) =
        some (rs,le d.framebufferHash) ∧
      rs.take 8 = (hashChannels d.channelHashes).map ofHash ∧
      rs.filterMap firstSchema = d.rawRecords ∧
      ∀ n ss rest, tlvFormat.readN n (bytes.data.drop 10) = some (ss,rest) →
        (rest.length = 4 ↔ n = 8 + d.rawRecords.length + d.unknownRecords.length)) ∧
    ∀ events frameCounter framebufferHash h out, ∃ n after count rs,
      (encode events frameCounter framebufferHash h).exec out = (.ok n,after) ∧
      (written after n).data[9]? = some count ∧
      tlvFormat.readN count.toNat ((written after n).data.drop 10) = some (rs,le framebufferHash) ∧
      rs.filterMap firstSchema = (events.drop (firstIndex events)).map normEvent := by
  constructor
  · intro bytes d decoded
    obtain ⟨p,whole,rfl⟩ := decodedPayload decoded
    have walked := recordsWalked p
    rw [← whole,← recordsLength]
    refine ⟨records p,walked,?_,recordsRead p,fun n ss rest ran => readNCount tlvFormat ran walked⟩
    exact List.take_left' rfl
  · intro events frameCounter framebufferHash h out
    obtain ⟨after,ran,front,_⟩ := encodeWritten events frameCounter framebufferHash h out
    refine ⟨_,after,(payload events frameCounter framebufferHash h).count,
      records (payload events frameCounter framebufferHash h),ran,?_,?_,?_⟩
    · rw [front]
      exact countAt _
    · have count : (payload events frameCounter framebufferHash h).count.toNat =
          (records (payload events frameCounter framebufferHash h)).length := by
        rw [records,List.length_append,List.length_map,List.length_map,payload,List.length_map]
        exact countByte events
      rw [front,count]
      exact recordsWalked _
    · rw [recordsRead,firstIndexExact,BudgetWindow.dropFirst]
      exact knownEvents _

end VisualDigest.Walk
