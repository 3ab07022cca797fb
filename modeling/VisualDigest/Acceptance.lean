import VisualDigest.RoundTrip

/-! What the decoder accepts, that it always answers, and what it takes on trust. -/
namespace VisualDigest.Acceptance
open Checked LittleEndian RecordFormat Format Hashes Decoder Wire Grammar RecordExact DecoderExact RoundTrip

theorem decodeExact (bytes : Slice UInt8) :
    (∀ d, decode bytes = .ok d ↔ ∃ p : Payload, p.bytes = bytes.data ∧ p.digest = d) ∧
    ∀ p q : Payload, p.bytes = bytes.data → q.bytes = bytes.data → p = q := by
  refine ⟨fun d => ⟨decodedPayload,?_⟩,fun p q left right => payloadInjective (left.trans right.symm)⟩
  rintro ⟨p,shape,rfl⟩
  exact decodePayload shape.symm

theorem stepMoves {bytes : List UInt8} {trailerStart : Nat} {s t : Cursor}
    (bounded : bytes.length ≤ isizeMax) (stop : trailerStart ≤ bytes.length)
    (enter : before trailerStart s = true) (ran : recordStep bytes trailerStart s = .ok t) :
    s.pos + 2 ≤ t.pos ∧ t.pos ≤ trailerStart := by
  have inside : s.pos < trailerStart := of_decide_eq_true enter
  have front : (bytes.take s.pos).length = s.pos := by rw [List.length_take]; omega
  have region : ((bytes.take trailerStart).drop s.pos).length = trailerStart - s.pos := by
    rw [List.length_drop,List.length_take,Nat.min_eq_left stop]
  have shape : bytes = bytes.take s.pos ++ ((bytes.take trailerStart).drop s.pos ++
      bytes.drop trailerStart) := by
    have whole := List.take_append_drop s.pos (bytes.take trailerStart)
    rw [List.take_take,Nat.min_eq_left inside.le] at whole
    rw [← List.append_assoc,whole,List.take_append_drop]
  have more : (bytes.take trailerStart).drop s.pos ≠ [] := by
    apply List.ne_nil_of_length_pos
    omega
  have last : trailerStart = (bytes.take s.pos).length + ((bytes.take trailerStart).drop s.pos).length := by
    omega
  have read := stepReads shape front.symm last more bounded
  rw [ran] at read
  cases answer : readRecord ((bytes.take trailerStart).drop s.pos) with
  | error refusal => rw [answer] at read; contradiction
  | ok pair =>
    obtain ⟨r,rest⟩ := pair
    rw [answer] at read
    have size := congrArg List.length (readSound answer)
    rw [region,List.length_append] at size
    have moved : t.pos = s.pos + r.bytes.length := by
      rw [Except.ok.inj read]
      cases r <;> rfl
    have long := r.bytesLength
    omega

/- No input makes the decoder panic or run on: any larger bound on its rounds gives the same
answer, and the loop moves at least two bytes a round up to the trailer. -/
theorem decodeTotal (bytes : Slice UInt8) :
    ((∃ d, decode bytes = .ok d) ∨ ∃ error, decode bytes = .error (.err error)) ∧
    (∀ fuel, bytes.data.length ≤ fuel → decodeWithin fuel bytes = decode bytes) ∧
    ∀ trailerStart, trailerStart + 4 = bytes.data.length → 58 ≤ trailerStart → ∀ n s,
      Steps (before trailerStart) (recordStep bytes.data trailerStart) n ⟨rawRecordsStart,[],[]⟩ s →
        58 + n * 2 ≤ s.pos ∧ s.pos ≤ trailerStart ∧
        ∀ t, before trailerStart s = true → recordStep bytes.data trailerStart s = .ok t →
          s.pos + 2 ≤ t.pos ∧ t.pos ≤ trailerStart := by
  obtain ⟨answer,verdict,ran⟩ := decodeAnswers bytes
  refine ⟨?_,fun fuel enough => (verdictDecodes verdict enough).trans ran.symm,?_⟩
  · cases answer with
    | ok d => exact .inl ⟨d,ran⟩
    | error error => exact .inr ⟨error,ran⟩
  intro trailerStart stop low n s steps
  have inside : trailerStart ≤ bytes.data.length := by omega
  obtain ⟨within,moved⟩ := stepsAdvance (fun s => s.pos ≤ trailerStart) Cursor.pos
    (fun _ enter next => (stepMoves bytes.bounded inside enter next).symm) steps low
  exact ⟨moved,within,fun t enter next => stepMoves bytes.bounded inside enter next⟩

/-! The record count, read in the header and not looked at again. -/

/- The number of records a region is cut into by its length bytes. -/
def tlvHops : Nat → List UInt8 → Nat
  | fuel+1, _::len::rest => 1 + tlvHops fuel (rest.drop len.toNat)
  | _, _ => 0

def rawRegion (b : List UInt8) : List UInt8 := (b.drop 58).take (b.length-62)

theorem hopsRecords (rs : List RawRecord) {fuel : Nat} (enough : rs.length ≤ fuel) :
    tlvHops fuel (recordFormat.encAll rs) = rs.length := by
  induction rs generalizing fuel with
  | nil => cases fuel <;> rfl
  | cons r rs ih =>
    cases fuel with
    | zero => contradiction
    | succ fuel =>
      rw [List.length_cons] at enough
      rw [encAllCons,recordEnc,RawRecord.bytes,List.cons_append,List.cons_append,tlvHops,r.lengthByte,
        List.drop_left,ih (by omega),List.length_cons,Nat.add_comm]

theorem regionAt (p : Payload) : rawRegion p.bytes = p.region := by
  have fixed : (p.header ++ hashBlock p.hashes).length = 58 := rfl
  rw [rawRegion,payloadSize,Nat.add_sub_cancel_left,Payload.bytes,List.append_assoc,← fixed,
    List.drop_left,List.take_left]

theorem parsedLength (rs : List RawRecord) :
    (rs.filterMap RawRecord.event?).length + (rs.filterMap RawRecord.unknown?).length = rs.length := by
  induction rs with
  | nil => rfl
  | cons r rs ih =>
    cases r <;> simp only [List.filterMap_cons,RawRecord.event?,RawRecord.unknown?,List.length_cons] <;>
      omega

theorem countTruthful (bytes : Slice UInt8) :
    (∀ d, decode bytes = .ok d → ∃ count, bytes.data[9]? = some count ∧
      count.toNat = 8 + d.rawRecords.length + d.unknownRecords.length) ↔
    ((∃ p : Payload, p.bytes = bytes.data) → ∃ count, bytes.data[9]? = some count ∧
      count.toNat = 8 + tlvHops bytes.data.length (rawRegion bytes.data)) := by
  have hops : ∀ p : Payload, tlvHops p.bytes.length (rawRegion p.bytes) =
      p.digest.rawRecords.length + p.digest.unknownRecords.length := by
    intro p
    have rounds := encAllLength recordFormat p.records
    have size := payloadSize p
    rw [Payload.region] at size
    rw [regionAt,Payload.region,hopsRecords p.records (by omega)]
    exact (parsedLength p.records).symm
  constructor
  · rintro truthful ⟨p,shape⟩
    have told := truthful p.digest (decodePayload shape.symm)
    rw [← shape] at told ⊢
    rwa [hops,← Nat.add_assoc]
  · intro truthful d decoded
    obtain ⟨p,shape,rfl⟩ := decodedPayload decoded
    have told := truthful ⟨p,shape⟩
    rw [← shape] at told ⊢
    rwa [hops,← Nat.add_assoc] at told

def cutEncoding : Slice UInt8 where
  data := (encoded [.bootloaderTimeout 5] 7 9 .new).data.take 62
  bounded := (List.length_take_le _ _).trans (by decide)

theorem cutAccepted : decode cutEncoding = .ok ⟨7,.new,[],[],0x00050806⟩ ∧
    ¬ ∀ d, decode cutEncoding = .ok d → ∃ count, cutEncoding.data[9]? = some count ∧
      count.toNat = 8 + d.rawRecords.length + d.unknownRecords.length := by
  have accepted : decode cutEncoding = .ok ⟨7,.new,[],[],0x00050806⟩ :=
    decodePayload (p := ⟨7,9,by decide,.new,[],0x00050806⟩) rfl
  refine ⟨accepted,fun truthful => ?_⟩
  obtain ⟨count,at',told⟩ := truthful _ accepted
  have nine : cutEncoding.data[9]? = some 9 := rfl
  cases nine.symm.trans at'
  contradiction

end VisualDigest.Acceptance
