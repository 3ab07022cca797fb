import VisualDigest.RecordExact
import VisualDigest.FrontExact

/-! What the decoder answers on every byte string: the parse, or the first violation at its
place. No run ends otherwise. -/
namespace VisualDigest.DecoderExact
open Checked LittleEndian RecordFormat Format Hashes Decoder Wire Grammar RecordExact FrontExact

def walked (s : Cursor) (rs : List RawRecord) : Cursor :=
  ⟨s.pos + (recordFormat.encAll rs).length,s.rawRecords ++ rs.filterMap RawRecord.event?,
   s.unknownRecords ++ rs.filterMap RawRecord.unknown?⟩

theorem walkedCons (s : Cursor) (r : RawRecord) (rs : List RawRecord) :
    walked (s.push r.pushed (s.pos + r.bytes.length)) rs = walked s (r::rs) := by
  cases r <;>
    simp [walked,Cursor.push,RawRecord.pushed,RawRecord.event?,RawRecord.unknown?,List.filterMap_cons,
      Nat.add_assoc]

theorem trailerFound {bytes front : List UInt8} {framebufferHash : UInt32}
    (shape : bytes = front ++ le framebufferHash) :
    sub bytes.length digestTrailerLen = (.ok front.length : Exec DecodeError Nat) := by
  have trailer : (le framebufferHash).length = digestTrailerLen := rfl
  have size := congrArg List.length shape
  rw [List.length_append,trailer] at size
  rw [size,subOk (Nat.le_add_left _ _),Nat.add_sub_cancel]

section
variable {bytes : List UInt8} (bounded : bytes.length ≤ isizeMax)
include bounded

theorem regionSteps {tail trailer : List UInt8} {trailerStart : Nat} (rs : List RawRecord) :
    ∀ (front : List UInt8) (s : Cursor),
      bytes = front ++ (recordFormat.encAll rs ++ tail ++ trailer) → s.pos = front.length →
      trailerStart = front.length + (recordFormat.encAll rs ++ tail).length →
      Steps (before trailerStart) (recordStep bytes trailerStart) rs.length s (walked s rs) := by
  induction rs with
  | nil =>
    intro front s _ _ _
    have still : walked s [] = s := by simp [walked]
    rw [still]
    exact .refl s
  | cons r rs ih =>
    intro front s shape cursor stop
    rw [encAllCons,recordEnc] at shape stop
    have positive := encPositive recordFormat r
    rw [recordEnc] at positive
    have enter : before trailerStart s = true := by
      unfold before
      rw [decide_eq_true_eq,stop,cursor,List.length_append,List.length_append]
      omega
    have read : readRecord (r.bytes ++ recordFormat.encAll rs ++ tail) =
        .ok (r,recordFormat.encAll rs ++ tail) := by
      rw [List.append_assoc]
      exact readComplete r _
    have more : r.bytes ++ recordFormat.encAll rs ++ tail ≠ [] := by simp [RawRecord.bytes]
    have next := stepReads shape cursor stop more bounded
    rw [read] at next
    have later := ih (front ++ r.bytes) (s.push r.pushed (s.pos + r.bytes.length))
      (by rw [shape]; simp [List.append_assoc])
      (by cases r <;> simp [Cursor.push,RawRecord.pushed,cursor])
      (by rw [stop]; simp [Nat.add_assoc])
    rw [walkedCons] at later
    exact .round enter next later

theorem bodyWhole {front : List UInt8} {rs : List RawRecord} {framebufferHash : UInt32} {fuel : Nat}
    (fixed : UInt32 × ChannelHashes)
    (shape : bytes = front ++ (recordFormat.encAll rs ++ le framebufferHash))
    (start : front.length = 58) (enough : rs.length ≤ fuel) :
    decodeBody fuel bytes fixed = .ok ⟨fixed.1,fixed.2,rs.filterMap RawRecord.event?,
      rs.filterMap RawRecord.unknown?,framebufferHash⟩ := by
  have whole : bytes = front ++ (recordFormat.encAll rs ++ [] ++ le framebufferHash) := by
    simpa using shape
  have split : bytes = (front ++ recordFormat.encAll rs) ++ le framebufferHash := by simpa using shape
  have trailerStart := trailerFound split
  have steps := regionSteps bounded rs front ⟨rawRecordsStart,[],[]⟩ whole (by rw [start]; rfl)
    (by rw [List.append_nil,← List.length_append])
  have stopped : (walked ⟨rawRecordsStart,[],[]⟩ rs).pos = (front ++ recordFormat.encAll rs).length := by
    rw [List.length_append,start]; rfl
  have leave : before (front ++ recordFormat.encAll rs).length
      (walked ⟨rawRecordsStart,[],[]⟩ rs) = false := by
    unfold before
    rw [stopped]; simp
  have last := readLeAt (ε := DecodeError) (sliceUsize bounded)
    (front ++ recordFormat.encAll rs).length (front ++ recordFormat.encAll rs) framebufferHash []
    (by simpa using split) rfl
  simp only [decodeBody,bind,Except.bind,trailerStart,whileDone steps leave enough,
    if_neg (not_not_intro stopped),last]
  rfl

theorem bodyRefused {front tail : List UInt8} {rs : List RawRecord} {framebufferHash : UInt32}
    {refusal : Refusal} {fuel : Nat} (fixed : UInt32 × ChannelHashes)
    (shape : bytes = front ++ (recordFormat.encAll rs ++ tail ++ le framebufferHash))
    (start : front.length = 58) (more : tail ≠ []) (refused : readRecord tail = .error refusal)
    (enough : rs.length < fuel) :
    decodeBody fuel bytes fixed =
      fail (refusalError (58 + (recordFormat.encAll rs).length) refusal) := by
  have whole : bytes = (front ++ (recordFormat.encAll rs ++ tail)) ++ le framebufferHash := by
    simpa using shape
  have trailerStart := trailerFound whole
  rw [List.length_append] at trailerStart
  have steps := regionSteps bounded rs front ⟨rawRecordsStart,[],[]⟩ shape (by rw [start]; rfl) rfl
  have stopped : (walked ⟨rawRecordsStart,[],[]⟩ rs).pos =
      (front ++ recordFormat.encAll rs).length := by
    rw [List.length_append,start]; rfl
  have stop : front.length + (recordFormat.encAll rs ++ tail).length =
      (front ++ recordFormat.encAll rs).length + tail.length := by
    simp only [List.length_append,Nat.add_assoc]
  have positive := List.length_pos_of_ne_nil more
  have enter : before (front.length + (recordFormat.encAll rs ++ tail).length)
      (walked ⟨rawRecordsStart,[],[]⟩ rs) = true := by
    unfold before
    rw [decide_eq_true_eq,stopped,stop]
    omega
  have split : bytes = (front ++ recordFormat.encAll rs) ++ (tail ++ le framebufferHash) := by
    simpa using shape
  have thrown := stepReads split stopped stop more bounded
  rw [refused] at thrown
  simp only [decodeBody,bind,Except.bind,trailerStart,whileThrows steps enter thrown enough]
  rfl

end

/- The answer to a byte string, by the shape of its first violation or by its parse. -/
inductive Verdict : List UInt8 → Except DecodeError Digest → Prop where
  | short {b : List UInt8} (few : b.length < 62) : Verdict b (.error (.short b.length))
  | front {f : Front} {rest : List UInt8} {error : DecodeError} (room : 4 ≤ rest.length)
      (refused : f.refusal? = some error) : Verdict (f.bytes ++ rest) (.error error)
  | record {f : Front} {rs : List RawRecord} {tail : List UInt8} {refusal : Refusal}
      {framebufferHash : UInt32} (accepted : f.refusal? = none) (more : tail ≠ [])
      (refused : readRecord tail = .error refusal) :
      Verdict (f.bytes ++ (recordFormat.encAll rs ++ tail ++ le framebufferHash))
        (.error (refusalError (58 + (recordFormat.encAll rs).length) refusal))
  | whole (p : Payload) : Verdict p.bytes (.ok p.digest)

theorem verdictParsed {b : List UInt8} {d : Digest} (verdict : Verdict b (.ok d)) :
    ∃ p : Payload, p.bytes = b ∧ p.digest = d := by
  cases verdict with
  | whole p => exact ⟨p,rfl,rfl⟩

theorem trailerBehind (region : List UInt8) (framebufferHash : UInt32) :
    4 ≤ (region ++ le framebufferHash).length := by
  rw [List.length_append,leLength]
  exact Nat.le_add_left 4 _

/- The trailer is found from the end, the records from the start of what is before it. -/
theorem regionExists {rest : List UInt8} (room : 4 ≤ rest.length) :
    ∃ (rs : List RawRecord) (tail : List UInt8) (framebufferHash : UInt32),
      rest = recordFormat.encAll rs ++ tail ++ le framebufferHash ∧ recordFormat.Ended tail := by
  obtain ⟨framebufferHash,trailer⟩ := leSurjective (α := UInt32) (rest.drop (rest.length-4)) (by
    rw [List.length_drop]
    change _ = 4
    omega)
  obtain ⟨rs,tail,region,ended⟩ := splitExists recordFormat (rest.take (rest.length-4))
  refine ⟨rs,tail,framebufferHash,?_,ended⟩
  rw [← region,trailer,List.take_append_drop]

theorem payloadExists {f : Front} (accepted : f.refusal? = none) (rs : List RawRecord)
    (framebufferHash : UInt32) : ∃ p : Payload, frontOf p = f ∧ p.records = rs ∧
      p.framebufferHash = framebufferHash ∧
      p.bytes = f.bytes ++ (recordFormat.encAll rs ++ le framebufferHash) := by
  obtain ⟨p,rfl,rfl,rfl⟩ := acceptedPayload accepted rs framebufferHash
  exact ⟨p,rfl,rfl,rfl,payloadBytes p⟩

theorem verdictExists (b : List UInt8) : ∃ answer, Verdict b answer := by
  by_cases few : b.length < 62
  · exact ⟨_,.short few⟩
  obtain ⟨f,rest,rfl⟩ := frontExists (b := b) (by omega)
  have size := frontLength f
  rw [List.length_append] at few
  cases refused : f.refusal? with
  | some error => exact ⟨_,.front (by omega) refused⟩
  | none =>
    have room : 4 ≤ rest.length := by omega
    obtain ⟨rs,tail,framebufferHash,rfl,ended⟩ := regionExists room
    by_cases empty : tail = []
    · obtain ⟨p,_,_,_,shape⟩ := payloadExists refused rs framebufferHash
      rw [empty,List.append_nil,← shape]
      exact ⟨_,.whole p⟩
    · obtain ⟨refusal,found⟩ := ended.resolve_left empty
      exact ⟨_,.record refused empty found⟩

theorem verdictRuns {b : List UInt8} {answer : Except DecodeError Digest} (verdict : Verdict b answer)
    (bounded : b.length ≤ isizeMax) {fuel : Nat} (enough : b.length ≤ fuel) :
    (decodeFixed b >>= decodeBody fuel b) = answer.mapError Fault.err := by
  cases verdict with
  | short few => rw [fixedShort few]; rfl
  | front room refused => rw [fixedExact room bounded,refused]; rfl
  | @record f rs tail refusal framebufferHash accepted more refused =>
    have trailer : (le framebufferHash).length = 4 := rfl
    have rounds := encAllLength recordFormat rs
    simp only [List.length_append,trailer] at enough
    rw [fixedExact (trailerBehind _ _) bounded,accepted]
    exact bodyRefused bounded _ rfl (frontLength f) more refused (by omega)
  | whole p =>
    have trailer : (le p.framebufferHash).length = 4 := rfl
    have shape := payloadBytes p
    rw [shape] at bounded
    have rounds := encAllLength recordFormat p.records
    have size := congrArg List.length shape
    rw [List.length_append,List.length_append,Payload.region] at size
    rw [shape,fixedExact (trailerBehind _ _) bounded,payloadAccepted]
    exact bodyWhole bounded _ rfl (frontLength _) (by omega)

theorem verdictDecodes {bytes : Slice UInt8} {answer : Except DecodeError Digest}
    (verdict : Verdict bytes.data answer) {fuel : Nat} (enough : bytes.data.length ≤ fuel) :
    decodeWithin fuel bytes = answer.mapError Fault.err :=
  verdictRuns verdict bytes.bounded enough

theorem decodeAnswers (bytes : Slice UInt8) :
    ∃ answer, Verdict bytes.data answer ∧ decode bytes = answer.mapError Fault.err := by
  obtain ⟨answer,verdict⟩ := verdictExists bytes.data
  exact ⟨answer,verdict,verdictDecodes verdict (Nat.le_refl _)⟩

theorem decodePayload {bytes : Slice UInt8} {p : Payload} (shape : bytes.data = p.bytes) :
    decode bytes = .ok p.digest := by
  have parsed := Verdict.whole p
  rw [← shape] at parsed
  exact verdictDecodes parsed (Nat.le_refl _)

section
variable {bytes : Slice UInt8} {f : Front} (accepted : f.refusal? = none) {rs : List RawRecord}
  {framebufferHash : UInt32}
include accepted

theorem decodesWhole (shape : bytes.data = f.bytes ++ (recordFormat.encAll rs ++ le framebufferHash)) :
    decode bytes = .ok ⟨f.frameCounter,f.hashes,rs.filterMap RawRecord.event?,
      rs.filterMap RawRecord.unknown?,framebufferHash⟩ := by
  obtain ⟨p,rfl,rfl,rfl,whole⟩ := payloadExists accepted rs framebufferHash
  exact decodePayload (shape.trans whole.symm)

theorem decodesRefused {tail : List UInt8} {refusal : Refusal} (more : tail ≠ [])
    (refused : readRecord tail = .error refusal)
    (shape : bytes.data = f.bytes ++ (recordFormat.encAll rs ++ tail ++ le framebufferHash)) :
    decode bytes = .error (.err (refusalError (58 + (recordFormat.encAll rs).length) refusal)) := by
  have verdict : Verdict bytes.data
      (.error (refusalError (58 + (recordFormat.encAll rs).length) refusal)) := by
    rw [shape]
    exact .record accepted more refused
  exact verdictDecodes verdict (Nat.le_refl _)

end

theorem decodedPayload {bytes : Slice UInt8} {d : Digest} (decoded : decode bytes = .ok d) :
    ∃ p : Payload, p.bytes = bytes.data ∧ p.digest = d := by
  obtain ⟨answer,verdict,ran⟩ := decodeAnswers bytes
  rw [decoded] at ran
  cases answer with
  | error error => contradiction
  | ok digest =>
    cases Except.ok.inj ran
    exact verdictParsed verdict

end VisualDigest.DecoderExact
