import VisualDigest.UnknownRecords

/-! The raw region as a sequence that can be put together, cut short and written over: what the
decoder makes of the parts decides what it makes of the whole. -/
namespace VisualDigest.Regions
open Checked LittleEndian RecordFormat Hashes Decoder Wire Grammar RecordExact FrontExact
open DecoderExact Violations UnknownRecords

def merged (d e : Digest) : Digest :=
  {e with rawRecords := d.rawRecords ++ e.rawRecords
          unknownRecords := d.unknownRecords ++ e.unknownRecords}

/- The errors that more bytes before the trailer may mend: the region ends inside a record. -/
def Unfinished : DecodeError → Prop
  | .trailing _ => True
  | .truncatedValue .. => True
  | _ => False

theorem malformedStays {tail more : List UInt8} {tag : UInt8} {reason : String}
    (refused : readRecord tail = .error (.malformed tag reason)) :
    readRecord (tail ++ more) = .error (.malformed tag reason) := by
  match tail with
  | [] => cases refused
  | [_] => cases refused
  | first::len::rest =>
    by_cases fits : len.toNat ≤ rest.length
    · have part : (rest ++ more).take len.toNat = rest.take len.toNat :=
        List.take_append_of_le_length fits
      have fits' : len.toNat ≤ (rest ++ more).length := by
        rw [List.length_append]
        omega
      by_cases known : KnownTag first
      · cases found : WireRecord.parse first (rest.take len.toNat) with
        | none =>
          rw [readMalformed fits known found] at refused
          rw [List.cons_append,List.cons_append,readMalformed fits' known (part ▸ found),part]
          exact refused
        | some w =>
          rw [readKnown fits found] at refused
          contradiction
      · rw [readForeign fits known] at refused
        contradiction
    · rw [readTruncated fits] at refused
      cases refused

section
variable {bytes : Slice UInt8} {front region : List UInt8} {trailer : UInt32}
  (shape : bytes.data = front ++ (region ++ le trailer))
include shape

theorem regionParsed {d : Digest} (fixed : front.length = 58) (decoded : decode bytes = .ok d) :
    ∃ (f : Front) (rs : List RawRecord), front = f.bytes ∧ f.refusal? = none ∧
      region = recordFormat.encAll rs ∧ d = ⟨f.frameCounter,f.hashes,rs.filterMap RawRecord.event?,
        rs.filterMap RawRecord.unknown?,trailer⟩ := by
  obtain ⟨p,whole,rfl⟩ := decodedPayload decoded
  rw [shape,payloadBytes] at whole
  obtain ⟨same,rest⟩ := List.append_inj whole (by rw [frontLength,fixed])
  obtain ⟨records,last⟩ := List.append_inj' rest (by rw [leLength,leLength])
  have counter : (frontOf p).frameCounter = p.frameCounter := rfl
  have hashes : (frontOf p).hashes = p.hashes := rfl
  refine ⟨frontOf p,p.records,same.symm,payloadAccepted p,records.symm,?_⟩
  rw [counter,hashes,← leInjective.mp last]
  rfl

theorem regionRefused {f : Front} {error : DecodeError} (same : front = f.bytes)
    (accepted : f.refusal? = none) (refused : decode bytes = .error (.err error)) :
    ∃ (rs : List RawRecord) (tail : List UInt8) (refusal : Refusal),
      region = recordFormat.encAll rs ++ tail ∧ tail ≠ [] ∧ readRecord tail = .error refusal ∧
      error = refusalError (58 + (recordFormat.encAll rs).length) refusal := by
  obtain ⟨rs,tail,rfl,ended⟩ := splitExists recordFormat region
  by_cases empty : tail = []
  · rw [same,empty,List.append_nil] at shape
    rw [decodesWhole accepted shape] at refused
    contradiction
  · obtain ⟨refusal,found⟩ := ended.resolve_left empty
    rw [same] at shape
    cases (decodesRefused accepted empty found shape).symm.trans refused
    exact ⟨rs,tail,refusal,rfl,empty,found,rfl⟩

end

theorem frontDecides {bytes : Slice UInt8} {f : Front} {rest : List UInt8} {error : DecodeError}
    (shape : bytes.data = f.bytes ++ rest) (room : 4 ≤ rest.length)
    (refused : f.refusal? = some error) : decode bytes = .error (.err error) := by
  have verdict : Verdict bytes.data (.error error) := by
    rw [shape]
    exact .front room refused
  exact verdictDecodes verdict (Nat.le_refl _)

theorem regionsCompose {front first second : List UInt8} {t u : UInt32} {left right joined : Slice UInt8}
    (fixed : front.length = 58) (leftShape : left.data = front ++ (first ++ le t))
    (rightShape : right.data = front ++ (second ++ le u))
    (joinedShape : joined.data = front ++ (first ++ second ++ le u)) :
    (∀ d e, decode left = .ok d → decode right = .ok e → decode joined = .ok (merged d e)) ∧
    (∀ d error, decode left = .ok d → decode right = .error (.err error) →
      decode joined = .error (.err (shifted first.length error))) ∧
    ∀ error, decode left = .error (.err error) → ¬ Unfinished error →
      decode joined = .error (.err error) := by
  refine ⟨?_,?_,?_⟩
  · intro d e decoded later
    obtain ⟨f,rs,rfl,accepted,rfl,rfl⟩ := regionParsed leftShape fixed decoded
    obtain ⟨ss,tail,rfl,ended⟩ := splitExists recordFormat second
    by_cases empty : tail = []
    · rw [empty,List.append_nil] at rightShape joinedShape
      rw [← encAllAppend] at joinedShape
      cases (decodesWhole accepted rightShape).symm.trans later
      rw [decodesWhole accepted joinedShape,List.filterMap_append,List.filterMap_append]
      rfl
    · obtain ⟨refusal,refused⟩ := ended.resolve_left empty
      rw [decodesRefused accepted empty refused rightShape] at later
      contradiction
  · intro d error decoded refused
    obtain ⟨f,rs,rfl,accepted,rfl,rfl⟩ := regionParsed leftShape fixed decoded
    obtain ⟨ss,tail,refusal,rfl,more,found,rfl⟩ := regionRefused rightShape rfl accepted refused
    rw [← List.append_assoc (recordFormat.encAll rs),← encAllAppend] at joinedShape
    have place : 58 + (recordFormat.encAll (rs ++ ss)).length =
        58 + (recordFormat.encAll ss).length + (recordFormat.encAll rs).length := by
      rw [encAllAppend,List.length_append]
      omega
    rw [decodesRefused accepted more found joinedShape,place,refusalShifted]
  · intro error refused finished
    obtain ⟨f,rest,same⟩ := frontExists (b := front) (by omega)
    have nothing : rest = [] := by
      have size := congrArg List.length same
      rw [fixed,List.length_append,frontLength] at size
      exact List.eq_nil_of_length_eq_zero (by omega)
    rw [nothing,List.append_nil] at same
    cases answer : f.refusal? with
    | some error' =>
      rw [same] at leftShape joinedShape
      cases (frontDecides leftShape (trailerBehind _ _) answer).symm.trans refused
      exact frontDecides joinedShape (trailerBehind _ _) answer
    | none =>
      obtain ⟨rs,tail,refusal,rfl,more,found,rfl⟩ := regionRefused leftShape same answer refused
      cases refusal with
      | orphan => exact absurd trivial finished
      | truncated tag => exact absurd trivial finished
      | malformed tag reason =>
        rw [same,List.append_assoc (recordFormat.encAll rs)] at joinedShape
        exact decodesRefused answer (by simp [more]) (malformedStays found) joinedShape

/- A timeout; and behind it another one, one that ends too early, one whose value is too short. -/
def timeoutFrame : Slice UInt8 := framed [6,8,5,0,0,0,0,0,0,0] (by decide)
def laterFrame : Slice UInt8 := framed [6,8,6,0,0,0,0,0,0,0] (by decide)
def endedFrame : Slice UInt8 := framed [6,8,6] (by decide)
def shortFrame : Slice UInt8 := framed [6,1,6] (by decide)

def timeoutDigest : Digest := ⟨1,.new,[.bootloaderTimeout 5],[],0x12345678⟩

theorem timeoutDecodes : decode timeoutFrame = .ok timeoutDigest :=
  @decodesWhole _ emptyFront (payloadAccepted _)
    [.known (.bootloaderTimeout 5)] 0x12345678 rfl

theorem laterDecodes : decode laterFrame = .ok ⟨1,.new,[.bootloaderTimeout 6],[],0x12345678⟩ :=
  @decodesWhole _ emptyFront (payloadAccepted _)
    [.known (.bootloaderTimeout 6)] 0x12345678 rfl

theorem endedRefused : decode endedFrame = .error (.err (.truncatedValue 6 58)) :=
  @decodesRefused _ emptyFront (payloadAccepted _) [] 0x12345678 [6,8,6] (.truncated 6) (by simp) rfl rfl

theorem shortRefused : decode shortFrame =
    .error (.err (.malformedRawRecord 6 58 "BootloaderTimeout value length must be 8")) :=
  @decodesRefused _ emptyFront (payloadAccepted _) [] 0x12345678 [6,1,6] (.malformed 6 _) (by simp) rfl rfl

theorem regionsComposeTimeouts :
    decode (framed [6,8,5,0,0,0,0,0,0,0,6,8,6,0,0,0,0,0,0,0] (by decide)) =
      .ok ⟨1,.new,[.bootloaderTimeout 5,.bootloaderTimeout 6],[],0x12345678⟩ ∧
    decode (framed [6,8,5,0,0,0,0,0,0,0,6,8,6] (by decide)) =
      .error (.err (.truncatedValue 6 68)) ∧
    decode (framed [6,1,6,6,8,5,0,0,0,0,0,0,0] (by decide)) =
      .error (.err (.malformedRawRecord 6 58 "BootloaderTimeout value length must be 8")) :=
  ⟨(@regionsCompose emptyFront.bytes _ _ _ _ timeoutFrame laterFrame _ (frontLength _) rfl rfl rfl).1
    _ _ timeoutDecodes laterDecodes,
   (@regionsCompose emptyFront.bytes _ _ _ _ timeoutFrame endedFrame _ (frontLength _) rfl rfl rfl).2.1
    _ _ timeoutDecodes endedRefused,
   (@regionsCompose emptyFront.bytes _ _ _ _ shortFrame timeoutFrame _ (frontLength _) rfl rfl rfl).2.2
    _ shortRefused id⟩

theorem pieceRefused {r : RawRecord} {part rest : List UInt8} (split : r.bytes = part ++ rest)
    (begun : part ≠ []) (short : rest ≠ []) :
    readRecord part = .error (if part.length = 1 then .orphan else .truncated r.tag) := by
  match part with
  | [_] => rfl
  | tag::len::value =>
    obtain ⟨rfl,sized⟩ := List.cons.inj split
    obtain ⟨rfl,content⟩ := List.cons.inj sized
    have size := (congrArg List.length content).trans List.length_append
    have positive := List.length_pos_of_ne_nil short
    have beyond : ¬ (UInt8.ofNat r.value.length).toNat ≤ value.length := by
      rw [r.lengthByte]
      omega
    rw [readTruncated beyond,if_neg (by simp)]

theorem piecePlaced (k : Nat) (r : RawRecord) (part : List UInt8) :
    refusalError k (if part.length = 1 then .orphan else .truncated r.tag) =
      if part.length = 1 then .trailing 1 else .truncatedValue r.tag k := by
  split <;> rfl

/- Every way to cut an accepted payload short: what is left of the records up to the cut decides,
and the four bytes before the cut are taken for the trailer. -/
theorem truncationAnswers {whole cut : Slice UInt8} {d : Digest} {m : Nat}
    (decoded : decode whole = .ok d) (inside : m ≤ whole.data.length)
    (shape : cut.data = whole.data.take m) :
    (m < 62 → decode cut = .error (.err (.short m))) ∧
    (62 ≤ m → ∃ (p : Payload) (n k : Nat), p.bytes = whole.data ∧ n ≤ p.records.length ∧
      k = 58 + (recordFormat.encAll (p.records.take n)).length ∧ k + 4 ≤ m ∧
      (k + 4 = m → ∃ framebufferHash : UInt32, le framebufferHash = cut.data.drop k ∧
        decode cut = .ok ⟨d.frameCounter,d.channelHashes,
          (p.records.take n).filterMap RawRecord.event?,
          (p.records.take n).filterMap RawRecord.unknown?,framebufferHash⟩) ∧
      (k + 4 < m → ∃ r, p.records[n]? = some r ∧ m < k + 4 + r.bytes.length ∧
        decode cut = .error (.err (if k + 4 + 1 = m then .trailing 1 else .truncatedValue r.tag k)))) := by
  constructor
  · intro few
    have size : cut.data.length = m := by rw [shape,List.length_take,Nat.min_eq_left inside]
    have verdict : Verdict cut.data (.error (.short m)) := by
      rw [← size] at few ⊢
      exact .short few
    exact verdictDecodes verdict (Nat.le_refl _)
  intro long
  obtain ⟨p,bytes,rfl⟩ := decodedPayload decoded
  have size := payloadSize p
  rw [bytes] at size
  obtain ⟨j,rfl⟩ := Nat.exists_eq_add_of_le long
  have short : j ≤ p.region.length := by omega
  obtain ⟨n,part,few,taken,stopped⟩ := encAllCut recordFormat p.records short
  -- the front is kept, and four bytes of what is kept behind the region's part are the trailer
  obtain ⟨framebufferHash,trailer⟩ := leSurjective (α := UInt32)
    ((p.region ++ le p.framebufferHash).take (j+4) |>.drop j) (by
      rw [List.length_drop,List.length_take,List.length_append,leLength]
      change min (j+4) (p.region.length + 4) - j = 4
      omega)
  have kept : cut.data = (frontOf p).bytes ++
      (recordFormat.encAll (p.records.take n) ++ part ++ le framebufferHash) := by
    have region : ((p.region ++ le p.framebufferHash).take (j+4)).take j =
        recordFormat.encAll (p.records.take n) ++ part := by
      rw [List.take_take,Nat.min_eq_left (Nat.le_add_right j 4),List.take_append_of_le_length short]
      exact taken
    have front : 62 + j = (frontOf p).bytes.length + (j+4) := by
      rw [frontLength]
      omega
    rw [shape,← bytes,payloadBytes,front,List.take_length_add_append,← region,trailer,
      List.take_append_drop]
  have length := (List.length_take_of_le short).symm.trans
    ((congrArg List.length taken).trans List.length_append)
  refine ⟨p,n,_,bytes,few,rfl,by omega,?_,?_⟩
  · intro exact'
    have empty : part = [] := List.eq_nil_of_length_eq_zero (by omega)
    rw [empty] at kept
    refine ⟨framebufferHash,?_,?_⟩
    · rw [kept,regionDrop]
      rfl
    · rw [List.append_nil] at kept
      exact decodesWhole (payloadAccepted p) kept
  · intro beyond
    have begun : part ≠ [] := List.ne_nil_of_length_pos (by omega)
    obtain ⟨r,rest,found,split,left⟩ := stopped.resolve_left begun
    have whole' := congrArg List.length split
    have positive := List.length_pos_of_ne_nil left
    rw [recordEnc,List.length_append] at whole'
    refine ⟨r,found,by omega,?_⟩
    have refused := decodesRefused (payloadAccepted p) begun (pieceRefused split begun left) kept
    have one : (58 + (recordFormat.encAll (p.records.take n)).length + 4 + 1 = 62 + j) ↔
        part.length = 1 := by omega
    rw [refused,piecePlaced]
    simp only [one]

def cutFrame : Slice UInt8 where
  data := timeoutFrame.data.take 70
  bounded := by decide

theorem truncationAnswersTimeout :
    (70 < 62 → decode cutFrame = .error (.err (.short 70))) ∧
    (62 ≤ 70 → ∃ (p : Payload) (n k : Nat),
      p.bytes = timeoutFrame.data ∧ n ≤ p.records.length ∧
      k = 58 + (recordFormat.encAll (p.records.take n)).length ∧ k + 4 ≤ 70 ∧
      (k + 4 = 70 → ∃ framebufferHash : UInt32, le framebufferHash = cutFrame.data.drop k ∧
        decode cutFrame = .ok ⟨1,.new,(p.records.take n).filterMap RawRecord.event?,
          (p.records.take n).filterMap RawRecord.unknown?,framebufferHash⟩) ∧
      (k + 4 < 70 → ∃ r, p.records[n]? = some r ∧ 70 < k + 4 + r.bytes.length ∧
        decode cutFrame =
          .error (.err (if k + 4 + 1 = 70 then .trailing 1 else .truncatedValue r.tag k)))) :=
  truncationAnswers timeoutDecodes (by decide) rfl

def headed (tag : UInt8) (value : List UInt8) : List UInt8 := tag::UInt8.ofNat value.length::value

theorem headedRefused {tag : UInt8} {value : List UInt8} (known : KnownTag tag)
    (short : value.length < 256) (wrong : WrongValue tag value) (rest : List UInt8) :
    readRecord (headed tag value ++ rest) = .error (.malformed tag (refusalText tag value)) := by
  have len : (UInt8.ofNat value.length).toNat = value.length := by
    rw [UInt8.toNat_ofNat']
    exact Nat.mod_eq_of_lt short
  have whole : (value ++ rest).take (UInt8.ofNat value.length).toNat = value := by
    rw [len,List.take_left]
  have fits : (UInt8.ofNat value.length).toNat ≤ (value ++ rest).length := by
    rw [len,List.length_append]
    exact Nat.le_add_right _ _
  have parsed : WireRecord.parse tag ((value ++ rest).take (UInt8.ofNat value.length).toNat) = none := by
    rw [whole]
    exact (wrongValue known value).mpr wrong
  change readRecord (tag::UInt8.ofNat value.length::(value ++ rest)) = _
  rw [readMalformed fits known parsed,whole]

theorem recordReplaced {bytes : Slice UInt8} {d : Digest} {rs : List RawRecord} {k : Nat}
    (decoded : decode bytes = .ok d) (lead : Lead bytes.data rs k)
    (inside : k + 4 < bytes.data.length) :
    ∃ (r : RawRecord) (later : List RawRecord),
      d.rawRecords = (rs ++ r::later).filterMap RawRecord.event? ∧
      d.unknownRecords = (rs ++ r::later).filterMap RawRecord.unknown? ∧
      ∀ (tag : UInt8) (value : List UInt8) (replaced : Slice UInt8), value.length < 256 →
        replaced.data = bytes.data.take k ++ (headed tag value ++ bytes.data.drop (k + r.bytes.length)) →
        (¬ KnownTag tag → decode replaced = .ok {d with
          rawRecords := (rs ++ later).filterMap RawRecord.event?
          unknownRecords := rs.filterMap RawRecord.unknown? ++
            ⟨tag,value⟩::later.filterMap RawRecord.unknown?}) ∧
        (∀ w, WireRecord.parse tag value = some w → decode replaced = .ok {d with
          rawRecords := rs.filterMap RawRecord.event? ++ w.event::later.filterMap RawRecord.event?
          unknownRecords := (rs ++ later).filterMap RawRecord.unknown?}) ∧
        (KnownTag tag → WrongValue tag value →
          decode replaced = .error (.err (.malformedRawRecord tag k (refusalText tag value)))) := by
  obtain ⟨p,whole,rfl⟩ := decodedPayload decoded
  have shape : bytes.data =
      (frontOf p).bytes ++ (recordFormat.encAll p.records ++ [] ++ le p.framebufferHash) := by
    rw [← whole,payloadBytes,List.append_nil]
    rfl
  rw [shape] at lead
  obtain ⟨more,all,rfl⟩ := leadSplit (frontOf p) p.framebufferHash (.inl rfl) lead
  rw [all] at shape
  cases more with
  | nil =>
    rw [shape,wholeLength,List.append_nil] at inside
    simp at inside
  | cons r later =>
  refine ⟨r,later,by rw [← all]; rfl,by rw [← all]; rfl,?_⟩
  intro tag value replaced short edited
  have behind : bytes.data.drop (58 + (recordFormat.encAll rs).length + r.bytes.length) =
      recordFormat.encAll later ++ le p.framebufferHash := by
    rw [← List.drop_drop,shape,leadDropped,encAllCons,recordEnc,List.append_nil,List.append_assoc,
      List.drop_left]
  rw [behind,shape,leadTaken] at edited
  -- the record written over parses, so the whole does
  have anew : ∀ s : RawRecord, s.bytes = headed tag value → decode replaced =
      .ok {p.digest with
        rawRecords := (rs ++ s::later).filterMap RawRecord.event?
        unknownRecords := (rs ++ s::later).filterMap RawRecord.unknown?} := by
    intro s same
    refine decodesWhole (payloadAccepted p) (edited.trans ?_)
    rw [encAllAppend,encAllCons,recordEnc,same]
    simp only [List.append_assoc]
    rfl
  refine ⟨?_,?_,?_⟩
  · intro foreign
    rw [anew (.unknown ⟨tag,value⟩ foreign short) rfl]
    simp [List.filterMap_append,List.filterMap_cons,RawRecord.event?,RawRecord.unknown?]
  · intro w parsed
    obtain ⟨rfl,rfl⟩ := WireRecord.parseSound parsed
    rw [anew (.known w) rfl]
    simp [List.filterMap_append,List.filterMap_cons,RawRecord.event?,RawRecord.unknown?]
  · intro known wrong
    have cut : replaced.data = (frontOf p).bytes ++ (recordFormat.encAll rs ++
        (headed tag value ++ recordFormat.encAll later) ++ le p.framebufferHash) := by
      rw [edited]
      simp only [List.append_assoc]
    exact decodesRefused (payloadAccepted p) (by simp [headed])
      (headedRefused known short wrong (recordFormat.encAll later)) cut

theorem recordReplacedTimeout :
    ∃ (r : RawRecord) (later : List RawRecord),
      [.bootloaderTimeout 5] = ([] ++ r::later).filterMap RawRecord.event? ∧
      [] = ([] ++ r::later).filterMap RawRecord.unknown? ∧
      ∀ (tag : UInt8) (value : List UInt8) (replaced : Slice UInt8), value.length < 256 →
        replaced.data = timeoutFrame.data.take 58 ++
          (headed tag value ++
            timeoutFrame.data.drop (58 + r.bytes.length)) →
        (¬ KnownTag tag → decode replaced = .ok {timeoutDigest with
          rawRecords := ([] ++ later).filterMap RawRecord.event?
          unknownRecords := [] ++ ⟨tag,value⟩::later.filterMap RawRecord.unknown?}) ∧
        (∀ w, WireRecord.parse tag value = some w → decode replaced = .ok {timeoutDigest with
          rawRecords := [] ++ w.event::later.filterMap RawRecord.event?
          unknownRecords := ([] ++ later).filterMap RawRecord.unknown?}) ∧
        (KnownTag tag → WrongValue tag value →
          decode replaced = .error (.err (.malformedRawRecord tag 58 (refusalText tag value)))) :=
  recordReplaced timeoutDecodes ⟨by decide,by decide,by decide⟩ (by decide)

end VisualDigest.Regions
