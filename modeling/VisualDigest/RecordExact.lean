import VisualDigest.Grammar

/-! One round of the raw-record loop reads one record of the grammar, or refuses with the
error the grammar's refusal stands for. -/
namespace VisualDigest.RecordExact
open Checked LittleEndian FieldCodec Events Format Decoder Wire Grammar

theorem expectLenOk {tag : UInt8} {pos len expected : Nat} {reason : String} (same : len = expected) :
    expectLen tag pos len expected reason = .ok () := failIfNot (not_not_intro same)

theorem expectLenFails {tag : UInt8} {pos len expected : Nat} {reason : String}
    (differs : len ≠ expected) : expectLen tag pos len expected reason = fail (malformed tag pos reason) :=
  failIfHolds differs

def Answers (tag : UInt8) (pos : Nat) (value : List UInt8) (arm : Exec DecodeError Record) : Prop :=
  match WireRecord.parse tag value with
  | some w => arm = .ok w.event
  | none => arm = fail (malformed tag pos (refusalText tag value))

theorem answersParsed {pos : Nat} {arm : Exec DecodeError Record} (w : WireRecord)
    (ran : arm = .ok w.event) : Answers w.tag pos w.value arm := by
  unfold Answers
  rw [WireRecord.parseValue]
  exact ran

theorem answersRefused {tag : UInt8} {pos : Nat} {value : List UInt8} {arm : Exec DecodeError Record}
    (refused : WireRecord.parse tag value = none)
    (ran : arm = fail (malformed tag pos (refusalText tag value))) : Answers tag pos value arm := by
  unfold Answers
  rw [refused]
  exact ran

section
variable {pos : Nat} {value : List UInt8} (small : value.length ≤ usizeMax)
include small

theorem keypressAnswers : Answers 0x01 pos value (decodeKeypress 0x01 pos value.length value) := by
  by_cases len : value.length = 12
  · obtain ⟨⟨ts,unicode,scancode⟩,rfl⟩ := keypressTotal value len
    refine answersParsed (.keypress ts unicode scancode) ?_
    have first := readLeAt (ε := DecodeError) small 0 [] ts (le unicode ++ le scancode) rfl rfl
    have second := readLeAt (ε := DecodeError) small 8 (le ts) unicode (le scancode) rfl rfl
    have third := readLeAt (ε := DecodeError) small 10 (le ts ++ le unicode) scancode [] rfl rfl
    simp only [decodeKeypress,expectLenOk len,bind,Except.bind,first,second,third]
    rfl
  · refine answersRefused (WireRecord.parseLength len) ?_
    simp only [decodeKeypress,expectLenFails len]
    rfl

theorem lineRenderedAnswers :
    Answers 0x02 pos value (decodeLineRendered 0x02 pos value.length value) := by
  by_cases len : value.length = 10
  · obtain ⟨⟨ts,row⟩,rfl⟩ := lineRenderedTotal value len
    refine answersParsed (.lineRendered ts row) ?_
    have first := readLeAt (ε := DecodeError) small 0 [] ts (le row) rfl rfl
    have second := readLeAt (ε := DecodeError) small 8 (le ts) row [] rfl rfl
    simp only [decodeLineRendered,expectLenOk len,bind,Except.bind,first,second]
    rfl
  · refine answersRefused (WireRecord.parseLength len) ?_
    simp only [decodeLineRendered,expectLenFails len]
    rfl

theorem sceneTransitionAnswers :
    Answers 0x03 pos value (decodeSceneTransition 0x03 pos value.length value) := by
  by_cases len : value.length = 10
  · -- any two bytes may follow the timestamp, so the discriminants are looked at one by one
    obtain ⟨⟨ts,fromByte,toByte⟩,rfl⟩ :=
      pairTotal (wordTotal UInt64) (pairTotal byteTotal byteTotal) value len
    change Answers 0x03 pos (le ts ++ [fromByte,toByte])
      (decodeSceneTransition 0x03 pos _ (le ts ++ [fromByte,toByte]))
    have first : readLe (le ts ++ [fromByte,toByte]) 0 = (.ok ts : Exec DecodeError _) :=
      readLeAt small 0 [] ts [fromByte,toByte] rfl rfl
    have second : index (le ts ++ [fromByte,toByte]) 8 = (.ok fromByte : Exec DecodeError _) := rfl
    have third : index (le ts ++ [fromByte,toByte]) 9 = (.ok toByte : Exec DecodeError _) := rfl
    have text : refusalText 0x03 (le ts ++ [fromByte,toByte]) =
        if (decodePhase fromByte).isNone then "SceneTransition: unknown from_phase discriminant"
        else "SceneTransition: unknown to_phase discriminant" := rfl
    simp only [Answers,WireRecord.parseSceneTransition,text,decodeSceneTransition,expectLenOk len,bind,
      Except.bind,first,second,third]
    cases decodePhase fromByte with
    | none => rfl
    | some f =>
      cases decodePhase toByte with
      | none => rfl
      | some t => rfl
  · refine answersRefused (WireRecord.parseLength len) ?_
    simp only [decodeSceneTransition,expectLenFails len,refusalText,if_pos len]
    rfl

theorem bootloaderDecisionAnswers :
    Answers 0x04 pos value (decodeBootloaderDecision 0x04 pos value.length value) := by
  by_cases len : value.length = 13
  · obtain ⟨⟨ts,choiceByte,attempt⟩,rfl⟩ :=
      pairTotal (wordTotal UInt64) (pairTotal byteTotal (wordTotal UInt32)) value len
    change Answers 0x04 pos (le ts ++ (choiceByte::le attempt))
      (decodeBootloaderDecision 0x04 pos _ (le ts ++ (choiceByte::le attempt)))
    have first : readLe (le ts ++ (choiceByte::le attempt)) 0 = (.ok ts : Exec DecodeError _) :=
      readLeAt small 0 [] ts (choiceByte::le attempt) rfl rfl
    have second : index (le ts ++ (choiceByte::le attempt)) 8 = (.ok choiceByte : Exec DecodeError _) :=
      rfl
    have third : readLe (le ts ++ (choiceByte::le attempt)) 9 = (.ok attempt : Exec DecodeError _) :=
      readLeAt small 9 (le ts ++ [choiceByte]) attempt [] rfl rfl
    have text : refusalText 0x04 (le ts ++ (choiceByte::le attempt)) =
        "BootloaderDecision: unknown choice discriminant" := rfl
    simp only [Answers,WireRecord.parseBootloaderDecision,text,decodeBootloaderDecision,expectLenOk len,
      bind,Except.bind,first,second,third]
    cases decodeBootloaderChoice choiceByte with
    | none => rfl
    | some choice => rfl
  · refine answersRefused (WireRecord.parseLength len) ?_
    simp only [decodeBootloaderDecision,expectLenFails len,refusalText,if_pos len]
    rfl

theorem pasteReceivedAnswers :
    Answers 0x05 pos value (decodePasteReceived 0x05 pos value.length value) := by
  by_cases len : value.length = 11
  · obtain ⟨⟨ts,pasteLen,correct⟩,rfl⟩ := pasteReceivedTotal value len
    refine answersParsed (.pasteReceived ts pasteLen correct) ?_
    have first := readLeAt (ε := DecodeError) small 0 [] ts (le pasteLen ++ [correct]) rfl rfl
    have second := readLeAt (ε := DecodeError) small 8 (le ts) pasteLen [correct] rfl rfl
    simp only [decodePasteReceived,expectLenOk len,bind,Except.bind,first,second]
    rfl
  · refine answersRefused (WireRecord.parseLength len) ?_
    simp only [decodePasteReceived,expectLenFails len]
    rfl

theorem bootloaderTimeoutAnswers :
    Answers 0x06 pos value (decodeBootloaderTimeout 0x06 pos value.length value) := by
  by_cases len : value.length = 8
  · obtain ⟨ts,rfl⟩ := leSurjective (α := UInt64) value len
    refine answersParsed (.bootloaderTimeout ts) ?_
    have first := readLeAt (ε := DecodeError) small 0 [] ts [] rfl rfl
    simp only [decodeBootloaderTimeout,expectLenOk len,bind,Except.bind,first]
    rfl
  · refine answersRefused (WireRecord.parseLength len) ?_
    simp only [decodeBootloaderTimeout,expectLenFails len]
    rfl

theorem modeSwitchAnswers : Answers 0x07 pos value (decodeModeSwitch 0x07 pos value.length value) := by
  by_cases len : value.length = 16
  · obtain ⟨⟨ts,rw,rh,aw,ah⟩,rfl⟩ := modeSwitchTotal value len
    refine answersParsed (.modeSwitch ts rw rh aw ah) ?_
    have first := readLeAt (ε := DecodeError) small 0 [] ts (le rw ++ (le rh ++ (le aw ++ le ah))) rfl rfl
    have second := readLeAt (ε := DecodeError) small 8 (le ts) rw (le rh ++ (le aw ++ le ah)) rfl rfl
    have third := readLeAt (ε := DecodeError) small 10 (le ts ++ le rw) rh (le aw ++ le ah) rfl rfl
    have fourth := readLeAt (ε := DecodeError) small 12 (le ts ++ le rw ++ le rh) aw (le ah) rfl rfl
    have fifth := readLeAt (ε := DecodeError) small 14 (le ts ++ le rw ++ le rh ++ le aw) ah [] rfl rfl
    simp only [decodeModeSwitch,expectLenOk len,bind,Except.bind,first,second,third,fourth,fifth]
    rfl
  · refine answersRefused (WireRecord.parseLength len) ?_
    simp only [decodeModeSwitch,expectLenFails len]
    rfl

theorem modeCycleAnswers : Answers 0x08 pos value (decodeModeCycle 0x08 pos value.length value) := by
  by_cases len : value.length = 13
  · obtain ⟨⟨ts,count,interrupted⟩,rfl⟩ := modeCycleTotal value len
    refine answersParsed (.modeCycle ts count interrupted) ?_
    have first := readLeAt (ε := DecodeError) small 0 [] ts (le count ++ [interrupted]) rfl rfl
    have second := readLeAt (ε := DecodeError) small 8 (le ts) count [interrupted] rfl rfl
    simp only [decodeModeCycle,expectLenOk len,bind,Except.bind,first,second]
    rfl
  · refine answersRefused (WireRecord.parseLength len) ?_
    simp only [decodeModeCycle,expectLenFails len]
    rfl

end

theorem arm {tag : UInt8} {pos : Nat} {value : List UInt8} {run : Exec DecodeError Record}
    (answers : Answers tag pos value run) :
    (run >>= fun record => pure (.raw record)) =
      match WireRecord.parse tag value with
      | some w => .ok (Pushed.raw w.event)
      | none => fail (malformed tag pos (refusalText tag value)) := by
  unfold Answers at answers
  split at answers <;> rw [answers] <;> rfl

theorem decodeKnown {tag : UInt8} (known : KnownTag tag) {pos : Nat} {value : List UInt8}
    (small : value.length ≤ usizeMax) :
    decodeRecord tag pos value.length value =
      match WireRecord.parse tag value with
      | some w => .ok (.raw w.event)
      | none => fail (malformed tag pos (refusalText tag value)) := by
  rcases knownTags known with rfl | rfl | rfl | rfl | rfl | rfl | rfl | rfl
  · exact arm (keypressAnswers small)
  · exact arm (lineRenderedAnswers small)
  · exact arm (sceneTransitionAnswers small)
  · exact arm (bootloaderDecisionAnswers small)
  · exact arm (pasteReceivedAnswers small)
  · exact arm (bootloaderTimeoutAnswers small)
  · exact arm (modeSwitchAnswers small)
  · exact arm (modeCycleAnswers small)

theorem decodeUnknown {tag : UInt8} (foreign : ¬ KnownTag tag) {pos len : Nat} {value : List UInt8} :
    decodeRecord tag pos len value = .ok (.unknown ⟨tag,value⟩) := by
  have differs : ∀ known, KnownTag known → ¬ tag = known := fun known h same => foreign (same ▸ h)
  unfold decodeRecord
  rw [if_neg (differs tagKeypress (by decide)),if_neg (differs tagLineRendered (by decide)),
    if_neg (differs tagSceneTransition (by decide)),if_neg (differs tagBootloaderDecision (by decide)),
    if_neg (differs tagPasteReceived (by decide)),if_neg (differs tagBootloaderTimeout (by decide)),
    if_neg (differs tagModeSwitch (by decide)),if_neg (differs tagModeCycle (by decide))]
  rfl

def refusalError (pos : Nat) : Refusal → DecodeError
  | .orphan => .trailing 1
  | .truncated tag => .truncatedValue tag pos
  | .malformed tag reason => .malformedRawRecord tag pos reason

def outcome (s : Cursor) : Except Refusal (RawRecord × List UInt8) → Exec DecodeError Cursor
  | .ok (r,_) => .ok (s.push r.pushed (s.pos + r.bytes.length))
  | .error refusal => fail (refusalError s.pos refusal)

theorem stepOrphan {s : Cursor} {bytes : List UInt8} {trailerStart : Nat}
    (header : s.pos + 2 ≤ usizeMax) (last : trailerStart = s.pos + 1) :
    recordStep bytes trailerStart s = fail (.trailing 1) := by
  have beyond : s.pos + 2 > trailerStart := by omega
  have inside : s.pos ≤ trailerStart := by omega
  have extra : trailerStart - s.pos = 1 := by omega
  simp only [recordStep,addOk header,bind,Except.bind,if_pos beyond,subOk inside,extra]
  rfl

theorem stepHead {s : Cursor} {bytes front rest : List UInt8} {tag len : UInt8} {trailerStart : Nat}
    (shape : bytes = front ++ tag::len::rest) (cursor : s.pos = front.length)
    (room : s.pos + 2 ≤ trailerStart) (small : s.pos + 257 ≤ usizeMax) :
    recordStep bytes trailerStart s = (do
      failIf (s.pos + 2 + len.toNat > trailerStart) (.truncatedValue tag s.pos)
      let value ← slice bytes (s.pos+2) (s.pos+2+len.toNat)
      return s.push (← decodeRecord tag s.pos len.toNat value) (s.pos+2+len.toNat)) := by
  have first : index bytes s.pos = (.ok tag : Exec DecodeError _) := by
    rw [shape,cursor]
    exact indexAt front tag _
  have second : index bytes (s.pos+1) = (.ok len : Exec DecodeError _) := by
    have found := indexAt (ε := DecodeError) (front ++ [tag]) len rest
    rw [shape,cursor]
    simpa using found
  have byte := len.toNat_lt
  have header : s.pos + 2 ≤ usizeMax := by omega
  have lenAt : s.pos + 1 ≤ usizeMax := by omega
  have valueEnd : s.pos + 2 + len.toNat ≤ usizeMax := by omega
  simp only [recordStep,addOk header,addOk lenAt,bind,Except.bind,if_neg (Nat.not_lt.mpr room),first,
    second,checkedAddOk valueEnd,okOr]

theorem decodePushes {s : Cursor} {tag len : UInt8} {rest : List UInt8} (fits : len.toNat ≤ rest.length) :
    (do return s.push (← decodeRecord tag s.pos len.toNat (rest.take len.toNat)) (s.pos+2+len.toNat)) =
      outcome s (readRecord (tag::len::rest)) := by
  have taken : (rest.take len.toNat).length = len.toNat := by rw [List.length_take]; omega
  have byte := len.toNat_lt
  have small : (rest.take len.toNat).length ≤ usizeMax := by
    have top := smallUsize
    omega
  by_cases known : KnownTag tag
  · have arms := @decodeKnown tag known s.pos _ small
    rw [taken] at arms
    rw [arms]
    cases found : WireRecord.parse tag (rest.take len.toNat) with
    | none =>
      rw [readMalformed fits known found]
      rfl
    | some w =>
      rw [readKnown fits found]
      obtain ⟨rfl,same⟩ := WireRecord.parseSound found
      have width : (RawRecord.known w).bytes.length = 2 + len.toNat := by
        rw [RawRecord.bytesLength,RawRecord.value,same,taken,Nat.add_comm]
      simp only [outcome,width,← Nat.add_assoc]
      rfl
  · rw [readForeign fits known,decodeUnknown known]
    simp only [outcome,RawRecord.bytesLength,RawRecord.value,taken,Nat.add_comm len.toNat 2,← Nat.add_assoc]
    rfl

theorem stepReads {s : Cursor} {bytes front region trailer : List UInt8} {trailerStart : Nat}
    (shape : bytes = front ++ (region ++ trailer)) (cursor : s.pos = front.length)
    (stop : trailerStart = front.length + region.length) (more : region ≠ [])
    (bounded : bytes.length ≤ isizeMax) :
    recordStep bytes trailerStart s = outcome s (readRecord region) := by
  have small := isizeUsize
  have size := congrArg List.length shape
  simp only [List.length_append] at size
  match region,more with
  | [orphan],_ => exact stepOrphan (by omega) (by rw [stop,cursor,List.length_singleton])
  | tag::len::rest,_ =>
    rw [List.length_cons,List.length_cons] at stop
    rw [stepHead shape cursor (by omega) (by omega)]
    by_cases fits : len.toNat ≤ rest.length
    · have value : slice bytes (s.pos+2) (s.pos+2+len.toNat) =
          (.ok (rest.take len.toNat) : Exec DecodeError _) := by
        have part := sliceAt (ε := DecodeError) (front ++ [tag,len]) (rest.take len.toNat)
          (rest.drop len.toNat ++ trailer)
        have whole : rest.take len.toNat ++ (rest.drop len.toNat ++ trailer) = rest ++ trailer := by
          rw [← List.append_assoc,List.take_append_drop]
        rw [List.length_take,Nat.min_eq_left fits,List.length_append,← cursor,whole] at part
        rw [← part,shape]
        simp
      rw [failIfNot (by omega),value]
      exact decodePushes fits
    · rw [failIfHolds (by omega),readTruncated fits]
      rfl

end VisualDigest.RecordExact
