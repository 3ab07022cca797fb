import VisualDigest.Grammar
import VisualDigest.Library.BudgetWindow

/-! What the encoder writes: the bytes of the payload it stands for, and nothing else. -/
namespace VisualDigest.EncoderExact
open Checked LittleEndian FieldCodec Events Format Hashes Encoder Wire Grammar

def tlv (e : Event) : List UInt8 := (RawRecord.known (narrow e)).bytes

theorem tlvLength (e : Event) : (tlv e).length = sizeOfRecord e := narrowSize e

section
variable {ε : Type}

theorem headEmits {tag len : UInt8} {ts : UInt64} {fields : Writer UInt8 maxRecordSize ε Nat}
    {out : List UInt8} {r : Nat} (later : Emits fields (tag::len::le ts) out r) :
    Emits (do store 0 tag; store 1 len; copyInto 2 10 (le ts); fields) []
      (tag::len::le ts ++ out) r := by
  refine .cast (.bind (.store _ rfl) <| .bind (.store _ rfl) <| .bind (.copy _ rfl rfl) later) ?_
  simp only [List.cons_append,List.nil_append]

theorem eventTlvEmits (e : Event) :
    Emits (eventTlvBytes e : Writer UInt8 maxRecordSize ε Nat) [] (tlv e) (sizeOfRecord e) := by
  cases e with
  | keypress unicode scancode ts =>
    refine .cast (.bind (.check _ rfl) <| headEmits <| .bind (.copy _ rfl rfl) <|
      .bind (.copy _ rfl rfl) <| .pure _ _) ?_
    simp only [List.append_nil,List.nil_append]; rfl
  | lineRendered row ts =>
    refine .cast (.bind (.check _ rfl) <| headEmits <| .bind (.copy _ rfl rfl) <| .pure _ _) ?_
    simp only [List.append_nil,List.nil_append]; rfl
  | sceneTransition f t ts =>
    refine .cast (.bind (.check _ rfl) <| headEmits <| .bind (.store _ rfl) <|
      .bind (.store _ rfl) <| .pure _ _) ?_
    simp only [List.append_nil,List.nil_append]; rfl
  | bootloaderDecision choice attempt ts =>
    refine .cast (.bind (.check _ rfl) <| headEmits <| .bind (.store _ rfl) <|
      .bind (.copy _ rfl rfl) <| .pure _ _) ?_
    simp only [List.append_nil,List.nil_append]; rfl
  | pasteReceived len correct ts =>
    refine .cast (.bind (.check _ rfl) <| headEmits <| .bind (.copy _ rfl rfl) <|
      .bind (.store _ rfl) <| .pure _ _) ?_
    simp only [List.append_nil,List.nil_append]; rfl
  | bootloaderTimeout ts =>
    refine .cast (.bind (.check _ rfl) <| headEmits <| .pure _ _) ?_
    simp only [List.append_nil,List.nil_append]; rfl
  | modeSwitch rw rh aw ah ts =>
    refine .cast (.bind (.check _ rfl) <| headEmits <| .bind (.copy _ rfl rfl) <|
      .bind (.copy _ rfl rfl) <| .bind (.copy _ rfl rfl) <| .bind (.copy _ rfl rfl) <| .pure _ _) ?_
    simp only [List.append_nil,List.nil_append]; rfl
  | modeCycle count interrupted ts =>
    refine .cast (.bind (.check _ rfl) <| headEmits <| .bind (.copy _ rfl rfl) <|
      .bind (.store _ rfl) <| .pure _ _) ?_
    simp only [List.append_nil,List.nil_append]; rfl

/- The record's bytes in a buffer of their own, as both callers take them. -/
def eventTlv (e : Event) : Exec ε (List UInt8) := do
  let (len,buf) ← onBuffer (List.Vector.replicate maxRecordSize 0) (eventTlvBytes e)
  slice buf.toList 0 len

theorem eventTlvSlice (e : Event) :
    ∃ buf, onBuffer (List.Vector.replicate maxRecordSize 0) (eventTlvBytes e) =
      (.ok (sizeOfRecord e,buf) : Exec ε _) ∧
      slice buf.toList 0 (sizeOfRecord e) = (.ok (tlv e) : Exec ε _) := by
  have room : (tlv e).length ≤ maxRecordSize := by rw [tlvLength]; exact sizeUpper e
  obtain ⟨buf,ran,shape⟩ := onBufferEmits (eventTlvEmits e) room (List.Vector.replicate maxRecordSize 0)
  refine ⟨buf,ran,?_⟩
  rw [shape]
  simpa [tlvLength] using sliceAt (ε := ε) [] (tlv e) _

theorem eventTlvExact (e : Event) : eventTlv e = (.ok (tlv e) : Exec ε _) := by
  obtain ⟨buf,ran,front⟩ := eventTlvSlice (ε := ε) e
  unfold eventTlv
  simp only [ran,bind,Except.bind,front]

end

theorem writeRecordEmits (e : Event) {pre : List UInt8} {pos : Nat} (cursor : pos = pre.length)
    (room : pos + sizeOfRecord e ≤ digestPayloadCapacity) :
    Emits (writeRecord pos e) pre (tlv e) (pos + sizeOfRecord e) := by
  have within : pos + sizeOfRecord e ≤ 106 := room
  have fits : pos + sizeOfRecord e ≤ usizeMax := by
    have top := smallUsize
    omega
  obtain ⟨buf,ran,front⟩ := eventTlvSlice (ε := EncodeError) e
  refine .cast (.bind (.check _ (addOk fits)) <| .bind (.check _ (failIfNot (Nat.not_lt.mpr room))) <|
    .bind (.check _ ran) <| .bind (.check _ front) <| .bind (.check _ (addOk fits)) <|
    .bind (.copy _ ?_ ?_) <| .check _ (addOk fits)) ?_
  · simpa using cursor
  · simp [cursor,tlvLength]
  · simp

def selected (events : List Event) : List Event :=
  BudgetWindow.window sizeOfRecord recordBudget events

structure SelectionSound (s : Selection) : Prop where
  within : s.recordBytes ≤ recordBudget
  light : 10 * s.included ≤ s.recordBytes

theorem SelectionSound.few {s : Selection} (sound : SelectionSound s) : s.included ≤ 4 := by
  have budget : recordBudget = 44 := rfl
  have within := sound.within
  have light := sound.light
  omega

theorem selectTakes {ε : Type} {e : Event} {s : Selection} (sound : SelectionSound s)
    (fits : sizeOfRecord e ≤ recordBudget - s.recordBytes) :
    selectStep (ε := ε) e s = .ok (.yield ⟨s.recordBytes + sizeOfRecord e,s.included+1⟩) := by
  have few := sound.few
  have within := sound.within
  have budget : recordBudget = 44 := rfl
  have top := smallUsize
  have room : ¬ s.recordBytes + sizeOfRecord e > recordBudget := by omega
  have small : s.recordBytes + sizeOfRecord e ≤ usizeMax := by omega
  have count : s.included + 1 ≤ usizeMax := by omega
  have uncapped : ¬ s.included + 1 = 255 := by omega
  simp only [selectStep,addOk small,addOk count,bind,Except.bind,if_neg room,if_neg uncapped]
  rfl

theorem selectStops {ε : Type} {e : Event} {s : Selection} (sound : SelectionSound s)
    (full : ¬ sizeOfRecord e ≤ recordBudget - s.recordBytes) :
    selectStep (ε := ε) e s = .ok (.done s) := by
  have within := sound.within
  have beyond : s.recordBytes + sizeOfRecord e > recordBudget := by omega
  have small : s.recordBytes + sizeOfRecord e ≤ usizeMax := by
    have upper : sizeOfRecord e ≤ 18 := sizeUpper e
    have budget : recordBudget = 44 := rfl
    have top := smallUsize
    omega
  simp only [selectStep,addOk small,bind,Except.bind,if_pos beyond]
  rfl

theorem soundPush {e : Event} {s : Selection} (sound : SelectionSound s)
    (fits : sizeOfRecord e ≤ recordBudget - s.recordBytes) :
    SelectionSound ⟨s.recordBytes + sizeOfRecord e,s.included+1⟩ := by
  have within := sound.within
  have light := sound.light
  have lower := sizeLower e
  exact ⟨by dsimp only; omega,by dsimp only; omega⟩

theorem selectKeeps {ε : Type} {e : Event} {s : Selection} {step : ForInStep Selection}
    (sound : SelectionSound s) (ran : selectStep (ε := ε) e s = .ok step) :
    SelectionSound step.value := by
  by_cases fits : sizeOfRecord e ≤ recordBudget - s.recordBytes
  · rw [selectTakes sound fits] at ran
    cases ran
    exact soundPush sound fits
  · rw [selectStops sound fits] at ran
    cases ran
    exact sound

theorem selectLoop {ε : Type} (events : List Event) {s : Selection} (sound : SelectionSound s) :
    forIn events s (selectStep (ε := ε)) = .ok
      ⟨s.recordBytes + BudgetWindow.total sizeOfRecord
        (BudgetWindow.greedy sizeOfRecord (recordBudget - s.recordBytes) events),
       s.included + (BudgetWindow.greedy sizeOfRecord (recordBudget - s.recordBytes) events).length⟩ := by
  induction events generalizing s with
  | nil => rfl
  | cons e events ih =>
    by_cases fits : sizeOfRecord e ≤ recordBudget - s.recordBytes
    · have later := ih (soundPush sound fits)
      dsimp only at later
      rw [forContinues (selectTakes sound fits),later,BudgetWindow.greedy,if_pos fits,
        BudgetWindow.totalCons,List.length_cons,Nat.sub_sub]
      congr 2 <;> omega
    · rw [forStops (selectStops sound fits),BudgetWindow.greedy,if_neg fits]
      rfl

theorem soundStart : SelectionSound ⟨0,0⟩ := ⟨Nat.zero_le _,Nat.le_refl _⟩

theorem selectExact {ε : Type} (events : List Event) :
    select (ε := ε) events = .ok
      ⟨BudgetWindow.total sizeOfRecord (selected events),(selected events).length⟩ := by
  have walk := selectLoop (ε := ε) events.reverse soundStart
  simpa [select,selected,BudgetWindow.window] using walk

theorem selectChosen {ε : Type} {events : List Event} {s : Selection}
    (chosen : select (ε := ε) events = .ok s) :
    events.drop (events.length - s.included) = selected events := by
  cases (selectExact events).symm.trans chosen
  exact BudgetWindow.dropFirst sizeOfRecord recordBudget events

theorem selectedFew (events : List Event) : (selected events).length ≤ 4 :=
  BudgetWindow.windowBounded sizeLower (show 44 < 5 * 10 by omega) events

theorem selectedWithin (events : List Event) :
    BudgetWindow.total sizeOfRecord (selected events) ≤ recordBudget :=
  (BudgetWindow.windowLongest sizeOfRecord recordBudget events).within

theorem countByte (events : List Event) :
    (UInt8.ofNat (numHashChannels + (selected events).length)).toNat = 8 + (selected events).length := by
  have few := selectedFew events
  rw [UInt8.toNat_ofNat']
  exact Nat.mod_eq_of_lt (by simp only [numHashChannels]; omega)

def payload (events : List Event) (frameCounter framebufferHash : UInt32) (h : ChannelHashes) :
    Payload where
  frameCounter := frameCounter
  count := UInt8.ofNat (numHashChannels + (selected events).length)
  counted := by
    rw [UInt8.le_iff_toNat_le,countByte]
    exact Nat.le_add_right 8 _
  hashes := h
  records := (selected events).map fun e => .known (narrow e)
  framebufferHash := framebufferHash

theorem writtenHashes (h : ChannelHashes) :
    (hashChannels h).flatMap (fun r => hashRecord r.1 r.2) = hashBlock h := by
  simp [hashChannels,hashBlock]; rfl

theorem writtenRegion (events : List Event) (frameCounter framebufferHash : UInt32)
    (h : ChannelHashes) :
    (payload events frameCounter framebufferHash h).region = (selected events).flatMap tlv := by
  simp only [Payload.region,payload,RecordFormat.Format.encAll,List.flatMap_map]
  rfl

theorem regionLength (es : List Event) :
    (es.flatMap tlv).length = BudgetWindow.total sizeOfRecord es := by
  simp [List.length_flatMap,tlvLength,BudgetWindow.total]

theorem writeHashEmits (pre : List UInt8) (r : UInt8 × UInt32)
    (room : pre.length + (hashRecord r.1 r.2).length ≤ digestPayloadCapacity) :
    Emits (writeHashRecord pre.length r) pre (hashRecord r.1 r.2)
      (pre.length + (hashRecord r.1 r.2).length) := by
  have size : (hashRecord r.1 r.2).length = 6 := rfl
  have top := smallUsize
  have capacity : digestPayloadCapacity = 106 := rfl
  rw [size] at room ⊢
  refine .cast (.bind (.check _ (addOk (by simp only [recordHashSize]; omega))) <|
    .bind (.check _ (failIfNot (Nat.not_lt.mpr room))) <| .bind (.store _ ?_) <|
    .bind (.check _ (addOk (by omega))) <| .bind (.store _ ?_) <|
    .bind (.check _ (addOk (by omega))) <| .bind (.check _ (addOk (by omega))) <|
    .bind (.copy _ ?_ ?_) <| .check _ (addOk (by simp only [recordHashSize]; omega))) ?_
  · simp
  · simp
  · simp
  · simp; rfl
  · simp [hashRecord]

theorem writeTlvEmits (pre : List UInt8) (e : Event)
    (room : pre.length + (tlv e).length ≤ digestPayloadCapacity) :
    Emits (writeRecord pre.length e) pre (tlv e) (pre.length + (tlv e).length) := by
  rw [tlvLength] at room ⊢
  exact writeRecordEmits e rfl room

theorem takesSelected {ε : Type} (events : List Event) :
    slice events (events.length - (selected events).length) events.length =
      (.ok (selected events) : Exec ε _) := by
  obtain ⟨older,split⟩ : selected events <:+ events :=
    (BudgetWindow.windowLongest sizeOfRecord recordBudget events).suffix
  have part := sliceAt (ε := ε) older (selected events) []
  have size := congrArg List.length split
  rw [List.length_append] at size
  rw [List.append_nil,split,size] at part
  have start : events.length - (selected events).length = older.length := by omega
  rw [start]
  exact part

theorem encodeEmits (events : List Event) (frameCounter framebufferHash : UInt32) (h : ChannelHashes) :
    Emits (encode events frameCounter framebufferHash h) []
      (payload events frameCounter framebufferHash h).bytes
      (62 + BudgetWindow.total sizeOfRecord (selected events)) := by
  have few := selectedFew events
  have within : BudgetWindow.total sizeOfRecord (selected events) ≤ 44 := selectedWithin events
  have raw := regionLength (selected events)
  have block : ((hashChannels h).flatMap fun r => hashRecord r.1 r.2).length = 48 := rfl
  have counter : (le frameCounter).length = 4 := rfl
  have trailer : (le framebufferHash).length = 4 := rfl
  have top := smallUsize
  have size := BudgetWindow.windowLength sizeOfRecord recordBudget events
  refine .cast (.bind (.check _ (selectExact events)) <| .bind (.check _ (subOk size)) <|
    .bind (.check _ (addOk ?total)) <| .bind (.check _ (addOk ?recordsEnd)) <|
    .bind (.check _ (addOk ?totalLen)) <| .bind (.check _ (failIfNot ?fits)) <|
    .bind (.check _ rfl) <| .bind (.copy _ rfl rfl) <| .bind (.check _ rfl) <|
    .bind (.store _ rfl) <| .bind (.check _ rfl) <|
    .bind (.check _ rfl) <| .bind (.copy _ rfl rfl) <| .bind (.check _ rfl) <|
    .bind (.store _ rfl) <| .bind (.check _ rfl) <|
    .bind (.foldlM writeHashEmits _ rfl ?block) <|
    .bind (.check _ (takesSelected events)) <|
    .bind (.foldlM writeTlvEmits _ ?cursor ?region) <|
    .bind (.check _ (addOk ?stop)) <| .bind (.check _ (failIfNot ?fits')) <|
    .bind (.check _ (addOk ?next)) <| .bind (.copy _ ?start ?width) <| .check _ ?result) ?bytes
  case bytes =>
    rw [writtenHashes]
    simp [payload,Payload.bytes,Payload.header,Payload.region,RecordFormat.Format.encAll,
      List.flatMap_map]
    rfl
  case result =>
    rw [addOk (by omega),block,raw]
    congr 1; omega
  -- every bound that is left counts the bytes written so far
  all_goals
    simp only [List.nil_append,List.append_nil,List.length_append,digestMagic,List.Vector.toList_mk,
      List.length_cons,List.length_nil,block,raw,counter,trailer,numHashChannels,digestHeaderLen,
      hashBlockBytes,recordHashSize,digestTrailerLen,digestPayloadCapacity] <;>
    omega

theorem payloadLength (events : List Event) (frameCounter framebufferHash : UInt32)
    (h : ChannelHashes) :
    (payload events frameCounter framebufferHash h).bytes.length =
      62 + BudgetWindow.total sizeOfRecord (selected events) := by
  rw [payloadSize,writtenRegion,regionLength]

theorem encodeExact (events : List Event) (frameCounter framebufferHash : UInt32)
    (h : ChannelHashes) (out : List.Vector UInt8 digestPayloadCapacity) :
    ∃ after, (encode events frameCounter framebufferHash h).exec out =
        (.ok (payload events frameCounter framebufferHash h).bytes.length,after) ∧
      after.toList = (payload events frameCounter framebufferHash h).bytes ++
        out.toList.drop (payload events frameCounter framebufferHash h).bytes.length := by
  have emits := encodeEmits events frameCounter framebufferHash h
  have within : BudgetWindow.total sizeOfRecord (selected events) ≤ 44 := selectedWithin events
  rw [← payloadLength] at emits
  have room : (payload events frameCounter framebufferHash h).bytes.length ≤ out.toList.length := by
    rw [payloadLength,out.toList_length,digestPayloadCapacity]
    omega
  exact emits out out.toList rfl room

end VisualDigest.EncoderExact
