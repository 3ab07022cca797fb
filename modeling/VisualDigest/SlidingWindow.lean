import VisualDigest.RoundTrip

/-! The raw records of the digests of one run: a window over the history that slides forward. -/
namespace VisualDigest.SlidingWindow
open Checked BudgetWindow Events Format Hashes Encoder Decoder Grammar Narrowing EncoderExact
open DecoderExact RoundTrip

def firstIndex (history : List Event) : Nat :=
  match select (ε := Empty) history with
  | .ok s => history.length - s.included
  | .error _ => history.length

theorem firstIndexExact (history : List Event) :
    firstIndex history = first sizeOfRecord recordBudget history := by
  simp only [firstIndex,selectExact,first,selected]

theorem firstMonotone {older history : List Event} (earlier : older <+: history) :
    firstIndex older ≤ firstIndex history := by
  obtain ⟨newer,rfl⟩ := earlier
  rw [firstIndexExact,firstIndexExact]
  exact firstAppend sizeOfRecord recordBudget older newer

theorem keepsNewest {k : Nat} (few : k ≤ 2) {history : List Event} (enough : k ≤ history.length) :
    firstIndex history ≤ history.length - k := by
  have room : k * maxRecordSize ≤ recordBudget := by
    have budget : 2 * maxRecordSize ≤ recordBudget := by decide
    exact (Nat.mul_le_mul_right _ few).trans budget
  have kept := windowKeeps sizeUpper room history enough
  rw [firstIndexExact,first]
  omega

theorem windowSmall (history : List Event) : history.length - firstIndex history ≤ 4 := by
  have few := selectedFew history
  rw [firstIndexExact,first]
  change (window sizeOfRecord recordBudget history).length ≤ 4 at few
  omega

/- The digest after the `k`-th push shows the event pushed as number `i`, counted from zero. -/
def Appears (history : List Event) (k i : Nat) : Prop := firstIndex (history.take k) ≤ i ∧ i < k

theorem neverReturns {history : List Event} {i k l : Nat} (pushed : i < k) (later : k ≤ l)
    (gone : ¬ Appears history k i) : ¬ Appears history l i := by
  have forward := firstMonotone (List.take_prefix_take_left (l := history) later)
  rintro ⟨shown,_⟩
  exact gone ⟨forward.trans shown,pushed⟩

theorem contiguous {history : List Event} {i k l m : Nat} (left : k ≤ l) (right : l ≤ m)
    (start : Appears history k i) (last : Appears history m i) : Appears history l i := by
  have forward := firstMonotone (List.take_prefix_take_left (l := history) right)
  exact ⟨forward.trans last.1,start.2.trans_le left⟩

theorem shownTwice {history : List Event} {i k : Nat} (pushed : i < k) (soon : k ≤ i + 2)
    (inside : k ≤ history.length) : Appears history k i := by
  have size : (history.take k).length = k := by rw [List.length_take,Nat.min_eq_left inside]
  have kept := @keepsNewest (k-i) (by omega) (history.take k) (by omega)
  rw [size] at kept
  exact ⟨by omega,pushed⟩

theorem encodeLocal {recent history : List Event} (back : recent <:+ history)
    (enough : min 4 history.length ≤ recent.length) (frameCounter framebufferHash : UInt32)
    (h : ChannelHashes) (out : List.Vector UInt8 digestPayloadCapacity) :
    (encode recent frameCounter framebufferHash h).exec out =
      (encode history frameCounter framebufferHash h).exec out := by
  have few := selectedFew history
  have inside := windowLength sizeOfRecord recordBudget history
  change (selected history).length ≤ _ at inside
  have room : (selected history).length ≤ recent.length := by omega
  have chosen : selected recent = selected history := windowLocal back room
  have same : payload recent frameCounter framebufferHash h =
      payload history frameCounter framebufferHash h := by
    simp only [payload,chosen]
  obtain ⟨after,ran,shape⟩ := encodeExact recent frameCounter framebufferHash h out
  obtain ⟨after',ran',shape'⟩ := encodeExact history frameCounter framebufferHash h out
  rw [same] at ran shape
  rw [ran,ran',List.Vector.eq _ _ (shape.trans shape'.symm)]

theorem windowSlides :
    (∀ history e, firstIndex history ≤ firstIndex (history ++ [e]) ∧
      firstIndex (history ++ [e]) ≤ history.length ∧
      (history ≠ [] → firstIndex (history ++ [e]) ≤ history.length - 1) ∧
      (history ++ [e]).length - firstIndex (history ++ [e]) ≤ 4) ∧
    (∀ history i, i < history.length → Appears history (i+1) i ∧
      (i + 1 < history.length → Appears history (i+2) i) ∧
      (∀ k l m, k ≤ l → l ≤ m → Appears history k i → Appears history m i → Appears history l i) ∧
      ∀ k l, i < k → k ≤ l → ¬ Appears history k i → ¬ Appears history l i) ∧
    (∀ history frameCounter framebufferHash h out, ∃ n after d,
      (encode history frameCounter framebufferHash h).exec out = (.ok n,after) ∧
      decode (written after n) = .ok d ∧
      d.rawRecords = (history.drop (firstIndex history)).map normEvent) ∧
    ∀ recent history, recent <:+ history → min 4 history.length ≤ recent.length →
      ∀ frameCounter framebufferHash h out,
        (encode recent frameCounter framebufferHash h).exec out =
          (encode history frameCounter framebufferHash h).exec out := by
  refine ⟨?_,?_,?_,fun _ _ back enough => encodeLocal back enough⟩
  · intro history e
    have size : (history ++ [e]).length = history.length + 1 := by simp
    have one := @keepsNewest 1 (by decide) (history ++ [e]) (by omega)
    refine ⟨firstMonotone (List.prefix_append _ _),by omega,fun pushed => ?_,windowSmall _⟩
    have positive := List.length_pos_of_ne_nil pushed
    have two := @keepsNewest 2 (by decide) (history ++ [e]) (by omega)
    omega
  · intro history i inside
    exact ⟨shownTwice (by omega) (by omega) (by omega),fun next => shownTwice (by omega) (by omega) next,
      fun _ _ _ => contiguous,fun _ _ => neverReturns⟩
  · intro history frameCounter framebufferHash h out
    obtain ⟨after,ran,front,_⟩ := encodeWritten history frameCounter framebufferHash h out
    refine ⟨_,after,_,ran,decodePayload front,?_⟩
    rw [firstIndexExact,dropFirst]
    exact knownEvents _

end VisualDigest.SlidingWindow
