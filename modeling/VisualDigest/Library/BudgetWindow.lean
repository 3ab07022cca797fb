import Mathlib.Data.List.Infix
import Mathlib.Algebra.Order.BigOperators.Group.List
import Mathlib.Tactic.Linarith

/-! The newest entries of a growing list that fit a budget: the longest suffix whose
total weight stays within it. Weights, entries and the budget are arbitrary. -/
namespace BudgetWindow

section
variable {α : Type} (weight : α → Nat) (budget : Nat)

def total (xs : List α) : Nat := (xs.map weight).sum

@[simp] theorem totalNil : total weight [] = 0 := rfl

@[simp] theorem totalCons (x : α) (xs : List α) : total weight (x::xs) = weight x + total weight xs := by
  simp [total]

@[simp] theorem totalAppend (xs ys : List α) :
    total weight (xs ++ ys) = total weight xs + total weight ys := by
  simp [total]

@[simp] theorem totalReverse (xs : List α) : total weight xs.reverse = total weight xs := by
  simp [total]

theorem totalLower {m : Nat} (light : ∀ x, m ≤ weight x) (xs : List α) :
    xs.length * m ≤ total weight xs := by
  induction xs with
  | nil => simp
  | cons x xs ih =>
    have first := light x
    rw [List.length_cons,Nat.succ_mul,totalCons]
    omega

theorem totalUpper {m : Nat} (heavy : ∀ x, weight x ≤ m) (xs : List α) :
    total weight xs ≤ xs.length * m := by
  induction xs with
  | nil => simp
  | cons x xs ih =>
    have first := heavy x
    rw [List.length_cons,Nat.succ_mul,totalCons]
    omega

/- Takes entries from the front and stops at the first that does not fit. -/
def greedy : Nat → List α → List α
  | _, [] => []
  | left, x::rest => if weight x ≤ left then x :: greedy (left - weight x) rest else []

def window (xs : List α) : List α := (greedy weight budget xs.reverse).reverse

theorem greedyPrefix (left : Nat) (xs : List α) : greedy weight left xs <+: xs := by
  induction xs generalizing left with
  | nil => exact List.nil_prefix
  | cons x rest ih =>
    unfold greedy
    split
    · exact List.cons_prefix_cons.mpr ⟨rfl,ih _⟩
    · exact List.nil_prefix

theorem greedyWithin (left : Nat) (xs : List α) : total weight (greedy weight left xs) ≤ left := by
  induction xs generalizing left with
  | nil => simp [greedy]
  | cons x rest ih =>
    unfold greedy
    split
    · have tail := ih (left - weight x)
      rw [totalCons]
      omega
    · simp

theorem greedyLongest {left : Nat} {xs t : List α} (front : t <+: xs)
    (within : total weight t ≤ left) : t.length ≤ (greedy weight left xs).length := by
  induction xs generalizing left t with
  | nil => simp [List.prefix_nil.mp front]
  | cons x rest ih =>
    cases t with
    | nil => simp
    | cons y t =>
      obtain ⟨rfl,shorter⟩ := List.cons_prefix_cons.mp front
      rw [totalCons] at within
      unfold greedy
      rw [if_pos (by omega)]
      simpa using ih shorter (by omega)

structure Longest (s xs : List α) : Prop where
  suffix : s <:+ xs
  within : total weight s ≤ budget
  longest : ∀ t, t <:+ xs → total weight t ≤ budget → t.length ≤ s.length

theorem windowLongest (xs : List α) : Longest weight budget (window weight budget xs) xs where
  suffix := by
    have front := List.reverse_suffix.mpr (greedyPrefix weight budget xs.reverse)
    rwa [List.reverse_reverse] at front
  within := by
    unfold window
    rw [totalReverse]
    exact greedyWithin weight budget xs.reverse
  longest t back within := by
    have front : t.reverse <+: xs.reverse := List.reverse_prefix.mpr back
    rw [← totalReverse] at within
    simpa [window] using greedyLongest weight front within

variable {weight budget}

theorem suffixOfLength {s t xs : List α} (left : s <:+ xs) (right : t <:+ xs)
    (same : s.length = t.length) : s = t :=
  (List.suffix_of_suffix_length_le left right (by omega)).eq_of_length same

theorem longestUnique {s t xs : List α} (hs : Longest weight budget s xs)
    (ht : Longest weight budget t xs) : s = t := by
  have one := hs.longest t ht.suffix ht.within
  have two := ht.longest s hs.suffix hs.within
  exact suffixOfLength hs.suffix ht.suffix (by omega)

theorem windowUnique {s xs : List α} (h : Longest weight budget s xs) :
    s = window weight budget xs := longestUnique h (windowLongest weight budget xs)

theorem windowWhole {xs : List α} (within : total weight xs ≤ budget) :
    window weight budget xs = xs :=
  (windowUnique ⟨List.suffix_rfl,within,fun _ back _ => back.length_le⟩).symm

variable (weight budget)

theorem windowLength (xs : List α) : (window weight budget xs).length ≤ xs.length :=
  (windowLongest weight budget xs).suffix.length_le

def first (xs : List α) : Nat := xs.length - (window weight budget xs).length

theorem dropFirst (xs : List α) : xs.drop (first weight budget xs) = window weight budget xs := by
  have back := (windowLongest weight budget xs).suffix
  exact (List.suffix_iff_eq_drop.mp back).symm

theorem windowPush (xs : List α) (x : α) :
    (window weight budget (xs ++ [x])).length ≤ (window weight budget xs).length + 1 := by
  have next := windowLongest weight budget (xs ++ [x])
  rcases List.suffix_concat_iff.mp next.suffix with empty | ⟨t,shape,back⟩
  · simp [empty]
  · have within := next.within
    rw [shape] at within ⊢
    rw [totalAppend] at within
    have kept := (windowLongest weight budget xs).longest t back (by omega)
    simpa using kept

theorem firstPush (xs : List α) (x : α) :
    first weight budget xs ≤ first weight budget (xs ++ [x]) := by
  have grown := windowPush weight budget xs x
  simp only [first,List.length_append,List.length_singleton]
  omega

theorem firstAppend (xs ys : List α) :
    first weight budget xs ≤ first weight budget (xs ++ ys) := by
  induction ys generalizing xs with
  | nil => simp
  | cons y ys ih =>
    have later := ih (xs ++ [y])
    rw [List.append_assoc] at later
    exact (firstPush weight budget xs y).trans later

variable {weight budget}

theorem windowKeeps {m k : Nat} (heavy : ∀ x, weight x ≤ m) (room : k * m ≤ budget) (xs : List α)
    (enough : k ≤ xs.length) : k ≤ (window weight budget xs).length := by
  have size : (xs.drop (xs.length-k)).length = k := by rw [List.length_drop]; omega
  have within : total weight (xs.drop (xs.length-k)) ≤ budget := by
    have upper := totalUpper weight heavy (xs.drop (xs.length-k))
    rw [size] at upper
    omega
  have kept := (windowLongest weight budget xs).longest _ (List.drop_suffix _ _) within
  omega

theorem windowBounded {m k : Nat} (light : ∀ x, m ≤ weight x) (full : budget < (k+1) * m)
    (xs : List α) : (window weight budget xs).length ≤ k := by
  have lower := totalLower weight light (window weight budget xs)
  have within := (windowLongest weight budget xs).within
  by_contra more
  have : (k+1) * m ≤ (window weight budget xs).length * m := Nat.mul_le_mul_right m (by omega)
  omega

theorem windowLocal {t xs : List α} (back : t <:+ xs)
    (enough : (window weight budget xs).length ≤ t.length) :
    window weight budget t = window weight budget xs := by
  have whole := windowLongest weight budget xs
  have part := windowLongest weight budget t
  refine longestUnique part ?_
  exact ⟨List.suffix_of_suffix_length_le whole.suffix back enough,whole.within,
    fun s inner within => whole.longest s (inner.trans back) within⟩

theorem suffixFits {t xs : List α} (back : t <:+ xs) :
    total weight t ≤ budget ↔ t <:+ window weight budget xs := by
  have whole := windowLongest weight budget xs
  constructor
  · intro within
    exact List.suffix_of_suffix_length_le back whole.suffix (whole.longest t back within)
  · rintro ⟨older,split⟩
    have within := whole.within
    rw [← split,totalAppend] at within
    omega

end
end BudgetWindow
