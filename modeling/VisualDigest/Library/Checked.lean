import Mathlib.Data.Vector.Basic

/-! Checked execution of imperative code: an early error, a panic (an access out of
bounds, an overflow, a slice copied into a slice of another length, a failure unwrapped, text
that cannot be printed) and a loop that is cut off are all visible in the result. Lengths are
those of a 64-bit target. -/
namespace Checked

inductive Panic where
  | bounds
  | overflow
  | length
  | unwrap
  | print
  deriving DecidableEq, Repr

inductive Fault (ε : Type) where
  | err (error : ε)
  | panic (cause : Panic)
  | fuel
  deriving DecidableEq, Repr

abbrev Exec (ε α : Type) := Except (Fault ε) α

def usizeMax : Nat := 2^64 - 1
def isizeMax : Nat := 2^63 - 1

theorem isizeUsize : isizeMax + 257 ≤ usizeMax := by decide
theorem smallUsize : 256 ≤ usizeMax := by decide
theorem sliceUsize {n : Nat} (bounded : n ≤ isizeMax) : n ≤ usizeMax :=
  (bounded.trans (Nat.le_add_right _ _)).trans isizeUsize

/- A slice or a vector: the language bounds its length by `isizeMax`. -/
structure Slice (α : Type) where
  data : List α
  bounded : data.length ≤ isizeMax
  deriving DecidableEq

section
variable {ε α : Type}

def fail (error : ε) : Exec ε α := .error (.err error)

def failIf (c : Prop) [Decidable c] (error : ε) : Exec ε Unit := if c then fail error else .ok ()

def add (a b : Nat) : Exec ε Nat :=
  if a + b ≤ usizeMax then .ok (a+b) else .error (.panic .overflow)

def sub (a b : Nat) : Exec ε Nat :=
  if b ≤ a then .ok (a-b) else .error (.panic .overflow)

def mul (a b : Nat) : Exec ε Nat :=
  if a * b ≤ usizeMax then .ok (a*b) else .error (.panic .overflow)

def checkedAdd (a b : Nat) : Option Nat := if a + b ≤ usizeMax then some (a+b) else none

def index (xs : List α) (i : Nat) : Exec ε α :=
  match xs[i]? with
  | some x => .ok x
  | none => .error (.panic .bounds)

def slice (xs : List α) (start stop : Nat) : Exec ε (List α) :=
  if start ≤ stop ∧ stop ≤ xs.length then .ok ((xs.take stop).drop start)
  else .error (.panic .bounds)

def toArray (n : Nat) (xs : List α) : Exec ε (List.Vector α n) :=
  if size : xs.length = n then .ok ⟨xs,size⟩ else .error (.panic .length)

def setAt {n : Nat} (xs : List.Vector α n) (i : Nat) (x : α) : Exec ε (List.Vector α n) :=
  if inside : i < n then .ok (xs.set ⟨i,inside⟩ x) else .error (.panic .bounds)

theorem failIfNot {c : Prop} [Decidable c] {error : ε} (holds : ¬ c) : failIf c error = .ok () :=
  if_neg holds

theorem failIfHolds {c : Prop} [Decidable c] {error : ε} (holds : c) :
    failIf c error = .error (.err error) := if_pos holds

theorem bindOk {β : Type} {x : Exec ε α} {f : α → Exec ε β} {b : β} (ran : x >>= f = .ok b) :
    ∃ a, x = .ok a ∧ f a = .ok b := by
  cases x with
  | error fault => contradiction
  | ok a => exact ⟨a,rfl,ran⟩

theorem addOk {a b : Nat} (fits : a + b ≤ usizeMax) : add (ε := ε) a b = .ok (a+b) := if_pos fits

theorem subOk {a b : Nat} (fits : b ≤ a) : sub (ε := ε) a b = .ok (a-b) := if_pos fits

theorem mulOk {a b : Nat} (fits : a * b ≤ usizeMax) : mul (ε := ε) a b = .ok (a*b) := if_pos fits

theorem checkedAddOk {a b : Nat} (fits : a + b ≤ usizeMax) : checkedAdd a b = some (a+b) :=
  if_pos fits

theorem indexOk {xs : List α} {i : Nat} {x : α} (found : xs[i]? = some x) :
    index (ε := ε) xs i = .ok x := by
  simp only [index,found]

theorem indexAt (pre : List α) (x : α) (post : List α) :
    index (ε := ε) (pre ++ x::post) pre.length = .ok x :=
  indexOk (by simp)

theorem sliceAt (pre mid post : List α) :
    slice (ε := ε) (pre ++ (mid ++ post)) pre.length (pre.length+mid.length) = .ok mid := by
  have front : (pre ++ (mid ++ post)).take (pre.length+mid.length) = pre ++ mid := by
    rw [← List.append_assoc,← List.length_append,List.take_left]
  have inside : pre.length ≤ pre.length+mid.length ∧
      pre.length+mid.length ≤ (pre ++ (mid ++ post)).length := by
    simp only [List.length_append]; omega
  unfold slice
  rw [if_pos inside,front,List.drop_left]

theorem toArrayOk {n : Nat} (v : List.Vector α n) : toArray (ε := ε) n v.toList = .ok v :=
  dif_pos v.toList_length

theorem setAtOk {n i : Nat} {xs : List.Vector α n} {x : α} (inside : i < n) :
    setAt (ε := ε) xs i x = .ok (xs.set ⟨i,inside⟩ x) := dif_pos inside

end

/-! A loop `while cond { body }` under a bound on its rounds. -/
section
variable {ε σ : Type} (cond : σ → Bool) (body : σ → Exec ε σ)

def whileLoop : Nat → σ → Exec ε σ
  | 0, s => if cond s then .error .fuel else .ok s
  | fuel+1, s => if cond s then body s >>= whileLoop fuel else .ok s

/- `Steps n s t`: from `s` the loop runs `n` whole rounds and stands at `t`. -/
inductive Steps : Nat → σ → σ → Prop where
  | refl (s : σ) : Steps 0 s s
  | round {n : Nat} {s t u : σ} (enter : cond s = true) (next : body s = .ok t)
      (later : Steps n t u) : Steps (n+1) s u

variable {cond body}

theorem stepsWhile {n : Nat} {s t : σ} (steps : Steps cond body n s t) (fuel : Nat) :
    whileLoop cond body (n+fuel) s = whileLoop cond body fuel t := by
  induction steps with
  | refl s => rw [Nat.zero_add]
  | @round n s t u enter next later ih =>
    rw [show n+1+fuel = (n+fuel)+1 by omega,whileLoop,if_pos enter,next]
    exact ih

theorem whileDone {n fuel : Nat} {s t : σ} (steps : Steps cond body n s t)
    (leave : cond t = false) (enough : n ≤ fuel) : whileLoop cond body fuel s = .ok t := by
  obtain ⟨extra,rfl⟩ := Nat.exists_eq_add_of_le enough
  rw [stepsWhile steps]
  cases extra <;> simp [whileLoop,leave]

theorem whileThrows {n fuel : Nat} {s t : σ} {fault : Fault ε} (steps : Steps cond body n s t)
    (enter : cond t = true) (thrown : body t = .error fault) (enough : n < fuel) :
    whileLoop cond body fuel s = .error fault := by
  obtain ⟨extra,rfl⟩ := Nat.exists_eq_add_of_lt enough
  rw [show n+extra+1 = n+(extra+1) by omega,stepsWhile steps,whileLoop,if_pos enter,thrown]
  rfl

theorem whileEnds {fuel : Nat} {s t : σ} (ran : whileLoop cond body fuel s = .ok t) :
    (∃ n, Steps cond body n s t) ∧ cond t = false := by
  induction fuel generalizing s with
  | zero =>
    unfold whileLoop at ran
    split at ran <;> try contradiction
    rename_i leave
    cases Except.ok.inj ran
    exact ⟨⟨0,.refl _⟩,eq_false_of_ne_true leave⟩
  | succ fuel ih =>
    unfold whileLoop at ran
    split at ran
    · rename_i enter
      cases next : body s with
      | error fault => rw [next] at ran; contradiction
      | ok u =>
        rw [next] at ran
        obtain ⟨⟨n,later⟩,leave⟩ := ih ran
        exact ⟨⟨n+1,.round enter next later⟩,leave⟩
    · rename_i leave
      cases Except.ok.inj ran
      exact ⟨⟨0,.refl _⟩,eq_false_of_ne_true leave⟩

theorem stepsAdvance (inv : σ → Prop) (measure : σ → Nat) {k : Nat}
    (kept : ∀ {s t}, inv s → cond s = true → body s = .ok t → inv t ∧ measure s + k ≤ measure t)
    {n : Nat} {s t : σ} (steps : Steps cond body n s t) (start : inv s) :
    inv t ∧ measure s + n * k ≤ measure t := by
  induction steps with
  | refl s => exact ⟨start,by rw [Nat.zero_mul,Nat.add_zero]⟩
  | @round n s t u enter next later ih =>
    obtain ⟨still,grown⟩ := kept start enter next
    obtain ⟨last,total⟩ := ih still
    refine ⟨last,?_⟩
    rw [Nat.succ_mul]
    omega

end

/-! A loop `for x in xs { body }` with early exit. -/
section
variable {ε α σ : Type} {body : α → σ → Exec ε (ForInStep σ)}

variable (body) in
inductive ForVisits : List α → σ → σ → Prop where
  | here (xs : List α) (s : σ) : ForVisits xs s s
  | stop {x xs s t} (last : body x s = .ok (.done t)) : ForVisits (x::xs) s t
  | next {x xs s t u} (round : body x s = .ok (.yield t)) (later : ForVisits xs t u) :
      ForVisits (x::xs) s u

theorem visitsInvariant {inv : σ → Prop}
    (kept : ∀ {x s step}, inv s → body x s = .ok step → inv step.value)
    {xs : List α} {s t : σ} (visits : ForVisits body xs s t) (start : inv s) : inv t := by
  induction visits with
  | here xs s => exact start
  | stop last => exact kept start last
  | next round later ih => exact ih (kept start round)

theorem forStops {x : α} {xs : List α} {s t : σ} (last : body x s = .ok (.done t)) :
    forIn (x::xs) s body = .ok t := by
  rw [List.forIn_cons,last]; rfl

theorem forContinues {x : α} {xs : List α} {s t : σ} (round : body x s = .ok (.yield t)) :
    forIn (x::xs) s body = forIn xs t body := by
  rw [List.forIn_cons,round]; rfl

end
end Checked
