import VisualDigest.Library.Checked
import Mathlib.Data.UInt

/-! Machine arithmetic as a build performs it. The debug build stops at an overflow, the
release build wraps around; where the exact result fits, the two agree and are exact. -/
namespace BuildArith
open Checked

inductive Build where
  | debug
  | release
  deriving DecidableEq, Repr

class Machine (α : Type) extends Add α, Sub α, Mul α where
  size : Nat
  value : α → Nat
  bound : ∀ a, value a < size
  addValue : ∀ a b, value (a + b) = (value a + value b) % size
  mulValue : ∀ a b, value (a * b) = (value a * value b) % size
  subValue : ∀ a b, value b ≤ value a → value (a - b) = value a - value b

instance : Machine UInt8 where
  size := 2^8
  value := UInt8.toNat
  bound := UInt8.toNat_lt
  addValue := UInt8.toNat_add
  mulValue := UInt8.toNat_mul
  subValue := UInt8.toNat_sub_of_le

instance : Machine UInt32 where
  size := 2^32
  value := UInt32.toNat
  bound := UInt32.toNat_lt
  addValue := UInt32.toNat_add
  mulValue := UInt32.toNat_mul
  subValue := UInt32.toNat_sub_of_le

instance : Machine UInt64 where
  size := 2^64
  value := UInt64.toNat
  bound := UInt64.toNat_lt
  addValue := UInt64.toNat_add
  mulValue := UInt64.toNat_mul
  subValue := UInt64.toNat_sub_of_le

section
variable {ε α : Type}

/- The result of an operation that is exact when `fits` holds and wraps otherwise. -/
def settle (build : Build) (fits : Prop) [Decidable fits] (wrapped : α) : Exec ε α :=
  match build with
  | .debug => if fits then .ok wrapped else .error (.panic .overflow)
  | .release => .ok wrapped

theorem settleFits {build : Build} {fits : Prop} [Decidable fits] {wrapped : α} (h : fits) :
    settle (ε := ε) build fits wrapped = .ok wrapped := by
  cases build with
  | debug => exact if_pos h
  | release => rfl

theorem settleDebug {fits : Prop} [Decidable fits] {wrapped result : α}
    (ran : settle (ε := ε) .debug fits wrapped = .ok result) : fits ∧ wrapped = result := by
  by_cases h : fits
  · exact ⟨h,Except.ok.inj ((settleFits h).symm.trans ran)⟩
  · simp only [settle,if_neg h] at ran
    contradiction

variable [Machine α]
open Machine

def addIn (build : Build) (a b : α) : Exec ε α :=
  settle build (value a + value b < size α) (a + b)

def mulIn (build : Build) (a b : α) : Exec ε α :=
  settle build (value a * value b < size α) (a * b)

def subIn (build : Build) (a b : α) : Exec ε α := settle build (value b ≤ value a) (a - b)

theorem addFits (build : Build) {a b : α} (fits : value a + value b < size α) :
    ∃ c, addIn (ε := ε) build a b = .ok c ∧ value c = value a + value b :=
  ⟨_,settleFits fits,by rw [addValue,Nat.mod_eq_of_lt fits]⟩

theorem mulFits (build : Build) {a b : α} (fits : value a * value b < size α) :
    ∃ c, mulIn (ε := ε) build a b = .ok c ∧ value c = value a * value b :=
  ⟨_,settleFits fits,by rw [mulValue,Nat.mod_eq_of_lt fits]⟩

theorem subFits (build : Build) {a b : α} (fits : value b ≤ value a) :
    ∃ c, subIn (ε := ε) build a b = .ok c ∧ value c = value a - value b :=
  ⟨_,settleFits fits,subValue a b fits⟩

theorem addDebug {a b c : α} (ran : addIn (ε := ε) .debug a b = .ok c) :
    value c = value a + value b := by
  obtain ⟨fits,rfl⟩ := settleDebug ran
  rw [addValue,Nat.mod_eq_of_lt fits]

theorem mulDebug {a b c : α} (ran : mulIn (ε := ε) .debug a b = .ok c) :
    value c = value a * value b := by
  obtain ⟨fits,rfl⟩ := settleDebug ran
  rw [mulValue,Nat.mod_eq_of_lt fits]

end
end BuildArith
