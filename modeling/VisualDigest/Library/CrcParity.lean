import VisualDigest.Library.ReflectedCrc
import Mathlib.Algebra.BigOperators.Intervals
import Mathlib.Algebra.BigOperators.Ring.Finset

/-! Parities of check registers. A polynomial with an even number of coefficients has a register that
counts the ones it is fed modulo two: a shift keeps its parity. -/
namespace ReflectedCrc

section
variable {w : Nat}

def ones (r : BitVec w) : Nat := ∑ i ∈ Finset.range w, (r.getLsbD i).toNat

def byteOnes (bytes : List UInt8) : Nat := (bytes.map fun b => ones b.toBitVec).sum

@[simp] theorem byteOnesNil : byteOnes [] = 0 := rfl

@[simp] theorem byteOnesCons (b : UInt8) (rest : List UInt8) :
    byteOnes (b::rest) = ones b.toBitVec + byteOnes rest := by
  simp only [byteOnes,List.map_cons,List.sum_cons]

def flips (xs ys : List UInt8) : List UInt8 := List.zipWith (· ^^^ ·) xs ys

/- Bits set in both are counted twice in the sum and not at all in the difference. -/
theorem onesXor (a b : BitVec w) : ones (a ^^^ b) + 2 * ones (a &&& b) = ones a + ones b := by
  unfold ones
  rw [Finset.mul_sum,← Finset.sum_add_distrib,← Finset.sum_add_distrib]
  refine Finset.sum_congr rfl fun i _ => ?_
  rw [BitVec.getLsbD_xor,BitVec.getLsbD_and]
  cases a.getLsbD i <;> cases b.getLsbD i <;> rfl

theorem flipsParity {xs ys : List UInt8} (same : xs.length = ys.length) :
    byteOnes (flips xs ys) % 2 = (byteOnes xs + byteOnes ys) % 2 := by
  induction xs generalizing ys with
  | nil =>
    cases List.length_eq_zero_iff.mp same.symm
    rfl
  | cons x xs ih =>
    cases ys with
    | nil => contradiction
    | cons y ys =>
      have rest := ih (Nat.succ.inj same)
      have first := onesXor x.toBitVec y.toBitVec
      change byteOnes ((x ^^^ y)::flips xs ys) % 2 = _
      rw [byteOnesCons,byteOnesCons,byteOnesCons,UInt8.toBitVec_xor]
      omega

theorem onesShifted (r : BitVec w) : ones (r >>> 1) + (r.getLsbD 0).toNat = ones r := by
  have beyond : r.getLsbD w = false := BitVec.getLsbD_of_ge r w (Nat.le_refl w)
  have last := Finset.sum_range_succ (fun i => (r.getLsbD i).toNat) w
  rw [Finset.sum_range_succ',beyond] at last
  unfold ones
  simpa [Nat.add_comm] using last

theorem onesWidened {v : Nat} (r : BitVec v) (wide : v ≤ w) : ones (r.setWidth w) = ones r := by
  unfold ones
  have low : ∀ i ∈ Finset.range w, i ∉ Finset.range v → (r.getLsbD i).toNat = 0 := by
    intro i _ outside
    rw [BitVec.getLsbD_of_ge r i (Nat.le_of_not_lt (fun inside => outside (Finset.mem_range.mpr inside)))]
    rfl
  rw [Finset.sum_subset (Finset.range_mono wide) low]
  refine Finset.sum_congr rfl fun i inside => ?_
  rw [BitVec.getLsbD_setWidth,decide_eq_true (Finset.mem_range.mp inside),Bool.true_and]

/- In an even polynomial the leading coefficient makes up for the rest. -/
def EvenGenerator (poly : BitVec w) : Prop := ones poly % 2 = 1

instance (poly : BitVec w) : Decidable (EvenGenerator poly) := by unfold EvenGenerator; infer_instance

section
variable {poly : BitVec w} (even : EvenGenerator poly)
include even

theorem shiftParity (r : BitVec w) : ones (shift poly r) % 2 = ones r % 2 := by
  have shifted := onesShifted r
  unfold shift
  cases low : r.getLsbD 0 with
  | false =>
    rw [low,Bool.toNat_false] at shifted
    simp only [Bool.false_eq_true,if_false]
    omega
  | true =>
    have mixed := onesXor (r >>> 1) poly
    unfold EvenGenerator at even
    rw [low,Bool.toNat_true] at shifted
    simp only [if_true]
    omega

theorem shiftsParity (k : Nat) (r : BitVec w) : ones (shifts poly k r) % 2 = ones r % 2 := by
  induction k generalizing r with
  | zero => rfl
  | succ k ih => rw [shifts,ih,shiftParity even]

theorem feedParity (wide : 8 ≤ w) (r : BitVec w) (bytes : List UInt8) :
    ones (feed poly r bytes) % 2 = (ones r + byteOnes bytes) % 2 := by
  induction bytes generalizing r with
  | nil => rfl
  | cons b rest ih =>
    have entered := shiftsParity even 8 (r ^^^ b.toBitVec.setWidth w)
    have mixed := onesXor r (b.toBitVec.setWidth w)
    have next := ih (feedByte poly r b)
    rw [onesWidened b.toBitVec wide] at mixed
    change ones (feed poly (feedByte poly r b) rest) % 2 = _
    rw [next,byteOnesCons]
    unfold feedByte
    omega

end

theorem resumedParity (p : Params w) (even : EvenGenerator p.reflected) (wide : 8 ≤ w) (f : BitVec w)
    (bytes : List UInt8) :
    ones (p.finish (feed p.reflected (p.finish f) bytes)) % 2 = (ones f + byteOnes bytes) % 2 := by
  have fed := feedParity even wide (p.finish f) bytes
  have before := onesXor f p.xorout
  have behind := onesXor (feed p.reflected (p.finish f) bytes) p.xorout
  unfold Params.finish at *
  omega

end
end ReflectedCrc
