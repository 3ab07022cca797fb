import VisualDigest.Library.CrcParity
import Mathlib.Algebra.CharP.Two
import Mathlib.Algebra.Polynomial.EraseLead
import Mathlib.Algebra.Polynomial.OfFn
import Mathlib.NumberTheory.LucasLehmer
import Mathlib.RingTheory.AdjoinRoot

/-! Check registers as remainders. A reflected register is a polynomial over two elements, its top bit
the constant coefficient; a shift multiplies by `X` modulo the generator, and two strings of one length
lead to one register just when the generator divides their difference. -/
namespace ReflectedCrc
open Polynomial

def bit (b : Bool) : ZMod 2 := if b then 1 else 0

theorem bitXor (a b : Bool) : bit (a ^^ b) = bit a + bit b := by cases a <;> cases b <;> decide

theorem bitSame {a b : Bool} : bit a = bit b ↔ a = b := by cases a <;> cases b <;> decide

section
variable {w : Nat}

noncomputable def asPolynomial (r : BitVec w) : (ZMod 2)[X] := ofFn w fun i => bit (r.getMsbD i)

@[simp] theorem coeffAs (r : BitVec w) (i : Nat) : (asPolynomial r).coeff i = bit (r.getMsbD i) := by
  unfold asPolynomial
  by_cases inside : i < w
  · rw [ofFn_coeff_eq_val_of_lt _ inside]
  · rw [ofFn_coeff_eq_zero_of_ge _ (Nat.le_of_not_lt inside),
      BitVec.getMsbD_of_ge r i (Nat.le_of_not_lt inside)]
    rfl

theorem asXor (a b : BitVec w) : asPolynomial (a ^^^ b) = asPolynomial a + asPolynomial b := by
  ext i
  rw [coeff_add,coeffAs,coeffAs,coeffAs,BitVec.getMsbD_xor,bitXor]

theorem asInjective {a b : BitVec w} (same : asPolynomial a = asPolynomial b) : a = b := by
  apply BitVec.eq_of_getMsbD_eq
  intro i _
  have coefficient := congrArg (fun p : (ZMod 2)[X] => p.coeff i) same
  simp only [coeffAs] at coefficient
  exact bitSame.mp coefficient

theorem asWidened {v : Nat} (r : BitVec v) (wide : v ≤ w) :
    asPolynomial (r.setWidth w) = X^(w-v) * asPolynomial r := by
  ext i
  rw [coeff_X_pow_mul',coeffAs,BitVec.getMsbD_setWidth]
  by_cases inside : w - v ≤ i
  · rw [if_pos inside,coeffAs,show i + v - w = i - (w - v) by omega,decide_eq_true inside,Bool.true_and]
  · rw [if_neg inside,decide_eq_false inside,Bool.false_and]
    rfl

/- Without the feedback a shift would carry the last coefficient beyond the register. -/
theorem shiftedTimes (r : BitVec w) :
    X * asPolynomial r = asPolynomial (r >>> 1) + C (bit (r.getLsbD 0)) * X^w := by
  ext i
  rw [coeff_add,coeffAs,coeff_C_mul,coeff_X_pow,BitVec.getMsbD_ushiftRight]
  cases i with
  | zero =>
    rw [coeff_X_mul_zero]
    rcases Nat.eq_zero_or_pos w with rfl | some
    · simp [bit]
    · simp [some.ne,bit]
  | succ i =>
    rw [coeff_X_mul,coeffAs]
    rcases Nat.lt_trichotomy (i+1) w with inside | last | beyond
    · simp [inside,inside.ne,bit]
    · subst last
      simp [BitVec.getMsbD_eq_getLsbD,bit]
    · simp [BitVec.getMsbD_of_ge r i (by omega),beyond.ne',bit,show ¬ i + 1 < w by omega]

noncomputable def generator (poly : BitVec w) : (ZMod 2)[X] := X^w + asPolynomial poly

variable (poly : BitVec w)

theorem generatorMonic : (generator poly).Monic := monic_X_pow_add (ofFn_degree_lt _)

theorem generatorDegree : (generator poly).degree = w := by
  have lower : (asPolynomial poly).degree < (X^w : (ZMod 2)[X]).degree :=
    (ofFn_degree_lt _).trans_eq (degree_X_pow w).symm
  rw [generator,degree_add_eq_left_of_degree_lt lower,degree_X_pow]

theorem shiftTimes (r : BitVec w) :
    X * asPolynomial r = asPolynomial (shift poly r) + C (bit (r.getLsbD 0)) * generator poly := by
  rw [shiftedTimes]
  unfold shift generator
  cases r.getLsbD 0 with
  | false => simp [bit]
  | true =>
    have cancel := CharTwo.add_self_eq_zero (asPolynomial poly)
    simp only [if_true,asXor,bit,map_one,one_mul]
    linear_combination -cancel

noncomputable def residue (r : BitVec w) : AdjoinRoot (generator poly) := AdjoinRoot.mk _ (asPolynomial r)

theorem residueXor (a b : BitVec w) : residue poly (a ^^^ b) = residue poly a + residue poly b := by
  rw [residue,asXor,map_add]
  rfl

theorem residueInjective {a b : BitVec w} (same : residue poly a = residue poly b) : a = b := by
  have short : (asPolynomial (a ^^^ b)).degree < (generator poly).degree :=
    (ofFn_degree_lt _).trans_eq (generatorDegree poly).symm
  have zero : AdjoinRoot.mk (generator poly) (asPolynomial (a ^^^ b)) = 0 := by
    rw [asXor,← CharTwo.sub_eq_add,map_sub]
    exact sub_eq_zero.mpr same
  have vanishes : asPolynomial (a ^^^ b) = 0 := by
    by_contra remains
    exact AdjoinRoot.mk_ne_zero_of_degree_lt (generatorMonic poly) remains short zero
  apply asInjective
  rw [asXor] at vanishes
  exact CharTwo.add_eq_zero.mp vanishes

theorem shiftResidue (r : BitVec w) :
    residue poly (shift poly r) = AdjoinRoot.root (generator poly) * residue poly r := by
  have times := congrArg (AdjoinRoot.mk (generator poly)) (shiftTimes poly r)
  rw [map_mul,map_add,map_mul,AdjoinRoot.mk_self,mul_zero,add_zero,AdjoinRoot.mk_X] at times
  exact times.symm

theorem shiftsResidue (k : Nat) (r : BitVec w) :
    residue poly (shifts poly k r) = AdjoinRoot.root (generator poly)^k * residue poly r := by
  induction k generalizing r with
  | zero => rw [shifts,pow_zero,one_mul]
  | succ k ih => rw [shifts,ih,shiftResidue,pow_succ,mul_assoc]

/- The first bit of the first byte is the leading one. -/
noncomputable def message : List UInt8 → (ZMod 2)[X]
  | [] => 0
  | b::rest => X^(8 * rest.length) * asPolynomial b.toBitVec + message rest

theorem feedResidue (wide : 8 ≤ w) (r : BitVec w) (bytes : List UInt8) :
    residue poly (feed poly r bytes) =
      AdjoinRoot.root (generator poly)^(8 * bytes.length) * residue poly r +
        AdjoinRoot.root (generator poly)^w * AdjoinRoot.mk _ (message bytes) := by
  induction bytes generalizing r with
  | nil => simp [message]
  | cons b rest ih =>
    change residue poly (feed poly (feedByte poly r b) rest) = _
    rw [ih]
    have entered : residue poly (feedByte poly r b) = AdjoinRoot.root (generator poly)^8 * residue poly r +
        AdjoinRoot.root (generator poly)^w * AdjoinRoot.mk _ (asPolynomial b.toBitVec) := by
      rw [feedByte,shiftsResidue,residueXor,mul_add,residue,residue,asWidened b.toBitVec wide,map_mul,
        map_pow,AdjoinRoot.mk_X,← mul_assoc,← pow_add,Nat.add_sub_cancel' wide]
    rw [entered,message,map_add,map_mul,map_pow,AdjoinRoot.mk_X,List.length_cons]
    ring

variable {poly}

theorem rootUnit (odd : poly.msb = true) : IsUnit (AdjoinRoot.root (generator poly)) := by
  have last : (generator poly).coeff 0 = 1 := by
    have positive : w ≠ 0 := by
      rintro rfl
      rw [BitVec.msb_eq_getMsbD_zero,BitVec.getMsbD_of_ge poly 0 (Nat.le_refl 0)] at odd
      contradiction
    rw [generator,coeff_add,coeff_X_pow,if_neg positive.symm,coeffAs,← BitVec.msb_eq_getMsbD_zero,odd,zero_add]
    rfl
  have split := congrArg (AdjoinRoot.mk (generator poly)) (divX_mul_X_add (generator poly))
  rw [last,map_add,map_mul,AdjoinRoot.mk_X,AdjoinRoot.mk_self,map_one,map_one] at split
  exact .of_mul_eq_one (-AdjoinRoot.mk _ (divX (generator poly))) (by linear_combination -split)

theorem feedSame (odd : poly.msb = true) (wide : 8 ≤ w) (r : BitVec w) {xs ys : List UInt8}
    (same : xs.length = ys.length) :
    feed poly r xs = feed poly r ys ↔ generator poly ∣ message xs + message ys := by
  have both : feed poly r xs = feed poly r ys ↔
      residue poly (feed poly r xs) = residue poly (feed poly r ys) :=
    ⟨congrArg _,residueInjective poly⟩
  rw [both,feedResidue poly wide,feedResidue poly wide,same,add_right_inj,
    ((rootUnit odd).pow w).mul_right_inj,AdjoinRoot.mk_eq_mk,CharTwo.sub_eq_add]

theorem messageFlips {xs ys : List UInt8} (same : xs.length = ys.length) :
    message (flips xs ys) = message xs + message ys := by
  induction xs generalizing ys with
  | nil =>
    cases List.length_eq_zero_iff.mp same.symm
    simp [flips,message]
  | cons x xs ih =>
    cases ys with
    | nil => contradiction
    | cons y ys =>
      have rest : xs.length = ys.length := Nat.succ.inj same
      have length : (flips xs ys).length = xs.length := by
        simp [flips,rest]
      change message ((x ^^^ y)::flips xs ys) = _
      rw [message,message,message,ih rest,length,UInt8.toBitVec_xor,asXor,← rest]
      ring

theorem messageAbove {bytes : List UInt8} {i : Nat} (above : 8 * bytes.length ≤ i) :
    (message bytes).coeff i = 0 := by
  induction bytes with
  | nil => rfl
  | cons b rest ih =>
    rw [List.length_cons] at above
    rw [message,coeff_add,ih (by omega),coeff_X_pow_mul',if_pos (by omega),coeffAs,
      BitVec.getMsbD_of_ge _ _ (by omega)]
    rfl

theorem asOnes (r : BitVec w) : (asPolynomial r).support.card = ones r := by
  have support : (asPolynomial r).support = (Finset.range w).filter fun i => r.getMsbD i = true := by
    ext i
    rw [mem_support_iff,coeffAs,Finset.mem_filter,Finset.mem_range]
    by_cases inside : i < w
    · cases r.getMsbD i <;> simp [bit,inside]
    · simp [BitVec.getMsbD_of_ge r i (Nat.le_of_not_lt inside),bit]
  rw [support,Finset.card_filter,ones,← Finset.sum_range_reflect]
  refine Finset.sum_congr rfl fun i inside => ?_
  have within := Finset.mem_range.mp inside
  rw [BitVec.getMsbD_eq_getLsbD,decide_eq_true (by omega),Bool.true_and,show w - 1 - (w - 1 - i) = i by omega]
  cases r.getLsbD i <;> rfl

theorem raisedSupport (p : (ZMod 2)[X]) {m : (ZMod 2)[X]} {n : Nat} (low : ∀ i, n ≤ i → m.coeff i = 0) :
    (X^n * p + m).support.card = p.support.card + m.support.card := by
  have below : ∀ i ∈ m.support, i < n := fun i inside =>
    Nat.lt_of_not_le fun above => mem_support_iff.mp inside (low i above)
  have split : (X^n * p + m).support = p.support.map (addRightEmbedding n) ∪ m.support := by
    ext i
    rw [mem_support_iff,coeff_add,coeff_X_pow_mul',Finset.mem_union,Finset.mem_map,mem_support_iff]
    by_cases above : n ≤ i
    · rw [if_pos above,low i above,add_zero]
      constructor
      · exact fun present => .inl ⟨i - n,mem_support_iff.mpr present,Nat.sub_add_cancel above⟩
      · rintro (⟨j,present,rfl⟩ | absent)
        · rwa [addRightEmbedding_apply,Nat.add_sub_cancel,← mem_support_iff]
        · exact absurd rfl absent
    · rw [if_neg above,zero_add]
      constructor
      · exact .inr
      · rintro (⟨j,_,rfl⟩ | present)
        · exact absurd (Nat.le_add_left n j) above
        · exact present
  have apart : Disjoint (p.support.map (addRightEmbedding n)) m.support := by
    rw [Finset.disjoint_left]
    intro i raised inside
    obtain ⟨j,_,rfl⟩ := Finset.mem_map.mp raised
    exact absurd (below _ inside) (Nat.not_lt.mpr (Nat.le_add_left n j))
  rw [split,Finset.card_union_of_disjoint apart,Finset.card_map]

theorem messageOnes (bytes : List UInt8) : (message bytes).support.card = byteOnes bytes := by
  induction bytes with
  | nil => rfl
  | cons b rest ih =>
    rw [message,raisedSupport _ fun i above => messageAbove above,asOnes,ih,byteOnesCons]

theorem pairDetected (odd : poly.msb = true) (wide : 8 ≤ w) (r : BitVec w) {xs ys : List UInt8}
    (same : xs.length = ys.length) (pair : byteOnes (flips xs ys) = 2)
    (short : 8 * xs.length ≤ orderOf (AdjoinRoot.root (generator poly))) :
    feed poly r xs ≠ feed poly r ys := by
  rw [Ne,feedSame odd wide r same,← messageFlips same]
  intro divides
  obtain ⟨k,m,less,a,b,nonzero,nonzero',shape⟩ := card_support_eq_two.mp ((messageOnes _).trans pair)
  have one : ∀ {c : ZMod 2}, c ≠ 0 → c = 1 := by decide
  have length : (flips xs ys).length = xs.length := by
    simp [flips,same]
  have inside : m < 8 * xs.length := by
    by_contra above
    have vanishes := @messageAbove (flips xs ys) m (by omega)
    rw [shape,coeff_add,coeff_C_mul_X_pow,coeff_C_mul_X_pow,if_neg (by omega),if_pos rfl,zero_add] at vanishes
    exact nonzero' vanishes
  have zero := AdjoinRoot.mk_eq_zero.mpr divides
  obtain ⟨d,rfl⟩ := Nat.exists_eq_add_of_lt less
  rw [shape,one nonzero,one nonzero',map_one,one_mul,one_mul,map_add,map_pow,map_pow,AdjoinRoot.mk_X,
    show k + d + 1 = k + (d + 1) by omega,pow_add,← mul_one_add] at zero
  have loop : AdjoinRoot.root (generator poly)^(d+1) = 1 := by
    have cancel := (((rootUnit odd).pow k).mul_right_eq_zero).mp zero
    rw [← AdjoinRoot.mk_X,← map_pow,← map_one (AdjoinRoot.mk (generator poly)),AdjoinRoot.mk_eq_mk,
      CharTwo.sub_eq_add,← AdjoinRoot.mk_eq_zero,map_add,map_pow,AdjoinRoot.mk_X,map_one,add_comm]
    exact cancel
  have period := orderOf_le_of_pow_eq_one (Nat.succ_pos d) loop
  omega

theorem fewDetected (odd : poly.msb = true) (even : EvenGenerator poly) (wide : 8 ≤ w) (r : BitVec w)
    {xs ys : List UInt8} (same : xs.length = ys.length) (flipped : 1 ≤ byteOnes (flips xs ys))
    (few : byteOnes (flips xs ys) ≤ 3)
    (short : 8 * xs.length ≤ orderOf (AdjoinRoot.root (generator poly))) :
    feed poly r xs ≠ feed poly r ys := by
  by_cases pair : byteOnes (flips xs ys) = 2
  · exact pairDetected odd wide r same pair short
  · intro equal
    have left := feedParity even wide r xs
    have right := feedParity even wide r ys
    have differ := flipsParity same
    rw [equal] at left
    omega

section
variable (poly)

def timesUpto (a b : BitVec w) : Nat → BitVec w
  | 0 => 0#w
  | k+1 => shift poly (timesUpto a b k) ^^^ (if b.getLsbD k then a else 0#w)

def times (a b : BitVec w) : BitVec w := timesUpto poly a b w

/- Evaluated before it is handed on. -/
def settled (r : BitVec w) (f : BitVec w → BitVec w) : BitVec w :=
  match r.toNat with
  | 0 => f 0#w
  | n+1 => f (.ofNat w (n+1))

theorem settledSame (r : BitVec w) (f : BitVec w → BitVec w) : settled r f = f r := by
  unfold settled
  split
  · rename_i zero
    rw [BitVec.eq_of_toNat_eq (x := r) (y := 0#w) (by simpa using zero)]
  · rename_i n positive
    have value : n + 1 = r.toNat := positive.symm
    rw [value,BitVec.ofNat_toNat,BitVec.setWidth_eq]

def squared : Nat → BitVec w → BitVec w
  | 0, r => r
  | k+1, r => settled (times poly r r) (squared k)

noncomputable def upto (b : BitVec w) : Nat → (ZMod 2)[X]
  | 0 => 0
  | k+1 => X * upto b k + C (bit (b.getLsbD k))

theorem coeffUpto (b : BitVec w) (k i : Nat) :
    (upto b k).coeff i = if i < k then bit (b.getLsbD (k-1-i)) else 0 := by
  induction k generalizing i with
  | zero => rfl
  | succ k ih =>
    rw [upto,coeff_add]
    cases i with
    | zero => rw [coeff_X_mul_zero,coeff_C_zero,zero_add,if_pos (Nat.succ_pos k)]; rfl
    | succ i =>
      rw [coeff_X_mul,coeff_C_succ,add_zero,ih,show k + 1 - 1 - (i + 1) = k - 1 - i by omega]
      simp only [Nat.succ_lt_succ_iff]

theorem uptoWhole (b : BitVec w) : upto b w = asPolynomial b := by
  ext i
  rw [coeffUpto,coeffAs,BitVec.getMsbD_eq_getLsbD]
  by_cases inside : i < w <;> simp [inside,bit]

theorem timesUptoResidue (a b : BitVec w) (k : Nat) :
    residue poly (timesUpto poly a b k) = residue poly a * AdjoinRoot.mk _ (upto b k) := by
  have nothing : residue poly 0#w = 0 := by
    have same := residueXor poly 0#w 0#w
    rw [BitVec.xor_zero] at same
    exact left_eq_add.mp same
  induction k with
  | zero => rw [timesUpto,upto,map_zero,mul_zero,nothing]
  | succ k ih =>
    have added : residue poly (if b.getLsbD k then a else 0#w) =
        residue poly a * AdjoinRoot.mk _ (C (bit (b.getLsbD k))) := by
      cases b.getLsbD k with
      | false => simp [bit,nothing]
      | true => simp [bit]
    rw [timesUpto,upto,residueXor,shiftResidue,ih,added,map_add,map_mul,AdjoinRoot.mk_X]
    ring

theorem timesResidue (a b : BitVec w) : residue poly (times poly a b) = residue poly a * residue poly b := by
  rw [times,timesUptoResidue,uptoWhole]
  rfl

theorem squaredResidue (k : Nat) (r : BitVec w) :
    residue poly (squared poly k r) = residue poly r^(2^k) := by
  induction k generalizing r with
  | zero => rw [squared,pow_zero,pow_one]
  | succ k ih => rw [squared,settledSame,ih,timesResidue,← pow_two,← pow_mul,pow_succ']

def power (w d : Nat) : BitVec w := BitVec.twoPow w (w-1-d)

theorem powerAs {d : Nat} (inside : d < w) : asPolynomial (power w d) = X^d := by
  ext i
  rw [coeffAs,coeff_X_pow,BitVec.getMsbD_eq_getLsbD,power,BitVec.getLsbD_twoPow]
  by_cases same : i = d
  · subst same
    simp [inside,bit,show w - 1 - i < w by omega]
  · by_cases within : i < w
    · simp [within,same,bit,show w - 1 - d ≠ w - 1 - i by omega]
    · simp [within,same,bit]

/- A generator that gives back `X` after `k` squarings has a Mersenne prime as its period. -/
theorem periodExact {poly : BitVec w} (odd : poly.msb = true) (wide : 2 ≤ w) {k : Nat}
    (back : squared poly k (power w 1) = power w 1) (prime : (2^k - 1).Prime) :
    orderOf (AdjoinRoot.root (generator poly)) = 2^k - 1 := by
  have start : residue poly (power w 1) = AdjoinRoot.root (generator poly) := by
    rw [residue,powerAs (by omega),pow_one,AdjoinRoot.mk_X]
  have whole := squaredResidue poly k (power w 1)
  rw [back,start] at whole
  have loop : AdjoinRoot.root (generator poly)^(2^k - 1) = 1 := by
    apply (rootUnit odd).mul_left_cancel
    rw [← pow_succ',Nat.sub_add_cancel Nat.one_le_two_pow,← whole,mul_one]
  have moves : AdjoinRoot.root (generator poly) ≠ 1 := by
    intro still
    have unit : residue poly (power w 0) = 1 := by
      rw [residue,powerAs (by omega),pow_zero,map_one]
    have registers := residueInjective poly (start.trans (still.trans unit.symm))
    have coefficients := congrArg (fun r => (asPolynomial r).coeff 0) registers
    simp only [powerAs (show 1 < w by omega),powerAs (show 0 < w by omega),pow_one,pow_zero,coeff_X_zero,
      coeff_one_zero] at coefficients
    exact zero_ne_one coefficients
  have fact : Fact (2^k - 1).Prime := ⟨prime⟩
  exact orderOf_eq_prime loop moves

end
end
end ReflectedCrc
