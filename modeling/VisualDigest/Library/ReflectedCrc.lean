import VisualDigest.Library.LittleEndian

/-! Cyclic redundancy checks with reflected input and output, over any width. A byte
enters at the low end of the register and eight shifts follow. Shifting is linear and,
for an odd polynomial, injective: from this come resumption, the survival of a
difference, the detection of bursts no longer than the register, and the one word
between two byte strings that leads to a given register. -/
namespace ReflectedCrc
open LittleEndian

structure Params (w : Nat) where
  poly : BitVec w
  init : BitVec w
  xorout : BitVec w

section
variable {w : Nat} (poly : BitVec w)

/- One shift of a reflected register; `poly` is the polynomial in reflected order. -/
def shift (r : BitVec w) : BitVec w := if r.getLsbD 0 then (r >>> 1) ^^^ poly else r >>> 1

def shifts : Nat → BitVec w → BitVec w
  | 0, r => r
  | k+1, r => shifts k (shift poly r)

def feedByte (r : BitVec w) (b : UInt8) : BitVec w := shifts poly 8 (r ^^^ b.toBitVec.setWidth w)

def feed (r : BitVec w) (bytes : List UInt8) : BitVec w := bytes.foldl (feedByte poly) r

@[simp] theorem feedNil (r : BitVec w) : feed poly r [] = r := rfl

theorem feedAppend (r : BitVec w) (a b : List UInt8) :
    feed poly r (a ++ b) = feed poly (feed poly r a) b := List.foldl_append

theorem shiftXor (a b : BitVec w) : shift poly (a ^^^ b) = shift poly a ^^^ shift poly b := by
  unfold shift
  simp only [BitVec.getLsbD_xor,BitVec.ushiftRight_xor_distrib]
  cases a.getLsbD 0 <;> cases b.getLsbD 0
  · simp
  · simp [BitVec.xor_assoc]
  · simp only [Bool.xor_false,if_true,Bool.false_eq_true,if_false]
    rw [BitVec.xor_assoc,BitVec.xor_comm (b >>> 1),BitVec.xor_assoc]
  · simp only [Bool.xor_true,Bool.not_true,Bool.false_eq_true,if_false,if_true]
    rw [BitVec.xor_comm (b >>> 1) poly,BitVec.xor_assoc (a >>> 1),← BitVec.xor_assoc poly poly,
      BitVec.xor_self,BitVec.zero_xor]

theorem shiftsXor (k : Nat) (a b : BitVec w) :
    shifts poly k (a ^^^ b) = shifts poly k a ^^^ shifts poly k b := by
  induction k generalizing a b with
  | zero => rfl
  | succ k ih => rw [shifts,shiftXor,ih]; rfl

/- The bit shifted out comes back as the top bit of an odd polynomial, so a shift
loses nothing: what it sends to zero is zero. -/
theorem shiftKernel (odd : poly.msb = true) {r : BitVec w} (zero : shift poly r = 0#w) :
    r = 0#w := by
  have low : r.getLsbD 0 = false := by
    by_contra set
    have top := congrArg BitVec.msb zero
    unfold shift at top
    rw [if_pos (by simpa using set),BitVec.msb_xor,odd] at top
    have gone : (r >>> 1).msb = false := by simp [BitVec.msb_ushiftRight]
    simp [gone] at top
  unfold shift at zero
  rw [low] at zero
  simp only [Bool.false_eq_true,if_false] at zero
  apply BitVec.eq_of_getLsbD_eq
  intro i _
  cases i with
  | zero => simpa using low
  | succ i =>
    have bit := congrArg (fun v => v.getLsbD i) zero
    simpa [BitVec.getLsbD_ushiftRight,Nat.add_comm] using bit

theorem shiftsKernel (odd : poly.msb = true) (k : Nat) {r : BitVec w}
    (zero : shifts poly k r = 0#w) : r = 0#w := by
  induction k generalizing r with
  | zero => exact zero
  | succ k ih => exact shiftKernel poly odd (ih zero)

theorem shiftsInjective (odd : poly.msb = true) (k : Nat) {a b : BitVec w}
    (same : shifts poly k a = shifts poly k b) : a = b := by
  apply BitVec.xor_eq_zero_iff.mp
  apply shiftsKernel poly odd k
  rw [shiftsXor,same,BitVec.xor_self]

theorem feedInjective (odd : poly.msb = true) (bytes : List UInt8) {a b : BitVec w}
    (same : feed poly a bytes = feed poly b bytes) : a = b := by
  induction bytes generalizing a b with
  | nil => exact same
  | cons byte rest ih => exact (BitVec.xor_left_inj _).mp (shiftsInjective poly odd 8 (ih same))

def pack (w : Nat) (block : List UInt8) : BitVec w := BitVec.ofNat w (leValue block)

theorem packToNat {block : List UInt8} (room : 8 * block.length ≤ w) :
    (pack w block).toNat = leValue block := by
  unfold pack
  rw [BitVec.toNat_ofNat,Nat.mod_eq_of_lt]
  calc leValue block < 256 ^ block.length := leValueBound block
    _ = 2 ^ (8 * block.length) := by rw [Nat.pow_mul]
    _ ≤ 2 ^ w := Nat.pow_le_pow_right (by omega) room

theorem packCons (b : UInt8) (rest : List UInt8) :
    pack w (b::rest) = b.toBitVec.setWidth w ^^^ (pack w rest <<< 8) := by
  have small : b.toNat < 2^8 := b.toNat_lt
  apply BitVec.eq_of_getLsbD_eq
  intro i hi
  have split := Nat.testBit_two_pow_mul_add (leValue rest) small i
  have whole : 2^8 * leValue rest + b.toNat = leValue (b::rest) := by
    rw [leValue]
    omega
  rw [whole] at split
  simp only [pack,BitVec.getLsbD_xor,BitVec.getLsbD_ofNat,BitVec.getLsbD_setWidth,
    BitVec.getLsbD_shiftLeft,split,hi,decide_true,Bool.true_and]
  by_cases low : i < 8
  · simp [low]; rfl
  · simp only [low,if_false,decide_false,Bool.not_false,Bool.true_and]
    have above : b.toBitVec.getLsbD i = false := BitVec.getLsbD_of_ge _ _ (by omega)
    simp [above,show i-8 < w by omega]

theorem shiftEven {x : BitVec w} {k : Nat} (room : x.toNat * 2^(k+1) < 2^w) :
    shift poly (x <<< (k+1)) = x <<< k := by
  have low : (x <<< (k+1)).getLsbD 0 = false := by simp
  unfold shift
  rw [low]
  simp only [Bool.false_eq_true,if_false]
  apply BitVec.eq_of_toNat_eq
  have double : x.toNat * 2^(k+1) = 2 * (x.toNat * 2^k) := by ring
  rw [BitVec.toNat_ushiftRight,BitVec.toNat_shiftLeft,BitVec.toNat_shiftLeft,Nat.shiftLeft_eq,
    Nat.shiftLeft_eq,Nat.mod_eq_of_lt room,Nat.mod_eq_of_lt (by omega),Nat.shiftRight_eq_div_pow]
  omega

theorem shiftsBack {x : BitVec w} {k : Nat} (room : x.toNat * 2^k < 2^w) :
    shifts poly k (x <<< k) = x := by
  induction k with
  | zero => simp [shifts]
  | succ k ih =>
    have smaller : x.toNat * 2^k < 2^w := by
      rw [Nat.pow_succ] at room
      have : x.toNat * 2^k ≤ x.toNat * (2^k*2) := Nat.mul_le_mul_left _ (by omega)
      omega
    rw [shifts,shiftEven poly room,ih smaller]

theorem shiftsAdd (j k : Nat) (r : BitVec w) : shifts poly (j+k) r = shifts poly k (shifts poly j r) := by
  induction j generalizing r with
  | zero => rw [Nat.zero_add]; rfl
  | succ j ih => rw [show j+1+k = (j+k)+1 by omega,shifts,ih]; rfl

theorem feedBlock {block : List UInt8} (room : 8 * block.length ≤ w) (r : BitVec w) :
    feed poly r block = shifts poly (8 * block.length) (r ^^^ pack w block) := by
  induction block generalizing r with
  | nil => simp [pack,leValue,shifts]
  | cons b rest ih =>
    have shorter : 8 * rest.length ≤ w := by rw [List.length_cons] at room; omega
    have fits : (pack w rest).toNat * 2^8 < 2^w := by
      have whole := leValueBound rest
      rw [packToNat shorter]
      calc leValue rest * 2^8 < 256 ^ rest.length * 2^8 := by omega
        _ = 2 ^ (8 * (rest.length+1)) := by rw [Nat.pow_mul]; rfl
        _ ≤ 2^w := Nat.pow_le_pow_right (by omega) room
    have step : feedByte poly r b ^^^ pack w rest = shifts poly 8 (r ^^^ pack w (b::rest)) := by
      rw [packCons,← BitVec.xor_assoc,shiftsXor,shiftsBack poly fits,feedByte]
    change feed poly (feedByte poly r b) rest = _
    rw [ih shorter,step,← shiftsAdd,List.length_cons,Nat.mul_succ,Nat.add_comm]

theorem burstDetected (odd : poly.msb = true) (r : BitVec w) (pre post : List UInt8)
    {u v : List UInt8} (same : u.length = v.length) (room : 8 * u.length ≤ w) (differ : u ≠ v) :
    feed poly r (pre ++ u ++ post) ≠ feed poly r (pre ++ v ++ post) := by
  intro equal
  rw [feedAppend,feedAppend,feedAppend,feedAppend] at equal
  have blocks := feedInjective poly odd post equal
  have room' : 8 * v.length ≤ w := by omega
  rw [feedBlock poly room (feed poly r pre),feedBlock poly room' (feed poly r pre),same] at blocks
  have words := (BitVec.xor_right_inj _).mp (shiftsInjective poly odd _ blocks)
  have values := congrArg BitVec.toNat words
  rw [packToNat room,packToNat room'] at values
  have bytes := leBytesValue u
  rw [values,same,leBytesValue] at bytes
  exact differ bytes.symm

theorem windowDetected (odd : poly.msb = true) (r : BitVec w) {xs ys : List UInt8} {i k : Nat}
    (same : xs.length = ys.length) (differ : xs ≠ ys) (room : 8 * k ≤ w)
    (agree : ∀ j, j < i ∨ i + k ≤ j → xs[j]? = ys[j]?) : feed poly r xs ≠ feed poly r ys := by
  have cut : ∀ zs : List UInt8, zs = zs.take i ++ (zs.drop i).take k ++ zs.drop (i+k) := by
    intro zs
    rw [List.append_assoc,← List.drop_drop,List.take_append_drop,List.take_append_drop]
  have pre : xs.take i = ys.take i := by
    apply List.ext_getElem?
    intro j
    rw [List.getElem?_take,List.getElem?_take]
    split
    · exact agree j (.inl (by assumption))
    · rfl
  have post : xs.drop (i+k) = ys.drop (i+k) := by
    apply List.ext_getElem?
    intro j
    rw [List.getElem?_drop,List.getElem?_drop]
    exact agree _ (.inr (Nat.le_add_right _ _))
  have mid : (xs.drop i).take k ≠ (ys.drop i).take k := by
    intro equal
    apply differ
    rw [cut xs,cut ys,pre,equal,post]
  rw [cut xs,cut ys,pre,post]
  refine burstDetected poly odd r _ _ ?_ ?_ mid
  · rw [List.length_take,List.length_take,List.length_drop,List.length_drop,same]
  · have short := List.length_take_le k (xs.drop i)
    omega

/- What a shift sends to `r`. The top bit tells whether the polynomial came in. -/
def unshift (r : BitVec w) : BitVec w :=
  if r.msb then ((r ^^^ poly) <<< 1) ||| 1#w else r <<< 1

def unshifts : Nat → BitVec w → BitVec w
  | 0, r => r
  | k+1, r => unshift poly (unshifts k r)

def unfeedByte (r : BitVec w) (b : UInt8) : BitVec w := unshifts poly 8 r ^^^ b.toBitVec.setWidth w

def unfeed (r : BitVec w) : List UInt8 → BitVec w
  | [] => r
  | b::rest => unfeedByte poly (unfeed r rest) b

theorem shiftDouble {r low : BitVec w} (clear : r.msb = false) (bit : low = 0#w ∨ low = 1#w) :
    ((r <<< 1) ||| low) >>> 1 = r := by
  apply BitVec.eq_of_getLsbD_eq
  intro i inside
  have gone : low.getLsbD (1+i) = false := by
    rcases bit with rfl | rfl <;> simp [BitVec.getLsbD_one]
  rw [BitVec.getLsbD_ushiftRight,BitVec.getLsbD_or,gone,Bool.or_false,BitVec.getLsbD_shiftLeft]
  by_cases last : 1 + i < w
  · simp [last]
  · have top : i = w-1 := by omega
    rw [BitVec.msb_eq_getLsbD_last,← top] at clear
    simp [last,clear]

theorem shiftUnshift (odd : poly.msb = true) (r : BitVec w) : shift poly (unshift poly r) = r := by
  unfold shift unshift
  cases top : r.msb with
  | true =>
    have clear : (r ^^^ poly).msb = false := by rw [BitVec.msb_xor,top,odd]; rfl
    have positive : 0 < w := by
      apply Nat.pos_of_ne_zero
      rintro rfl
      rw [BitVec.of_length_zero (x := poly)] at odd
      contradiction
    have low : (((r ^^^ poly) <<< 1) ||| 1#w).getLsbD 0 = true := by simp [positive]
    simp only [if_true,low]
    rw [shiftDouble clear (.inr rfl),BitVec.xor_assoc,BitVec.xor_self,BitVec.xor_zero]
  | false =>
    have low : (r <<< 1).getLsbD 0 = false := by simp
    have back := shiftDouble top (.inl rfl)
    rw [BitVec.or_zero] at back
    simp only [Bool.false_eq_true,if_false,low,back]

theorem shiftsUnshifts (odd : poly.msb = true) (k : Nat) (r : BitVec w) :
    shifts poly k (unshifts poly k r) = r := by
  induction k generalizing r with
  | zero => rfl
  | succ k ih => rw [unshifts,shifts,shiftUnshift poly odd,ih]

theorem feedUnfeed (odd : poly.msb = true) (r : BitVec w) (bytes : List UInt8) :
    feed poly (unfeed poly r bytes) bytes = r := by
  induction bytes with
  | nil => rfl
  | cons b rest ih =>
    have step : feedByte poly (unfeed poly r (b::rest)) b = unfeed poly r rest := by
      rw [unfeed,unfeedByte,feedByte,BitVec.xor_assoc,BitVec.xor_self,BitVec.xor_zero,
        shiftsUnshifts poly odd]
    change feed poly (feedByte poly (unfeed poly r (b::rest)) b) rest = r
    rw [step,ih]

def filling (r : BitVec w) (pre post : List UInt8) (target : BitVec w) : BitVec w :=
  feed poly r pre ^^^ unshifts poly w (unfeed poly target post)

theorem fillingExact (odd : poly.msb = true) (r target : BitVec w) (pre post : List UInt8)
    {block : List UInt8} (size : 8 * block.length = w) :
    feed poly r (pre ++ block ++ post) = target ↔ pack w block = filling poly r pre post target := by
  have back := feedUnfeed poly odd target post
  have forth := shiftsUnshifts poly odd w (unfeed poly target post)
  have block' : feed poly (feed poly r pre) block = shifts poly w (feed poly r pre ^^^ pack w block) := by
    rw [feedBlock poly size.le,size]
  rw [feedAppend,feedAppend,block',filling]
  constructor
  · intro reached
    rw [← back] at reached
    have register := feedInjective poly odd post reached
    rw [← forth] at register
    rw [← shiftsInjective poly odd w register,← BitVec.xor_assoc,BitVec.xor_self,BitVec.zero_xor]
  · intro filled
    rw [filled,← BitVec.xor_assoc,BitVec.xor_self,BitVec.zero_xor,forth,back]

end

section
variable {w : Nat} (p : Params w)

def Params.reflected : BitVec w := p.poly.reverse
def Params.finish (r : BitVec w) : BitVec w := r ^^^ p.xorout
def Params.checksum (bytes : List UInt8) : BitVec w :=
  p.finish (feed p.reflected p.init.reverse bytes)
def Params.resume (f : BitVec w) : BitVec w := (f ^^^ p.xorout).reverse

@[simp] theorem finishFinish (r : BitVec w) : p.finish (p.finish r) = r := by
  rw [Params.finish,Params.finish,BitVec.xor_assoc,BitVec.xor_self,BitVec.xor_zero]

theorem resumeRegister (f : BitVec w) : (p.resume f).reverse = p.finish f :=
  BitVec.reverse_reverse_eq

theorem finishInjective {a b : BitVec w} (same : p.finish a = p.finish b) : a = b :=
  (BitVec.xor_left_inj _).mp same

end
end ReflectedCrc
