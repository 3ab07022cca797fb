import Mathlib.Data.Vector.Basic
import Mathlib.Tactic.Ring

/-! Fixed-width little-endian words. A word type carries its byte width and the
laws of its conversions, so its encoding is a bijection with arrays of that width. -/
namespace LittleEndian

def leBytes : Nat → Nat → List UInt8
  | 0, _ => []
  | width+1, n => UInt8.ofNat n :: leBytes width (n/256)

def leValue : List UInt8 → Nat
  | [] => 0
  | b::rest => b.toNat + 256 * leValue rest

@[simp] theorem leBytesLength (width n : Nat) : (leBytes width n).length = width := by
  induction width generalizing n with
  | zero => rfl
  | succ width ih => simp [leBytes,ih]

theorem leValueMod (width n : Nat) : leValue (leBytes width n) = n % 256 ^ width := by
  induction width generalizing n with
  | zero => simp [leBytes,leValue,Nat.mod_one]
  | succ width ih =>
    have split : n % 256 ^ (width+1) = n % 256 + 256 * (n/256 % 256 ^ width) := by
      rw [Nat.pow_succ',Nat.mod_mul]
    rw [leBytes,leValue,ih,split,UInt8.toNat_ofNat']

theorem leValueBytes {width n : Nat} (bound : n < 256 ^ width) :
    leValue (leBytes width n) = n := by
  rw [leValueMod,Nat.mod_eq_of_lt bound]

theorem leValueBound (raw : List UInt8) : leValue raw < 256 ^ raw.length := by
  induction raw with
  | nil => simp [leValue]
  | cons b rest ih =>
    have hb := b.toNat_lt
    rw [leValue,List.length_cons,Nat.pow_succ]
    omega

theorem leBytesValue (raw : List UInt8) : leBytes raw.length (leValue raw) = raw := by
  induction raw with
  | nil => rfl
  | cons b rest ih =>
    have hb := b.toNat_lt
    have head : UInt8.ofNat (b.toNat + 256 * leValue rest) = b := by
      apply UInt8.toNat_inj.mp
      rw [UInt8.toNat_ofNat']
      omega
    have tail : (b.toNat + 256 * leValue rest)/256 = leValue rest := by omega
    rw [List.length_cons,leValue,leBytes,head,tail,ih]

class Word (α : Type) where
  width : Nat
  toNat : α → Nat
  ofNat : Nat → α
  bound : ∀ x, toNat x < 256 ^ width
  ofToNat : ∀ x, ofNat (toNat x) = x
  toOfNat : ∀ n, n < 256 ^ width → toNat (ofNat n) = n

instance : Word UInt16 where
  width := 2
  toNat := UInt16.toNat
  ofNat := UInt16.ofNat
  bound x := x.toNat_lt
  ofToNat _ := UInt16.ofNat_toNat
  toOfNat _ small := UInt16.toNat_ofNat_of_lt' small

instance : Word UInt32 where
  width := 4
  toNat := UInt32.toNat
  ofNat := UInt32.ofNat
  bound x := x.toNat_lt
  ofToNat _ := UInt32.ofNat_toNat
  toOfNat _ small := UInt32.toNat_ofNat_of_lt' small

instance : Word UInt64 where
  width := 8
  toNat := UInt64.toNat
  ofNat := UInt64.ofNat
  bound x := x.toNat_lt
  ofToNat _ := UInt64.ofNat_toNat
  toOfNat _ small := UInt64.toNat_ofNat_of_lt' small

section
variable {α : Type} [Word α]

def toLeBytes (x : α) : List.Vector UInt8 (Word.width α) :=
  ⟨leBytes (Word.width α) (Word.toNat x),leBytesLength _ _⟩

def fromLeBytes (raw : List.Vector UInt8 (Word.width α)) : α := Word.ofNat (leValue raw.toList)

@[simp] theorem fromToLeBytes (x : α) : fromLeBytes (toLeBytes x) = x := by
  have value := leValueBytes (Word.bound x)
  change Word.ofNat (leValue (leBytes (Word.width α) (Word.toNat x))) = x
  rw [value,Word.ofToNat]

@[simp] theorem toFromLeBytes (raw : List.Vector UInt8 (Word.width α)) :
    toLeBytes (fromLeBytes raw : α) = raw := by
  have bound : leValue raw.toList < 256 ^ Word.width α := by
    simpa using leValueBound raw.toList
  apply List.Vector.eq
  change leBytes (Word.width α) (Word.toNat (Word.ofNat (leValue raw.toList) : α)) = raw.toList
  rw [Word.toOfNat _ bound]
  simpa using leBytesValue raw.toList

def le (x : α) : List UInt8 := (toLeBytes x).toList

@[simp] theorem leLength (x : α) : (le x).length = Word.width α := List.Vector.toList_length _

theorem leAppend {x y : α} {a b : List UInt8} : le x ++ a = le y ++ b ↔ x = y ∧ a = b := by
  constructor
  · intro same
    obtain ⟨front,back⟩ := List.append_inj same (by simp)
    have words := congrArg fromLeBytes (List.Vector.eq _ _ front)
    exact ⟨by simpa using words,back⟩
  · rintro ⟨rfl,rfl⟩; rfl

@[simp] theorem leInjective {x y : α} : le x = le y ↔ x = y := by
  simpa using leAppend (x := x) (y := y) (a := []) (b := [])

theorem leSurjective (raw : List UInt8) (width : raw.length = Word.width α) :
    ∃ x : α, le x = raw := by
  obtain ⟨v,rfl⟩ : ∃ v : List.Vector UInt8 (Word.width α), v.toList = raw := ⟨⟨raw,width⟩,rfl⟩
  exact ⟨fromLeBytes v,by rw [le,toFromLeBytes]⟩

end
end LittleEndian
