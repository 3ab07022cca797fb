import VisualDigest.Library.LittleEndian

/-! Fixed-width codecs for the fields of a record, and their products. A codec carries
the laws that make it a bijection between its values and the byte strings it accepts. -/
namespace FieldCodec
open LittleEndian

structure Codec (α : Type) where
  width : Nat
  enc : α → List UInt8
  dec : List UInt8 → Option α
  encWidth : ∀ x, (enc x).length = width
  decEnc : ∀ x, dec (enc x) = some x
  encDec : ∀ {bytes x}, dec bytes = some x → enc x = bytes

section
variable {α β : Type}

def word (α : Type) [Word α] : Codec α where
  width := Word.width α
  enc := le
  dec bytes := if size : bytes.length = Word.width α then some (fromLeBytes ⟨bytes,size⟩) else none
  encWidth := leLength
  decEnc x := by
    rw [dif_pos (leLength x)]
    exact congrArg some (fromToLeBytes x)
  encDec {bytes x} h := by
    split at h
    · rename_i size
      cases Option.some.inj h
      exact congrArg List.Vector.toList (toFromLeBytes ⟨bytes,size⟩)
    · contradiction

def byte : Codec UInt8 where
  width := 1
  enc b := [b]
  dec
    | [b] => some b
    | _ => none
  encWidth _ := rfl
  decEnc _ := rfl
  encDec {bytes x} h := by
    split at h
    · cases Option.some.inj h; rfl
    · contradiction

def enum (wire : α → UInt8) (read : UInt8 → Option α) (readWire : ∀ x, read (wire x) = some x)
    (wireRead : ∀ {b x}, read b = some x → wire x = b) : Codec α where
  width := 1
  enc x := [wire x]
  dec
    | [b] => read b
    | _ => none
  encWidth _ := rfl
  decEnc := readWire
  encDec {bytes x} h := by
    split at h
    · rw [wireRead h]
    · contradiction

def pair (a : Codec α) (b : Codec β) : Codec (α × β) where
  width := a.width + b.width
  enc x := a.enc x.1 ++ b.enc x.2
  dec bytes := do
    let left ← a.dec (bytes.take a.width)
    let right ← b.dec (bytes.drop a.width)
    return (left,right)
  encWidth x := by rw [List.length_append,a.encWidth,b.encWidth]
  decEnc x := by
    rw [List.take_left' (a.encWidth x.1),List.drop_left' (a.encWidth x.1),a.decEnc,b.decEnc]
    rfl
  encDec {bytes x} h := by
    simp only [bind,Option.bind_eq_some_iff] at h
    obtain ⟨left,hl,right,hr,last⟩ := h
    cases Option.some.inj last
    rw [a.encDec hl,b.encDec hr,List.take_append_drop]

theorem pairDec (a : Codec α) (b : Codec β) (x : α) (rest : List UInt8) :
    (pair a b).dec (a.enc x ++ rest) = (b.dec rest).map fun y => (x,y) := by
  simp only [pair,List.take_left' (a.encWidth x),List.drop_left' (a.encWidth x),a.decEnc,bind,
    Option.bind]
  cases b.dec rest <;> rfl

variable (c : Codec α)

/- Every byte string of the right length is a value: no discriminant can be wrong. -/
def Total : Prop := ∀ bytes : List UInt8, bytes.length = c.width → ∃ x, c.enc x = bytes

theorem wordTotal (α : Type) [Word α] : Total (word α) :=
  fun bytes size => leSurjective bytes size

theorem byteTotal : Total byte := by
  intro bytes size
  obtain ⟨b,rfl⟩ := List.length_eq_one_iff.mp size
  exact ⟨b,rfl⟩

theorem pairTotal {a : Codec α} {b : Codec β} (ha : Total a) (hb : Total b) : Total (pair a b) := by
  intro bytes size
  have whole : bytes.length = a.width + b.width := size
  obtain ⟨left,hl⟩ := ha (bytes.take a.width) (by rw [List.length_take]; omega)
  obtain ⟨right,hr⟩ := hb (bytes.drop a.width) (by rw [List.length_drop]; omega)
  exact ⟨(left,right),by simp [pair,hl,hr]⟩

theorem totalMany {c : Codec α} (total : Total c) (n : Nat) {bytes : List UInt8}
    (size : bytes.length = n * c.width) : ∃ xs : List α, xs.length = n ∧ xs.flatMap c.enc = bytes := by
  induction n generalizing bytes with
  | zero => exact ⟨[],rfl,(List.length_eq_zero_iff.mp (by simpa using size)).symm⟩
  | succ n ih =>
    rw [Nat.succ_mul] at size
    obtain ⟨x,first⟩ := total (bytes.take c.width) (by rw [List.length_take]; omega)
    obtain ⟨xs,count,later⟩ := @ih (bytes.drop c.width) (by rw [List.length_drop]; omega)
    exact ⟨x::xs,by rw [List.length_cons,count],
      by rw [List.flatMap_cons,first,later,List.take_append_drop]⟩

end
end FieldCodec
