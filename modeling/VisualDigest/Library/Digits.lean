import Mathlib.Data.List.Basic

/-! Numbers in texts, and where their digits end. -/
namespace Digits

def hexDigit (n : Nat) : Char :=
  ['0','1','2','3','4','5','6','7','8','9','a','b','c','d','e','f'].getD n '?'

theorem hexDigitSame {m n : Nat} (left : m < 16) (right : n < 16) (same : hexDigit m = hexDigit n) :
    m = n := by
  have all : ∀ m n : Fin 16, hexDigit m = hexDigit n → m = n := by decide
  exact Fin.mk.inj (all ⟨m,left⟩ ⟨n,right⟩ same)

def decimal (n : Nat) : List Char := Nat.toDigits 10 n

theorem decimalDigit {n : Nat} {c : Char} (inside : c ∈ decimal n) : c.isDigit = true :=
  Nat.isDigit_of_mem_toDigits (by decide) (by decide) inside

theorem decimalFirst (n : Nat) : ∃ c rest, decimal n = c::rest ∧ c.isDigit = true := by
  cases digits : decimal n with
  | nil => exact absurd digits Nat.toDigits_ne_nil
  | cons c rest => exact ⟨c,rest,rfl,decimalDigit (digits ▸ List.mem_cons_self)⟩

theorem decimalSame {m n : Nat} (same : decimal m = decimal n) : m = n := by
  have value := congrArg (fun digits => Nat.ofDigitChars 10 digits 0) same
  simpa only [decimal,Nat.ofDigitChars_ten_toDigits] using value

def Undigited (text : List Char) : Prop := ∀ c ∈ text.head?, c.isDigit = false

theorem decimalTaken (n : Nat) {text : List Char} (behind : Undigited text) :
    (decimal n ++ text).takeWhile Char.isDigit = decimal n := by
  rw [List.takeWhile_append_of_pos fun c => decimalDigit]
  cases text with
  | nil => simp
  | cons c rest => simp [behind c rfl]

theorem decimalCut {m n : Nat} {x y : List Char} (left : Undigited x) (right : Undigited y)
    (same : decimal m ++ x = decimal n ++ y) : m = n ∧ x = y := by
  have digits := congrArg (List.takeWhile Char.isDigit) same
  rw [decimalTaken m left,decimalTaken n right] at digits
  rw [digits] at same
  exact ⟨decimalSame digits,List.append_cancel_left same⟩

end Digits
