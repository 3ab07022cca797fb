import VisualDigest.Library.RecordFormat
import Mathlib.Data.UInt

/-! Records of a tag, a length byte and a value. -/
namespace Framing
open RecordFormat

structure Tlv where
  tag : UInt8
  value : List UInt8
  short : value.length < 256
  deriving DecidableEq

def Tlv.bytes (r : Tlv) : List UInt8 := r.tag :: UInt8.ofNat r.value.length :: r.value

inductive Misframed where
  | orphan
  | truncated (tag : UInt8)
  deriving DecidableEq

theorem takeShort (len : UInt8) (rest : List UInt8) : (rest.take len.toNat).length < 256 := by
  have bound := len.toNat_lt
  rw [List.length_take]
  omega

def readTlv : List UInt8 → Except Misframed (Tlv × List UInt8)
  | tag::len::rest =>
    if len.toNat ≤ rest.length then
      .ok (⟨tag,rest.take len.toNat,takeShort len rest⟩,rest.drop len.toNat)
    else .error (.truncated tag)
  | _ => .error .orphan

theorem lengthByte (r : Tlv) : (UInt8.ofNat r.value.length).toNat = r.value.length := by
  rw [UInt8.toNat_ofNat']
  exact Nat.mod_eq_of_lt r.short

theorem tlvSound {bytes : List UInt8} {r : Tlv} {rest : List UInt8} (h : readTlv bytes = .ok (r,rest)) :
    bytes = r.bytes ++ rest := by
  unfold readTlv at h
  split at h <;> try contradiction
  rename_i tag len tail
  split at h <;> try contradiction
  rename_i fits
  cases h
  have size : (tail.take len.toNat).length = len.toNat := by rw [List.length_take]; omega
  have byte : UInt8.ofNat len.toNat = len := UInt8.ofNat_toNat
  simp only [Tlv.bytes,size,byte,List.cons_append,List.take_append_drop]

theorem tlvComplete (r : Tlv) (rest : List UInt8) : readTlv (r.bytes ++ rest) = .ok (r,rest) := by
  have len := lengthByte r
  simp only [Tlv.bytes,List.cons_append,readTlv,len,List.take_left,List.drop_left]
  rw [if_pos (by simp)]

def tlvFormat : Format Tlv UInt8 Misframed where
  enc := Tlv.bytes
  read := readTlv
  nonempty r := by simp [Tlv.bytes]
  sound := tlvSound
  complete := tlvComplete

end Framing
