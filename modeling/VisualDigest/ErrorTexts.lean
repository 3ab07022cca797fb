import VisualDigest.DigestDecode

/-! What the printed text of a rejection tells. -/
namespace VisualDigest.ErrorTexts
open Decoder DigestDecode Digits

def Word (s : String) : Prop := ∃ c ∈ s.toList.head?, c.isDigit = false

theorem decimalList (n : Nat) : (toString n).toList = decimal n := by
  rw [Nat.toString_eq_repr,Nat.toList_repr,decimal]

theorem numberSame {m n : Nat} (same : toString m = toString n) : m = n := by
  have digits := congrArg String.toList same
  rw [decimalList,decimalList] at digits
  exact decimalSame digits

theorem wordUndigited {s t : String} (word : Word s) : Undigited (s ++ t).toList := by
  obtain ⟨c,first,letter⟩ := word
  intro d begun
  rw [String.toList_append,List.head?_append,first] at begun
  cases begun
  exact letter

theorem numberCut {m n : Nat} {s x y : String} (word : Word s)
    (same : toString m ++ (s ++ x) = toString n ++ (s ++ y)) : m = n ∧ x = y := by
  have chars := congrArg String.toList same
  rw [String.toList_append,@String.toList_append (toString n),decimalList,decimalList] at chars
  obtain ⟨numbers,rest⟩ := decimalCut (wordUndigited word) (wordUndigited word) chars
  exact ⟨numbers,(String.append_right_inj s).mp (String.toList_inj.mp rest)⟩

theorem hexByteCut {b c : UInt8} {x y : String} (same : hexByte b ++ x = hexByte c ++ y) : b = c ∧ x = y := by
  have chars := congrArg String.toList same
  simp only [hexByte,String.toList_append,String.toList_ofList,List.cons_append,List.nil_append,
    List.cons.injEq,String.toList_inj] at chars
  obtain ⟨high,low,rest⟩ := chars
  have bound := b.toNat_lt
  have bound' := c.toNat_lt
  have upper := hexDigitSame (by omega) (by omega) high
  have lower := hexDigitSame (by omega) (by omega) low
  exact ⟨UInt8.toNat_inj.mp (by omega),rest⟩

theorem joinedFour (p q r s : String) : ", ".intercalate [p,q,r,s] =
    p ++ (", " ++ (q ++ (", " ++ (r ++ (", " ++ s))))) := by
  apply String.toList_inj.mp
  rw [String.toList_intercalate]
  simp only [List.map_cons,List.map_nil,List.intercalate,List.intersperse,List.flatten_cons,
    List.flatten_nil,List.append_nil,String.toList_append]

theorem magicSame {u v : List.Vector UInt8 4} (same : ", ".intercalate (u.toList.map hexByte) ++ "]" =
    ", ".intercalate (v.toList.map hexByte) ++ "]") : u = v := by
  match u, v with
  | ⟨[a,b,c,d],_⟩, ⟨[a',b',c',d'],_⟩ =>
    simp only [List.Vector.toList_mk,List.map_cons,List.map_nil,joinedFour,String.append_assoc] at same
    obtain ⟨rfl,second⟩ := hexByteCut same
    obtain ⟨rfl,third⟩ := hexByteCut ((String.append_right_inj _).mp second)
    obtain ⟨rfl,fourth⟩ := hexByteCut ((String.append_right_inj _).mp third)
    obtain ⟨rfl,_⟩ := hexByteCut ((String.append_right_inj _).mp fourth)
    rfl

def opening : DecodeError → String
  | .short .. => "input is "
  | .badMagic .. => "bad magic: expected SXDG, found ["
  | .unsupportedSchemaVersion .. => "unsupported schema version 0x"
  | .recordCountTooSmall .. => "record count "
  | .malformedHashBlock .. => "malformed hash block at offset "
  | .malformedRawRecord .. => "malformed raw record tag 0x"
  | .truncatedValue .. => "record tag 0x"
  | .trailing .. => ""

def values : DecodeError → String
  | .short found => toString found ++ (" bytes; minimum valid payload is " ++
    (toString minPayload ++ " bytes"))
  | .badMagic found => ", ".intercalate (found.toList.map hexByte) ++ "]"
  | .unsupportedSchemaVersion version => hexByte version ++ "; only 0x02 is supported"
  | .recordCountTooSmall found => toString found.toNat ++
    " is less than the minimum 8 (hash block always present in v2)"
  | .malformedHashBlock offset reason => toString offset ++ (": " ++ reason)
  | .malformedRawRecord tag offset reason =>
    hexByte tag ++ (" at offset " ++ (toString offset ++ (": " ++ reason)))
  | .truncatedValue tag offset =>
    hexByte tag ++ (" at offset " ++ (toString offset ++ ": value length runs past the trailer"))
  | .trailing extraBytes => toString extraBytes ++ " unexpected bytes between last record and trailer"

theorem textSplit (error : DecodeError) : decodeErrorText error = opening error ++ values error := by
  cases error <;> unfold decodeErrorText opening values <;>
    simp only [String.append_assoc,String.empty_append]

def openings : List String :=
  ["input is ","bad magic: expected SXDG, found [","unsupported schema version 0x","record count ",
   "malformed hash block at offset ","malformed raw record tag 0x","record tag 0x"]

theorem openingsApart : ∀ o ∈ openings, ∀ p ∈ openings, o.toList <+: p.toList → o = p := by
  simp [openings]

theorem openingsWords : ∀ o ∈ openings, Word o := by
  simp [openings,Word,Char.isDigit]

theorem colonWord : Word ": " := by
  simp [Word,Char.isDigit]

theorem openingListed (error : DecodeError) :
    opening error ∈ openings ∨ ∃ extraBytes, error = .trailing extraBytes := by
  cases error <;> simp [opening,openings]

theorem listedSame {o p x y : String} (listed : o ∈ openings) (listed' : p ∈ openings)
    (same : o ++ x = p ++ y) : o = p := by
  have chars := congrArg String.toList same
  rw [String.toList_append,String.toList_append] at chars
  have front : o.toList <+: p.toList ++ y.toList := ⟨x.toList,chars⟩
  rcases List.prefix_or_prefix_of_prefix front (List.prefix_append _ _) with ahead | behind
  · exact openingsApart o listed p listed' ahead
  · exact (openingsApart p listed' o listed behind).symm

theorem wordNoNumber {o x y : String} {n : Nat} (word : Word o) : o ++ x ≠ toString n ++ y := by
  intro same
  obtain ⟨c,first,letter⟩ := word
  obtain ⟨c',rest,digits,digit⟩ := decimalFirst n
  have chars := congrArg String.toList same
  rw [String.toList_append,String.toList_append,decimalList,digits] at chars
  have head := congrArg List.head? chars
  rw [List.head?_append,first] at head
  cases head
  exact absurd digit (Bool.eq_false_iff.mp letter)

theorem openingSame {d e : DecodeError} (same : decodeErrorText d = decodeErrorText e) :
    opening d = opening e := by
  rw [textSplit,textSplit] at same
  rcases openingListed d with listed | ⟨extraBytes,rfl⟩ <;> rcases openingListed e with listed' | ⟨extra,rfl⟩
  · exact listedSame listed listed' same
  · exact absurd same (by simpa [opening,values] using wordNoNumber (openingsWords _ listed))
  · exact absurd same.symm (by simpa [opening,values] using wordNoNumber (openingsWords _ listed'))
  · rfl

theorem valuesSame {d e : DecodeError} (words : opening d = opening e) (rest : values d = values e) : d = e := by
  cases d <;> cases e <;> try (simp [opening] at words; done)
  case short.short found found' =>
    rw [numberSame ((String.append_left_inj _).mp rest)]
  case badMagic.badMagic found found' => rw [magicSame rest]
  case unsupportedSchemaVersion.unsupportedSchemaVersion version version' => rw [(hexByteCut rest).1]
  case recordCountTooSmall.recordCountTooSmall found found' =>
    rw [UInt8.toNat_inj.mp (numberSame ((String.append_left_inj _).mp rest))]
  case malformedHashBlock.malformedHashBlock offset reason offset' reason' =>
    obtain ⟨rfl,rfl⟩ := numberCut colonWord rest
    rfl
  case malformedRawRecord.malformedRawRecord tag offset reason tag' offset' reason' =>
    obtain ⟨rfl,behind⟩ := hexByteCut rest
    obtain ⟨rfl,rfl⟩ := numberCut colonWord ((String.append_right_inj _).mp behind)
    rfl
  case truncatedValue.truncatedValue tag offset tag' offset' =>
    obtain ⟨rfl,behind⟩ := hexByteCut rest
    have numbers := (String.append_right_inj _).mp behind
    rw [numberSame ((String.append_left_inj _).mp numbers)]
  case trailing.trailing extraBytes extraBytes' =>
    rw [numberSame ((String.append_left_inj _).mp rest)]

theorem textsTell {d e : DecodeError} : decodeErrorText d = decodeErrorText e ↔ d = e := by
  refine ⟨fun same => ?_,congrArg _⟩
  have words := openingSame same
  rw [textSplit,textSplit,words] at same
  exact valuesSame words ((String.append_right_inj _).mp same)

end VisualDigest.ErrorTexts
