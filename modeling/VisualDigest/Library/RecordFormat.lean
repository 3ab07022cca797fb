import Mathlib.Data.List.Basic

/-! Sequences of self-delimiting records. A format pairs an encoding with the reader
that undoes it; a byte string is then a unique sequence of records and a unique rest
at which the reader stops. -/
namespace RecordFormat

structure Format (ρ β ε : Type) where
  enc : ρ → List β
  read : List β → Except ε (ρ × List β)
  nonempty : ∀ r, enc r ≠ []
  sound : ∀ {bytes r rest}, read bytes = .ok (r,rest) → bytes = enc r ++ rest
  complete : ∀ r rest, read (enc r ++ rest) = .ok (r,rest)

section
variable {ρ β ε : Type} (f : Format ρ β ε)

def Format.encAll (rs : List ρ) : List β := rs.flatMap f.enc

@[simp] theorem encAllNil : f.encAll [] = [] := rfl

@[simp] theorem encAllCons (r : ρ) (rs : List ρ) : f.encAll (r::rs) = f.enc r ++ f.encAll rs :=
  List.flatMap_cons

theorem encPositive (r : ρ) : 0 < (f.enc r).length := List.length_pos_of_ne_nil (f.nonempty r)

theorem encCancel {r s : ρ} {x y : List β} (same : f.enc r ++ x = f.enc s ++ y) : r = s ∧ x = y := by
  have left := f.complete r x
  rw [same,f.complete s y] at left
  cases left
  exact ⟨rfl,rfl⟩

def Format.Ended (tail : List β) : Prop := tail = [] ∨ ∃ e, f.read tail = .error e

theorem endedNotEncoded {tail : List β} (ended : f.Ended tail) (r : ρ) (rest : List β) :
    tail ≠ f.enc r ++ rest := by
  rintro rfl
  rcases ended with empty | ⟨e,refused⟩
  · exact f.nonempty r (List.append_eq_nil_iff.mp empty).1
  · rw [f.complete] at refused
    cases refused

theorem splitExists (bytes : List β) : ∃ rs tail, bytes = f.encAll rs ++ tail ∧ f.Ended tail := by
  induction h : bytes.length using Nat.strongRecOn generalizing bytes with
  | ind n ih =>
    cases answer : f.read bytes with
    | error e => exact ⟨[],bytes,rfl,.inr ⟨e,answer⟩⟩
    | ok pair =>
      obtain ⟨r,rest⟩ := pair
      have shape := f.sound answer
      have positive := encPositive f r
      have shorter : rest.length < n := by
        rw [← h,shape,List.length_append]; omega
      obtain ⟨rs,tail,same,ended⟩ := ih _ shorter rest rfl
      exact ⟨r::rs,tail,by rw [shape,same,encAllCons,List.append_assoc],ended⟩

theorem splitUnique {rs ss : List ρ} {x y : List β} (same : f.encAll rs ++ x = f.encAll ss ++ y)
    (hx : f.Ended x) (hy : f.Ended y) : rs = ss ∧ x = y := by
  induction rs generalizing ss with
  | nil =>
    cases ss with
    | nil => exact ⟨rfl,by simpa using same⟩
    | cons s ss =>
      rw [encAllNil,List.nil_append,encAllCons,List.append_assoc] at same
      exact absurd same (endedNotEncoded f hx s _)
  | cons r rs ih =>
    cases ss with
    | nil =>
      rw [encAllNil,List.nil_append,encAllCons,List.append_assoc] at same
      exact absurd same.symm (endedNotEncoded f hy r _)
    | cons s ss =>
      rw [encAllCons,encAllCons,List.append_assoc,List.append_assoc] at same
      obtain ⟨rfl,later⟩ := encCancel f same
      obtain ⟨rfl,rest⟩ := ih later
      exact ⟨rfl,rest⟩

theorem encAllAppend (rs ss : List ρ) : f.encAll (rs ++ ss) = f.encAll rs ++ f.encAll ss :=
  List.flatMap_append

theorem leadPrefix {rs ss : List ρ} {x tail : List β} (same : f.encAll rs ++ x = f.encAll ss ++ tail)
    (ended : f.Ended tail) : ∃ more, ss = rs ++ more ∧ x = f.encAll more ++ tail := by
  obtain ⟨more,last,rfl,stopped⟩ := splitExists f x
  rw [← List.append_assoc,← encAllAppend] at same
  obtain ⟨records,rfl⟩ := splitUnique f same stopped ended
  exact ⟨more,records.symm,rfl⟩

theorem encAllInjective {rs ss : List ρ} (same : f.encAll rs = f.encAll ss) : rs = ss :=
  (splitUnique f (x := []) (y := []) (by simpa using same) (.inl rfl) (.inl rfl)).1

/- The first bytes of a sequence are whole records and then a piece of the next one, short of its
end. -/
theorem encAllCut (rs : List ρ) {j : Nat} (inside : j ≤ (f.encAll rs).length) :
    ∃ (n : Nat) (part : List β), n ≤ rs.length ∧
      (f.encAll rs).take j = f.encAll (rs.take n) ++ part ∧
      (part = [] ∨ ∃ r rest, rs[n]? = some r ∧ f.enc r = part ++ rest ∧ rest ≠ []) := by
  induction rs generalizing j with
  | nil => exact ⟨0,[],Nat.le_refl 0,by simp,.inl rfl⟩
  | cons r rs ih =>
    rw [encAllCons,List.length_append] at inside
    rw [encAllCons]
    by_cases whole : (f.enc r).length ≤ j
    · obtain ⟨l,rfl⟩ := Nat.exists_eq_add_of_le whole
      obtain ⟨n,part,few,taken,stopped⟩ := @ih l (by omega)
      refine ⟨n+1,part,by simpa using few,?_,by simpa using stopped⟩
      rw [List.take_length_add_append,taken,List.take_succ_cons,encAllCons,List.append_assoc]
    · have short : j ≤ (f.enc r).length := by omega
      refine ⟨0,(f.enc r).take j,Nat.zero_le _,?_,.inr ⟨r,(f.enc r).drop j,rfl,?_,?_⟩⟩
      · rw [List.take_append_of_le_length short]
        rfl
      · rw [List.take_append_drop]
      · intro empty
        have size := congrArg List.length empty
        rw [List.length_drop,List.length_nil] at size
        omega

theorem encAllLength (rs : List ρ) : rs.length ≤ (f.encAll rs).length := by
  induction rs with
  | nil => simp
  | cons r rs ih =>
    have positive := encPositive f r
    rw [encAllCons,List.length_append,List.length_cons]
    omega

def Format.readN : Nat → List β → Option (List ρ × List β)
  | 0, bytes => some ([],bytes)
  | n+1, bytes => match f.read bytes with
    | .ok (r,rest) => (readN n rest).map fun (rs,last) => (r::rs,last)
    | .error _ => none

theorem readNExact {n : Nat} {bytes rest : List β} {rs : List ρ} :
    f.readN n bytes = some (rs,rest) ↔ bytes = f.encAll rs ++ rest ∧ rs.length = n := by
  induction n generalizing bytes rs with
  | zero =>
    rw [Format.readN,List.length_eq_zero_iff,Option.some.injEq,Prod.mk.injEq]
    constructor
    · rintro ⟨rfl,rfl⟩
      exact ⟨rfl,rfl⟩
    · rintro ⟨rfl,rfl⟩
      exact ⟨rfl,rfl⟩
  | succ n ih =>
    rw [Format.readN]
    constructor
    · intro ran
      split at ran <;> try contradiction
      rename_i r next read
      obtain ⟨⟨later,last⟩,found,same⟩ := Option.map_eq_some_iff.mp ran
      cases same
      obtain ⟨rfl,count⟩ := ih.mp found
      refine ⟨?_,congrArg (· + 1) count⟩
      rw [f.sound read,encAllCons,List.append_assoc]
    · rintro ⟨rfl,count⟩
      cases rs with
      | nil => contradiction
      | cons r rs =>
        rw [encAllCons,List.append_assoc,f.complete]
        exact Option.map_eq_some_iff.mpr ⟨(rs,rest),ih.mpr ⟨rfl,Nat.succ.inj count⟩,rfl⟩

theorem readNCount {m n : Nat} {bytes x y : List β} {rs ss : List ρ} (left : f.readN m bytes = some (rs,x))
    (right : f.readN n bytes = some (ss,y)) : x.length = y.length ↔ m = n := by
  obtain ⟨first,rfl⟩ := (readNExact f).mp left
  obtain ⟨second,rfl⟩ := (readNExact f).mp right
  have same := first.symm.trans second
  clear first second left right
  induction rs generalizing ss with
  | nil =>
    have size := congrArg List.length same
    rw [encAllNil,List.nil_append,List.length_append] at size
    have longer := encAllLength f ss
    cases ss with
    | nil =>
      rw [encAllNil,List.length_nil,Nat.zero_add] at size
      simp [size]
    | cons s ss =>
      rw [List.length_cons] at longer
      simp only [List.length_nil,List.length_cons]
      omega
  | cons r rs ih =>
    cases ss with
    | nil =>
      have size := congrArg List.length same
      rw [encAllNil,List.nil_append,List.length_append] at size
      have longer := encAllLength f (r::rs)
      rw [List.length_cons] at longer
      simp only [List.length_nil,List.length_cons]
      omega
    | cons s ss =>
      rw [encAllCons,encAllCons,List.append_assoc,List.append_assoc] at same
      rw [List.length_cons,List.length_cons,Nat.succ_inj]
      exact ih (encCancel f same).2

end
end RecordFormat
