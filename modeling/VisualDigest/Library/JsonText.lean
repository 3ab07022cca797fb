import VisualDigest.Library.Digits

/-! JSON documents and their indented text. Each printer puts its text in front of a rest, and a
text is cut from the rest in one way only. -/
namespace JsonText
open Digits

inductive Json where
  | number (n : Nat)
  | boolean (b : Bool)
  | string (s : String)
  | array (items : List Json)
  | object (fields : List (String × Json))

def shorts : List (Char × Char) :=
  [('\"','\"'),('\\','\\'),('\x08','b'),('\x0c','f'),('\n','n'),('\x0d','r'),('\t','t')]

def escape (c : Char) (rest : List Char) : List Char :=
  match shorts.lookup c with
  | some letter => '\\' :: letter::rest
  | none =>
    if c.toNat < 32 then '\\' :: 'u' :: '0' :: '0' :: hexDigit (c.toNat/16)::hexDigit (c.toNat%16)::rest
    else c::rest

def quoted (s : String) (rest : List Char) : List Char := '\"' :: s.toList.foldr escape ('\"' :: rest)

inductive Escaped (c : Char) (rest : List Char) : List Char → Prop where
  | short {letter : Char} (listed : (c,letter) ∈ shorts) : Escaped c rest ('\\' :: letter::rest)
  | control (low : c.toNat < 32) :
      Escaped c rest ('\\' :: 'u' :: '0' :: '0' :: hexDigit (c.toNat/16)::hexDigit (c.toNat%16)::rest)
  | plain (quote : c ≠ '\"') (slash : c ≠ '\\') : Escaped c rest (c::rest)

theorem escapeCases (c : Char) (rest : List Char) : Escaped c rest (escape c rest) := by
  unfold escape
  cases found : shorts.lookup c with
  | some letter =>
    obtain ⟨before,after,split,_⟩ := List.lookup_eq_some_iff.mp found
    exact .short (split ▸ List.mem_append_right _ List.mem_cons_self)
  | none =>
    simp only
    split
    · rename_i low
      exact .control low
    · have unlisted := List.lookup_eq_none_iff.mp found
      exact .plain (fun same => by simpa [same] using unlisted ('\"','\"') (by decide))
        (fun same => by simpa [same] using unlisted ('\\','\\') (by decide))

theorem shortsApart : ∀ p ∈ shorts, p.2 ≠ 'u' ∧ ∀ q ∈ shorts, p.2 = q.2 → p = q := by decide

theorem escapeCut {c d : Char} {x y : List Char} (same : escape c x = escape d y) : c = d ∧ x = y := by
  have left := escapeCases c x
  have right := escapeCases d y
  rw [same] at left
  generalize escape d y = text at left right
  cases left with
  | short listed =>
    cases right with
    | short listed' => exact ⟨congrArg Prod.fst ((shortsApart _ listed).2 _ listed' rfl),rfl⟩
    | control low => exact absurd rfl (shortsApart _ listed).1
    | plain quote slash => exact absurd rfl slash
  | control low =>
    generalize high : hexDigit (c.toNat/16) = h at right
    generalize units : hexDigit (c.toNat%16) = u at right
    cases right with
    | short listed => exact absurd rfl (shortsApart _ listed).1
    | control low' =>
      have sixteens := hexDigitSame (by omega) (by omega) high
      have ones := hexDigitSame (by omega) (by omega) units
      exact ⟨Char.toNat_inj.mp (by omega),rfl⟩
    | plain quote slash => exact absurd rfl slash
  | plain quote slash =>
    cases right with
    | short listed => exact absurd rfl slash
    | control low => exact absurd rfl slash
    | plain quote' slash' => exact ⟨rfl,rfl⟩

theorem escapeNoQuote {c : Char} {x y : List Char} : escape c x ≠ '\"' :: y := by
  intro same
  have text := escapeCases c x
  rw [same] at text
  cases text with
  | plain quote slash => exact absurd rfl quote

theorem charsCut {cs ds x y : List Char}
    (same : cs.foldr escape ('\"' :: x) = ds.foldr escape ('\"' :: y)) : cs = ds ∧ x = y := by
  induction cs generalizing ds with
  | nil =>
    cases ds with
    | nil => exact ⟨rfl,(List.cons.inj same).2⟩
    | cons d ds => exact absurd same.symm escapeNoQuote
  | cons c cs ih =>
    cases ds with
    | nil => exact absurd same escapeNoQuote
    | cons d ds =>
      obtain ⟨rfl,later⟩ := escapeCut same
      obtain ⟨rfl,rest⟩ := ih later
      exact ⟨rfl,rest⟩

theorem quotedCut {s t : String} {x y : List Char} (same : quoted s x = quoted t y) : s = t ∧ x = y := by
  obtain ⟨chars,rest⟩ := charsCut (List.cons.inj same).2
  exact ⟨String.toList_inj.mp chars,rest⟩

def line (depth : Nat) (rest : List Char) : List Char := '\n' :: (List.replicate (2*depth) ' ' ++ rest)

def more (depth : Nat) (closing : Char) : List (List Char → List Char) → List Char → List Char
  | [],rest => line depth (closing::rest)
  | item::items,rest => ',' :: line (depth+1) (item (more depth closing items rest))

def block (depth : Nat) (opening closing : Char) :
    List (List Char → List Char) → List Char → List Char
  | [],rest => opening::closing::rest
  | item::items,rest => opening::line (depth+1) (item (more depth closing items rest))

theorem lineCut {depth : Nat} {x y : List Char} (same : line depth x = line depth y) : x = y :=
  List.append_cancel_left (List.cons.inj same).2

theorem moreUndigited (depth : Nat) (closing : Char) (items : List (List Char → List Char))
    (rest : List Char) : Undigited (more depth closing items rest) := by
  cases items <;> rintro c ⟨rfl⟩ <;> rfl

section
variable {α : Type} (printer : α → List Char → List Char)

/- The text of `x` tells `x`, and where it ends. -/
def Cuts (x : α) : Prop := ∀ {y : α} {r s : List Char}, Undigited r → Undigited s →
  printer x r = printer y s → x = y ∧ r = s

variable {printer} {depth : Nat} {closing : Char} {xs ys : List α} {r s : List Char}

theorem moreCut (each : ∀ x ∈ xs, Cuts printer x)
    (same : more depth closing (xs.map printer) r = more depth closing (ys.map printer) s) :
    xs = ys ∧ r = s := by
  induction xs generalizing ys with
  | nil =>
    cases ys with
    | nil => exact ⟨rfl,(List.cons.inj (lineCut same)).2⟩
    | cons y ys => exact absurd (List.cons.inj same).1 (by decide)
  | cons x xs ih =>
    cases ys with
    | nil => exact absurd (List.cons.inj same).1 (by decide)
    | cons y ys =>
      obtain ⟨first,others⟩ := List.forall_mem_cons.mp each
      obtain ⟨rfl,later⟩ := first (moreUndigited _ _ _ _) (moreUndigited _ _ _ _) (lineCut (List.cons.inj same).2)
      obtain ⟨rfl,rest⟩ := ih others later
      exact ⟨rfl,rest⟩

theorem blockCut {opening : Char} (bracket : closing ≠ '\n') (each : ∀ x ∈ xs, Cuts printer x)
    (same : block depth opening closing (xs.map printer) r =
      block depth opening closing (ys.map printer) s) : xs = ys ∧ r = s := by
  cases xs with
  | nil =>
    cases ys with
    | nil => exact ⟨rfl,(List.cons.inj (List.cons.inj same).2).2⟩
    | cons y ys => exact absurd (List.cons.inj (List.cons.inj same).2).1 bracket
  | cons x xs =>
    cases ys with
    | nil => exact absurd (List.cons.inj (List.cons.inj same).2).1.symm bracket
    | cons y ys =>
      obtain ⟨first,others⟩ := List.forall_mem_cons.mp each
      obtain ⟨rfl,later⟩ := first (moreUndigited _ _ _ _) (moreUndigited _ _ _ _) (lineCut (List.cons.inj same).2)
      obtain ⟨rfl,rest⟩ := moreCut others later
      exact ⟨rfl,rest⟩

end

mutual
def pretty (depth : Nat) : Json → List Char → List Char
  | .number n,rest => decimal n ++ rest
  | .boolean true,rest => 't' :: 'r' :: 'u' :: 'e' :: rest
  | .boolean false,rest => 'f' :: 'a' :: 'l' :: 's' :: 'e' :: rest
  | .string s,rest => quoted s rest
  | .array items,rest => block depth '[' ']' (prettyItems (depth+1) items) rest
  | .object fields,rest => block depth '\x7b' '\x7d' (prettyFields (depth+1) fields) rest

def prettyItems (depth : Nat) : List Json → List (List Char → List Char)
  | [] => []
  | item::items => pretty depth item::prettyItems depth items

def prettyFields (depth : Nat) : List (String × Json) → List (List Char → List Char)
  | [] => []
  | (key,value)::fields =>
    (fun rest => quoted key (':' :: ' ' :: pretty depth value rest))::prettyFields depth fields
end

def prettyText (document : Json) : String := String.ofList (pretty 0 document [])

def prettyField (depth : Nat) (field : String × Json) (rest : List Char) : List Char :=
  quoted field.1 (':' :: ' ' :: pretty depth field.2 rest)

theorem itemsMapped (depth : Nat) (items : List Json) : prettyItems depth items = items.map (pretty depth) := by
  induction items with
  | nil => rw [prettyItems]; rfl
  | cons item items ih => rw [prettyItems,ih]; rfl

theorem fieldsMapped (depth : Nat) (fields : List (String × Json)) :
    prettyFields depth fields = fields.map (prettyField depth) := by
  induction fields with
  | nil => rw [prettyFields]; rfl
  | cons field fields ih => rw [prettyFields,ih]; rfl

def kind (c : Char) : Nat :=
  if c.isDigit then 0 else if c = 't' then 1 else if c = 'f' then 2 else if c = '\"' then 3
  else if c = '[' then 4 else 5

def Json.kind : Json → Nat
  | .number _ => 0
  | .boolean true => 1
  | .boolean false => 2
  | .string _ => 3
  | .array _ => 4
  | .object _ => 5

theorem kindFirst (depth : Nat) (v : Json) (rest : List Char) :
    ∃ c ∈ (pretty depth v rest).head?, kind c = v.kind := by
  cases v with
  | number n =>
    obtain ⟨c,later,digits,digit⟩ := decimalFirst n
    refine ⟨c,?_,if_pos digit⟩
    rw [pretty,digits]
    rfl
  | boolean b => cases b <;> rw [pretty] <;> exact ⟨_,rfl,rfl⟩
  | string s => rw [pretty]; exact ⟨_,rfl,rfl⟩
  | array items => rw [pretty]; cases items <;> rw [prettyItems] <;> exact ⟨_,rfl,rfl⟩
  | object fields => rw [pretty]; cases fields <;> rw [prettyFields] <;> exact ⟨_,rfl,rfl⟩

theorem kindSame {depth : Nat} {v w : Json} {r s : List Char}
    (same : pretty depth v r = pretty depth w s) : v.kind = w.kind := by
  obtain ⟨c,first,left⟩ := kindFirst depth v r
  obtain ⟨d,first',right⟩ := kindFirst depth w s
  rw [same] at first
  cases first.symm.trans first'
  exact left.symm.trans right

def Told (v : Json) : Prop := ∀ depth, Cuts (pretty depth) v

theorem numberTold (n : Nat) : Told (.number n) := by
  intro depth w r s left right same
  have kinds := kindSame same
  cases w <;> try (simp [Json.kind] at kinds; done)
  case number m =>
    simp only [pretty] at same
    obtain ⟨rfl,rest⟩ := decimalCut left right same
    exact ⟨rfl,rest⟩
  case boolean b => cases b <;> simp [Json.kind] at kinds

theorem booleanTold (b : Bool) : Told (.boolean b) := by
  intro depth w r s left right same
  have kinds := kindSame same
  cases b <;> cases w <;> try (simp [Json.kind] at kinds; done)
  case false.boolean b =>
    cases b <;> try (simp [Json.kind] at kinds; done)
    simpa [pretty] using same
  case true.boolean b =>
    cases b <;> try (simp [Json.kind] at kinds; done)
    simpa [pretty] using same

theorem stringTold (text : String) : Told (.string text) := by
  intro depth w r s left right same
  have kinds := kindSame same
  cases w <;> try (simp [Json.kind] at kinds; done)
  case boolean b => cases b <;> simp [Json.kind] at kinds
  case string text' =>
    simp only [pretty] at same
    obtain ⟨rfl,rest⟩ := quotedCut same
    exact ⟨rfl,rest⟩

theorem arrayTold {items : List Json} (each : ∀ v ∈ items, Told v) : Told (.array items) := by
  intro depth w r s left right same
  have kinds := kindSame same
  cases w <;> try (simp [Json.kind] at kinds; done)
  case boolean b => cases b <;> simp [Json.kind] at kinds
  case array items' =>
    simp only [pretty,itemsMapped] at same
    obtain ⟨rfl,rest⟩ := blockCut (by decide) (fun v inside => each v inside (depth+1)) same
    exact ⟨rfl,rest⟩

theorem fieldTold {field : String × Json} (value : Told field.2) (depth : Nat) :
    Cuts (prettyField depth) field := by
  intro other r s left right same
  obtain ⟨keys,later⟩ := quotedCut same
  obtain ⟨values,rest⟩ := value depth left right (List.cons.inj (List.cons.inj later).2).2
  exact ⟨Prod.ext keys values,rest⟩

theorem objectTold {fields : List (String × Json)} (each : ∀ field ∈ fields, Told field.2) :
    Told (.object fields) := by
  intro depth w r s left right same
  have kinds := kindSame same
  cases w <;> try (simp [Json.kind] at kinds; done)
  case boolean b => cases b <;> simp [Json.kind] at kinds
  case object fields' =>
    simp only [pretty,fieldsMapped] at same
    obtain ⟨rfl,rest⟩ := blockCut (by decide)
      (fun field inside => fieldTold (each field inside) (depth+1)) same
    exact ⟨rfl,rest⟩

mutual
theorem told : ∀ v : Json, Told v
  | .number n => numberTold n
  | .boolean b => booleanTold b
  | .string s => stringTold s
  | .array items => arrayTold (itemsTold items)
  | .object fields => objectTold (fieldsTold fields)

theorem itemsTold : ∀ items : List Json, ∀ v ∈ items, Told v
  | [] => by simp
  | item::items => List.forall_mem_cons.mpr ⟨told item,itemsTold items⟩

theorem fieldsTold : ∀ fields : List (String × Json), ∀ field ∈ fields, Told field.2
  | [] => by simp
  | (_,value)::fields => List.forall_mem_cons.mpr ⟨told value,fieldsTold fields⟩
end

theorem prettyApart {v w : Json} (same : prettyText v = prettyText w) : v = w := by
  have nothing : Undigited [] := by simp [Undigited]
  exact (told v 0 nothing nothing (String.ofList_injective same)).1

end JsonText
