import VisualDigest.Library.Checked

/-! Programs that fill a fixed buffer, and the rules of the ones that write it in
order: what stands before the cursor is known, what stands after it is not. -/
namespace Checked

/- A program over a buffer of `n` cells. The buffer survives an error, as it does
behind a mutable reference. -/
abbrev Writer (α : Type) (n : Nat) (ε ρ : Type) := ExceptT (Fault ε) (StateM (List.Vector α n)) ρ

section
variable {α ε ρ ρ' : Type} {n : Nat}

def Writer.exec (m : Writer α n ε ρ) (buf : List.Vector α n) :
    Exec ε ρ × List.Vector α n := StateT.run (ExceptT.run m) buf

def onBuffer (buf : List.Vector α n) (m : Writer α n ε ρ) : Exec ε (ρ × List.Vector α n) :=
  match m.exec buf with
  | (.ok r,after) => .ok (r,after)
  | (.error fault,_) => .error fault

def check (x : Exec ε ρ) : Writer α n ε ρ := liftM x

def store (i : Nat) (x : α) : Writer α n ε Unit := do
  let buf ← get
  let after ← setAt (ε := ε) buf i x
  set after

def copyInto (start stop : Nat) (src : List α) : Writer α n ε Unit := do
  let buf ← get
  if inside : start ≤ stop ∧ stop ≤ n then
    if fits : src.length = stop-start then
      let after : List.Vector α n := ⟨buf.toList.take start ++ src ++ buf.toList.drop stop,by
        simp only [List.length_append,List.length_take,List.length_drop,buf.toList_length]; omega⟩
      set after
    else throw (.panic .length)
  else throw (.panic .bounds)

/- With the cursor behind `pre`, the program returns `r` and appends `out` there,
provided `out` fits; cells behind `out` keep their content. -/
def Emits (m : Writer α n ε ρ) (pre out : List α) (r : ρ) : Prop :=
  ∀ (buf : List.Vector α n) (rest : List α), buf.toList = pre ++ rest → out.length ≤ rest.length →
    ∃ after, m.exec buf = (.ok r,after) ∧ after.toList = pre ++ out ++ rest.drop out.length

theorem Emits.cast {m : Writer α n ε ρ} {pre out out' : List α} {r : ρ}
    (h : Emits m pre out r) (same : out = out') : Emits m pre out' r := same ▸ h

theorem Emits.pure (pre : List α) (r : ρ) : Emits (pure r : Writer α n ε ρ) pre [] r := by
  intro buf rest shape _
  exact ⟨buf,rfl,by simpa using shape⟩

theorem Emits.check {x : Exec ε ρ} {r : ρ} (pre : List α) (value : x = .ok r) :
    Emits (Checked.check x : Writer α n ε ρ) pre [] r := by
  subst value
  intro buf rest shape _
  exact ⟨buf,rfl,by simpa using shape⟩

theorem Emits.bind {m : Writer α n ε ρ} {f : ρ → Writer α n ε ρ'} {pre a b : List α} {r : ρ}
    {r' : ρ'} (first : Emits m pre a r) (second : Emits (f r) (pre ++ a) b r') :
    Emits (m >>= f) pre (a ++ b) r' := by
  intro buf rest shape room
  rw [List.length_append] at room
  obtain ⟨mid,ran,midShape⟩ := first buf rest shape (by omega)
  obtain ⟨after,ran',afterShape⟩ := second mid _ midShape (by rw [List.length_drop]; omega)
  refine ⟨after,?_,by simpa [List.drop_drop] using afterShape⟩
  -- the run of a bind is the run of its second part from where the first one stopped
  have joined : (m >>= f).exec buf =
      (match m.exec buf with
        | (.ok x,s) => (f x).exec s
        | (.error e,s) => (.error e,s)) := by
    simp only [Writer.exec,ExceptT.run_bind,StateT.run_bind]
    rcases StateT.run (ExceptT.run m) buf with ⟨x | x,s⟩ <;> rfl
  rw [joined,ran]
  exact ran'

theorem Emits.store {i : Nat} {pre : List α} (x : α) (cursor : i = pre.length) :
    Emits (Checked.store i x : Writer α n ε Unit) pre [x] () := by
  subst cursor
  intro buf rest shape room
  cases rest with
  | nil => simp at room
  | cons head tail =>
    have size := congrArg List.length shape
    simp only [buf.toList_length,List.length_append,List.length_cons] at size
    have inside : pre.length < n := by omega
    refine ⟨buf.set ⟨pre.length,inside⟩ x,?_,?_⟩
    · simp only [Writer.exec,Checked.store,setAtOk inside]; rfl
    · rw [List.Vector.toList_set]
      simp [shape]

theorem Emits.copy {start stop : Nat} {pre : List α} (src : List α) (cursor : start = pre.length)
    (width : stop = pre.length + src.length) :
    Emits (copyInto start stop src : Writer α n ε Unit) pre src () := by
  subst cursor width
  intro buf rest shape room
  have size := congrArg List.length shape
  simp only [buf.toList_length,List.length_append] at size
  have inside : pre.length ≤ pre.length+src.length ∧ pre.length+src.length ≤ n := by omega
  have fits : src.length = pre.length+src.length-pre.length := by omega
  refine ⟨⟨buf.toList.take pre.length ++ src ++ buf.toList.drop (pre.length+src.length),?_⟩,?_,?_⟩
  · simp only [List.length_append,List.length_take,List.length_drop,buf.toList_length]; omega
  · simp only [Writer.exec,copyInto,dif_pos inside,dif_pos fits]; rfl
  · rw [List.Vector.toList_mk,shape]
    simp [List.drop_append]

theorem Emits.foldlM {β : Type} {f : Nat → β → Writer α n ε Nat} {enc : β → List α}
    (step : ∀ (pre : List α) (b : β), pre.length + (enc b).length ≤ n →
      Emits (f pre.length b) pre (enc b) (pre.length + (enc b).length))
    (bs : List β) {pre : List α} {pos : Nat} (cursor : pos = pre.length)
    (room : pre.length + (bs.flatMap enc).length ≤ n) :
    Emits (bs.foldlM f pos) pre (bs.flatMap enc) (pos + (bs.flatMap enc).length) := by
  subst cursor
  induction bs generalizing pre with
  | nil => exact .pure pre pre.length
  | cons b bs ih =>
    rw [List.flatMap_cons,List.length_append] at room ⊢
    rw [List.foldlM_cons]
    have later := @ih (pre ++ enc b) (by rw [List.length_append]; omega)
    rw [List.length_append,Nat.add_assoc] at later
    exact (step pre b (by omega)).bind later

theorem onBufferEmits {m : Writer α n ε ρ} {out : List α} {r : ρ} (emits : Emits m [] out r)
    (room : out.length ≤ n) (buf : List.Vector α n) :
    ∃ after, onBuffer buf m = .ok (r,after) ∧ after.toList = out ++ buf.toList.drop out.length := by
  obtain ⟨after,ran,shape⟩ := emits buf buf.toList rfl (by rw [buf.toList_length]; exact room)
  exact ⟨after,by rw [onBuffer,ran],by simpa using shape⟩

end
end Checked
