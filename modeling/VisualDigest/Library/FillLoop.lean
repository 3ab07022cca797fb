import VisualDigest.Library.Checked

/-! Loops that write the keys of a table, each round some of them. -/
namespace FillLoop
open Checked

section
variable {ε σ κ β : Type} (inv : σ → Prop) (get : σ → κ → β) (value : κ → β)

structure Filled (keys : κ → Prop) (s t : σ) : Prop where
  still : inv t
  wrote : ∀ k, keys k → get t k = value k
  frame : ∀ k, ¬ keys k → get t k = get s k

variable {inv get value}

theorem filledAgain {front back : κ → Prop} {s t u : σ} (first : Filled inv get value front s t)
    (second : Filled inv get value back t u) :
    Filled inv get value (fun k => front k ∨ back k) s u where
  still := second.still
  wrote := by
    intro k among
    by_cases behind : back k
    · exact second.wrote k behind
    · rw [second.frame k behind]
      exact first.wrote k (among.resolve_right behind)
  frame := by
    intro k outside
    obtain ⟨ahead,behind⟩ := not_or.mp outside
    rw [second.frame k behind,first.frame k ahead]

theorem loopFills {ι : Type} {step : σ → ι → Exec ε σ} {keys : ι → κ → Prop} {xs : List ι}
    (round : ∀ x ∈ xs, ∀ s, inv s → ∃ t, step s x = .ok t ∧ Filled inv get value (keys x) s t)
    (s : σ) (start : inv s) :
    ∃ t, xs.foldlM step s = .ok t ∧ Filled inv get value (fun k => ∃ x ∈ xs, keys x k) s t := by
  induction xs generalizing s with
  | nil => exact ⟨s,rfl,start,by simp,fun _ _ => rfl⟩
  | cons x xs ih =>
    obtain ⟨here,others⟩ := List.forall_mem_cons.mp round
    obtain ⟨t,ran,first⟩ := here s start
    obtain ⟨u,later,second⟩ := ih others t first.still
    refine ⟨u,?_,?_⟩
    · rw [List.foldlM_cons,ran]
      exact later
    · simpa only [List.exists_mem_cons_iff] using filledAgain first second

end
end FillLoop
