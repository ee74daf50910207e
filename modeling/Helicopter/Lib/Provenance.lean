import Helicopter.Lib.Machine
import Mathlib.Data.List.Induction

/-! Where the outputs of a machine come from: an item that comes out of a step has waited in the
state before, and began to wait at an earlier step of the run that caused it. -/
namespace Interleaving
variable {σ ι ε χ : Type*} {M : Machine σ ι ε} {C : σ → ι → Prop} {w : List ι} {t : List ε}
  {s s' : σ}

def Machine.Passes (M : Machine σ ι ε) (C : σ → ι → Prop) (w : List ι) (s : σ) : Prop :=
  ∃ u a v t' s', w = u ++ a :: v ∧ M.run u [] s = some (t', s') ∧ C s' a

theorem passes_last {a : ι} (hr : M.run w [] s = some (t, s')) (h : C s' a) :
    M.Passes C (w ++ [a]) s :=
  ⟨w, a, [], t, s', rfl, hr, h⟩

theorem Machine.Passes.append {v : List ι} (h : M.Passes C w s) : M.Passes C (w ++ v) s := by
  obtain ⟨u, a, x, t', s', rfl, hu, hc⟩ := h
  exact ⟨u, a, x ++ v, t', s', by simp, hu, hc⟩

/-- The rules by which the items move. `I` is what is known of every reachable state. -/
structure Lineage (M : Machine σ ι ε) (I : List ε → σ → Prop) (causes : χ → σ → ι → Prop)
    (waits : σ → χ → Prop) (output : List ε → χ → Prop) : Prop where
  wait : ∀ t s a s' es x, I t s → M.step s a = some (s', es) → waits s' x →
    waits s x ∨ causes x s a
  out : ∀ t s a s' es x, I t s → M.step s a = some (s', es) → output es x → waits s x
  append : ∀ t u x, output (t ++ u) x → output t x ∨ output u x

theorem Lineage.run {I : List ε → σ → Prop} {causes : χ → σ → ι → Prop} {waits : σ → χ → Prop}
    {output : List ε → χ → Prop} (h : Lineage M I causes waits output)
    (hstep : ∀ t s a s' es, I t s → M.step s a = some (s', es) → I (t ++ es) s')
    (hI : I [] s) (hw : ∀ x, ¬ waits s x) (ho : ∀ x, ¬ output [] x)
    (hr : M.run w [] s = some (t, s')) (x : χ) :
    (waits s' x → M.Passes (causes x) w s) ∧ (output t x → M.Passes (causes x) w s) := by
  induction w using List.reverseRecOn generalizing t s' with
  | nil =>
    cases hr
    exact ⟨fun hx => absurd hx (hw x), fun hx => absurd hx (ho x)⟩
  | append_singleton w a ih =>
    obtain ⟨t₁, s₁, s₂, es, hw₁, hs, hr⟩ := run_last_some hr
    cases hr
    have hI₁ : I t₁ s₁ := run_invariant hstep hI hw₁
    obtain ⟨hwait, hout⟩ := ih hw₁
    constructor
    · intro hx
      obtain hx | hx := h.wait t₁ s₁ a s' es x hI₁ hs hx
      · exact (hwait hx).append
      · exact passes_last hw₁ hx
    · intro hx
      obtain hx | hx := h.append t₁ es x hx
      · exact (hout hx).append
      · exact (hwait (h.out t₁ s₁ a s' es x hI₁ hs hx)).append

end Interleaving
