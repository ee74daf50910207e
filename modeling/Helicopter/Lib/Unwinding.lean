import Helicopter.Lib.Machine

/-! Noninterference by unwinding. Some labels are hidden; `veil` covers a part of the state and
`seen` picks the events that stay in sight. What is in sight of a run is the same without its
hidden steps. -/
namespace Interleaving
variable {σ ι ε : Type*} {M : Machine σ ι ε} {hidden : ι → Bool} {veil : σ → σ} {seen : ε → Bool}

/-- Two results are both missing, or both there and alike. -/
theorem alike_cases {α β : Type*} {v : α → β} {x y : Option α} (h : x.map v = y.map v) :
    (x = none ∧ y = none) ∨ ∃ a b, x = some a ∧ y = some b ∧ v a = v b := by
  cases x with
  | none => exact Or.inl ⟨rfl, Option.map_eq_none_iff.mp h.symm⟩
  | some a =>
    obtain ⟨b, hb, hab⟩ := Option.map_eq_some_iff.mp h.symm
    exact Or.inr ⟨a, b, rfl, hb, hab.symm⟩

def inSight (veil : σ → σ) (seen : ε → Bool) (r : σ × List ε) : σ × List ε :=
  (veil r.1, r.2.filter seen)

/-- The two conditions on a step: a hidden one shows nothing, and the others neither need nor tell
what is covered. -/
structure Unwinds (M : Machine σ ι ε) (hidden : ι → Bool) (veil : σ → σ) (seen : ε → Bool) :
    Prop where
  quiet : ∀ s a s' es, hidden a = true → M.step s a = some (s', es) →
    veil s' = veil s ∧ es.filter seen = []
  shown : ∀ s a, hidden a = false →
    (M.step s a).map (inSight veil seen) = (M.step (veil s) a).map (inSight veil seen)

theorem Unwinds.step (h : Unwinds M hidden veil seen) {s s' u : σ} {a : ι} {es : List ε}
    (ha : hidden a = false) (hveil : veil s = veil u) (hs : M.step s a = some (s', es)) :
    ∃ u' fs, M.step u a = some (u', fs) ∧ veil s' = veil u' ∧ es.filter seen = fs.filter seen := by
  have hsame : (M.step u a).map (inSight veil seen) = some (veil s', es.filter seen) := by
    calc
      (M.step u a).map (inSight veil seen)
          = (M.step (veil u) a).map (inSight veil seen) := h.shown u a ha
      _ = (M.step (veil s) a).map (inSight veil seen) := by rw [hveil]
      _ = (M.step s a).map (inSight veil seen) := (h.shown s a ha).symm
      _ = some (veil s', es.filter seen) := by rw [hs]; rfl
  obtain ⟨⟨u', fs⟩, hu, heq⟩ := Option.map_eq_some_iff.mp hsame
  obtain ⟨hstate, hevents⟩ := Prod.mk.inj heq
  exact ⟨u', fs, hu, hstate.symm, hevents.symm⟩

theorem Unwinds.run (h : Unwinds M hidden veil seen) {w : List ι} {t t' t₀ : List ε} {s s' u : σ}
    (hveil : veil s = veil u) (ht : t.filter seen = t₀.filter seen)
    (hr : M.run w t s = some (t', s')) :
    ∃ t₁ u', M.run (w.filter fun a => !hidden a) t₀ u = some (t₁, u') ∧ veil s' = veil u' ∧
      t'.filter seen = t₁.filter seen := by
  induction w generalizing t t₀ s u with
  | nil =>
    cases hr
    exact ⟨t₀, u, rfl, hveil, ht⟩
  | cons a w ih =>
    obtain ⟨s₁, es, hs, hr⟩ := run_cons_some hr
    cases ha : hidden a with
    | true =>
      obtain ⟨hstate, hevents⟩ := h.quiet s a s₁ es ha hs
      have hquiet : (t ++ es).filter seen = t₀.filter seen := by
        rw [List.filter_append, hevents, List.append_nil, ht]
      rw [List.filter_cons_of_neg (by simp [ha])]
      exact ih (hstate.trans hveil) hquiet hr
    | false =>
      obtain ⟨u₁, fs, hu, hstate, hevents⟩ := h.step ha hveil hs
      have hloud : (t ++ es).filter seen = (t₀ ++ fs).filter seen := by
        rw [List.filter_append, List.filter_append, ht, hevents]
      rw [List.filter_cons_of_pos (by simp [ha])]
      obtain ⟨t₁, u', hru, hend⟩ := ih hstate hloud hr
      exact ⟨t₁, u', (run_cons hu).trans hru, hend⟩

end Interleaving
