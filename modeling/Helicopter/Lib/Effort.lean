import Helicopter.Lib.Machine
import Mathlib.Algebra.BigOperators.Group.List.Basic
import Mathlib.Algebra.GroupWithZero.Nat

/-! Machines that come to rest. Some labels are the machine's own and the others come from
outside. An effort that every own step lowers bounds the runs of own labels, and each of these
runs can be continued until no own label is enabled. What amounts to one for each label of a kind
counts the labels of a run. -/
namespace Interleaving

/-! ## The effort of a list of components -/

section
variable {α : Type*} {f g : α → Nat} {xs ys : List α} {x y : α} {c i : Nat}

def total (f : α → Nat) (xs : List α) : Nat := (xs.map f).sum

@[simp] theorem total_nil : total f [] = 0 := rfl

@[simp] theorem total_cons : total f (x :: xs) = f x + total f xs := by
  simp [total]

@[simp] theorem total_append : total f (xs ++ ys) = total f xs + total f ys := by
  simp [total]

theorem total_perm (h : xs.Perm ys) : total f xs = total f ys := (h.map f).sum_eq

/-- One of the components is taken away. -/
theorem total_pick (h : xs[c]? = some x) : total f xs = f x + total f (xs.eraseIdx c) := by
  rw [← total_perm (pick_perm h), total_cons]

theorem le_total (h : xs[i]? = some x) : f x ≤ total f xs := by
  rw [total_pick h]
  exact Nat.le_add_right _ _

theorem total_pos (h : 0 < total f xs) : ∃ x ∈ xs, 0 < f x := by
  induction xs with
  | nil => cases h
  | cons x xs ih =>
    by_cases hx : 0 < f x
    · exact ⟨x, List.mem_cons_self, hx⟩
    · rw [total_cons] at h
      obtain ⟨y, hy, hpos⟩ := ih (by omega)
      exact ⟨y, List.mem_cons_of_mem x hy, hpos⟩

theorem total_le (h : ∀ x ∈ xs, g x ≤ f x) : total g xs ≤ total f xs := by
  induction xs with
  | nil => exact Nat.le_refl _
  | cons x xs ih =>
    have hx := h x List.mem_cons_self
    have hxs := ih fun y hy => h y (List.mem_cons_of_mem x hy)
    simp only [total_cons]
    omega

theorem total_set_eraseIdx (h : xs[i]? = some x) :
    total f (xs.set i y) = f y + total f (xs.eraseIdx i) := by
  have hlt := (List.getElem?_eq_some_iff.mp h).1
  rw [total_perm (List.set_perm_cons_eraseIdx hlt y), total_cons]

theorem total_set (h : xs[i]? = some x) : total f (xs.set i y) + f x = total f xs + f y := by
  rw [total_set_eraseIdx h, total_pick h]
  omega

/-- One component moves, and the others are worth no more after than before. -/
theorem total_set_le (h : xs[i]? = some x)
    (hle : ∀ (j : Nat) z, j ≠ i → xs[j]? = some z → g z ≤ f z) :
    total g (xs.set i y) + f x ≤ total f xs + g y := by
  have hothers : total g (xs.eraseIdx i) ≤ total f (xs.eraseIdx i) := by
    apply total_le
    intro z hz
    obtain ⟨j, hj⟩ := List.mem_iff_getElem?.mp hz
    rw [List.getElem?_eraseIdx] at hj
    split at hj
    · exact hle j z (by omega) hj
    · exact hle (j + 1) z (by omega) hj
  rw [total_set_eraseIdx h, total_pick h]
  omega

end

/-! ## Runs of own labels -/

section
variable {σ ι ε : Type*} {M : Machine σ ι ε} {Own : σ → ι → Prop} {I : List ε → σ → Prop}
  {effort : σ → Nat} {w : List ι} {t t' : List ε} {s s' : σ}

def Machine.AtRest (M : Machine σ ι ε) (Own : σ → ι → Prop) (s : σ) : Prop :=
  ∀ a, Own s a → M.step s a = none

abbrev Machine.Alone (M : Machine σ ι ε) (Own : σ → ι → Prop) (w : List ι) (t : List ε)
    (s : σ) : Prop :=
  M.Along (fun _ s a => Own s a) w t s

def Lowers (M : Machine σ ι ε) (Own : σ → ι → Prop) (I : List ε → σ → Prop)
    (effort : σ → Nat) : Prop :=
  ∀ t s a s' es, I t s → Own s a → M.step s a = some (s', es) →
    I (t ++ es) s' ∧ effort s' < effort s

/-- A run of own labels is no longer than the effort it starts with. -/
theorem Lowers.run (h : Lowers M Own I effort) (hI : I t s) (hw : M.Alone Own w t s)
    (hr : M.run w t s = some (t', s')) : I t' s' ∧ w.length + effort s' ≤ effort s := by
  induction w generalizing t s with
  | nil =>
    cases hr
    exact ⟨hI, by simp⟩
  | cons a w ih =>
    obtain ⟨s₁, es, hs, hr⟩ := run_cons_some hr
    obtain ⟨hown, hw⟩ := hw s₁ es hs
    obtain ⟨hI₁, hlt⟩ := h t s a s₁ es hI hown hs
    obtain ⟨hI', hle⟩ := ih hI₁ hw hr
    refine ⟨hI', ?_⟩
    rw [List.length_cons]
    omega

/-- What grows by one at the labels of a kind, and at no others, counts them. -/
theorem run_counted (amount : List ε → σ → Nat) {p : ι → Bool}
    (hstep : ∀ t s a s' es, M.step s a = some (s', es) →
      amount (t ++ es) s' = amount t s + if p a then 1 else 0)
    (hr : M.run w t s = some (t', s')) : amount t' s' = amount t s + w.countP p := by
  induction w generalizing t s with
  | nil =>
    cases hr
    rfl
  | cons a w ih =>
    obtain ⟨s₁, es, hs, hr⟩ := run_cons_some hr
    rw [ih hr, hstep t s a s₁ es hs, List.countP_cons]
    omega

/-- Left alone, the machine comes to rest. -/
theorem Lowers.settles (h : Lowers M Own I effort) (hI : I t s) :
    ∃ w t' s', M.Alone Own w t s ∧ M.run w t s = some (t', s') ∧ M.AtRest Own s' := by
  generalize hn : effort s = n
  induction n using Nat.strongRecOn generalizing t s with
  | ind n ih =>
    by_cases hrest : M.AtRest Own s
    · exact ⟨[], t, s, trivial, rfl, hrest⟩
    · unfold Machine.AtRest at hrest
      obtain ⟨a, ha⟩ := not_forall.mp hrest
      obtain ⟨hown, hne⟩ := Classical.not_imp.mp ha
      obtain ⟨⟨s₁, es⟩, hs⟩ := Option.ne_none_iff_exists'.mp hne
      obtain ⟨hI₁, hlt⟩ := h t s a s₁ es hI hown hs
      obtain ⟨w, t', s', hw, hr, hrest'⟩ := ih (effort s₁) (by omega) hI₁ rfl
      exact ⟨a :: w, t', s', (along_cons hs).mpr ⟨hown, hw⟩, (run_cons hs).trans hr, hrest'⟩

end

end Interleaving
