import Mathlib.Data.List.Perm.Basic

/-! Labelled machines, their runs under an arbitrary schedule, and the rules that turn a fact
about one step into a fact about every run. Nothing here depends on what the machine models. -/
namespace Interleaving
variable {σ τ ι κ ε δ : Type*}

/-- A label fixes everything the scheduler may choose. `none` is a label that is not enabled;
the list is what an observer sees of the step. -/
structure Machine (σ ι ε : Type*) where
  step : σ → ι → Option (σ × List ε)

def Machine.run (M : Machine σ ι ε) : List ι → List ε → σ → Option (List ε × σ)
  | [], t, s => some (t, s)
  | a :: w, t, s =>
    match M.step s a with
    | none => none
    | some (s', es) => M.run w (t ++ es) s'

theorem run_cons {M : Machine σ ι ε} {a : ι} {w : List ι} {t : List ε} {s s' : σ} {es : List ε}
    (h : M.step s a = some (s', es)) : M.run (a :: w) t s = M.run w (t ++ es) s' := by
  simp only [Machine.run, h]

theorem run_cons_some {M : Machine σ ι ε} {a : ι} {w : List ι} {t : List ε} {s : σ}
    {r : List ε × σ} (h : M.run (a :: w) t s = some r) :
    ∃ s' es, M.step s a = some (s', es) ∧ M.run w (t ++ es) s' = some r := by
  simp only [Machine.run] at h
  split at h
  · cases h
  · next s' es hs => exact ⟨s', es, hs, h⟩

theorem run_singleton {M : Machine σ ι ε} {a : ι} {t : List ε} {s s' : σ} {es : List ε}
    (h : M.step s a = some (s', es)) : M.run [a] t s = some (t ++ es, s') :=
  run_cons h

theorem run_append (M : Machine σ ι ε) (u v : List ι) (t : List ε) (s : σ) :
    M.run (u ++ v) t s = (M.run u t s).bind fun r => M.run v r.1 r.2 := by
  induction u generalizing t s with
  | nil => rfl
  | cons a u ih =>
    simp only [List.cons_append, Machine.run]
    cases M.step s a with
    | none => rfl
    | some r => exact ih (t ++ r.2) r.1

/-- The history is only ever extended, and no step reads it. -/
theorem run_history (M : Machine σ ι ε) (w : List ι) (t : List ε) (s : σ) :
    M.run w t s = (M.run w [] s).map fun r => (t ++ r.1, r.2) := by
  induction w generalizing t s with
  | nil => simp [Machine.run]
  | cons a w ih =>
    simp only [Machine.run]
    cases M.step s a with
    | none => rfl
    | some r =>
      obtain ⟨s₁, es⟩ := r
      simp only [ih (t ++ es) s₁, ih ([] ++ es) s₁, Option.map_map]
      congr 1
      funext r
      simp

theorem run_prefix {M : Machine σ ι ε} {w : List ι} {t t' : List ε} {s s' : σ}
    (h : M.run w t s = some (t', s')) : t <+: t' := by
  rw [run_history] at h
  obtain ⟨r, -, hr⟩ := Option.map_eq_some_iff.mp h
  cases hr
  exact List.prefix_append t r.1

theorem run_last_some {M : Machine σ ι ε} {w : List ι} {a : ι} {t : List ε} {s : σ}
    {r : List ε × σ} (h : M.run (w ++ [a]) t s = some r) :
    ∃ t' s' s'' es, M.run w t s = some (t', s') ∧ M.step s' a = some (s'', es) ∧
      r = (t' ++ es, s'') := by
  rw [run_append] at h
  obtain ⟨⟨t', s'⟩, hw, ha⟩ := Option.bind_eq_some_iff.mp h
  obtain ⟨s'', es, hs, hr⟩ := run_cons_some ha
  exact ⟨t', s', s'', es, hw, hs, (Option.some.inj hr).symm⟩

theorem run_step_last {M : Machine σ ι ε} {w : List ι} {a : ι} {t t' : List ε} {s s' s'' : σ}
    {es : List ε} (hw : M.run w t s = some (t', s')) (ha : M.step s' a = some (s'', es)) :
    M.run (w ++ [a]) t s = some (t' ++ es, s'') := by
  rw [run_append, hw]
  simp only [Option.bind_some, Machine.run, ha]

/-- What every step preserves, every run preserves. -/
theorem run_invariant {M : Machine σ ι ε} {I : List ε → σ → Prop}
    (hstep : ∀ t s a s' es, I t s → M.step s a = some (s', es) → I (t ++ es) s')
    {w : List ι} {t t' : List ε} {s s' : σ} (h : I t s) (hr : M.run w t s = some (t', s')) :
    I t' s' := by
  induction w generalizing t s with
  | nil => cases hr; exact h
  | cons a w ih =>
    obtain ⟨s₁, es, hs, hr⟩ := run_cons_some hr
    exact ih (hstep t s a s₁ es h hs) hr

def Machine.Along (M : Machine σ ι ε) (C : List ε → σ → ι → Prop) :
    List ι → List ε → σ → Prop
  | [], _, _ => True
  | a :: w, t, s => ∀ s' es, M.step s a = some (s', es) → C t s a ∧ M.Along C w (t ++ es) s'

theorem along_cons {M : Machine σ ι ε} {C : List ε → σ → ι → Prop} {a : ι} {w : List ι}
    {t : List ε} {s s' : σ} {es : List ε} (h : M.step s a = some (s', es)) :
    M.Along C (a :: w) t s ↔ C t s a ∧ M.Along C w (t ++ es) s' := by
  constructor
  · intro hw
    exact hw s' es h
  · intro hw s₁ es₁ hs
    rw [h] at hs
    cases hs
    exact hw

theorem along_of_forall {M : Machine σ ι ε} {C : List ε → σ → ι → Prop} {w : List ι}
    {t : List ε} {s : σ} (h : ∀ a ∈ w, ∀ t s, C t s a) : M.Along C w t s := by
  induction w generalizing t s with
  | nil => trivial
  | cons a w ih =>
    intro s' es hs
    exact ⟨h a List.mem_cons_self t s, ih fun b hb => h b (List.mem_cons_of_mem a hb)⟩

/-- What every step that meets the condition preserves. -/
theorem run_invariant_along {M : Machine σ ι ε} {I : List ε → σ → Prop}
    {C : List ε → σ → ι → Prop}
    (hstep : ∀ t s a s' es, I t s → C t s a → M.step s a = some (s', es) → I (t ++ es) s')
    {w : List ι} {t t' : List ε} {s s' : σ} (h : I t s) (hw : M.Along C w t s)
    (hr : M.run w t s = some (t', s')) : I t' s' := by
  induction w generalizing t s with
  | nil => cases hr; exact h
  | cons a w ih =>
    obtain ⟨s₁, es, hs, hr⟩ := run_cons_some hr
    obtain ⟨hc, hw⟩ := hw s₁ es hs
    exact ih (hstep t s a s₁ es h hc hs) hw hr

instance Machine.decidableAlong (M : Machine σ ι ε) (C : List ε → σ → ι → Prop)
    [∀ t s a, Decidable (C t s a)] : ∀ w t s, Decidable (M.Along C w t s)
  | [], _, _ => isTrue trivial
  | a :: w, t, s =>
    match h : M.step s a with
    | none => isTrue fun s' es hs => by rw [h] at hs; cases hs
    | some (s', es) =>
      have := M.decidableAlong C w (t ++ es) s'
      decidable_of_iff _ (along_cons h).symm

theorem along_and {M : Machine σ ι ε} {C D : List ε → σ → ι → Prop} {w : List ι} {t : List ε}
    {s : σ} (hC : M.Along C w t s) (hD : M.Along D w t s) :
    M.Along (fun t s a => C t s a ∧ D t s a) w t s := by
  induction w generalizing t s with
  | nil => trivial
  | cons a w ih =>
    intro s' es hs
    exact ⟨⟨(hC s' es hs).1, (hD s' es hs).1⟩, ih (hC s' es hs).2 (hD s' es hs).2⟩

def Machine.Throughout (M : Machine σ ι ε) (P : List ε → σ → Prop) :
    List ι → List ε → σ → Prop
  | [], t, s => P t s
  | a :: w, t, s => P t s ∧ ∀ s' es, M.step s a = some (s', es) → M.Throughout P w (t ++ es) s'

theorem throughout_head {M : Machine σ ι ε} {P : List ε → σ → Prop} {w : List ι} {t : List ε}
    {s : σ} (h : M.Throughout P w t s) : P t s := by
  cases w with
  | nil => exact h
  | cons a w => exact h.1

/-- `Throughout` speaks of the state after each prefix of the schedule. -/
theorem throughout_iff_prefixes {M : Machine σ ι ε} {P : List ε → σ → Prop} {w : List ι}
    {t : List ε} {s : σ} :
    M.Throughout P w t s ↔
      ∀ u, u <+: w → ∀ t' s', M.run u t s = some (t', s') → P t' s' := by
  induction w generalizing t s with
  | nil =>
    constructor
    · intro h u hu t' s' hr
      rw [List.prefix_nil.mp hu] at hr
      cases hr
      exact h
    · intro h
      exact h [] List.nil_prefix t s rfl
  | cons a w ih =>
    constructor
    · intro h u hu t' s' hr
      cases u with
      | nil => cases hr; exact h.1
      | cons b u =>
        obtain ⟨hb, hp⟩ := List.cons_prefix_cons.mp hu
        subst hb
        obtain ⟨s₁, es, hs, hr⟩ := run_cons_some hr
        exact ih.mp (h.2 s₁ es hs) u hp t' s' hr
    · intro h
      refine ⟨h [] List.nil_prefix t s rfl, ?_⟩
      intro s₁ es hs
      apply ih.mpr
      intro u hu t' s' hr
      exact h (a :: u) (List.cons_prefix_cons.mpr ⟨rfl, hu⟩) t' s' ((run_cons hs).trans hr)

/-- An invariant that needs the condition at each step. -/
theorem throughout_of_along {M : Machine σ ι ε} {I P : List ε → σ → Prop}
    {C : List ε → σ → ι → Prop} (hP : ∀ t s, I t s → P t s)
    (hstep : ∀ t s a s' es, I t s → C t s a → M.step s a = some (s', es) → I (t ++ es) s')
    {w : List ι} {t : List ε} {s : σ} (h : I t s) (hw : M.Along C w t s) :
    M.Throughout P w t s := by
  induction w generalizing t s with
  | nil => exact hP t s h
  | cons a w ih =>
    refine ⟨hP t s h, ?_⟩
    intro s' es hs
    obtain ⟨hc, hw⟩ := hw s' es hs
    exact ih (hstep t s a s' es h hc hs) hw

/-- The exact condition: it keeps the property, and a step without it loses the property. -/
theorem throughout_iff_along {M : Machine σ ι ε} {I P : List ε → σ → Prop}
    {C : List ε → σ → ι → Prop} (hP : ∀ t s, I t s → P t s)
    (hstep : ∀ t s a s' es, I t s → C t s a → M.step s a = some (s', es) → I (t ++ es) s')
    (hlost : ∀ t s a s' es, I t s → ¬ C t s a → M.step s a = some (s', es) → ¬ P (t ++ es) s')
    {w : List ι} {t : List ε} {s : σ} (h : I t s) :
    M.Throughout P w t s ↔ M.Along C w t s := by
  constructor
  · intro hw
    induction w generalizing t s with
    | nil => trivial
    | cons a w ih =>
      intro s' es hs
      have hn := hw.2 s' es hs
      have hc : C t s a := by
        by_contra hc
        exact hlost t s a s' es h hc hs (throughout_head hn)
      exact ⟨hc, ih (hstep t s a s' es h hc hs) hn⟩
  · exact throughout_of_along hP hstep h

/-- The exact condition among the schedules that also meet the condition `D`. -/
theorem throughout_iff_along_under {M : Machine σ ι ε} {I P : List ε → σ → Prop}
    {C D : List ε → σ → ι → Prop} (hP : ∀ t s, I t s → P t s)
    (hstep : ∀ t s a s' es, I t s → D t s a → C t s a → M.step s a = some (s', es) →
      I (t ++ es) s')
    (hlost : ∀ t s a s' es, I t s → ¬ C t s a → M.step s a = some (s', es) → ¬ P (t ++ es) s')
    {w : List ι} {t : List ε} {s : σ} (h : I t s) (hD : M.Along D w t s) :
    M.Throughout P w t s ↔ M.Along C w t s := by
  constructor
  · intro hw
    induction w generalizing t s with
    | nil => trivial
    | cons a w ih =>
      intro s' es hs
      obtain ⟨hd, hD⟩ := hD s' es hs
      have hn := hw.2 s' es hs
      have hc : C t s a := by
        by_contra hc
        exact hlost t s a s' es h hc hs (throughout_head hn)
      exact ⟨hc, ih (hstep t s a s' es h hd hc hs) hD hn⟩
  · intro hw
    exact throughout_of_along hP (fun t s a s' es h hc hs => hstep t s a s' es h hc.1 hc.2 hs) h
      (along_and hD hw)

/-- `N` follows `M`: every step of `M` is a finite run of `N` with the same observations. -/
def Simulates (M : Machine σ ι ε) (N : Machine τ κ δ) (R : σ → τ → Prop)
    (obs : ε → Option δ) : Prop :=
  ∀ s a s' es u, M.step s a = some (s', es) → R s u →
    ∃ w u', N.run w [] u = some (es.filterMap obs, u') ∧ R s' u'

theorem Simulates.run {M : Machine σ ι ε} {N : Machine τ κ δ} {R : σ → τ → Prop}
    {obs : ε → Option δ} (hsim : Simulates M N R obs) {w : List ι} {t t' : List ε} {s s' : σ}
    {u : τ} (hR : R s u) (hr : M.run w t s = some (t', s')) :
    ∃ v u', N.run v (t.filterMap obs) u = some (t'.filterMap obs, u') ∧ R s' u' := by
  induction w generalizing t s u with
  | nil => cases hr; exact ⟨[], u, rfl, hR⟩
  | cons a w ih =>
    obtain ⟨s₁, es, hs, hr⟩ := run_cons_some hr
    obtain ⟨v₁, u₁, hv₁, hR₁⟩ := hsim s a s₁ es u hs hR
    obtain ⟨v₂, u₂, hv₂, hR₂⟩ := ih hR₁ hr
    refine ⟨v₁ ++ v₂, u₂, ?_, hR₂⟩
    rw [run_append, run_history, hv₁]
    simpa [List.filterMap_append] using hv₂

/-- `N` can do what `M` does: every step of `M` is a finite run of `N` in which the same is seen. -/
def Realizes (N : Machine τ κ δ) (M : Machine σ ι ε) (R : σ → τ → Prop)
    (obs : δ → Option ε) : Prop :=
  ∀ s a s' es u, M.step s a = some (s', es) → R s u →
    ∃ v fs u', N.run v [] u = some (fs, u') ∧ fs.filterMap obs = es ∧ R s' u'

theorem Realizes.run {N : Machine τ κ δ} {M : Machine σ ι ε} {R : σ → τ → Prop}
    {obs : δ → Option ε} (hreal : Realizes N M R obs) {w : List ι} {t t' : List ε} {s s' : σ}
    {u : τ} (hR : R s u) (hr : M.run w t s = some (t', s')) :
    ∃ v fs u', N.run v [] u = some (fs, u') ∧ t ++ fs.filterMap obs = t' ∧ R s' u' := by
  induction w generalizing t s u with
  | nil =>
    cases hr
    exact ⟨[], [], u, rfl, List.append_nil _, hR⟩
  | cons a w ih =>
    obtain ⟨s₁, es, hs, hr⟩ := run_cons_some hr
    obtain ⟨v₁, fs₁, u₁, hv₁, hes, hR₁⟩ := hreal s a s₁ es u hs hR
    obtain ⟨v₂, fs₂, u₂, hv₂, ht, hR₂⟩ := ih hR₁ hr
    refine ⟨v₁ ++ v₂, fs₁ ++ fs₂, u₂, ?_, ?_, hR₂⟩
    · rw [run_append, hv₁, Option.bind_some, run_history, hv₂]
      rfl
    · rw [List.filterMap_append, hes, ← List.append_assoc]
      exact ht

/-- `M` follows `N` label by label, and stops where `N` stops. -/
def Lockstep (M : Machine σ ι ε) (N : Machine τ ι ε) (R : σ → τ → Prop) : Prop :=
  ∀ s u a, R s u →
    match N.step u a with
    | none => M.step s a = none
    | some (u', es) => ∃ s', M.step s a = some (s', es) ∧ R s' u'

theorem Lockstep.run {M : Machine σ ι ε} {N : Machine τ ι ε} {R : σ → τ → Prop}
    (hlock : Lockstep M N R) (w : List ι) (t : List ε) {s : σ} {u : τ} (hR : R s u) :
    match N.run w t u with
    | none => M.run w t s = none
    | some (t', u') => ∃ s', M.run w t s = some (t', s') ∧ R s' u' := by
  induction w generalizing t s u with
  | nil => exact ⟨s, rfl, hR⟩
  | cons a w ih =>
    have hstep := hlock s u a hR
    simp only [Machine.run]
    cases hu : N.step u a with
    | none =>
      rw [hu] at hstep
      simp only [hstep]
    | some r =>
      rw [hu] at hstep
      obtain ⟨s', hs, hR'⟩ := hstep
      simp only [hs]
      exact ih (t ++ r.2) hR'

/-! ## A loop that takes the items of a list in any order -/

section
variable {α : Type*} {xs : List α} {c : Nat} {x y : α}

theorem pick_perm (h : xs[c]? = some x) : (x :: xs.eraseIdx c).Perm xs := by
  obtain ⟨hlt, hget⟩ := List.getElem?_eq_some_iff.mp h
  rw [← hget]
  exact List.getElem_cons_eraseIdx_perm hlt

theorem mem_pick (h : xs[c]? = some x) (hne : y ≠ x) : y ∈ xs.eraseIdx c ↔ y ∈ xs := by
  rw [← (pick_perm h).mem_iff, List.mem_cons, or_iff_right hne]

end

end Interleaving
