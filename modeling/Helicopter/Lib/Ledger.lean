import Helicopter.Lib.Machine

/-! Items that a machine takes up, keeps for a while and puts out in the order in which it took
them up. -/
namespace Interleaving
variable {σ ι ε μ : Type*} {M : Machine σ ι ε}

def Machine.takenUp (M : Machine σ ι ε) (begun : σ → ι → σ → List μ) : List ι → σ → List μ
  | [], _ => []
  | a :: w, s =>
    match M.step s a with
    | none => []
    | some (s', _) => begun s a s' ++ M.takenUp begun w s'

theorem takenUp_cons {begun : σ → ι → σ → List μ} {a : ι} {w : List ι} {s s' : σ} {es : List ε}
    (h : M.step s a = some (s', es)) :
    M.takenUp begun (a :: w) s = begun s a s' ++ M.takenUp begun w s' := by
  simp only [Machine.takenUp, h]

theorem takenUp_eq_nil {begun : σ → ι → σ → List μ} {w : List ι} {s : σ}
    (h : ∀ a ∈ w, ∀ s s', begun s a s' = []) : M.takenUp begun w s = [] := by
  induction w generalizing s with
  | nil => rfl
  | cons a w ih =>
    cases hs : M.step s a with
    | none => simp only [Machine.takenUp, hs]
    | some r =>
      rw [takenUp_cons hs, h a List.mem_cons_self,
        ih fun b hb => h b (List.mem_cons_of_mem a hb)]
      rfl

/-- What is kept, followed by what is taken up, is what is put out, followed by what is kept
then. `I` is what is known of every reachable state. -/
structure Conserves (M : Machine σ ι ε) (I : σ → Prop) (kept : σ → List μ)
    (begun : σ → ι → σ → List μ) (out : List ε → List μ) : Prop where
  step : ∀ s a s' es, I s → M.step s a = some (s', es) →
    kept s ++ begun s a s' = out es ++ kept s'
  append : ∀ t u, out (t ++ u) = out t ++ out u

theorem Conserves.run {I : σ → Prop} {kept : σ → List μ} {begun : σ → ι → σ → List μ}
    {out : List ε → List μ} (h : Conserves M I kept begun out)
    (hstep : ∀ s a s' es, I s → M.step s a = some (s', es) → I s') {w : List ι} {t t' : List ε}
    {s s' : σ} (hI : I s) (hr : M.run w t s = some (t', s')) :
    out t ++ kept s ++ M.takenUp begun w s = out t' ++ kept s' := by
  induction w generalizing t s with
  | nil =>
    cases hr
    exact List.append_nil _
  | cons a w ih =>
    obtain ⟨s₁, es, hs, hr⟩ := run_cons_some hr
    have hrest := ih (hstep s a s₁ es hI hs) hr
    rw [h.append] at hrest
    rw [takenUp_cons hs, ← hrest]
    have hone := h.step s a s₁ es hI hs
    simp only [List.append_assoc]
    rw [← List.append_assoc (kept s), hone, List.append_assoc]

end Interleaving
