import Helicopter.Lib.Machine

/-! A growing family of components of one kind inside a larger machine. The larger machine's
history says which part belongs to which component; the rules here keep, step by step, that
each component is where its own part leads from an initial state. -/
namespace Interleaving
variable {σ ι ε : Type*} {M : Machine σ ι ε} {Init : σ → Prop} {part part' : Nat → List ε}
  {I : List ε → σ → Prop} {cs : List σ} {c c' : σ} {i : Nat} {a : ι} {es : List ε}

theorem getElem?_snoc (cs : List σ) (c : σ) (i : Nat) :
    (cs ++ [c])[i]? = if i = cs.length then some c else cs[i]? := by
  by_cases hi : i = cs.length
  · rw [if_pos hi, hi]
    exact List.getElem?_concat_length
  · rw [if_neg hi, List.getElem?_append]
    split
    · rfl
    · next hlt =>
      have hone : 1 ≤ i - cs.length := by omega
      have hlen : cs.length ≤ i := by omega
      rw [List.getElem?_eq_none hone, List.getElem?_eq_none hlen]

theorem set_same {α : Type*} {xs : List α} {x : α} (h : xs[i]? = some x) : xs.set i x = xs := by
  obtain ⟨hlt, rfl⟩ := List.getElem?_eq_some_iff.mp h
  exact List.set_getElem_self hlt

section
variable {α β : Type*} {R : α → β → Prop} {xs : List α} {ys : List β} {x₀ : α} {y₀ : β}

/-- Two lists related place by place stay so when each gets a related element. -/
theorem related_snoc (hlen : xs.length = ys.length) (h₀ : R x₀ y₀)
    (h : ∀ (n : Nat) x y, xs[n]? = some x → ys[n]? = some y → R x y) (n : Nat) (x : α) (y : β)
    (hx : (xs ++ [x₀])[n]? = some x) (hy : (ys ++ [y₀])[n]? = some y) : R x y := by
  rw [getElem?_snoc] at hx hy
  rw [hlen] at hx
  by_cases hn : n = ys.length
  · rw [if_pos hn] at hx hy
    cases hx
    cases hy
    exact h₀
  · rw [if_neg hn] at hx hy
    exact h n x y hx hy

theorem related_set (hlt : i < xs.length) (hlen : xs.length = ys.length) (h₀ : R x₀ y₀)
    (h : ∀ (n : Nat) x y, n ≠ i → xs[n]? = some x → ys[n]? = some y → R x y) (n : Nat) (x : α)
    (y : β) (hx : (xs.set i x₀)[n]? = some x) (hy : (ys.set i y₀)[n]? = some y) : R x y := by
  by_cases hn : n = i
  · subst hn
    rw [List.getElem?_set_self hlt] at hx
    rw [List.getElem?_set_self (by rw [← hlen]; exact hlt)] at hy
    cases hx
    cases hy
    exact h₀
  · rw [List.getElem?_set_ne (Ne.symm hn)] at hx hy
    exact h n x y hn hx hy

end

structure Each (I : List ε → σ → Prop) (part : Nat → List ε) (cs : List σ) : Prop where
  holds : ∀ (i : Nat) (c : σ), cs[i]? = some c → I (part i) c
  silent : ∀ i, cs.length ≤ i → part i = []

theorem each_nil (h : ∀ i, part i = []) : Each I part [] :=
  ⟨fun i c hc => by simp at hc, fun i _ => h i⟩

/-- A step of the larger machine that touches no component. -/
theorem each_same (h : Each I part cs) (hp : ∀ i, part' i = part i) : Each I part' cs := by
  have : part' = part := funext hp
  rw [this]
  exact h

theorem each_spawn (h : Each I part cs) (hc : I [] c) (hp : ∀ i, part' i = part i) :
    Each I part' (cs ++ [c]) := by
  refine each_same ⟨?_, ?_⟩ hp
  · intro i d hd
    rw [getElem?_snoc] at hd
    split at hd
    · next hi =>
      cases hd
      rw [h.silent i (by omega)]
      exact hc
    · exact h.holds i d hd
  · intro i hi
    apply h.silent
    simp only [List.length_append, List.length_singleton] at hi
    omega

theorem each_step (h : Each I part cs) (hc : cs[i]? = some c) (hI : I (part i ++ es) c')
    (hp : ∀ j, part' j = if j = i then part j ++ es else part j) : Each I part' (cs.set i c') := by
  have hlt : i < cs.length := (List.getElem?_eq_some_iff.mp hc).1
  constructor
  · intro j d hd
    rw [hp]
    by_cases hj : j = i
    · subst hj
      rw [List.getElem?_set_self hlt] at hd
      cases hd
      rw [if_pos rfl]
      exact hI
    · rw [List.getElem?_set_ne (Ne.symm hj)] at hd
      rw [if_neg hj]
      exact h.holds j d hd
  · intro j hj
    rw [List.length_set] at hj
    rw [hp, if_neg (by omega)]
    exact h.silent j hj

structure Tracked (M : Machine σ ι ε) (Init : σ → Prop) (part : Nat → List ε) (cs : List σ) :
    Prop where
  reached : ∀ (i : Nat) (c : σ), cs[i]? = some c →
    ∃ s w, Init s ∧ M.run w [] s = some (part i, c)
  silent : ∀ i, cs.length ≤ i → part i = []

theorem tracked_iff_each : Tracked M Init part cs ↔
    Each (fun t c => ∃ s w, Init s ∧ M.run w [] s = some (t, c)) part cs :=
  ⟨fun h => ⟨h.reached, h.silent⟩, fun h => ⟨h.holds, h.silent⟩⟩

theorem tracked_nil (h : ∀ i, part i = []) : Tracked M Init part [] :=
  tracked_iff_each.mpr (each_nil h)

theorem tracked_same (h : Tracked M Init part cs) (hp : ∀ i, part' i = part i) :
    Tracked M Init part' cs :=
  tracked_iff_each.mpr (each_same (tracked_iff_each.mp h) hp)

theorem tracked_spawn (h : Tracked M Init part cs) (hc : Init c) (hp : ∀ i, part' i = part i) :
    Tracked M Init part' (cs ++ [c]) :=
  tracked_iff_each.mpr (each_spawn (tracked_iff_each.mp h) ⟨c, [], hc, rfl⟩ hp)

theorem tracked_step (h : Tracked M Init part cs) (hc : cs[i]? = some c)
    (hs : M.step c a = some (c', es))
    (hp : ∀ j, part' j = if j = i then part j ++ es else part j) :
    Tracked M Init part' (cs.set i c') := by
  obtain ⟨s, w, hs₀, hw⟩ := h.reached i c hc
  exact tracked_iff_each.mpr
    (each_step (tracked_iff_each.mp h) hc ⟨s, w ++ [a], hs₀, run_step_last hw hs⟩ hp)

end Interleaving
