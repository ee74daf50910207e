import Mathlib.Data.List.MinMax

/-! The best of a growing list of attempts, the first one where several are equally good, and
the attempt with which its author became the best without a break since. -/
namespace Champion
variable {α β κ : Type*} [LinearOrder β] {f : α → β} {key : α → κ} {l : List α} {a c x : α}

def holder (f : α → β) (key : α → κ) (l : List α) : Option κ := (l.argmin f).map key

/-- With the attempt `x` its author became the holder, and has been the holder ever since. -/
def Begins (f : α → β) (key : α → κ) (l : List α) (x : α) : Prop :=
  ∃ u v, l = u ++ x :: v ∧ holder f key u ≠ some (key x) ∧
    ∀ v', v' <+: v → holder f key (u ++ x :: v') = some (key x)

theorem argmin_snoc_none (h : l.argmin f = none) (a : α) : (l ++ [a]).argmin f = some a := by
  rw [List.argmin_concat, h]

theorem argmin_snoc_lt (h : l.argmin f = some c) (ha : f a < f c) :
    (l ++ [a]).argmin f = some a := by
  rw [List.argmin_concat, h]
  exact if_pos ha

theorem argmin_snoc_le (h : l.argmin f = some c) (ha : f c ≤ f a) :
    (l ++ [a]).argmin f = some c := by
  rw [List.argmin_concat, h]
  exact if_neg (not_lt_of_ge ha)

theorem holder_of_argmin (h : l.argmin f = some c) : holder f key l = some (key c) := by
  rw [holder, h]
  rfl

/-- The holder stays. -/
theorem Begins.snoc (h : Begins f key l x) (ha : holder f key (l ++ [a]) = some (key x)) :
    Begins f key (l ++ [a]) x := by
  obtain ⟨u, v, rfl, hu, hv⟩ := h
  rw [List.append_assoc, List.cons_append] at ha ⊢
  refine ⟨u, v ++ [a], rfl, hu, ?_⟩
  intro v' hv'
  obtain rfl | hv' := List.prefix_concat_iff.mp hv'
  · exact ha
  · exact hv v' hv'

/-- The holder changes. -/
theorem begins_snoc (hl : holder f key l ≠ some (key a))
    (ha : holder f key (l ++ [a]) = some (key a)) : Begins f key (l ++ [a]) a := by
  refine ⟨l, [], rfl, hl, ?_⟩
  intro v' hv'
  rw [List.prefix_nil.mp hv']
  exact ha

theorem Begins.holder_eq (h : Begins f key l x) : holder f key l = some (key x) := by
  obtain ⟨u, v, rfl, -, hv⟩ := h
  exact hv v List.prefix_rfl

/-- Nobody begins while the one who holds already goes on holding. -/
theorem not_begun_between {u w v : List α} {y : α}
    (hx : ∀ v', v' <+: w ++ y :: v → holder f key (u ++ x :: v') = some (key x))
    (hy : holder f key (u ++ x :: w) ≠ some (key y))
    (hend : holder f key (u ++ x :: (w ++ y :: v)) = some (key y)) : False := by
  have hkey : some (key x) = some (key y) := (hx _ List.prefix_rfl).symm.trans hend
  exact hy ((hx w (List.prefix_append w _)).trans hkey)

theorem Begins.unique {y : α} (hx : Begins f key l x) (hy : Begins f key l y) : x = y := by
  have hendx := hx.holder_eq
  have hendy := hy.holder_eq
  obtain ⟨u, v, rfl, hu, hv⟩ := hx
  obtain ⟨u', v', hl, hu', hv'⟩ := hy
  obtain ⟨w, hw, hrest⟩ | ⟨w, hw, hrest⟩ := List.append_eq_append_iff.mp hl
  · cases w with
    | nil => exact (List.cons.inj hrest).1
    | cons z w =>
      obtain ⟨rfl, rfl⟩ := List.cons.inj hrest
      rw [hw] at hu'
      exact (not_begun_between hv hu' hendy).elim
  · cases w with
    | nil => exact (List.cons.inj hrest).1.symm
    | cons z w =>
      obtain ⟨rfl, rfl⟩ := List.cons.inj hrest
      rw [hw] at hu
      rw [hl] at hendx
      exact (not_begun_between hv' hu hendx).elim

end Champion
