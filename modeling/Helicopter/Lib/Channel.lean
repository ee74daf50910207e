import Helicopter.Lib.Machine
import Mathlib.Data.List.Perm.Basic

/-! The bounded FIFO channel: a full channel rejects, a pop takes the oldest message, a clear
drops all of them. Oldest message first. -/
namespace Channel
open Interleaving
variable {μ : Type*}

inductive Op (μ : Type*) where
  | push (m : μ)
  | pop
  | clear

inductive Event (μ : Type*) where
  | accepted (m : μ)
  | rejected (m : μ) (held : Nat)
  | popped (m : μ)
  | cleared (ms : List μ)

def Event.isRejected : Event μ → Bool
  | .rejected _ _ => true
  | _ => false

def step (capacity : Nat) (q : List μ) : Op μ → Option (List μ × List (Event μ))
  | .push m =>
    if q.length < capacity then some (q ++ [m], [.accepted m])
    else some (q, [.rejected m q.length])
  | .pop =>
    match q with
    | [] => none
    | m :: q => some (q, [.popped m])
  | .clear => some ([], [.cleared q])

def machine (μ : Type*) (capacity : Nat) : Machine (List μ) (Op μ) (Event μ) := ⟨step capacity⟩

def Event.offered? : Event μ → Option μ
  | .accepted m | .rejected m _ => some m
  | _ => none

def Event.accepted? : Event μ → Option μ
  | .accepted m => some m
  | _ => none

def Event.popped? : Event μ → Option μ
  | .popped m => some m
  | _ => none

def Event.cleared? : Event μ → List μ
  | .cleared ms => ms
  | _ => []

def Event.removed? : Event μ → List μ
  | .popped m => [m]
  | .cleared ms => ms
  | _ => []

def offered (t : List (Event μ)) : List μ := t.filterMap Event.offered?
def accepted (t : List (Event μ)) : List μ := t.filterMap Event.accepted?
def popped (t : List (Event μ)) : List μ := t.filterMap Event.popped?
def cleared (t : List (Event μ)) : List μ := t.flatMap Event.cleared?

def removed (t : List (Event μ)) : List μ := t.flatMap Event.removed?

section
variable (t u : List (Event μ)) (e : Event μ)

@[simp] theorem offered_append : offered (t ++ u) = offered t ++ offered u :=
  List.filterMap_append ..
@[simp] theorem accepted_append : accepted (t ++ u) = accepted t ++ accepted u :=
  List.filterMap_append ..
@[simp] theorem popped_append : popped (t ++ u) = popped t ++ popped u :=
  List.filterMap_append ..
@[simp] theorem removed_append : removed (t ++ u) = removed t ++ removed u :=
  List.flatMap_append ..

@[simp] theorem accepted_cons : accepted (e :: t) = e.accepted?.toList ++ accepted t := by
  cases e <;> rfl
@[simp] theorem popped_cons : popped (e :: t) = e.popped?.toList ++ popped t := by
  cases e <;> rfl
@[simp] theorem removed_cons : removed (e :: t) = e.removed? ++ removed t := rfl

@[simp] theorem offered_nil : offered ([] : List (Event μ)) = [] := rfl
@[simp] theorem accepted_nil : accepted ([] : List (Event μ)) = [] := rfl
@[simp] theorem popped_nil : popped ([] : List (Event μ)) = [] := rfl
@[simp] theorem removed_nil : removed ([] : List (Event μ)) = [] := rfl

end

theorem accepted_sublist_offered (t : List (Event μ)) : (accepted t).Sublist (offered t) := by
  induction t with
  | nil => exact List.Sublist.slnil
  | cons e t ih =>
    cases e with
    | accepted m => exact ih.cons_cons m
    | rejected m n => exact ih.cons m
    | popped m => exact ih
    | cleared ms => exact ih

theorem accepted_eq_offered {t : List (Event μ)} (h : ∀ m n, .rejected m n ∉ t) :
    accepted t = offered t := by
  refine List.filterMap_congr ?_
  intro e he
  cases e with
  | rejected m n => exact absurd he (h m n)
  | _ => rfl

theorem popped_sublist_removed (t : List (Event μ)) : (popped t).Sublist (removed t) := by
  induction t with
  | nil => exact List.Sublist.slnil
  | cons e t ih =>
    cases e with
    | accepted m => exact ih
    | rejected m n => exact ih
    | popped m => exact ih.cons_cons m
    | cleared ms => exact ih.trans (List.sublist_append_right ms _)

theorem cleared_sublist_removed (t : List (Event μ)) : (cleared t).Sublist (removed t) := by
  induction t with
  | nil => exact List.Sublist.slnil
  | cons e t ih =>
    cases e with
    | accepted m => exact ih
    | rejected m n => exact ih
    | popped m => exact ih.cons m
    | cleared ms => exact (List.Sublist.refl ms).append ih

/-- Nothing else is removed: each removal is a pop or belongs to a clear. -/
theorem removed_perm (t : List (Event μ)) : (removed t).Perm (popped t ++ cleared t) := by
  induction t with
  | nil => exact List.Perm.refl _
  | cons e t ih =>
    cases e with
    | accepted m => exact ih
    | rejected m n => exact ih
    | popped m => exact ih.cons m
    | cleared ms =>
      have h : (ms ++ removed t).Perm (ms ++ (popped t ++ cleared t)) := ih.append_left ms
      have hc : (ms ++ (popped t ++ cleared t)).Perm (popped t ++ (ms ++ cleared t)) := by
        rw [← List.append_assoc, ← List.append_assoc]
        exact List.perm_append_comm.append_right _
      exact h.trans hc

theorem cleared_append (t u : List (Event μ)) : cleared (t ++ u) = cleared t ++ cleared u :=
  List.flatMap_append ..

/-- Where nothing was cleared, what has left was popped. -/
theorem removed_of_uncleared {t : List (Event μ)} (h : cleared t = []) :
    removed t = popped t := by
  have hperm := removed_perm t
  rw [h, List.append_nil] at hperm
  exact ((popped_sublist_removed t).eq_of_length hperm.length_eq.symm).symm

structure Accounted (capacity : Nat) (t : List (Event μ)) (q : List μ) : Prop where
  conserved : accepted t = removed t ++ q
  bounded : q.length ≤ capacity
  full : ∀ m n, Event.rejected m n ∈ t → n = capacity

theorem step_accounted {capacity : Nat} {t : List (Event μ)} {q q' : List μ} {a : Op μ}
    {es : List (Event μ)} (h : Accounted capacity t q) (hs : step capacity q a = some (q', es)) :
    Accounted capacity (t ++ es) q' := by
  obtain ⟨hc, hb, hf⟩ := h
  cases a with
  | push m =>
    simp only [step] at hs
    split at hs
    · next hlt =>
      cases hs
      refine ⟨?_, ?_, ?_⟩
      · simp [hc, Event.accepted?, Event.removed?]
      · simp only [List.length_append, List.length_singleton]; omega
      · intro m' n hm
        exact hf m' n (by simpa using hm)
    · next hge =>
      cases hs
      refine ⟨?_, hb, ?_⟩
      · simp [hc, Event.accepted?, Event.removed?]
      · intro m' n hm
        simp only [List.mem_append, List.mem_singleton, Event.rejected.injEq] at hm
        obtain hm | ⟨-, hn⟩ := hm
        · exact hf m' n hm
        · omega
  | pop =>
    cases q with
    | nil => cases hs
    | cons m q =>
      cases hs
      refine ⟨?_, ?_, ?_⟩
      · simp [hc, Event.accepted?, Event.removed?]
      · simp only [List.length_cons] at hb; omega
      · intro m' n hm
        exact hf m' n (by simpa using hm)
  | clear =>
    cases hs
    refine ⟨?_, Nat.zero_le _, ?_⟩
    · simp [hc, Event.accepted?, Event.removed?]
    · intro m' n hm
      exact hf m' n (by simpa using hm)

theorem run_accounted {capacity : Nat} {w : List (Op μ)} {t : List (Event μ)} {q : List μ}
    (hr : (machine μ capacity).run w [] [] = some (t, q)) : Accounted capacity t q := by
  have h0 : Accounted capacity ([] : List (Event μ)) [] :=
    ⟨rfl, Nat.zero_le _, by intro m n hm; cases hm⟩
  exact run_invariant (fun t q a q' es h hs => step_accounted h hs) h0 hr

end Channel
