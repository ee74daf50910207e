import Helicopter.Lib.Machine
import Mathlib.Data.List.Nodup

/-! Numbered broadcasts. A broadcast takes the next number and offers its message to one member
after the other; the next one starts when it is through. What the members are offered is then
in the order of the numbers, each by his own part. -/
namespace Broadcast
open Interleaving
variable {ν δ : Type*}

/-- `current` is the message on offer, with the members it has not been offered to. -/
structure Sequencer (ν δ : Type*) where
  next : Int := 0
  current : Option (List ν × δ) := none

inductive Op (ν δ : Type*) where
  | start (m : δ) (members : List ν)
  | offer (c : Nat)
  | finish

inductive Event (ν δ : Type*) where
  | started (m : δ) (members : List ν)
  | offered (j : ν) (m : δ)

section
variable [DecidableEq ν]

def step (number : δ → Int) (s : Sequencer ν δ) : Op ν δ →
    Option (Sequencer ν δ × List (Event ν δ))
  | .start m members =>
    match s.current with
    | some _ => none
    | none =>
      if number m = s.next ∧ members.Nodup then
        some (⟨s.next + 1, some (members, m)⟩, [.started m members])
      else none
  | .offer c =>
    match s.current with
    | none => none
    | some (rest, m) =>
      match rest[c]? with
      | none => none
      | some j => some (⟨s.next, some (rest.eraseIdx c, m)⟩, [.offered j m])
  | .finish =>
    match s.current with
    | some ([], _) => some (⟨s.next, none⟩, [])
    | _ => none

def machine (ν δ : Type*) [DecidableEq ν] (number : δ → Int) :
    Machine (Sequencer ν δ) (Op ν δ) (Event ν δ) := ⟨step number⟩

def Event.offeredTo? (i : ν) : Event ν δ → Option δ
  | .offered j m => if j = i then some m else none
  | .started _ _ => none

def offeredTo (i : ν) (t : List (Event ν δ)) : List δ := t.filterMap (Event.offeredTo? i)

section
variable (i j : ν) (t : List (Event ν δ)) (m : δ) (members : List ν)

@[simp] theorem offeredTo_started :
    offeredTo i (t ++ [.started m members]) = offeredTo i t := by
  simp [offeredTo, Event.offeredTo?]

theorem offeredTo_offered :
    offeredTo i (t ++ [.offered j m]) = if j = i then offeredTo i t ++ [m] else offeredTo i t := by
  unfold offeredTo
  rw [List.filterMap_append]
  split
  · next h => simp [Event.offeredTo?, h]
  · next h => simp [Event.offeredTo?, h]

end

structure Sequenced (number : δ → Int) (t : List (Event ν δ)) (s : Sequencer ν δ) : Prop where
  past : ∀ m L, .started m L ∈ t → number m < s.next
  unique : ∀ m m' L L', .started m L ∈ t → .started m' L' ∈ t → number m = number m' → m = m'
  known : ∀ j, ∀ m ∈ offeredTo j t, ∃ L, .started m L ∈ t
  increasing : ∀ j, (offeredTo j t).Pairwise fun m m' => number m < number m'
  current : ∀ R m, s.current = some (R, m) → number m + 1 = s.next ∧ R.Nodup ∧
    (∃ L, .started m L ∈ t) ∧ ∀ j ∈ R, ∀ m' ∈ offeredTo j t, number m' < number m
  delivered : ∀ m L j, .started m L ∈ t → j ∈ L →
    m ∈ offeredTo j t ∨ ∃ R, s.current = some (R, m) ∧ j ∈ R

variable {number : δ → Int} {t : List (Event ν δ)} {s s' : Sequencer ν δ}

theorem sequenced_init : Sequenced number ([] : List (Event ν δ)) {} := by
  constructor <;> simp [offeredTo]

theorem sequenced_start {m : δ} {members : List ν} (h : Sequenced number t s)
    (hc : s.current = none) (hm : number m = s.next) (hn : members.Nodup) :
    Sequenced number (t ++ [.started m members]) ⟨s.next + 1, some (members, m)⟩ := by
  have hmem : ∀ m' L, Event.started m' L ∈ t ++ [.started m members] →
      Event.started m' L ∈ t ∨ (m' = m ∧ L = members) := by
    intro m' L hs
    simpa using hs
  constructor
  · intro m' L hs
    obtain hs | ⟨rfl, -⟩ := hmem m' L hs
    · have := h.past m' L hs
      simp only
      omega
    · simp only
      omega
  · intro m₁ m₂ L₁ L₂ h₁ h₂ he
    obtain g₁ | ⟨rfl, -⟩ := hmem m₁ L₁ h₁
    · obtain g₂ | ⟨rfl, -⟩ := hmem m₂ L₂ h₂
      · exact h.unique m₁ m₂ L₁ L₂ g₁ g₂ he
      · have := h.past m₁ L₁ g₁
        omega
    · obtain g₂ | ⟨rfl, -⟩ := hmem m₂ L₂ h₂
      · have := h.past m₂ L₂ g₂
        omega
      · rfl
  · intro j m' hm'
    rw [offeredTo_started] at hm'
    obtain ⟨L, hL⟩ := h.known j m' hm'
    exact ⟨L, List.mem_append_left _ hL⟩
  · intro j
    rw [offeredTo_started]
    exact h.increasing j
  · intro R m' he
    cases he
    refine ⟨by simp only; omega, hn, ⟨members, by simp⟩, ?_⟩
    intro j hj m' hm'
    rw [offeredTo_started] at hm'
    obtain ⟨L, hL⟩ := h.known j m' hm'
    have := h.past m' L hL
    omega
  · intro m' L j hs hj
    rw [offeredTo_started]
    obtain hs | ⟨rfl, rfl⟩ := hmem m' L hs
    · obtain hd | ⟨R, hR, -⟩ := h.delivered m' L j hs hj
      · exact Or.inl hd
      · rw [hc] at hR
        cases hR
    · exact Or.inr ⟨L, rfl, hj⟩

theorem sequenced_offer {m : δ} {rest : List ν} {c : Nat} {j : ν} (h : Sequenced number t s)
    (hc : s.current = some (rest, m)) (hj : rest[c]? = some j) :
    Sequenced number (t ++ [.offered j m]) ⟨s.next, some (rest.eraseIdx c, m)⟩ := by
  obtain ⟨hnum, hnodup, ⟨L₀, hL₀⟩, hbelow⟩ := h.current rest m hc
  have hperm := pick_perm hj
  have hnodup' : (j :: rest.eraseIdx c).Nodup := hperm.nodup_iff.mpr hnodup
  have hjr : j ∈ rest := hperm.subset List.mem_cons_self
  have hmem : ∀ m' L, Event.started m' L ∈ t ++ [.offered j m] ↔ Event.started m' L ∈ t := by
    intro m' L
    simp
  constructor
  · intro m' L hs
    exact h.past m' L ((hmem m' L).mp hs)
  · intro m₁ m₂ L₁ L₂ h₁ h₂ he
    exact h.unique m₁ m₂ L₁ L₂ ((hmem _ _).mp h₁) ((hmem _ _).mp h₂) he
  · intro i m' hm'
    rw [offeredTo_offered] at hm'
    have hold : m' ∈ offeredTo i t ∨ m' = m := by
      split at hm'
      · simpa using hm'
      · exact Or.inl hm'
    obtain hold | rfl := hold
    · obtain ⟨L, hL⟩ := h.known i m' hold
      exact ⟨L, (hmem _ _).mpr hL⟩
    · exact ⟨L₀, (hmem _ _).mpr hL₀⟩
  · intro i
    rw [offeredTo_offered]
    split
    · next hi =>
      subst hi
      refine List.pairwise_append.mpr ⟨h.increasing j, List.pairwise_singleton _ _, ?_⟩
      intro m' hm' m'' hm''
      rw [List.mem_singleton] at hm''
      rw [hm'']
      exact hbelow j hjr m' hm'
    · exact h.increasing i
  · intro R m' he
    cases he
    refine ⟨hnum, (List.nodup_cons.mp hnodup').2, ⟨L₀, (hmem _ _).mpr hL₀⟩, ?_⟩
    intro i hi m' hm'
    have hne : j ≠ i := by
      intro hji
      rw [hji] at hnodup'
      exact (List.nodup_cons.mp hnodup').1 hi
    rw [offeredTo_offered, if_neg hne] at hm'
    exact hbelow i (List.mem_of_mem_eraseIdx hi) m' hm'
  · intro m' L i hs hi
    rw [offeredTo_offered]
    obtain hd | ⟨R, hR, hiR⟩ := h.delivered m' L i ((hmem _ _).mp hs) hi
    · refine Or.inl ?_
      split
      · exact List.mem_append_left _ hd
      · exact hd
    · rw [hc] at hR
      cases hR
      obtain rfl | hir := List.mem_cons.mp (hperm.symm.subset hiR)
      · exact Or.inl (by simp)
      · exact Or.inr ⟨_, rfl, hir⟩

theorem sequenced_finish {m : δ} (h : Sequenced number t s) (hc : s.current = some ([], m)) :
    Sequenced number t ⟨s.next, none⟩ := by
  refine ⟨h.past, h.unique, h.known, h.increasing, (fun R m he => by cases he), ?_⟩
  intro m' L j hs hj
  obtain hd | ⟨R, hR, hjR⟩ := h.delivered m' L j hs hj
  · exact Or.inl hd
  · rw [hc] at hR
    cases hR
    cases hjR

theorem step_sequenced {a : Op ν δ} {es : List (Event ν δ)} (h : Sequenced number t s)
    (hs : step number s a = some (s', es)) : Sequenced number (t ++ es) s' := by
  cases a with
  | start m members =>
    simp only [step] at hs
    split at hs
    · cases hs
    · next hc =>
      split at hs
      · next hm => cases hs; exact sequenced_start h hc hm.1 hm.2
      · cases hs
  | offer c =>
    simp only [step] at hs
    split at hs
    · cases hs
    · next hc =>
      split at hs
      · cases hs
      · next hj => cases hs; exact sequenced_offer h hc hj
  | finish =>
    simp only [step] at hs
    split at hs
    · next hc =>
      cases hs
      rw [List.append_nil]
      exact sequenced_finish h hc
    · cases hs

theorem run_sequenced {w : List (Op ν δ)}
    (hr : (machine ν δ number).run w [] {} = some (t, s)) : Sequenced number t s :=
  run_invariant (fun _ _ _ _ _ h hs => step_sequenced h hs) sequenced_init hr

/-! ## Nothing is left out -/

def Event.started? : Event ν δ → Option δ
  | .started m _ => some m
  | .offered _ _ => none

def started (t : List (Event ν δ)) : List δ := t.filterMap Event.started?

def Event.due? (i : ν) : Event ν δ → Option δ
  | .started m members => if i ∈ members then some m else none
  | .offered _ _ => none

def due (i : ν) (t : List (Event ν δ)) : List δ := t.filterMap (Event.due? i)

def Sequencer.pending (s : Sequencer ν δ) (i : ν) : List δ :=
  match s.current with
  | some (rest, m) => if i ∈ rest then [m] else []
  | none => []

structure Complete (number : δ → Int) (t : List (Event ν δ)) (s : Sequencer ν δ) : Prop where
  next : s.next = (started t).length
  numbers : (started t).map number = (List.range (started t).length).map Int.ofNat
  due : ∀ i, due i t = offeredTo i t ++ s.pending i
  nodup : ∀ rest m, s.current = some (rest, m) → rest.Nodup

section
variable (i j : ν) (m : δ) (members : List ν)

omit [DecidableEq ν] in
@[simp] theorem started_started : started (t ++ [.started m members]) = started t ++ [m] := by
  simp [started, Event.started?]

omit [DecidableEq ν] in
@[simp] theorem started_offered : started (t ++ [.offered j m]) = started t := by
  simp [started, Event.started?]

theorem due_started :
    due i (t ++ [.started m members]) = due i t ++ if i ∈ members then [m] else [] := by
  by_cases hi : i ∈ members <;> simp [due, Event.due?, hi]

@[simp] theorem due_offered : due i (t ++ [.offered j m]) = due i t := by
  simp [due, Event.due?]

end

theorem complete_init : Complete number ([] : List (Event ν δ)) {} := by
  refine ⟨rfl, rfl, fun i => rfl, ?_⟩
  intro rest m hc
  cases hc

theorem complete_start {m : δ} {members : List ν} (h : Complete number t s)
    (hc : s.current = none) (hm : number m = s.next) (hn : members.Nodup) :
    Complete number (t ++ [.started m members]) ⟨s.next + 1, some (members, m)⟩ := by
  have hnext := h.next
  refine ⟨?_, ?_, ?_, ?_⟩
  · rw [started_started, List.length_append]
    simp only [List.length_singleton]
    omega
  · rw [started_started, List.map_append, h.numbers, List.length_append, List.length_singleton,
      List.range_succ, List.map_append, List.map_singleton, List.map_singleton, hm, hnext]
    rfl
  · intro i
    have hnone : s.pending i = [] := by simp [Sequencer.pending, hc]
    rw [due_started, offeredTo_started, h.due, hnone, List.append_nil]
    rfl
  · intro rest m' he
    cases he
    exact hn

theorem complete_offer {m : δ} {rest : List ν} {c : Nat} {j : ν} (h : Complete number t s)
    (hc : s.current = some (rest, m)) (hj : rest[c]? = some j) :
    Complete number (t ++ [.offered j m]) ⟨s.next, some (rest.eraseIdx c, m)⟩ := by
  have hnodup : (j :: rest.eraseIdx c).Nodup := (pick_perm hj).nodup_iff.mpr (h.nodup rest m hc)
  obtain ⟨hout, hrest⟩ := List.nodup_cons.mp hnodup
  refine ⟨?_, ?_, ?_, ?_⟩
  · rw [started_offered]
    exact h.next
  · rw [started_offered]
    exact h.numbers
  · intro i
    rw [due_offered, offeredTo_offered, h.due]
    simp only [Sequencer.pending, hc]
    by_cases hji : j = i
    · subst hji
      rw [if_pos (List.mem_of_getElem? hj), if_pos rfl, if_neg hout, List.append_nil]
    · rw [if_neg hji]
      simp only [mem_pick hj (Ne.symm hji)]
  · intro rest' m' he
    cases he
    exact hrest

theorem complete_finish {m : δ} (h : Complete number t s) (hc : s.current = some ([], m)) :
    Complete number t ⟨s.next, none⟩ := by
  refine ⟨h.next, h.numbers, ?_, ?_⟩
  · intro i
    have hdue := h.due i
    simp only [Sequencer.pending, hc, List.not_mem_nil, if_false] at hdue
    exact hdue
  · intro rest m' he
    cases he

theorem step_complete {a : Op ν δ} {es : List (Event ν δ)} (h : Complete number t s)
    (hs : step number s a = some (s', es)) : Complete number (t ++ es) s' := by
  cases a with
  | start m members =>
    simp only [step] at hs
    split at hs
    · cases hs
    · next hc =>
      split at hs
      · next hm => cases hs; exact complete_start h hc hm.1 hm.2
      · cases hs
  | offer c =>
    simp only [step] at hs
    split at hs
    · cases hs
    · next hc =>
      split at hs
      · cases hs
      · next hj => cases hs; exact complete_offer h hc hj
  | finish =>
    simp only [step] at hs
    split at hs
    · next hc =>
      cases hs
      rw [List.append_nil]
      exact complete_finish h hc
    · cases hs

theorem run_complete {w : List (Op ν δ)}
    (hr : (machine ν δ number).run w [] {} = some (t, s)) : Complete number t s :=
  run_invariant (fun _ _ _ _ _ h hs => step_complete h hs) complete_init hr

end

/-- Two increasing lists have their common messages in one order. -/
theorem filter_mem_comm [DecidableEq δ] {number : δ → Int} {l l' : List δ}
    (h : l.Pairwise fun m m' => number m < number m')
    (h' : l'.Pairwise fun m m' => number m < number m') :
    l.filter (· ∈ l') = l'.filter (· ∈ l) := by
  have hnodup : ∀ {k : List δ}, k.Pairwise (fun m m' => number m < number m') → k.Nodup :=
    fun hk => hk.imp fun hlt he => by rw [he] at hlt; omega
  have hperm : (l.filter (· ∈ l')).Perm (l'.filter (· ∈ l)) := by
    rw [List.perm_ext_iff_of_nodup ((hnodup h).filter _) ((hnodup h').filter _)]
    intro m
    simp [and_comm]
  refine hperm.eq_of_pairwise ?_ (h.filter _) (h'.filter _)
  intro m m' _ _ hlt hlt'
  omega

end Broadcast
