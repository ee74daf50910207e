import Helicopter.Lib.Effort
import Mathlib.Data.List.MinMax

/-! Threads that take locks for the length of a scope, as with `std::lock_guard`. If every scope
takes a lock that comes, in one order of all the locks, after those of the scopes around it, then
the threads can always be run to their ends. -/
namespace Locking
open Interleaving
variable {μ ι : Type*}

/-- What of a function matters to its locks. `either` is a branch, `pick` goes on with some object
and `forEach` is a loop that takes any number of turns, each for some object. -/
inductive Code (μ : Type*) where
  | skip
  | guard (m : μ) (body : Code μ)
  | seq (a b : Code μ)
  | either (a b : Code μ)
  | pick (body : Nat → Code μ)
  | forEach (body : Nat → Code μ)

/-- `if(...) { body }` -/
def Code.when (body : Code μ) : Code μ := .either body .skip

/-- What a thread has before it: code, or the end of the scope of a lock. -/
inductive Item (μ : Type*) where
  | run (c : Code μ)
  | unlock (m : μ)

/-- What a thread decides: nothing or the first branch, the second branch or the end of a loop, or
an object. -/
inductive Choice where
  | go
  | second
  | object (x : Nat)

/-! ## One thread -/

def grips [DecidableEq μ] (m : μ) : List (Item μ) → Nat
  | [] => 0
  | .unlock m' :: k => grips m k + if m' = m then 1 else 0
  | .run _ :: k => grips m k

def next (held : μ → Bool) : List (Item μ) → Choice → Option (List (Item μ))
  | .unlock _ :: k, .go => some k
  | .run .skip :: k, .go => some k
  | .run (.guard m c) :: k, .go => if held m then none else some (.run c :: .unlock m :: k)
  | .run (.seq a b) :: k, .go => some (.run a :: .run b :: k)
  | .run (.either a _) :: k, .go => some (.run a :: k)
  | .run (.either _ b) :: k, .second => some (.run b :: k)
  | .run (.pick body) :: k, .object x => some (.run (body x) :: k)
  | .run (.forEach body) :: k, .object x => some (.run (body x) :: .run (.forEach body) :: k)
  | .run (.forEach _) :: k, .second => some k
  | _, _ => none

section
variable (rank : μ → Nat)

@[simp] def Ascends : Nat → Code μ → Prop
  | _, .skip => True
  | n, .guard m c => n ≤ rank m ∧ Ascends (rank m + 1) c
  | n, .seq a b => Ascends n a ∧ Ascends n b
  | n, .either a b => Ascends n a ∧ Ascends n b
  | n, .pick body => ∀ x, Ascends n (body x)
  | n, .forEach body => ∀ x, Ascends n (body x)

def level : List (Item μ) → Nat
  | [] => 0
  | .unlock m :: _ => rank m + 1
  | .run _ :: k => level k

def Ordered : List (Item μ) → Prop
  | [] => True
  | .unlock m :: k => level rank k ≤ rank m ∧ Ordered k
  | .run c :: k => Ascends rank (level rank k) c ∧ Ordered k

end

def Code.size : Code μ → Nat
  | .skip => 1
  | .guard _ c => c.size + 2
  | .seq a b => a.size + b.size + 1
  | .either a b => a.size + b.size + 1
  | .pick body => (body 0).size + 1
  | .forEach _ => 1

def Item.size : Item μ → Nat
  | .run c => c.size
  | .unlock _ => 1

section
variable {rank : μ → Nat} {k k' : List (Item μ)} {m n : Nat} {c : Code μ}

@[simp] theorem ascends_when : Ascends rank n (.when c) ↔ Ascends rank n c :=
  ⟨fun h => h.1, fun h => ⟨h, trivial⟩⟩

theorem Ascends.mono (h : Ascends rank n c) (hle : m ≤ n) : Ascends rank m c := by
  induction c generalizing m n with
  | skip => trivial
  | guard l c ih => exact ⟨Nat.le_trans hle h.1, h.2⟩
  | seq a b iha ihb => exact ⟨iha h.1 hle, ihb h.2 hle⟩
  | either a b iha ihb => exact ⟨iha h.1 hle, ihb h.2 hle⟩
  | pick body ih => exact fun x => ih x (h x) hle
  | forEach body ih => exact fun x => ih x (h x) hle

end

section
variable {rank : μ → Nat} {held : μ → Bool} {k k' : List (Item μ)} {x : Choice}

theorem next_ordered (h : Ordered rank k) (hn : next held k x = some k') : Ordered rank k' := by
  unfold next at hn
  split at hn
  · cases hn
    exact h.2
  · cases hn
    exact h.2
  · split at hn
    · cases hn
    · cases hn
      exact ⟨h.1.2, h.1.1, h.2⟩
  · cases hn
    exact ⟨h.1.1, h.1.2, h.2⟩
  · cases hn
    exact ⟨h.1.1, h.2⟩
  · cases hn
    exact ⟨h.1.2, h.2⟩
  · next x =>
    cases hn
    exact ⟨h.1 x, h.2⟩
  · next x =>
    cases hn
    exact ⟨h.1 x, h.1, h.2⟩
  · cases hn
    exact h.2
  · cases hn

/-- A thread with something before it comes nearer to its end, or wants a lock that is held and
comes after all that the thread holds itself. -/
theorem next_or_waits (h : Ordered rank k) (hne : k ≠ []) :
    (∃ x k', next held k x = some k' ∧ total Item.size k' < total Item.size k) ∨
      ∃ m, held m = true ∧ level rank k ≤ rank m := by
  cases k with
  | nil => exact absurd rfl hne
  | cons item k =>
    cases item with
    | unlock m => exact Or.inl ⟨.go, k, rfl, by simp [Item.size]⟩
    | run c =>
      cases c with
      | skip => exact Or.inl ⟨.go, k, rfl, by simp [Item.size, Code.size]⟩
      | seq a b =>
        refine Or.inl ⟨.go, .run a :: .run b :: k, rfl, ?_⟩
        simp only [total_cons, Item.size, Code.size]
        omega
      | either a b =>
        refine Or.inl ⟨.go, .run a :: k, rfl, ?_⟩
        simp only [total_cons, Item.size, Code.size]
        omega
      | pick body =>
        refine Or.inl ⟨.object 0, .run (body 0) :: k, rfl, ?_⟩
        simp only [total_cons, Item.size, Code.size]
        omega
      | forEach body => exact Or.inl ⟨.second, k, rfl, by simp [Item.size, Code.size]⟩
      | guard m c =>
        cases hm : held m with
        | true => exact Or.inr ⟨m, hm, h.1.1⟩
        | false =>
          refine Or.inl ⟨.go, .run c :: .unlock m :: k, by simp [next, hm], ?_⟩
          simp only [total_cons, Item.size, Code.size]
          omega

end

section
variable [DecidableEq μ] {rank : μ → Nat} {held : μ → Bool} {k k' : List (Item μ)} {m : μ}
  {x : Choice}

theorem lt_level (h : Ordered rank k) (hm : 0 < grips m k) : rank m < level rank k := by
  induction k with
  | nil => simp [grips] at hm
  | cons item k ih =>
    cases item with
    | run c => exact ih h.2 hm
    | unlock m' =>
      simp only [level]
      have hle := h.1
      simp only [grips] at hm
      split at hm
      · next hm' =>
        subst hm'
        omega
      · have hlow := ih h.2 hm
        omega

/-- A lock is added to what the thread holds only when nobody held it. -/
theorem next_grips (hn : next held k x = some k') :
    grips m k' ≤ grips m k ∨ held m = false ∧ grips m k' = grips m k + 1 := by
  unfold next at hn
  split at hn
  · cases hn
    exact Or.inl (Nat.le_add_right _ _)
  · cases hn
    exact Or.inl (Nat.le_refl _)
  · next m' c k =>
    split at hn
    · cases hn
    · next hfree =>
      cases hn
      by_cases hm : m' = m
      · subst hm
        exact Or.inr ⟨by simpa using hfree, by simp [grips]⟩
      · exact Or.inl (by simp [grips, hm])
  · cases hn
    exact Or.inl (Nat.le_refl _)
  · cases hn
    exact Or.inl (Nat.le_refl _)
  · cases hn
    exact Or.inl (Nat.le_refl _)
  · cases hn
    exact Or.inl (Nat.le_refl _)
  · cases hn
    exact Or.inl (Nat.le_refl _)
  · cases hn
    exact Or.inl (Nat.le_refl _)
  · cases hn

end

/-! ## All threads -/

inductive Op (ι : Type*) where
  | start (entry : ι)
  | next (i : Nat) (x : Choice)

def Op.onward : Op ι → Bool
  | .start _ => false
  | .next _ _ => true

section
variable [DecidableEq μ] (code : ι → Code μ)

def held (ks : List (List (Item μ))) (m : μ) : Bool := 0 < total (grips m) ks

def step (ks : List (List (Item μ))) : Op ι → Option (List (List (Item μ)) × List Empty)
  | .start entry => some (ks ++ [[.run (code entry)]], [])
  | .next i x =>
    match ks[i]? with
    | none => none
    | some k =>
      match next (held ks) k x with
      | none => none
      | some k' => some (ks.set i k', [])

def machine : Machine (List (List (Item μ))) (Op ι) Empty := ⟨step code⟩

end

section
variable [DecidableEq μ] {rank : μ → Nat} {code : ι → Code μ} {ks ks' : List (List (Item μ))}
  {k k' : List (Item μ)} {op : Op ι} {es t t' : List Empty} {w : List (Op ι)} {i : Nat}
  {x : Choice}

theorem step_cases (hs : step code ks op = some (ks', es)) :
    (∃ entry, op = .start entry ∧ ks' = ks ++ [[.run (code entry)]]) ∨
      ∃ i x k k', op = .next i x ∧ ks[i]? = some k ∧ next (held ks) k x = some k' ∧
        ks' = ks.set i k' := by
  cases op with
  | start entry =>
    cases hs
    exact Or.inl ⟨entry, rfl, rfl⟩
  | next i x =>
    simp only [step] at hs
    split at hs
    · cases hs
    · next k hk =>
      split at hs
      · cases hs
      · next k' hk' =>
        cases hs
        exact Or.inr ⟨i, x, k, k', rfl, hk, hk', rfl⟩

theorem step_next (hk : ks[i]? = some k) (hn : next (held ks) k x = some k') :
    step code ks (.next i x) = some (ks.set i k', []) := by
  simp only [step, hk, hn]

structure Disciplined (rank : μ → Nat) (ks : List (List (Item μ))) : Prop where
  ordered : ∀ k ∈ ks, Ordered rank k
  exclusive : ∀ m, total (grips m) ks ≤ 1

theorem step_disciplined (hc : ∀ entry, Ascends rank 0 (code entry)) (h : Disciplined rank ks)
    (hs : step code ks op = some (ks', es)) : Disciplined rank ks' := by
  obtain ⟨entry, rfl, rfl⟩ | ⟨i, x, k, k', rfl, hk, hn, rfl⟩ := step_cases hs
  · constructor
    · intro k hk
      obtain hk | hk := List.mem_append.mp hk
      · exact h.ordered k hk
      · rw [List.mem_singleton.mp hk]
        exact ⟨hc entry, trivial⟩
    · intro m
      have hm := h.exclusive m
      simpa [grips] using hm
  · constructor
    · intro k₁ hk₁
      obtain hk₁ | rfl := List.mem_or_eq_of_mem_set hk₁
      · exact h.ordered k₁ hk₁
      · exact next_ordered (h.ordered k (List.mem_of_getElem? hk)) hn
    · intro m
      have hm := h.exclusive m
      have hset := total_set (f := grips m) (y := k') hk
      obtain hle | ⟨hfree, heq⟩ := next_grips (m := m) hn
      · omega
      · simp only [held, decide_eq_false_iff_not] at hfree
        omega

theorem run_disciplined (hc : ∀ entry, Ascends rank 0 (code entry)) (h : Disciplined rank ks)
    (hr : (machine code).run w t ks = some (t', ks')) : Disciplined rank ks' := by
  apply run_invariant (I := fun _ ks => Disciplined rank ks) ?_ h hr
  intro t ks op ks' es h hs
  exact step_disciplined hc h hs

/-- Of the threads that are not at their ends, one that holds a lock of the highest rank can go
on. -/
theorem Disciplined.advances (h : Disciplined rank ks) (hne : ∃ k ∈ ks, k ≠ []) :
    ∃ (i : Nat) (x : Choice) (k k' : List (Item μ)), ks[i]? = some k ∧
      next (held ks) k x = some k' ∧ total Item.size k' < total Item.size k := by
  obtain ⟨k₀, hk₀, hne₀⟩ := hne
  have hleft : (ks.filter fun k => !k.isEmpty) ≠ [] := by
    apply List.ne_nil_of_mem (a := k₀)
    rw [List.mem_filter]
    exact ⟨hk₀, by simpa using hne₀⟩
  obtain ⟨k, hk⟩ := Option.ne_none_iff_exists'.mp
    (mt List.argmax_eq_none.mp hleft : List.argmax (level rank) _ ≠ none)
  have hmem := List.mem_filter.mp (List.argmax_mem hk)
  obtain ⟨i, hi⟩ := List.mem_iff_getElem?.mp hmem.1
  have hne : k ≠ [] := by simpa using hmem.2
  have hcan : (∃ x k', next (held ks) k x = some k' ∧ total Item.size k' < total Item.size k) ∨
      ∃ m, held ks m = true ∧ level rank k ≤ rank m := next_or_waits (h.ordered k hmem.1) hne
  obtain ⟨x, k', hn, hlt⟩ | ⟨m, hm, hle⟩ := hcan
  · exact ⟨i, x, k, k', hi, hn, hlt⟩
  · -- the lock's holder would hold one of a higher rank
    simp only [held, decide_eq_true_eq] at hm
    obtain ⟨k₁, hk₁, hgrip⟩ := total_pos hm
    have hlt := lt_level (h.ordered k₁ hk₁) hgrip
    have hmax := List.le_of_mem_argmax (f := level rank) (a := k₁) ?_ hk
    · omega
    · rw [List.mem_filter]
      refine ⟨hk₁, ?_⟩
      cases k₁ with
      | nil => simp [grips] at hgrip
      | cons item k₁ => rfl

/-- The threads can be run to their ends. -/
theorem Disciplined.finishes (hc : ∀ entry, Ascends rank 0 (code entry))
    (h : Disciplined rank ks) (t : List Empty) :
    ∃ w t' ks', w.all Op.onward = true ∧ (machine code).run w t ks = some (t', ks') ∧
      ∀ k ∈ ks', k = [] := by
  generalize hn : total (total Item.size) ks = n
  induction n using Nat.strongRecOn generalizing ks t with
  | ind n ih =>
    by_cases hdone : ∀ k ∈ ks, k = []
    · exact ⟨[], t, ks, rfl, rfl, hdone⟩
    · have hne : ∃ k ∈ ks, k ≠ [] := by simpa using hdone
      obtain ⟨i, x, k, k', hk, hnext, hlt⟩ := h.advances hne
      have hs : step code ks (.next i x) = some (ks.set i k', []) := step_next hk hnext
      have hset := total_set (f := total Item.size) (y := k') hk
      obtain ⟨w, t', ks', hw, hr, hdone'⟩ :=
        ih _ (by omega) (step_disciplined hc h hs) (t ++ []) rfl
      exact ⟨.next i x :: w, t', ks', hw, (run_cons hs).trans hr, hdone'⟩

end

end Locking
