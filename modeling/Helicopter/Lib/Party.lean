import Mathlib.Data.Finset.Basic

/-! Parties under keys: a party is there as long as somebody is in it, and may have one of its
members for a host. -/
namespace Gathering
variable {κ μ : Type*} [DecidableEq κ] [DecidableEq μ]

structure Party (μ : Type*) where
  members : Finset μ
  host : Option μ
  inhabited : members.Nonempty
  hosted : ∀ m, host = some m → m ∈ members

namespace Party
variable {p : Party μ} {m n : μ}

def found (m : μ) : Party μ := ⟨{m}, some m, Finset.singleton_nonempty m, by simp⟩

def join (p : Party μ) (m : μ) : Party μ where
  members := insert m p.members
  host := p.host
  inhabited := Finset.insert_nonempty m p.members
  hosted h hh := Finset.mem_insert_of_mem (p.hosted h hh)

def leave (p : Party μ) (m : μ) : Option (Party μ) :=
  if h : (p.members.erase m).Nonempty then
    some {
      members := p.members.erase m
      host := if p.host = some m then none else p.host
      inhabited := h
      hosted := by
        intro n hn
        split at hn
        · cases hn
        · next hne =>
          refine Finset.mem_erase.mpr ⟨?_, p.hosted n hn⟩
          intro he
          rw [he] at hn
          exact hne hn }
  else none

omit [DecidableEq μ] in
@[simp] theorem mem_found : n ∈ (found m).members ↔ n = m := Finset.mem_singleton

omit [DecidableEq μ] in
@[simp] theorem host_found : (found m).host = some n ↔ n = m := by
  simp only [found, Option.some.injEq]
  exact eq_comm

@[simp] theorem mem_join : n ∈ (p.join m).members ↔ n = m ∨ n ∈ p.members := Finset.mem_insert

@[simp] theorem host_join : (p.join m).host = p.host := rfl

theorem leave_eq_none : p.leave m = none ↔ ∀ n ∈ p.members, n = m := by
  unfold leave
  constructor
  · intro h n hn
    split at h
    · cases h
    · next hemp =>
      by_contra hne
      exact hemp ⟨n, Finset.mem_erase.mpr ⟨hne, hn⟩⟩
  · intro h
    rw [dif_neg]
    rintro ⟨n, hn⟩
    obtain ⟨hne, hn⟩ := Finset.mem_erase.mp hn
    exact hne (h n hn)

theorem mem_of_leave {q : Party μ} (h : p.leave m = some q) :
    n ∈ q.members ↔ n ∈ p.members ∧ n ≠ m := by
  unfold leave at h
  split at h
  · cases h
    exact Finset.mem_erase.trans and_comm
  · cases h

theorem host_of_leave {q : Party μ} (h : p.leave m = some q) :
    q.host = some n ↔ p.host = some n ∧ n ≠ m := by
  unfold leave at h
  split at h
  · cases h
    show (if p.host = some m then none else p.host) = some n ↔ _
    by_cases hm : p.host = some m
    · rw [if_pos hm, hm]
      constructor
      · intro hn
        cases hn
      · rintro ⟨hn, hne⟩
        exact absurd (Option.some.inj hn).symm hne
    · rw [if_neg hm]
      constructor
      · intro hn
        refine ⟨hn, ?_⟩
        intro he
        rw [he] at hn
        exact hm hn
      · intro hn
        exact hn.1
  · cases h

end Party

abbrev Parties (κ μ : Type*) := κ → Option (Party μ)

def Parties.set (ps : Parties κ μ) (key : κ) (p : Option (Party μ)) : Parties κ μ :=
  fun k => if k = key then p else ps k

omit [DecidableEq μ] in
theorem Parties.set_self (ps : Parties κ μ) (key : κ) (p : Option (Party μ)) :
    ps.set key p key = p := if_pos rfl

omit [DecidableEq μ] in
theorem Parties.set_ne (ps : Parties κ μ) {key k : κ} (p : Option (Party μ)) (h : k ≠ key) :
    ps.set key p k = ps k := if_neg h

end Gathering
