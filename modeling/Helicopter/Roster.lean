import Helicopter.Lib.Family
import Helicopter.Dto

/-! What a session's membership is for, without its map and its host pointer: everyone who was
ever issued an id, in order, with his role and whether he is inside. The creator's connection is
the only one with the host role. -/
namespace Helicopter
open Interleaving

inductive Stage where
  | coming | inside | gone
  deriving DecidableEq

structure Member where
  peerId : Int
  isHost : Bool
  stage : Stage := .coming

/-- `lookups` are the roles of the connections that have the session and no id yet. -/
structure Roster where
  counter : Int := 0
  lookups : List Bool := [true]
  members : List Member := []

namespace Roster

inductive Event where
  | created (i : Nat) (peerId : Int) (isHost : Bool)
  | joined (i : Nat) (isHost : Bool)
  | left (i : Nat) (isEmpty : Bool)
  /-- the host `h` is told about a client -/
  | told (h : Nat) (notice : Notice)

inductive Op where
  | findSession
  | newPeer (k : Nat)
  | add (i : Nat)
  | remove (i : Nat)

def hostOf (r : Roster) : Option Nat :=
  r.members.findIdx? fun m => m.isHost && m.stage == .inside

def isEmpty (r : Roster) : Bool := r.members.all fun m => m.stage != .inside

def setStage (r : Roster) (i : Nat) (m : Member) (stage : Stage) : Roster :=
  { r with members := r.members.set i { m with stage := stage } }

def tell (r : Roster) (notice : Notice) : List Event :=
  match r.hostOf with
  | some h => [.told h notice]
  | none => []

def step (r : Roster) : Op → Option (Roster × List Event)
  | .findSession => some ({ r with lookups := r.lookups ++ [false] }, [])
  | .newPeer k =>
    match r.lookups[k]? with
    | none => none
    | some isHost =>
      some (⟨r.counter + 1, r.lookups.eraseIdx k,
          r.members ++ [{ peerId := r.counter, isHost := isHost }]⟩,
        [.created r.members.length r.counter isHost])
  | .add i =>
    match r.members[i]? with
    | none => none
    | some m =>
      if m.stage = .coming then
        some (r.setStage i m .inside,
          .joined i m.isHost :: if m.isHost then [] else r.tell (.joined m.peerId))
      else none
  | .remove i =>
    match r.members[i]? with
    | none => none
    | some m =>
      if m.stage = .inside then
        let r := r.setStage i m .gone
        some (r, .left i r.isEmpty :: r.tell (.left m.peerId))
      else none

def machine : Machine Roster Op Event := ⟨step⟩

structure Wf (r : Roster) : Prop where
  fresh : ∀ m ∈ r.members, m.peerId < r.counter
  distinct : (r.members.map Member.peerId).Nodup
  waiting : r.lookups.count true ≤ 1
  arrived : ∀ m ∈ r.members, m.isHost = true → true ∉ r.lookups
  unique : ∀ (i j : Nat) (m n : Member), r.members[i]? = some m → r.members[j]? = some n →
    m.isHost = true → n.isHost = true → i = j

theorem wf_init : Wf {} := by
  constructor <;> simp

/-! ## One step -/

section
variable {r r' : Roster} {i : Nat} {m : Member} {stage : Stage}

theorem getElem?_setStage (hm : r.members[i]? = some m) (j : Nat) :
    (r.setStage i m stage).members[j]? =
      if j = i then some { m with stage := stage } else r.members[j]? := by
  have hlt := (List.getElem?_eq_some_iff.mp hm).1
  unfold setStage
  by_cases hj : j = i
  · subst hj
    simp [List.getElem?_set_self hlt]
  · rw [if_neg hj, List.getElem?_set_ne (Ne.symm hj)]

theorem mem_setStage {n : Member} (hm : r.members[i]? = some m)
    (hn : n ∈ (r.setStage i m stage).members) :
    ∃ n' ∈ r.members, n.peerId = n'.peerId ∧ n.isHost = n'.isHost := by
  obtain h | h := List.mem_or_eq_of_mem_set hn
  · exact ⟨n, h, rfl, rfl⟩
  · subst h
    exact ⟨m, List.mem_of_getElem? hm, rfl, rfl⟩

theorem wf_setStage (h : r.Wf) (hm : r.members[i]? = some m) : (r.setStage i m stage).Wf where
  fresh n hn := by
    obtain ⟨n', hn', hid, -⟩ := mem_setStage hm hn
    rw [hid]
    exact h.fresh n' hn'
  distinct := by
    have hids : (r.setStage i m stage).members.map Member.peerId =
        r.members.map Member.peerId := by
      apply List.ext_getElem?
      intro j
      simp only [List.getElem?_map, getElem?_setStage hm]
      split
      · next hj => simp [hj, hm]
      · rfl
    rw [hids]
    exact h.distinct
  waiting := h.waiting
  arrived n hn hh := by
    obtain ⟨n', hn', -, hhost⟩ := mem_setStage hm hn
    exact h.arrived n' hn' (hhost ▸ hh)
  unique j k x y hx hy hxh hyh := by
    have hold : ∀ (j : Nat) (x : Member), (r.setStage i m stage).members[j]? = some x →
        x.isHost = true → ∃ x' : Member, r.members[j]? = some x' ∧ x'.isHost = true := by
      intro j x hx hxh
      rw [getElem?_setStage hm] at hx
      split at hx
      · next hj =>
        cases hx
        exact ⟨m, hj ▸ hm, hxh⟩
      · exact ⟨x, hx, hxh⟩
    obtain ⟨x', hx', hxh'⟩ := hold j x hx hxh
    obtain ⟨y', hy', hyh'⟩ := hold k y hy hyh
    exact h.unique j k x' y' hx' hy' hxh' hyh'

/-- A connection with the host role that has no id yet keeps the role from all others. -/
theorem client_of_coming {k : Nat} (h : r.Wf) (hk : r.lookups[k]? = some true) :
    ∀ m ∈ r.members, m.isHost = false := by
  intro m hm
  by_contra hmh
  exact h.arrived m hm (by simpa using hmh) (List.mem_of_getElem? hk)

theorem wf_newPeer {k : Nat} {isHost : Bool} (h : r.Wf) (hk : r.lookups[k]? = some isHost) :
    Wf ⟨r.counter + 1, r.lookups.eraseIdx k,
      r.members ++ [{ peerId := r.counter, isHost := isHost }]⟩ := by
  have hcount : (isHost :: r.lookups.eraseIdx k).count true = r.lookups.count true :=
    (pick_perm hk).count_eq true
  have hwaiting := h.waiting
  rw [← hcount, List.count_cons] at hwaiting
  have hone : ∀ m ∈ r.members, isHost = true → m.isHost = true → False := by
    intro m hm hh hmh
    rw [hh] at hk
    rw [client_of_coming h hk m hm] at hmh
    cases hmh
  constructor
  · intro m hm
    obtain hm | hm := List.mem_append.mp hm
    · have hold := h.fresh m hm
      simp only
      omega
    · rw [List.mem_singleton.mp hm]
      exact Int.lt_succ r.counter
  · rw [List.map_append, List.nodup_append]
    refine ⟨h.distinct, by simp, ?_⟩
    intro a ha b hb
    obtain ⟨m, hm, rfl⟩ := List.mem_map.mp ha
    simp only [List.map_cons, List.map_nil, List.mem_singleton] at hb
    have hold := h.fresh m hm
    omega
  · simp only
    omega
  · intro m hm hh hmem
    obtain hm | hm := List.mem_append.mp hm
    · exact h.arrived m hm hh ((List.eraseIdx_sublist _ _).subset hmem)
    · -- the new one took the only place of a host
      rw [List.mem_singleton.mp hm] at hh
      have hpos : 0 < (r.lookups.eraseIdx k).count true := List.count_pos_iff.mpr hmem
      have hhost : isHost = true := hh
      rw [hhost] at hwaiting
      simp only [beq_self_eq_true, if_true] at hwaiting
      omega
  · intro a b x y hx hy hxh hyh
    simp only [getElem?_snoc] at hx hy
    split at hx
    · next ha =>
      cases hx
      split at hy
      · next hb => rw [ha, hb]
      · exact (hone y (List.mem_of_getElem? hy) hxh hyh).elim
    · split at hy
      · cases hy
        exact (hone x (List.mem_of_getElem? hx) hyh hxh).elim
      · exact h.unique a b x y hx hy hxh hyh

theorem wf_step {a : Op} {es : List Event} (h : r.Wf) (hs : r.step a = some (r', es)) :
    r'.Wf := by
  cases a with
  | findSession =>
    cases hs
    exact ⟨h.fresh, h.distinct, by simpa using h.waiting, by simpa using h.arrived, h.unique⟩
  | newPeer k =>
    simp only [step] at hs
    split at hs
    · cases hs
    · next hk => cases hs; exact wf_newPeer h hk
  | add i =>
    simp only [step] at hs
    split at hs
    · cases hs
    · next hm =>
      split at hs
      · cases hs; exact wf_setStage h hm
      · cases hs
  | remove i =>
    simp only [step] at hs
    split at hs
    · cases hs
    · next hm =>
      split at hs
      · cases hs; exact wf_setStage h hm
      · cases hs

structure Placed (r : Roster) : Prop where
  counter : r.counter = r.members.length
  ids : ∀ (i : Nat) (m : Member), r.members[i]? = some m → m.peerId = i

theorem placed_init : Placed {} := ⟨rfl, fun i m hm => by simp at hm⟩

theorem placed_setStage (h : r.Placed) (hm : r.members[i]? = some m) :
    (r.setStage i m stage).Placed := by
  refine ⟨by rw [setStage, List.length_set]; exact h.counter, ?_⟩
  intro j n hn
  rw [getElem?_setStage hm] at hn
  split at hn
  · next hj =>
    cases hn
    rw [hj]
    exact h.ids i m hm
  · exact h.ids j n hn

theorem placed_step {a : Op} {es : List Event} (h : r.Placed) (hs : r.step a = some (r', es)) :
    r'.Placed := by
  cases a with
  | findSession => cases hs; exact ⟨h.counter, h.ids⟩
  | newPeer k =>
    simp only [step] at hs
    split at hs
    · cases hs
    · next isHost hk =>
      cases hs
      refine ⟨by simp [h.counter], ?_⟩
      intro i m hm
      rw [getElem?_snoc] at hm
      split at hm
      · next hi =>
        cases hm
        rw [hi]
        exact h.counter
      · exact h.ids i m hm
  | add i =>
    simp only [step] at hs
    split at hs
    · cases hs
    · next hm =>
      split at hs
      · cases hs; exact placed_setStage h hm
      · cases hs
  | remove i =>
    simp only [step] at hs
    split at hs
    · cases hs
    · next hm =>
      split at hs
      · cases hs; exact placed_setStage h hm
      · cases hs

structure Later (m m' : Member) : Prop where
  peerId : m'.peerId = m.peerId
  isHost : m'.isHost = m.isHost
  entered : m.stage ≠ .coming → m'.stage ≠ .coming
  left : m.stage = .gone → m'.stage = .gone

theorem Later.refl (m : Member) : Later m m := ⟨rfl, rfl, id, id⟩

theorem Later.trans {m m' m'' : Member} (h : Later m m') (h' : Later m' m'') : Later m m'' :=
  ⟨h'.peerId.trans h.peerId, h'.isHost.trans h.isHost, fun hm => h'.entered (h.entered hm),
    fun hm => h'.left (h.left hm)⟩

theorem later_setStage {j : Nat} {n : Member} (hm : r.members[i]? = some m)
    (hst : stage ≠ .coming) (hgone : m.stage ≠ .gone) (hn : r.members[j]? = some n) :
    ∃ n', (r.setStage i m stage).members[j]? = some n' ∧ Later n n' := by
  rw [getElem?_setStage hm]
  by_cases hj : j = i
  · subst hj
    rw [hm] at hn
    cases hn
    exact ⟨_, if_pos rfl, rfl, rfl, fun _ => hst, fun hg => absurd hg hgone⟩
  · exact ⟨n, by rw [if_neg hj, hn], Later.refl n⟩

theorem later_step {a : Op} {es : List Event} {j : Nat} {n : Member}
    (hs : r.step a = some (r', es)) (hn : r.members[j]? = some n) :
    ∃ n', r'.members[j]? = some n' ∧ Later n n' := by
  cases a with
  | findSession => cases hs; exact ⟨n, hn, Later.refl n⟩
  | newPeer k =>
    simp only [step] at hs
    split at hs
    · cases hs
    · cases hs
      have hlt := (List.getElem?_eq_some_iff.mp hn).1
      exact ⟨n, by rw [List.getElem?_append_left hlt, hn], Later.refl n⟩
  | add i =>
    simp only [step] at hs
    split at hs
    · cases hs
    · next hm =>
      split at hs
      · next hst => cases hs; exact later_setStage hm (by decide) (by rw [hst]; decide) hn
      · cases hs
  | remove i =>
    simp only [step] at hs
    split at hs
    · cases hs
    · next hm =>
      split at hs
      · next hst => cases hs; exact later_setStage hm (by decide) (by rw [hst]; decide) hn
      · cases hs

theorem later_run {w : List Op} {t t' : List Event} {j : Nat} {n : Member}
    (hr : machine.run w t r = some (t', r')) (hn : r.members[j]? = some n) :
    ∃ n', r'.members[j]? = some n' ∧ Later n n' := by
  refine run_invariant (I := fun _ r => ∃ n', r.members[j]? = some n' ∧ Later n n') ?_
    ⟨n, hn, Later.refl n⟩ hr
  intro t r a r' es h hs
  obtain ⟨m, hm, hl⟩ := h
  obtain ⟨m', hm', hl'⟩ := later_step hs hm
  exact ⟨m', hm', hl.trans hl'⟩

theorem ids_inj {j : Nat} {n : Member} (h : r.Wf) (hm : r.members[i]? = some m)
    (hn : r.members[j]? = some n) (he : m.peerId = n.peerId) : i = j := by
  have hlt : i < (r.members.map Member.peerId).length := by
    simpa using (List.getElem?_eq_some_iff.mp hm).1
  apply (List.getElem?_inj hlt h.distinct).mp
  simp [hm, hn, he]

theorem hostOf_eq_some (h : r.Wf) :
    r.hostOf = some i ↔ ∃ m, r.members[i]? = some m ∧ m.isHost = true ∧ m.stage = .inside := by
  unfold hostOf
  constructor
  · intro hi
    obtain ⟨hlt, hp, -⟩ := List.findIdx?_eq_some_iff_getElem.mp hi
    exact ⟨_, List.getElem?_eq_getElem hlt, by simpa using hp⟩
  · rintro ⟨m, hm, hh, hst⟩
    cases hf : r.members.findIdx? fun m => m.isHost && m.stage == .inside with
    | none =>
      have := List.findIdx?_eq_none_iff.mp hf m (List.mem_of_getElem? hm)
      simp [hh, hst] at this
    | some j =>
      obtain ⟨hlt, hp, -⟩ := List.findIdx?_eq_some_iff_getElem.mp hf
      have hp : (r.members[j]).isHost = true ∧ (r.members[j]).stage = .inside := by
        simpa using hp
      rw [h.unique j i _ m (List.getElem?_eq_getElem hlt) hm hp.1 hh]

theorem isEmpty_iff : r.isEmpty = true ↔
    ∀ (i : Nat) (m : Member), r.members[i]? = some m → m.stage ≠ .inside := by
  unfold isEmpty
  rw [List.all_eq_true]
  constructor
  · intro h i m hm
    simpa using h m (List.mem_of_getElem? hm)
  · intro h m hm
    obtain ⟨i, hi⟩ := List.getElem?_of_mem hm
    simpa using h i m hi

end

end Roster
end Helicopter
