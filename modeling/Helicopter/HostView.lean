import Helicopter.Room
import Mathlib.Data.Finset.Basic

/-! The host's view of the membership, as OUTGOING_HOST_CLIENT_JOINED and
OUTGOING_HOST_CLIENT_LEFT tell it, against `m_peers`. It is right exactly when the host is the
first to be added. -/
namespace Helicopter
open Interleaving

def announce (ids : Finset Int) : Notice → Finset Int
  | .joined id => insert id ids
  | .left id => ids.erase id

def announced (ns : List Notice) : Finset Int := ns.foldl announce ∅

def LeftsJoined (ns : List Notice) : Prop :=
  ∀ u id v, ns = u ++ .left id :: v → u.count (.joined id) = 1

theorem announced_append (ns : List Notice) (n : Notice) :
    announced (ns ++ [n]) = announce (announced ns) n := by
  simp [announced]

theorem leftsJoined_nil : LeftsJoined [] := by
  intro u id v h
  simp at h

theorem leftsJoined_append {ns : List Notice} {n : Notice} (h : LeftsJoined ns)
    (hn : ∀ id, n = .left id → ns.count (.joined id) = 1) : LeftsJoined (ns ++ [n]) := by
  intro u id v hv
  obtain rfl | ⟨v', m, rfl⟩ := v.eq_nil_or_concat'
  · obtain ⟨hu, hl⟩ := List.append_inj' hv rfl
    rw [← hu]
    exact hn id (by simpa using hl)
  · refine h u id v' ?_
    rw [← List.cons_append, ← List.append_assoc] at hv
    exact (List.append_inj' hv rfl).1

namespace Roster
variable {r r' : Roster} {t es : List Event}

def Event.told? (h : Nat) : Event → Option Notice
  | .told k notice => if k = h then some notice else none
  | _ => none

def tells (h : Nat) (t : List Event) : List Notice := t.filterMap (Event.told? h)

@[simp] theorem tells_append (h : Nat) (t u : List Event) :
    tells h (t ++ u) = tells h t ++ tells h u := List.filterMap_append ..

theorem tells_tell (r : Roster) (h : Nat) (notice : Notice) :
    tells h (r.tell notice) = if r.hostOf = some h then [notice] else [] := by
  unfold tell tells
  cases hk : r.hostOf with
  | none => simp
  | some k =>
    by_cases hkh : k = h
    · simp [Event.told?, hkh]
    · simp [Event.told?, hkh]

structure Sees (r : Roster) (h : Nat) (ns : List Notice) : Prop where
  announced : ∀ id, id ∈ announced ns ↔
    ∃ (j : Nat) (n : Member), r.members[j]? = some n ∧ j ≠ h ∧ n.stage = .inside ∧ n.peerId = id
  coming : ∀ (j : Nat) (n : Member), r.members[j]? = some n → n.stage = .coming →
    .joined n.peerId ∉ ns
  once : ∀ (j : Nat) (n : Member), r.members[j]? = some n → j ≠ h → n.stage = .inside →
    ns.count (.joined n.peerId) = 1
  lefts : LeftsJoined ns

structure HostView (t : List Event) (r : Roster) : Prop where
  unborn : ∀ h, r.members.length ≤ h → tells h t = []
  coming : ∀ (h : Nat) (m : Member), r.members[h]? = some m → m.stage = .coming → tells h t = []
  known : ∀ h id, .joined id ∈ tells h t → ∃ m ∈ r.members, m.peerId = id
  host : ∀ (h : Nat) (m : Member), r.members[h]? = some m → m.isHost = true → m.stage = .inside →
    r.Sees h (tells h t)

theorem hostView_init : HostView [] {} := by
  constructor <;> simp [tells]

def HostFirst (r : Roster) (a : Op) : Prop :=
  ∀ (i : Nat) (m : Member), a = .add i → r.members[i]? = some m → m.isHost = true → r.isEmpty = true

section
variable {i h : Nat} {m : Member} {stage : Stage} {id : Int} {ns : List Notice}

theorem getElem?_setStage_ne {j : Nat} (hm : r.members[i]? = some m) (hj : j ≠ i) :
    (r.setStage i m stage).members[j]? = r.members[j]? := by
  rw [getElem?_setStage hm, if_neg hj]

theorem id_setStage (hm : r.members[i]? = some m) (hid : ∃ n ∈ r.members, n.peerId = id) :
    ∃ n ∈ (r.setStage i m stage).members, n.peerId = id := by
  obtain ⟨n, hn, hnid⟩ := hid
  obtain ⟨j, hj⟩ := List.getElem?_of_mem hn
  by_cases hji : j = i
  · subst hji
    rw [hm] at hj
    cases hj
    exact ⟨{ m with stage := stage },
      List.mem_of_getElem? (by rw [getElem?_setStage hm, if_pos rfl]), hnid⟩
  · exact ⟨n, List.mem_of_getElem? (by rw [getElem?_setStage_ne hm hji, hj]), hnid⟩

/-- A client enters and the host is told. -/
theorem sees_add (hw : r.Wf) (hs : r.Sees h ns) (hm : r.members[i]? = some m)
    (hst : m.stage = .coming) (hih : i ≠ h) :
    (r.setStage i m .inside).Sees h (ns ++ [.joined m.peerId]) := by
  have hself : (r.setStage i m .inside).members[i]? = some { m with stage := .inside } := by
    rw [getElem?_setStage hm, if_pos rfl]
  have hother : ∀ (j : Nat) (n : Member), j ≠ i → r.members[j]? = some n →
      n.peerId ≠ m.peerId := by
    intro j n hj hn hid
    exact hj (ids_inj hw hn hm hid)
  constructor
  · intro id
    rw [announced_append, announce, Finset.mem_insert, hs.announced]
    constructor
    · rintro (rfl | ⟨j, n, hn, hjh, hin, hid⟩)
      · exact ⟨i, _, hself, hih, rfl, rfl⟩
      · have hji : j ≠ i := by
          intro hji
          rw [hji, hm] at hn
          cases hn
          rw [hst] at hin
          cases hin
        exact ⟨j, n, by rw [getElem?_setStage_ne hm hji, hn], hjh, hin, hid⟩
    · rintro ⟨j, n, hn, hjh, hin, hid⟩
      by_cases hji : j = i
      · subst hji
        rw [hself] at hn
        cases hn
        exact Or.inl hid.symm
      · rw [getElem?_setStage_ne hm hji] at hn
        exact Or.inr ⟨j, n, hn, hjh, hin, hid⟩
  · intro j n hn hco
    by_cases hji : j = i
    · subst hji
      rw [hself] at hn
      cases hn
      cases hco
    · rw [getElem?_setStage_ne hm hji] at hn
      intro hmem
      obtain hmem | hmem := List.mem_append.mp hmem
      · exact hs.coming j n hn hco hmem
      · simp only [List.mem_singleton, Notice.joined.injEq] at hmem
        exact hother j n hji hn hmem
  · intro j n hn hjh hin
    rw [List.count_append, List.count_singleton]
    by_cases hji : j = i
    · subst hji
      rw [hself] at hn
      cases hn
      have hzero : ns.count (.joined m.peerId) = 0 :=
        List.count_eq_zero.mpr (hs.coming j m hm hst)
      simp [hzero]
    · rw [getElem?_setStage_ne hm hji] at hn
      rw [hs.once j n hn hjh hin, if_neg]
      simpa using (hother j n hji hn).symm
  · exact leftsJoined_append hs.lefts fun id he => by cases he

/-- A member leaves and the host is told. -/
theorem sees_remove (hw : r.Wf) (hs : r.Sees h ns) (hm : r.members[i]? = some m)
    (hst : m.stage = .inside) (hih : i ≠ h) :
    (r.setStage i m .gone).Sees h (ns ++ [.left m.peerId]) := by
  have hself : (r.setStage i m .gone).members[i]? = some { m with stage := .gone } := by
    rw [getElem?_setStage hm, if_pos rfl]
  have hcases : ∀ (j : Nat) (n : Member), (r.setStage i m .gone).members[j]? = some n →
      n.stage ≠ .gone → j ≠ i ∧ r.members[j]? = some n := by
    intro j n hn hng
    by_cases hji : j = i
    · subst hji
      rw [hself] at hn
      cases hn
      exact absurd rfl hng
    · rw [getElem?_setStage_ne hm hji] at hn
      exact ⟨hji, hn⟩
  constructor
  · intro id
    rw [announced_append, announce, Finset.mem_erase, hs.announced]
    constructor
    · rintro ⟨hne, j, n, hn, hjh, hin, hid⟩
      have hji : j ≠ i := by
        intro hji
        rw [hji, hm] at hn
        cases hn
        exact hne hid.symm
      exact ⟨j, n, by rw [getElem?_setStage_ne hm hji, hn], hjh, hin, hid⟩
    · rintro ⟨j, n, hn, hjh, hin, hid⟩
      obtain ⟨hji, hn⟩ := hcases j n hn (by rw [hin]; decide)
      refine ⟨?_, j, n, hn, hjh, hin, hid⟩
      intro he
      exact hji (ids_inj hw hn hm (hid.trans he))
  · intro j n hn hco hmem
    obtain ⟨-, hn⟩ := hcases j n hn (by rw [hco]; decide)
    exact hs.coming j n hn hco (by simpa using hmem)
  · intro j n hn hjh hin
    obtain ⟨-, hn⟩ := hcases j n hn (by rw [hin]; decide)
    rw [List.count_append, hs.once j n hn hjh hin]
    rfl
  · refine leftsJoined_append hs.lefts ?_
    intro id he
    cases he
    exact hs.once i m hm hih hst

/-- The view is about what the members are told. -/
theorem hostView_quiet (hv : HostView t r) (hes : ∀ h, tells h es = []) :
    HostView (t ++ es) r := by
  have htells : ∀ h, tells h (t ++ es) = tells h t := by
    intro h
    rw [tells_append, hes, List.append_nil]
  refine ⟨?_, ?_, ?_, ?_⟩
  · intro h hh
    rw [htells]
    exact hv.unborn h hh
  · intro h m hm hco
    rw [htells]
    exact hv.coming h m hm hco
  · intro h id hmem
    rw [htells] at hmem
    exact hv.known h id hmem
  · intro h m hm hh hin
    rw [htells]
    exact hv.host h m hm hh hin

theorem hostView_newPeer {peer : Member} {counter : Int} {lookups : List Bool}
    (hv : HostView t r) (hst : peer.stage = .coming)
    (hid : ∀ n ∈ r.members, n.peerId ≠ peer.peerId) :
    HostView t ⟨counter, lookups, r.members ++ [peer]⟩ := by
  have hcases : ∀ (j : Nat) (n : Member), (r.members ++ [peer])[j]? = some n →
      r.members[j]? = some n ∨ (j = r.members.length ∧ n = peer) := by
    intro j n hn
    rw [List.getElem?_append] at hn
    split at hn
    · exact Or.inl hn
    · have hlt := (List.getElem?_eq_some_iff.mp hn).1
      have hnp := List.mem_of_getElem? hn
      simp only [List.length_singleton] at hlt
      exact Or.inr ⟨by omega, by simpa using hnp⟩
  constructor
  · intro h hh
    simp only [List.length_append, List.length_singleton] at hh
    exact hv.unborn h (by omega)
  · intro h m hm hco
    obtain hm | ⟨rfl, -⟩ := hcases h m hm
    · exact hv.coming h m hm hco
    · exact hv.unborn _ (Nat.le_refl _)
  · intro h id hmem
    obtain ⟨m, hm, he⟩ := hv.known h id hmem
    exact ⟨m, List.mem_append_left _ hm, he⟩
  · intro h m hm hh hin
    obtain hm | ⟨-, rfl⟩ := hcases h m hm
    · obtain ⟨han, hco, hon, hle⟩ := hv.host h m hm hh hin
      refine ⟨?_, ?_, ?_, hle⟩
      · intro id
        rw [han]
        constructor
        · rintro ⟨j, n, hn, hjh, hnin, hnid⟩
          have hlt := (List.getElem?_eq_some_iff.mp hn).1
          exact ⟨j, n, by rw [List.getElem?_append_left hlt, hn], hjh, hnin, hnid⟩
        · rintro ⟨j, n, hn, hjh, hnin, hnid⟩
          obtain hn | ⟨-, rfl⟩ := hcases j n hn
          · exact ⟨j, n, hn, hjh, hnin, hnid⟩
          · rw [hst] at hnin
            cases hnin
      · intro j n hn hnco hmem
        obtain hn | ⟨-, rfl⟩ := hcases j n hn
        · exact hco j n hn hnco hmem
        · obtain ⟨n', hn', he⟩ := hv.known h _ hmem
          exact hid n' hn' he
      · intro j n hn hjh hnin
        obtain hn | ⟨-, rfl⟩ := hcases j n hn
        · exact hon j n hn hjh hnin
        · rw [hst] at hnin
          cases hnin
    · rw [hst] at hin
      cases hin

/-- Only the host that is inside is told anything. -/
theorem told_host {k : Nat} {notice : Notice} (hw : r.Wf)
    (hne : tells k (r.tell notice) ≠ []) :
    ∃ m, r.members[k]? = some m ∧ m.isHost = true ∧ m.stage = .inside := by
  rw [tells_tell] at hne
  split at hne
  · next hk => exact (hostOf_eq_some hw).mp hk
  · exact absurd rfl hne

theorem tells_host {notice : Notice} (hw : r.Wf) (hm : r.members[h]? = some m)
    (hh : m.isHost = true) (hin : m.stage = .inside) : tells h (r.tell notice) = [notice] := by
  rw [tells_tell, if_pos ((hostOf_eq_some hw).mpr ⟨m, hm, hh, hin⟩)]

/-- A member enters or leaves, and the others are told or not. -/
theorem hostView_setStage {es : List Event} (hv : HostView t r)
    (hm : r.members[i]? = some m) (hst : stage ≠ .coming)
    (hquiet : ∀ k, tells k es = [] ∨ ∃ (k' : Member), r.members[k]? = some k' ∧ k'.stage = .inside)
    (hjoin : ∀ k id, .joined id ∈ tells k es → id = m.peerId)
    (hhost : ∀ (k : Nat) (n : Member), (r.setStage i m stage).members[k]? = some n →
      n.isHost = true → n.stage = .inside → (r.setStage i m stage).Sees k (tells k (t ++ es))) :
    HostView (t ++ es) (r.setStage i m stage) := by
  have hlen : (r.setStage i m stage).members.length = r.members.length := by
    simp [setStage]
  refine ⟨?_, ?_, ?_, hhost⟩
  · intro k hk
    rw [hlen] at hk
    rw [tells_append, hv.unborn k hk]
    obtain hq | ⟨n, hn, -⟩ := hquiet k
    · exact hq
    · have := (List.getElem?_eq_some_iff.mp hn).1
      omega
  · intro k n hn hco
    have hki : k ≠ i := by
      intro hki
      rw [hki, getElem?_setStage hm, if_pos rfl] at hn
      cases hn
      exact hst hco
    rw [getElem?_setStage_ne hm hki] at hn
    rw [tells_append, hv.coming k n hn hco]
    obtain hq | ⟨n', hn', hin⟩ := hquiet k
    · exact hq
    · rw [hn] at hn'
      cases hn'
      rw [hco] at hin
      cases hin
  · intro k id hmem
    refine id_setStage hm ?_
    rw [tells_append, List.mem_append] at hmem
    obtain hmem | hmem := hmem
    · exact hv.known k id hmem
    · exact ⟨m, List.mem_of_getElem? hm, (hjoin k id hmem).symm⟩

end

theorem hostView_add {i : Nat} {m : Member} (hv : HostView t r) (hw : r.Wf)
    (hm : r.members[i]? = some m) (hst : m.stage = .coming)
    (hfirst : m.isHost = true → r.isEmpty = true) :
    HostView (t ++ .joined i m.isHost :: if m.isHost then [] else r.tell (.joined m.peerId))
      (r.setStage i m .inside) := by
  have hw' : (r.setStage i m .inside).Wf := wf_setStage hw hm
  cases hh : m.isHost with
  | true =>
    have hnone : ∀ k, tells k [Event.joined i true] = [] := fun k => rfl
    refine hostView_setStage hv hm (by decide) (fun k => Or.inl (hnone k))
      (fun k id hmem => by cases hmem) ?_
    -- nobody else is inside, and the host has been told nothing
    intro k n hn hnh hin
    have hki : k = i := by
      refine hw'.unique k i n { m with stage := .inside } hn ?_ hnh hh
      rw [getElem?_setStage hm, if_pos rfl]
    subst hki
    rw [if_pos rfl, tells_append, hnone, hv.coming k m hm hst]
    have hout : ∀ (j : Nat) (n : Member), (r.setStage k m .inside).members[j]? = some n →
        j ≠ k → n.stage ≠ .inside := by
      intro j n hn hjk
      rw [getElem?_setStage_ne hm hjk] at hn
      exact isEmpty_iff.mp (hfirst hh) j n hn
    refine ⟨?_, fun j n _ _ => by simp, ?_, leftsJoined_nil⟩
    · intro id
      constructor
      · intro hid
        simp [announced] at hid
      · rintro ⟨j, n, hn, hjk, hjin, -⟩
        exact absurd hjin (hout j n hn hjk)
    · intro j n hn hjk hjin
      exact absurd hjin (hout j n hn hjk)
  | false =>
    have htells : ∀ k, tells k (.joined i false :: r.tell (.joined m.peerId)) =
        tells k (r.tell (.joined m.peerId)) := fun k => rfl
    rw [if_neg (by decide)]
    refine hostView_setStage hv hm (by decide) ?_ ?_ ?_
    · intro k
      rw [htells]
      by_cases hk : tells k (r.tell (.joined m.peerId)) = []
      · exact Or.inl hk
      · obtain ⟨n, hn, -, hin⟩ := told_host hw hk
        exact Or.inr ⟨n, hn, hin⟩
    · intro k id hmem
      rw [htells, tells_tell] at hmem
      split at hmem
      · simpa using hmem
      · cases hmem
    · intro k n hn hnh hin
      have hki : k ≠ i := by
        intro hki
        rw [hki, getElem?_setStage hm, if_pos rfl] at hn
        cases hn
        simp [hh] at hnh
      rw [getElem?_setStage_ne hm hki] at hn
      rw [tells_append, htells, tells_host hw hn hnh hin]
      exact sees_add hw (hv.host k n hn hnh hin) hm hst (Ne.symm hki)

theorem hostView_remove {i : Nat} {m : Member} {isEmpty : Bool} (hv : HostView t r) (hw : r.Wf)
    (hm : r.members[i]? = some m) (hst : m.stage = .inside) :
    HostView (t ++ .left i isEmpty :: (r.setStage i m .gone).tell (.left m.peerId))
      (r.setStage i m .gone) := by
  have hw' : (r.setStage i m .gone).Wf := wf_setStage hw hm
  have htells : ∀ k, tells k (.left i isEmpty :: (r.setStage i m .gone).tell (.left m.peerId)) =
      tells k ((r.setStage i m .gone).tell (.left m.peerId)) := fun k => rfl
  have hback : ∀ (k : Nat) (n : Member), (r.setStage i m .gone).members[k]? = some n →
      n.stage = .inside → k ≠ i ∧ r.members[k]? = some n := by
    intro k n hn hin
    have hki : k ≠ i := by
      intro hki
      rw [hki, getElem?_setStage hm, if_pos rfl] at hn
      cases hn
      cases hin
    rw [getElem?_setStage_ne hm hki] at hn
    exact ⟨hki, hn⟩
  refine hostView_setStage hv hm (by decide) ?_ ?_ ?_
  · intro k
    rw [htells]
    by_cases hk : tells k ((r.setStage i m .gone).tell (.left m.peerId)) = []
    · exact Or.inl hk
    · obtain ⟨n, hn, -, hin⟩ := told_host hw' hk
      exact Or.inr ⟨n, (hback k n hn hin).2, hin⟩
  · intro k id hmem
    rw [htells, tells_tell] at hmem
    split at hmem
    · simp at hmem
    · cases hmem
  · intro k n hn hnh hin
    obtain ⟨hki, hn'⟩ := hback k n hn hin
    rw [tells_append, htells, tells_host hw' hn hnh hin]
    exact sees_remove hw (hv.host k n hn' hnh hin) hm hst (Ne.symm hki)

/-- If the host is the first to be added, his view stays right. -/
theorem hostView_step {a : Op} (hv : HostView t r) (hw : r.Wf) (hfirst : HostFirst r a)
    (hs : r.step a = some (r', es)) : HostView (t ++ es) r' := by
  cases a with
  | findSession =>
    cases hs
    rw [List.append_nil]
    exact ⟨hv.unborn, hv.coming, hv.known, fun h m hm hh hin =>
      let hs := hv.host h m hm hh hin
      ⟨hs.announced, hs.coming, hs.once, hs.lefts⟩⟩
  | newPeer k =>
    simp only [step] at hs
    split at hs
    · cases hs
    · cases hs
      refine hostView_quiet (hostView_newPeer hv rfl ?_) fun h => rfl
      intro n hn hid
      have := hw.fresh n hn
      simp only at hid
      omega
  | add i =>
    simp only [step] at hs
    split at hs
    · cases hs
    · next m hm =>
      split at hs
      · next hst => cases hs; exact hostView_add hv hw hm hst (hfirst i m rfl hm)
      · cases hs
  | remove i =>
    simp only [step] at hs
    split at hs
    · cases hs
    · next m hm =>
      split at hs
      · next hst => cases hs; exact hostView_remove hv hw hm hst
      · cases hs

end Roster

theorem Session.tells_roster (h : PeerRef) (t : List Session.Event) :
    Roster.tells h (t.filterMap Session.Event.roster?) =
      (Session.offersTo h t).filterMap MessageDto.notice? := by
  unfold Roster.tells Session.offersTo
  rw [List.filterMap_filterMap, List.filterMap_filterMap]
  congr 1
  funext e
  cases e with
  | offer i m =>
    by_cases hi : i = h <;> cases hm : m.notice? <;>
      simp [Session.Event.roster?, Session.Event.offerTo?, Roster.Event.told?, hi, hm]
  | _ => rfl

namespace Room
variable {id : String} {config : GameConfigDto} {t es : List Event} {r r' : Room}

def Overflowed (h : PeerRef) (t : List Event) : Prop := ∃ m n, .rejected m n ∈ channel h t

def noticesTo (h : PeerRef) (t : List Event) : List Notice :=
  (Channel.accepted (channel h t)).filterMap MessageDto.notice?

def HostInformed (t : List Event) (r : Room) : Prop :=
  ∀ (h : PeerRef) (p : Peer), r.session.host = some h → r.session.objects[h]? = some p →
    ¬ Overflowed h t →
    (∀ peerId, peerId ∈ announced (noticesTo h t) ↔
      peerId ≠ p.peerId ∧ ∃ j, r.session.peers.find peerId = some j) ∧
    LeftsJoined (noticesTo h t)

/-- The host's `addPeer` finds `m_peers` empty. -/
def HostFirst (_ : List Event) (r : Room) (a : Op) : Prop :=
  ∀ (i : PeerRef) (c : Nat) (p : Peer), a = .session (.advance i c) →
    r.session.objects[i]? = some p → p.task = .adding → p.isHost = true →
    r.session.peers.isEmpty = true

def Informed (id : String) (config : GameConfigDto) (t : List Event) (r : Room) : Prop :=
  Reached id config t r ∧
    Roster.HostView ((sessionPart t).filterMap Session.Event.roster?) r.session.roster

theorem noticesTo_eq {h : PeerRef} (hr : Reached id config t r) (ho : ¬ Overflowed h t) :
    noticesTo h t = Roster.tells h ((sessionPart t).filterMap Session.Event.roster?) := by
  rw [Session.tells_roster, ← hr.offers h, noticesTo, Channel.accepted_eq_offered]
  intro m n hm
  exact ho ⟨m, n, hm⟩

theorem hostInformed_of_informed (h : Informed id config t r) : HostInformed t r := by
  intro k p hk hp ho
  obtain ⟨hA, -⟩ := h.1.sound
  have hm : r.session.roster.members[k]? = some p.member := by
    rw [Session.getElem?_roster, hp]
    rfl
  have hhost : r.session.roster.hostOf = some k := by rw [← hA.host, hk]
  obtain ⟨m, hm', hmh, hmin⟩ := (Roster.hostOf_eq_some hA.wf).mp hhost
  rw [hm] at hm'
  cases hm'
  have hsees := h.2.host k p.member hm hmh hmin
  rw [noticesTo_eq h.1 ho]
  refine ⟨?_, hsees.lefts⟩
  intro peerId
  rw [hsees.announced]
  constructor
  · rintro ⟨j, n, hn, hjk, hin, rfl⟩
    refine ⟨?_, j, (hA.peers _ j).mpr ⟨n, hn, rfl, hin⟩⟩
    intro he
    exact hjk (Roster.ids_inj hA.wf hn hm he)
  · rintro ⟨hne, j, hj⟩
    obtain ⟨n, hn, hid, hin⟩ := (hA.peers peerId j).mp hj
    refine ⟨j, n, hn, ?_, hin, hid⟩
    intro hjk
    rw [hjk, hm] at hn
    cases hn
    exact hne hid.symm

theorem informed_step {a : Op} (h : Informed id config t r) (hf : HostFirst t r a)
    (hs : r.step a = some (r', es)) : Informed id config (t ++ es) r' := by
  refine ⟨reached_step h.1 hs, ?_⟩
  obtain ⟨hA, -⟩ := h.1.sound
  rw [sessionPart_append, List.filterMap_append]
  obtain ⟨b, rfl, hss⟩ | ⟨-, hsame, hnil⟩ := step_session hs
  · obtain ⟨-, hrun⟩ := Session.step_roster hA hss
    cases hop : r.session.rosterOp b with
    | none =>
      rw [hop] at hrun
      simp only [Option.toList_none, Machine.run, Option.some.injEq, Prod.mk.injEq] at hrun
      rw [← hrun.1, ← hrun.2, List.append_nil]
      exact h.2
    | some op =>
      rw [hop] at hrun
      obtain ⟨r₁, fs, hst, hrest⟩ := run_cons_some hrun
      simp only [Machine.run, Option.some.injEq, Prod.mk.injEq, List.nil_append] at hrest
      rw [← hrest.1, ← hrest.2]
      refine Roster.hostView_step h.2 hA.wf ?_ hst
      intro i m hadd hm hh
      rw [hadd] at hop
      obtain ⟨c, p, rfl, hp, ht⟩ := Session.rosterOp_add hop
      rw [Session.getElem?_roster, hp] at hm
      cases hm
      rw [← Session.isEmpty_roster hA]
      exact hf i c p rfl hp ht hh
  · rw [hsame, hnil, List.filterMap_nil, List.append_nil]
    exact h.2

theorem nothing_to {j : PeerRef} (h : Reached id config t r)
    (hj : Session.offersTo j (sessionPart t) = []) : ¬ Overflowed j t ∧ noticesTo j t = [] := by
  have hoff : Channel.offered (channel j t) = [] := by rw [h.offers, hj]
  refine ⟨?_, ?_⟩
  · rintro ⟨m, n, hm⟩
    have : m ∈ Channel.offered (channel j t) := List.mem_filterMap.mpr ⟨_, hm, rfl⟩
    rw [hoff] at this
    cases this
  · have hacc := Channel.accepted_sublist_offered (channel j t)
    rw [hoff, List.sublist_nil] at hacc
    rw [noticesTo, hacc, List.filterMap_nil]

theorem offersTo_coming {i : PeerRef} {p : Peer} (h : Reached id config t r)
    (hp : r.session.objects[i]? = some p) (ht : p.task = .adding) :
    Session.offersTo i (sessionPart t) = [] := by
  rw [List.eq_nil_iff_forall_not_mem]
  intro m hm
  obtain ⟨e, he, hem⟩ := List.mem_filterMap.mp hm
  cases e with
  | offer k m' =>
    simp only [Session.Event.offerTo?, Option.ite_none_right_eq_some] at hem
    obtain ⟨w, hw⟩ := h.session
    obtain ⟨q, hq, hst⟩ := Session.run_offer hw he
    rw [hem.1, hp] at hq
    cases hq
    rw [ht] at hst
    exact hst rfl
  | _ => cases hem

/-- A host that is added later has been told nothing about those who came before. -/
theorem not_informed_of_late {a : Op} (h : Informed id config t r) (hf : ¬ HostFirst t r a)
    (hs : r.step a = some (r', es)) : ¬ HostInformed (t ++ es) r' := by
  obtain ⟨hA, -⟩ := h.1.sound
  simp only [HostFirst, not_forall] at hf
  obtain ⟨i, c, p, rfl, hp, ht, hh, hne⟩ := hf
  -- the step is the host's `addPeer`
  have hadd : r'.session = (r.session.addPeer i p.peerId true).1.setTask i p .greeting ∧
      sessionPart es = [.joined i true] := by
    obtain ⟨b, hb, hss⟩ | ⟨hno, -, -⟩ := step_session hs
    · cases hb
      obtain ⟨hsess, hes⟩ := Session.step_add hp ht hss
      rw [hh] at hsess hes
      exact ⟨hsess, hes⟩
    · exact absurd rfl (hno _)
  obtain ⟨hsess, hes⟩ := hadd
  have hself : r'.session.objects[i]? = some { p with task := .greeting } := by
    rw [hsess, Session.addPeer_fst]
    exact (Session.objects_setPeer hp _ i).trans (if_pos rfl)
  have hquiet : Session.offersTo i (sessionPart (t ++ es)) = [] := by
    rw [sessionPart_append, hes, Session.offersTo_append]
    exact List.append_eq_nil_iff.mpr ⟨offersTo_coming h.1 hp ht, rfl⟩
  obtain ⟨hno, hnone⟩ := nothing_to (reached_step h.1 hs) hquiet
  intro hinf
  obtain ⟨hview, -⟩ := hinf i _ (by rw [hsess]; rfl) hself hno
  -- someone else is in the map
  have hsome : ∃ k j, r.session.peers.find k = some j := by
    by_contra hall
    apply hne
    rw [UnorderedMap.isEmpty_iff]
    intro k
    by_contra hk
    obtain ⟨j, hj⟩ := Option.ne_none_iff_exists'.mp hk
    exact hall ⟨k, j, hj⟩
  obtain ⟨k, j, hk⟩ := hsome
  have hkp : k ≠ p.peerId := by
    intro hkp
    have hm : r.session.roster.members[i]? = some p.member := by
      rw [Session.getElem?_roster, hp]
      rfl
    have habsent := Session.peers_find_coming hA hm (by simp [Peer.member, ht, Task.stage])
    rw [hkp] at hk
    change r.session.peers.find p.peerId = none at habsent
    rw [hk] at habsent
    cases habsent
  have hfind : r'.session.peers.find k = some j := by
    rw [hsess, Session.addPeer_fst]
    exact UnorderedMap.find_insertNew_of_some i hk
  have hmem := (hview k).mpr ⟨hkp, j, hfind⟩
  rw [hnone] at hmem
  simp [announced] at hmem

/-- The host is informed in every state of a run if and only if its own `addPeer` always finds
`m_peers` empty. -/
theorem host_informed_iff (id : String) (config : GameConfigDto) (w : List Op) :
    machine.Throughout HostInformed w [] (init id config) ↔
      machine.Along HostFirst w [] (init id config) :=
  throughout_iff_along (I := Informed id config) (fun _ _ h => hostInformed_of_informed h)
    (fun _ _ _ _ _ h hf hs => informed_step h hf hs)
    (fun _ _ _ _ _ h hf hs => not_informed_of_late h hf hs)
    ⟨reached_init id config, Roster.hostView_init⟩

def lateHost : List Op :=
  [.session .findSession, .session (.newPeer 1), .session (.advance 0 0),
    .session (.newPeer 0), .session (.advance 1 0)]

theorem late_host_not_informed :
    ∃ t r, machine.run lateHost [] (init "lobby" {}) = some (t, r) ∧ ¬ HostInformed t r := by
  refine ⟨_, _, rfl, ?_⟩
  intro h
  obtain ⟨hview, -⟩ := h 1 _ rfl rfl (by rintro ⟨m, n, hm⟩; cases hm)
  have hmem := (hview 0).mpr ⟨by decide, 0, rfl⟩
  exact absurd hmem (by decide)

end Room
end Helicopter
