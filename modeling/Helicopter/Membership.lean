import Helicopter.Roster
import Helicopter.SessionStep

/-! The session refines the roster: `m_peers` is the map of the members inside and `m_host` is
the one of them that has the host's role. -/
namespace Helicopter
open Interleaving

def Task.stage : Task → Stage
  | .adding => .coming
  | .removed => .gone
  | _ => .inside

def Task.rosterOp (i : PeerRef) : Task → Option Roster.Op
  | .adding => some (.add i)
  | .removing => some (.remove i)
  | _ => none

def Peer.member (p : Peer) : Member := ⟨p.peerId, p.isHost, p.task.stage⟩

namespace Session
variable {s s' : Session} {es : List Event}

def roster (s : Session) : Roster :=
  ⟨s.peerIdCounter, s.lookups, s.objects.map Peer.member⟩

def rosterOp (s : Session) : Op → Option Roster.Op
  | .findSession => some .findSession
  | .newPeer k => some (.newPeer k)
  | .advance i _ => (s.objects[i]?).bind fun p => p.task.rosterOp i
  | _ => none

def Event.roster? : Event → Option Roster.Event
  | .created i id isHost => some (.created i id isHost)
  | .joined i isHost => some (.joined i isHost)
  | .left i isEmpty => some (.left i isEmpty)
  | .offer j m => m.notice?.map (.told j)
  | _ => none

structure Agrees (s : Session) : Prop where
  peers : ∀ k i, s.peers.find k = some i ↔
    ∃ m, s.roster.members[i]? = some m ∧ m.peerId = k ∧ m.stage = .inside
  host : s.host = s.roster.hostOf
  wf : s.roster.Wf

def Arrived (s : Session) (j : PeerRef) : Prop :=
  ∃ p, s.objects[j]? = some p ∧ p.task.stage ≠ .coming

theorem getElem?_roster (s : Session) (i : Nat) :
    s.roster.members[i]? = (s.objects[i]?).map Peer.member := by
  simp [roster]

theorem agrees_init (id : String) (config : GameConfigDto) :
    Agrees { id := id, config := config } := by
  refine ⟨?_, rfl, Roster.wf_init⟩
  intro k i
  simp [roster]

theorem member_of_object {i : PeerRef} {p : Peer} (hp : s.objects[i]? = some p) :
    s.roster.members[i]? = some p.member := by
  rw [getElem?_roster, hp]
  rfl

theorem object_of_member {i : PeerRef} {m : Member} (hm : s.roster.members[i]? = some m) :
    ∃ p, s.objects[i]? = some p ∧ p.member = m := by
  rw [getElem?_roster] at hm
  exact Option.map_eq_some_iff.mp hm

theorem find_inside {i : PeerRef} {p : Peer} (h : Agrees s) (hp : s.objects[i]? = some p)
    (ht : p.task.stage = .inside) : s.peers.find p.peerId = some i :=
  (h.peers p.peerId i).mpr ⟨p.member, member_of_object hp, rfl, ht⟩

theorem peerId_of_find {i : PeerRef} {k : Int} (h : Agrees s)
    (hf : s.peers.find k = some i) : ∃ p, s.objects[i]? = some p ∧ p.peerId = k := by
  obtain ⟨m, hm, hid, -⟩ := (h.peers k i).mp hf
  obtain ⟨p, hp, rfl⟩ := object_of_member hm
  exact ⟨p, hp, hid⟩

theorem peerId?_eq_iff {i j : PeerRef} {p : Peer} (h : Agrees s) (hp : s.objects[i]? = some p) :
    s.peerId? j = some p.peerId ↔ j = i := by
  constructor
  · intro hj
    obtain ⟨q, hq, hid⟩ := Option.map_eq_some_iff.mp hj
    exact Roster.ids_inj h.wf (member_of_object hq) (member_of_object hp) hid
  · rintro rfl
    exact congrArg (Option.map Peer.peerId) hp

theorem isHost_of_host {i : PeerRef} {p : Peer} (h : Agrees s) (hp : s.objects[i]? = some p)
    (hh : s.host = some i) : p.isHost = true := by
  rw [h.host, Roster.hostOf_eq_some h.wf] at hh
  obtain ⟨m, hm, hhost, -⟩ := hh
  rw [member_of_object hp] at hm
  cases hm
  exact hhost

theorem objects_setPeer {i : Nat} {p : Peer} (hp : s.objects[i]? = some p) (q : Peer) (j : Nat) :
    (s.setPeer i q).objects[j]? = if j = i then some q else s.objects[j]? := by
  have hlt := (List.getElem?_eq_some_iff.mp hp).1
  unfold setPeer
  by_cases hj : j = i
  · subst hj
    simp [List.getElem?_set_self hlt]
  · rw [if_neg hj, List.getElem?_set_ne (Ne.symm hj)]

theorem forall_setPeer {P : PeerRef → Peer → Prop} {i : Nat} {p q : Peer}
    (hp : s.objects[i]? = some p) (h : ∀ j r, s.objects[j]? = some r → P j r) (hq : P i q) :
    ∀ j r, (s.setPeer i q).objects[j]? = some r → P j r := by
  intro j r hr
  rw [objects_setPeer hp] at hr
  split at hr
  · next hj =>
    cases hr
    rw [hj]
    exact hq
  · exact h j r hr

/-- Replacing a peer by one that looks the same from outside is no step of the roster. -/
theorem roster_setPeer {i : Nat} {p q : Peer} (hp : s.objects[i]? = some p)
    (hq : q.member = p.member) : (s.setPeer i q).roster = s.roster := by
  have hm : (s.setPeer i q).objects.map Peer.member = s.objects.map Peer.member := by
    apply List.ext_getElem?
    intro j
    simp only [List.getElem?_map, objects_setPeer hp]
    split
    · next hj => simp [hj, hp, hq]
    · rfl
  simp only [roster, hm]
  rfl

theorem roster_setTask (s : Session) (i : Nat) (p : Peer) (task : Task) :
    (s.setTask i p task).roster = s.roster.setStage i p.member task.stage := by
  simp only [setTask, setPeer, roster, Roster.setStage, List.map_set]
  rfl

theorem roster_quiet {i : Nat} {p : Peer} {task : Task} (hp : s.objects[i]? = some p)
    (ht : task.stage = p.task.stage) : (s.setTask i p task).roster = s.roster :=
  roster_setPeer hp (by simp only [Peer.member, ht])

theorem agrees_of_same (h : Agrees s) (hr : s'.roster = s.roster) (hp : s'.peers = s.peers)
    (hh : s'.host = s.host) : Agrees s' :=
  ⟨by rw [hr, hp]; exact h.peers, by rw [hr, hh]; exact h.host, by rw [hr]; exact h.wf⟩

/-! ## The two steps that change the map -/

theorem peers_find_coming {i : Nat} {m : Member} (h : Agrees s)
    (hm : s.roster.members[i]? = some m) (hst : m.stage ≠ .inside) :
    s.peers.find m.peerId = none := by
  by_contra hne
  obtain ⟨j, hj⟩ := Option.ne_none_iff_exists'.mp hne
  obtain ⟨n, hn, hid, hin⟩ := (h.peers _ j).mp hj
  have hij := Roster.ids_inj h.wf hn hm hid
  subst hij
  rw [hn] at hm
  cases hm
  exact hst hin

theorem addPeer_fst (s : Session) (i : PeerRef) (peerId : Int) (isHost : Bool) :
    (s.addPeer i peerId isHost).1 =
      { s with
        peers := s.peers.insertNew peerId i
        host := if isHost then some i else s.host } := by
  cases isHost <;> rfl

theorem mem_tellHost {notice : Notice} {e : Event} :
    e ∈ s.tellHost notice ↔ ∃ k, s.host = some k ∧ e = .offer k notice.message := by
  unfold tellHost
  cases s.host <;> simp

theorem addPeer_snd (s : Session) (i : PeerRef) (peerId : Int) (isHost : Bool) :
    (s.addPeer i peerId isHost).2 = if isHost then [] else s.tellHost (.joined peerId) := by
  cases isHost <;> rfl

theorem mem_removePeerById {peerId : Int} {e : Event} :
    e ∈ (s.removePeerById peerId).2.2 ↔
      s.isHostPeer peerId = false ∧ ∃ k, s.host = some k ∧
        e = .offer k (Notice.left peerId).message := by
  unfold removePeerById
  cases s.isHostPeer peerId <;> simp [mem_tellHost]

/-- All that `addPeer` and `removePeerById` do to others is to tell the host. -/
theorem offer_of_mem_addPeer {i : PeerRef} {peerId : Int} {isHost : Bool} {e : Event}
    (h : e ∈ (s.addPeer i peerId isHost).2) : ∃ k notice, e = .offer k (Notice.message notice) := by
  rw [addPeer_snd] at h
  split at h
  · cases h
  · obtain ⟨k, -, he⟩ := mem_tellHost.mp h
    exact ⟨k, _, he⟩

theorem offer_of_mem_removePeerById {peerId : Int} {e : Event}
    (h : e ∈ (s.removePeerById peerId).2.2) : ∃ k notice, e = .offer k (Notice.message notice) := by
  obtain ⟨-, k, -, he⟩ := mem_removePeerById.mp h
  exact ⟨k, _, he⟩

theorem removePeerById_fst (s : Session) (peerId : Int) :
    (s.removePeerById peerId).1 =
      { s with
        peers := s.peers.eraseKey peerId
        host := if s.isHostPeer peerId then none else s.host } := by
  unfold removePeerById
  cases s.isHostPeer peerId <;> rfl

/-- The map after one member has moved to `inside` under his id, or out from under it. -/
theorem peers_setStage {i : Nat} {m : Member} {stage : Stage}
    {peers : UnorderedMap Int PeerRef} (h : Agrees s) (hm : s.roster.members[i]? = some m)
    (hself : peers.find m.peerId = if stage = .inside then some i else none)
    (hother : ∀ k, k ≠ m.peerId → peers.find k = s.peers.find k) (k : Int) (j : Nat) :
    peers.find k = some j ↔ ∃ n, (s.roster.setStage i m stage).members[j]? = some n ∧
      n.peerId = k ∧ n.stage = .inside := by
  rw [Roster.getElem?_setStage hm]
  by_cases hk : k = m.peerId
  · subst hk
    rw [hself]
    constructor
    · intro hj
      split at hj
      · next hst =>
        cases hj
        exact ⟨_, if_pos rfl, rfl, hst⟩
      · cases hj
    · rintro ⟨n, hn, hid, hin⟩
      split at hn
      · next hj =>
        cases hn
        rw [if_pos hin, hj]
      · next hj => exact absurd (Roster.ids_inj h.wf hn hm hid) hj
  · rw [hother k hk, h.peers k j]
    constructor
    · rintro ⟨n, hn, hid, hst⟩
      refine ⟨n, ?_, hid, hst⟩
      rw [if_neg, hn]
      intro hj
      subst hj
      rw [hn] at hm
      cases hm
      exact hk hid.symm
    · rintro ⟨n, hn, hid, hst⟩
      split at hn
      · cases hn
        exact absurd hid.symm hk
      · exact ⟨n, hn, hid, hst⟩

theorem hostOf_setStage_client {r : Roster} {i : Nat} {m : Member} {stage : Stage} (h : r.Wf)
    (hm : r.members[i]? = some m) (hc : m.isHost = false) :
    (r.setStage i m stage).hostOf = r.hostOf := by
  apply Option.ext
  intro j
  rw [Roster.hostOf_eq_some h, Roster.hostOf_eq_some (Roster.wf_setStage h hm)]
  simp only [Roster.getElem?_setStage hm]
  constructor
  · rintro ⟨n, hn, hh, hst⟩
    split at hn
    · cases hn
      simp [hc] at hh
    · exact ⟨n, hn, hh, hst⟩
  · rintro ⟨n, hn, hh, hst⟩
    refine ⟨n, ?_, hh, hst⟩
    rw [if_neg, hn]
    intro hj
    subst hj
    rw [hn] at hm
    cases hm
    simp [hc] at hh

theorem hostOf_setStage_host {r : Roster} {i : Nat} {m : Member} {stage : Stage} (h : r.Wf)
    (hm : r.members[i]? = some m) (hh : m.isHost = true) :
    (r.setStage i m stage).hostOf = if stage = .inside then some i else none := by
  have hwf : (r.setStage i m stage).Wf := Roster.wf_setStage h hm
  split
  · next hst =>
    rw [Roster.hostOf_eq_some hwf]
    exact ⟨{ m with stage := stage }, by rw [Roster.getElem?_setStage hm, if_pos rfl], hh, hst⟩
  · next hst =>
    by_contra hne
    obtain ⟨j, hj⟩ := Option.ne_none_iff_exists'.mp hne
    obtain ⟨n, hn, hnh, hin⟩ := (Roster.hostOf_eq_some hwf).mp hj
    rw [Roster.getElem?_setStage hm] at hn
    split at hn
    · cases hn
      exact hst hin
    · next hji => exact hji (h.unique j i n m hn hm hnh hh)

theorem agrees_add {i : Nat} {p : Peer} {task : Task} (h : Agrees s)
    (hp : s.objects[i]? = some p) (ht : p.task.stage = .coming) (hin : task.stage = .inside) :
    Agrees ((s.addPeer i p.peerId p.isHost).1.setTask i p task) := by
  have hm : s.roster.members[i]? = some p.member := by rw [getElem?_roster, hp]; rfl
  have habsent : s.peers.find p.peerId = none := peers_find_coming h hm (by simp [Peer.member, ht])
  have hroster : ((s.addPeer i p.peerId p.isHost).1.setTask i p task).roster =
      s.roster.setStage i p.member .inside := by
    rw [roster_setTask, hin, addPeer_fst]
    rfl
  refine ⟨?_, ?_, by rw [hroster]; exact Roster.wf_setStage h.wf hm⟩
  · intro k j
    rw [hroster, addPeer_fst]
    apply peers_setStage h hm
    · exact UnorderedMap.find_insertNew_self i habsent
    · intro k hk
      exact UnorderedMap.find_insertNew_ne i hk
  · rw [hroster, addPeer_fst]
    show (if p.isHost then some i else s.host) = _
    cases hh : p.isHost with
    | true => rw [hostOf_setStage_host h.wf hm hh]; rfl
    | false => rw [hostOf_setStage_client h.wf hm hh, ← h.host]; rfl

theorem isHostPeer_iff {i : Nat} {m : Member} (h : Agrees s)
    (hm : s.roster.members[i]? = some m) : s.isHostPeer m.peerId = true ↔ s.host = some i := by
  unfold isHostPeer
  cases hh : s.host with
  | none => simp
  | some k =>
    have hk : s.roster.hostOf = some k := by rw [← h.host, hh]
    obtain ⟨n, hn, -, -⟩ := (Roster.hostOf_eq_some h.wf).mp hk
    have hid : s.peerId? k = some n.peerId := by
      rw [getElem?_roster, Option.map_eq_some_iff] at hn
      obtain ⟨q, hq, rfl⟩ := hn
      simp [peerId?, hq, Peer.member]
    simp only [hid, beq_iff_eq, Option.some.injEq]
    constructor
    · intro he
      exact Roster.ids_inj h.wf hn hm he
    · intro he
      subst he
      rw [hn] at hm
      cases hm
      rfl

theorem agrees_remove {i : Nat} {p : Peer} {task : Task} (h : Agrees s)
    (hp : s.objects[i]? = some p) (ht : p.task.stage = .inside) (hgone : task.stage = .gone) :
    Agrees ((s.removePeerById p.peerId).1.setTask i p task) := by
  have hm : s.roster.members[i]? = some p.member := by rw [getElem?_roster, hp]; rfl
  have hroster : ((s.removePeerById p.peerId).1.setTask i p task).roster =
      s.roster.setStage i p.member .gone := by
    rw [roster_setTask, hgone, removePeerById_fst]
    rfl
  refine ⟨?_, ?_, by rw [hroster]; exact Roster.wf_setStage h.wf hm⟩
  · intro k j
    rw [hroster, removePeerById_fst]
    apply peers_setStage h hm
    · exact (UnorderedMap.find_eraseKey s.peers p.peerId p.peerId).trans (if_pos rfl)
    · intro k hk
      exact (UnorderedMap.find_eraseKey s.peers p.peerId k).trans (if_neg hk)
  · rw [hroster, removePeerById_fst]
    show (if s.isHostPeer p.peerId then none else s.host) = _
    have hiff : s.isHostPeer p.peerId = true ↔ s.host = some i := isHostPeer_iff h hm
    cases hh : p.isHost with
    | true =>
      have hi : s.host = some i := by
        rw [h.host, Roster.hostOf_eq_some h.wf]
        exact ⟨_, hm, hh, ht⟩
      rw [if_pos (hiff.mpr hi), hostOf_setStage_host h.wf hm hh]
      rfl
    | false =>
      rw [hostOf_setStage_client h.wf hm hh, ← h.host, if_neg]
      intro hi
      rw [hiff, h.host, Roster.hostOf_eq_some h.wf] at hi
      obtain ⟨n, hn, hnh, -⟩ := hi
      rw [hn] at hm
      cases hm
      simp [Peer.member, hh] at hnh

/-! ## Every step -/

theorem reportPeerPong_fst (s : Session) (peerId timestamp now : Int) :
    ∃ time id since, (s.reportPeerPong peerId timestamp now).1 =
      { s with
        pingBestTime := time
        pingBestPeerId := id
        pingBestPeerSinceTimestamp := since } := by
  unfold reportPeerPong
  split
  · exact ⟨_, _, _, rfl⟩
  · simp only
    split
    · split <;> exact ⟨_, _, _, rfl⟩
    · exact ⟨_, _, _, rfl⟩

/-- A handler's first section leaves the membership alone, and its peer is still inside. -/
theorem reacts_frame {i : PeerRef} {peerId now : Int} {message : MessageDto} {task : Task}
    (h : Reacts s i peerId message now s' task es) :
    s'.objects = s.objects ∧ s'.peers = s.peers ∧ s'.host = s.host ∧ s'.roster = s.roster ∧
      task.stage = .inside ∧ es.filterMap Event.roster? = [] := by
  cases h with
  | pong timestamp =>
    obtain ⟨time, id, since, he⟩ := reportPeerPong_fst s peerId timestamp now
    rw [he]
    exact ⟨rfl, rfl, rfl, rfl, rfl, rfl⟩
  | error e => exact ⟨rfl, rfl, rfl, rfl, rfl, rfl⟩
  | broadcast hc hm => exact ⟨rfl, rfl, rfl, rfl, rfl, rfl⟩
  | direct dm ids hc hd hids hm => exact ⟨rfl, rfl, rfl, rfl, rfl, rfl⟩
  | event hc hm => exact ⟨rfl, rfl, rfl, rfl, rfl, rfl⟩
  | select h ids hc hh hid hids hm => exact ⟨rfl, rfl, rfl, rfl, rfl, rfl⟩
  | toHost h hc hh hid hm => exact ⟨rfl, rfl, rfl, rfl, rfl, rfl⟩

theorem reacts_pinger {i : PeerRef} {peerId now : Int} {message : MessageDto} {task : Task}
    (h : Reacts s i peerId message now s' task es) : s'.pinger = s.pinger := by
  cases h with
  | pong timestamp =>
    obtain ⟨time, id, since, he⟩ := reportPeerPong_fst s peerId timestamp now
    rw [he]
  | _ => rfl

theorem reacts_static {i : PeerRef} {peerId now : Int} {message : MessageDto} {task : Task}
    (h : Reacts s i peerId message now s' task es) :
    s'.id = s.id ∧ s'.config = s.config ∧ es.countP Event.isCreated = 0 := by
  cases h with
  | pong timestamp =>
    obtain ⟨time, id, since, he⟩ := reportPeerPong_fst s peerId timestamp now
    rw [he]
    exact ⟨rfl, rfl, rfl⟩
  | _ => exact ⟨rfl, rfl, rfl⟩

theorem countP_tellHost (s : Session) (notice : Notice) :
    (s.tellHost notice).countP Event.isCreated = 0 := by
  unfold tellHost
  cases s.host <;> rfl

/-- What no step changes, and the one event that comes with a new peer. -/
theorem step_static {a : Op} (hs : s.step a = some (s', es)) :
    s'.id = s.id ∧ s'.config = s.config ∧
      s'.objects.length = s.objects.length + es.countP Event.isCreated := by
  cases step_cases hs with
  | findSession => exact ⟨rfl, rfl, rfl⟩
  | newPeer k isHost hk => exact ⟨rfl, rfl, by simp [Event.isCreated]⟩
  | advance i p c s' es hp ha =>
    cases ha with
    | add ht hm =>
      have he : (s.addPeer i p.peerId p.isHost).2.countP Event.isCreated = 0 := by
        rw [addPeer_snd]
        split
        · rfl
        · exact countP_tellHost s _
      rw [List.countP_cons_of_neg (by simp [Event.isCreated]), he, addPeer_fst]
      exact ⟨rfl, rfl, List.length_set⟩
    | remove ht hm =>
      have he : (s.removePeerById p.peerId).2.2.countP Event.isCreated = 0 :=
        countP_tellHost (s.removePeerById p.peerId).1 _
      rw [List.countP_cons_of_neg (by simp [Event.isCreated]), he, removePeerById_fst]
      exact ⟨rfl, rfl, List.length_set⟩
    | _ => exact ⟨rfl, rfl, List.length_set⟩
  | handle i p message now s₁ task es hp ht hr =>
    obtain ⟨hi, hc, he⟩ := reacts_static hr
    have ho := (reacts_frame hr).1
    rw [List.countP_cons_of_neg (by simp [Event.isCreated]), he]
    exact ⟨hi, hc, by rw [setTask, setPeer, List.length_set, ho]; rfl⟩
  | close i p hp ht => exact ⟨rfl, rfl, List.length_set⟩
  | tick c now s' es hk =>
    cases hk with
    | check timestamp rest j p hpg hc hp hf => exact ⟨rfl, rfl, List.length_set⟩
    | drop timestamp rest j p hpg hc hp hf => exact ⟨rfl, rfl, List.length_set⟩
    | _ => exact ⟨rfl, rfl, rfl⟩

theorem tellHost_roster (h : s.host = s.roster.hostOf) (notice : Notice) :
    (s.tellHost notice).filterMap Event.roster? = s.roster.tell notice := by
  unfold tellHost Roster.tell
  rw [h]
  cases s.roster.hostOf with
  | none => rfl
  | some k => simp [Event.roster?]

theorem isEmpty_roster (h : Agrees s) : s.peers.isEmpty = s.roster.isEmpty := by
  rw [Bool.eq_iff_iff, UnorderedMap.isEmpty_iff, Roster.isEmpty_iff]
  constructor
  · intro hp i m hm hin
    have := (h.peers m.peerId i).mpr ⟨m, hm, rfl, hin⟩
    rw [hp] at this
    cases this
  · intro hr k
    by_contra hne
    obtain ⟨i, hi⟩ := Option.ne_none_iff_exists'.mp hne
    obtain ⟨m, hm, -, hin⟩ := (h.peers k i).mp hi
    exact hr i m hm hin

theorem roster_add {i : Nat} {p : Peer} (h : Agrees s) (hp : s.objects[i]? = some p)
    (ht : p.task = .adding) :
    s.roster.step (.add i) =
      some (((s.addPeer i p.peerId p.isHost).1.setTask i p .greeting).roster,
        (Event.joined i p.isHost :: (s.addPeer i p.peerId p.isHost).2).filterMap
          Event.roster?) := by
  have hm : s.roster.members[i]? = some p.member := by rw [getElem?_roster, hp]; rfl
  have hst : p.member.stage = .coming := by simp [Peer.member, ht, Task.stage]
  have hr : ((s.addPeer i p.peerId p.isHost).1.setTask i p .greeting).roster =
      s.roster.setStage i p.member .inside := by
    rw [roster_setTask, addPeer_fst]
    rfl
  have he : (s.addPeer i p.peerId p.isHost).2.filterMap Event.roster? =
      if p.isHost then [] else s.roster.tell (.joined p.peerId) := by
    cases hh : p.isHost with
    | true => rfl
    | false => exact tellHost_roster h.host (.joined p.peerId)
  simp only [Roster.step, hm, if_pos hst, hr, List.filterMap_cons, Event.roster?, he]
  rfl

theorem roster_remove {i : Nat} {p : Peer} (h : Agrees s) (hp : s.objects[i]? = some p)
    (ht : p.task = .removing) :
    s.roster.step (.remove i) =
      some (((s.removePeerById p.peerId).1.setTask i p .removed).roster,
        (Event.left i (s.removePeerById p.peerId).2.1 ::
          (s.removePeerById p.peerId).2.2).filterMap Event.roster?) := by
  have hm : s.roster.members[i]? = some p.member := by rw [getElem?_roster, hp]; rfl
  have hst : p.member.stage = .inside := by simp [Peer.member, ht, Task.stage]
  have hA : Agrees ((s.removePeerById p.peerId).1.setTask i p .removed) :=
    agrees_remove h hp (by rw [ht]; rfl) rfl
  have hr : ((s.removePeerById p.peerId).1.setTask i p .removed).roster =
      s.roster.setStage i p.member .gone := by
    rw [roster_setTask, removePeerById_fst]
    rfl
  have hempty : (s.removePeerById p.peerId).2.1 = (s.roster.setStage i p.member .gone).isEmpty := by
    rw [← hr, ← isEmpty_roster hA]
    rfl
  have he : (s.removePeerById p.peerId).2.2.filterMap Event.roster? =
      (s.roster.setStage i p.member .gone).tell (.left p.peerId) := by
    rw [← hr, ← tellHost_roster hA.host]
    rfl
  simp only [Roster.step, hm, if_pos hst, hr, List.filterMap_cons, Event.roster?, he, hempty]
  rfl

/-- A peer that waits before `addPeer` is not in the map. -/
theorem agrees_newPeer {peer : Peer} {counter : Int} {lookups : List Bool}
    (h : Agrees s) (hst : peer.task.stage = .coming)
    (hwf : Roster.Wf ⟨counter, lookups, s.roster.members ++ [peer.member]⟩) :
    Agrees { s with
      peerIdCounter := counter
      lookups := lookups
      objects := s.objects ++ [peer] } := by
  have hr : Session.roster { s with
      peerIdCounter := counter
      lookups := lookups
      objects := s.objects ++ [peer] } =
        ⟨counter, lookups, s.roster.members ++ [peer.member]⟩ := by
    simp [roster]
  refine ⟨?_, ?_, by rw [hr]; exact hwf⟩
  · intro k i
    rw [hr]
    refine (h.peers k i).trans ?_
    constructor
    · rintro ⟨m, hm, hid, hin⟩
      have hlt := (List.getElem?_eq_some_iff.mp hm).1
      exact ⟨m, by rw [List.getElem?_append_left hlt, hm], hid, hin⟩
    · rintro ⟨m, hm, hid, hin⟩
      rw [List.getElem?_append] at hm
      split at hm
      · exact ⟨m, hm, hid, hin⟩
      · have := List.mem_of_getElem? hm
        simp only [List.mem_singleton] at this
        subst this
        simp [Peer.member, hst] at hin
  · rw [hr]
    have hno : (peer.member.isHost && peer.member.stage == .inside) = false := by
      simp [Peer.member, hst]
    show s.host = _
    rw [h.host]
    simp [Roster.hostOf, List.findIdx?_append, hno]

theorem member_countPing (p : Peer) (timestamp : Int) :
    (countPing p timestamp).member = p.member := by
  unfold countPing
  split <;> rfl

theorem task_countPing (p : Peer) (timestamp : Int) :
    (countPing p timestamp).task = p.task := by
  unfold countPing
  split <;> rfl

theorem rosterOp_add {a : Op} {i : Nat} (h : s.rosterOp a = some (.add i)) :
    ∃ c p, a = .advance i c ∧ s.objects[i]? = some p ∧ p.task = .adding := by
  cases a with
  | advance j c =>
    obtain ⟨p, hp, ht⟩ := Option.bind_eq_some_iff.mp h
    cases hpt : p.task with
    | adding =>
      rw [hpt] at ht
      cases ht
      exact ⟨c, p, rfl, hp, hpt⟩
    | _ => rw [hpt] at ht; cases ht
  | _ => cases h

/-- Every step of the session is its step of the roster, or none. -/
theorem step_roster {a : Op} (h : Agrees s) (hs : s.step a = some (s', es)) :
    Agrees s' ∧ Roster.machine.run (s.rosterOp a).toList [] s.roster =
      some (es.filterMap Event.roster?, s'.roster) := by
  -- a step that leaves the map, the host and the roster alone
  have hquiet : s.rosterOp a = none → es.filterMap Event.roster? = [] → s'.roster = s.roster →
      s'.peers = s.peers → s'.host = s.host → Agrees s' ∧
      Roster.machine.run (s.rosterOp a).toList [] s.roster =
        some (es.filterMap Event.roster?, s'.roster) := by
    intro ho he hr hp hh
    refine ⟨agrees_of_same h hr hp hh, ?_⟩
    rw [ho, he, hr]
    rfl
  cases step_cases hs with
  | findSession =>
    have hr : s.roster.step .findSession =
        some ({ s with lookups := s.lookups ++ [false] : Session }.roster, []) := rfl
    refine ⟨⟨h.peers, h.host, Roster.wf_step h.wf hr⟩, run_singleton hr⟩
  | newPeer k isHost hk =>
    have hr : s.roster.step (.newPeer k) = some (Session.roster
        { s with
          peerIdCounter := s.peerIdCounter + 1
          lookups := s.lookups.eraseIdx k
          objects := s.objects ++ [{ peerId := s.peerIdCounter, isHost := isHost }] },
        [.created s.objects.length s.peerIdCounter isHost]) := by
      simp [Roster.step, roster, hk, Peer.member, Task.stage]
    exact ⟨agrees_newPeer h rfl (Roster.wf_newPeer h.wf hk), run_singleton hr⟩
  | advance i p c s' es hp ha =>
    have hop : s.rosterOp (.advance i c) = p.task.rosterOp i := by
      simp only [rosterOp, hp, Option.bind_some]
    cases ha with
    | add ht hm =>
      refine ⟨agrees_add h hp (by rw [ht]; rfl) rfl, ?_⟩
      rw [hop, ht]
      exact run_singleton (roster_add h hp ht)
    | remove ht hm =>
      refine ⟨agrees_remove h hp (by rw [ht]; rfl) rfl, ?_⟩
      rw [hop, ht]
      exact run_singleton (roster_remove h hp ht)
    | record timestamp pingTime ht =>
      have hmem : ({ recordPong p timestamp pingTime with task := .listening } : Peer).member =
          p.member := by
        unfold recordPong Peer.member
        rw [ht]
        split <;> rfl
      exact hquiet (by rw [hop, ht]; rfl) rfl (roster_setPeer hp hmem) rfl rfl
    | done ht =>
      obtain ⟨payload, ht⟩ | ht := ht
      · exact hquiet (by rw [hop, ht]; rfl) rfl (roster_quiet hp (by rw [ht]; rfl)) rfl rfl
      · exact hquiet (by rw [hop, ht]; rfl) rfl (roster_quiet hp (by rw [ht]; rfl)) rfl rfl
    | greet ht =>
      exact hquiet (by rw [hop, ht]; rfl) rfl (roster_quiet hp (by rw [ht]; rfl)) rfl rfl
    | send recipients payload c j ht hj =>
      exact hquiet (by rw [hop, ht]; rfl) rfl (roster_quiet hp (by rw [ht]; rfl)) rfl rfl
    | event recipients event c j ht hj =>
      exact hquiet (by rw [hop, ht]; rfl) rfl (roster_quiet hp (by rw [ht]; rfl)) rfl rfl
    | eventDone event ht =>
      exact hquiet (by rw [hop, ht]; rfl) rfl (roster_quiet hp (by rw [ht]; rfl)) rfl rfl
    | select peerIds ht hm =>
      exact hquiet (by rw [hop, ht]; rfl) rfl (roster_quiet hp (by rw [ht]; rfl)) rfl rfl
    | kick targets c j ht hj =>
      exact hquiet (by rw [hop, ht]; rfl) rfl (roster_quiet hp (by rw [ht]; rfl)) rfl rfl
    | clear ht =>
      exact hquiet (by rw [hop, ht]; rfl) rfl (roster_quiet hp (by rw [ht]; rfl)) rfl rfl
  | handle i p message now s₁ task es hp ht hr =>
    obtain ⟨ho, hpe, hh, hro, hst, he⟩ := reacts_frame hr
    refine hquiet rfl ?_ ?_ hpe hh
    · exact he
    · rw [← hro]
      exact roster_quiet (by rw [ho, hp]) (by rw [hst, ht]; rfl)
  | close i p hp ht =>
    exact hquiet rfl rfl (roster_quiet hp (by rw [ht]; rfl)) rfl rfl
  | tick c now s' es hk =>
    cases hk with
    | check timestamp rest j p hpg hc hp hf =>
      exact hquiet rfl rfl (roster_setPeer hp (member_countPing p timestamp)) rfl rfl
    | drop timestamp rest j p hpg hc hp hf =>
      exact hquiet rfl rfl (roster_setPeer hp (member_countPing p timestamp)) rfl rfl
    | _ => exact hquiet rfl rfl rfl rfl rfl

end Session
end Helicopter
