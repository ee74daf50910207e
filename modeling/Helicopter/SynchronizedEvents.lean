import Helicopter.Lib.Broadcast
import Helicopter.PeersMutex
import Helicopter.Room

/-! Synchronized events are totally ordered. The session's counter and the one loop under
`m_peersMutex` are a sequencer; the queues only drop messages from what they are offered. -/
namespace Helicopter
open Interleaving

namespace Session
variable {s s' : Session} {es : List Event}

structure Follows (s : Session)
    (b : Broadcast.Sequencer PeerRef OutgoingSynchronizedMessageDto) : Prop where
  next : b.next = s.synchronizedEventId
  current : ∀ R e, b.current = some (R, e) ↔
    ∃ (i : Nat) (p : Peer), s.objects[i]? = some p ∧ p.task = .broadcasting R e

def Event.broadcast? : Event → Option (Broadcast.Event PeerRef OutgoingSynchronizedMessageDto)
  | .broadcast e members => some (.started e members)
  | .offer j m => m.event?.map (.offered j)
  | _ => none

variable {b : Broadcast.Sequencer PeerRef OutgoingSynchronizedMessageDto}

theorem follows_init (id : String) (config : GameConfigDto) :
    Follows { id := id, config := config } {} :=
  ⟨rfl, fun R e => by simp⟩

/-- No broadcast starts, moves or ends. -/
theorem follows_setPeer {i : Nat} {p q : Peer} (h : Follows s b) (hp : s.objects[i]? = some p)
    (ho : s'.objects = (s.setPeer i q).objects)
    (hq : ∀ R e, q.task = .broadcasting R e ↔ p.task = .broadcasting R e)
    (hn : s'.synchronizedEventId = s.synchronizedEventId) : Follows s' b := by
  refine ⟨h.next.trans hn.symm, ?_⟩
  intro R e
  rw [h.current, ho]
  constructor
  · rintro ⟨j, r, hj, hr⟩
    by_cases hji : j = i
    · subst hji
      rw [hp] at hj
      cases hj
      exact ⟨j, q, by rw [objects_setPeer hp, if_pos rfl], (hq R e).mpr hr⟩
    · exact ⟨j, r, by rw [objects_setPeer hp, if_neg hji, hj], hr⟩
  · rintro ⟨j, r, hj, hr⟩
    rw [objects_setPeer hp] at hj
    split at hj
    · cases hj
      exact ⟨i, p, hp, (hq R e).mp hr⟩
    · exact ⟨j, r, hj, hr⟩

/-- Only the peer `i` is in the loop of a broadcast, if any: it enters, moves on or leaves. -/
theorem follows_holder {i : Nat} {p q : Peer}
    {current : Option (List PeerRef × OutgoingSynchronizedMessageDto)}
    (hother : ∀ (j : Nat) (r : Peer), s.objects[j]? = some r → r.task.holds = true → j = i)
    (hp : s.objects[i]? = some p) (ho : s'.objects = (s.setPeer i q).objects)
    (hq : ∀ R e, current = some (R, e) ↔ q.task = .broadcasting R e)
    (R : List PeerRef) (e : OutgoingSynchronizedMessageDto) :
    current = some (R, e) ↔
      ∃ (j : Nat) (r : Peer), s'.objects[j]? = some r ∧ r.task = .broadcasting R e := by
  rw [hq, ho]
  constructor
  · intro hqt
    exact ⟨i, q, by rw [objects_setPeer hp, if_pos rfl], hqt⟩
  · rintro ⟨j, r, hj, hr⟩
    rw [objects_setPeer hp] at hj
    split at hj
    · cases hj
      exact hr
    · next hji => exact absurd (hother j r hj (by rw [hr]; rfl)) hji

theorem broadcast?_tellHost (s : Session) (notice : Notice) :
    (s.tellHost notice).filterMap Event.broadcast? = [] := by
  unfold tellHost
  cases s.host <;> simp [Event.broadcast?]

/-- A task outside the loop of a broadcast carries none. -/
theorem not_broadcasting {task task' : Task} (h : task.holds = false) (h' : task'.holds = false)
    (R : List PeerRef) (e : OutgoingSynchronizedMessageDto) :
    task = .broadcasting R e ↔ task' = .broadcasting R e := by
  constructor
  · intro ht
    rw [ht] at h
    cases h
  · intro ht
    rw [ht] at h'
    cases h'

def Sequences (b : Broadcast.Sequencer PeerRef OutgoingSynchronizedMessageDto) (es : List Event)
    (s' : Session) : Prop :=
  ∃ w b', (Broadcast.machine _ _ OutgoingSynchronizedMessageDto.eventId).run w [] b =
    some (es.filterMap Event.broadcast?, b') ∧ Follows s' b'

theorem sequences_none (he : es.filterMap Event.broadcast? = []) (h : Follows s' b) :
    Sequences b es s' :=
  ⟨[], b, by rw [he]; rfl, h⟩

/-- The thread of the peer is outside the loop before and after. -/
theorem sequences_outside {i : Nat} {p q : Peer} (h : Follows s b)
    (hp : s.objects[i]? = some p) (hpt : p.task.holds = false) (hqt : q.task.holds = false)
    (ho : s'.objects = (s.setPeer i q).objects)
    (hn : s'.synchronizedEventId = s.synchronizedEventId)
    (he : es.filterMap Event.broadcast? = []) : Sequences b es s' :=
  sequences_none he (follows_setPeer h hp ho (not_broadcasting hqt hpt) hn)

theorem follows_advance {i : PeerRef} {p : Peer} (hl : Locked s) (h : Follows s b)
    (hp : s.objects[i]? = some p) (ha : Advances s i p s' es) : Sequences b es s' := by
  have hother : p.task.holds = true → ∀ (j : Nat) (r : Peer), s.objects[j]? = some r →
      r.task.holds = true → j = i :=
    fun hh j r hj hr => hl.single j i r p hj hp hr hh
  cases ha with
  | add ht hm =>
    refine sequences_outside (q := { p with task := .greeting }) h hp (by rw [ht]; rfl) rfl
      (by rw [addPeer_fst]; rfl) (by rw [addPeer_fst]; rfl) ?_
    rw [List.filterMap_cons_none rfl, addPeer_snd]
    split
    · rfl
    · exact broadcast?_tellHost s _
  | remove ht hm =>
    refine sequences_outside (q := { p with task := .removed }) h hp (by rw [ht]; rfl) rfl
      (by rw [removePeerById_fst]; rfl) (by rw [removePeerById_fst]; rfl) ?_
    rw [List.filterMap_cons_none rfl]
    exact broadcast?_tellHost (s.removePeerById p.peerId).1 _
  | record timestamp pingTime ht =>
    exact sequences_outside (q := { recordPong p timestamp pingTime with task := .listening })
      h hp (by rw [ht]; rfl) rfl rfl rfl rfl
  | greet ht => exact sequences_outside h hp (by rw [ht]; rfl) rfl rfl rfl rfl
  | send recipients payload c j ht hj =>
    exact sequences_outside h hp (by rw [ht]; rfl) rfl rfl rfl rfl
  | select peerIds ht hm => exact sequences_outside h hp (by rw [ht]; rfl) rfl rfl rfl rfl
  | kick targets c j ht hj => exact sequences_outside h hp (by rw [ht]; rfl) rfl rfl rfl rfl
  | clear ht => exact sequences_outside h hp (by rw [ht]; rfl) rfl rfl rfl rfl
  | done ht =>
    refine sequences_outside h hp ?_ rfl rfl rfl rfl
    obtain ⟨payload, ht⟩ | ht := ht <;> rw [ht] <;> rfl
  | event R e c j ht hj =>
    have hcur : b.current = some (R, e) := (h.current R e).mpr ⟨i, p, hp, ht⟩
    refine ⟨[.offer c], ⟨b.next, some (R.eraseIdx c, e)⟩, ?_, h.next, ?_⟩
    · refine run_singleton (t := []) ?_
      simp [Broadcast.machine, Broadcast.step, hcur, hj]
    · refine follows_holder (q := { p with task := .broadcasting (R.eraseIdx c) e })
        (hother (by rw [ht]; rfl)) hp rfl ?_
      intro R' e'
      simp
  | eventDone e ht =>
    have hcur : b.current = some ([], e) := (h.current [] e).mpr ⟨i, p, hp, ht⟩
    refine ⟨[.finish], ⟨b.next, none⟩, ?_, h.next, ?_⟩
    · refine run_singleton (t := []) ?_
      simp [Broadcast.machine, Broadcast.step, hcur]
    · refine follows_holder (q := { p with task := .listening })
        (hother (by rw [ht]; rfl)) hp rfl ?_
      intro R' e'
      simp

/-- While the mutex is free, no broadcast is on offer. -/
theorem current_of_free (hl : Locked s) (h : Follows s b) (hm : s.peersMutex = false) :
    b.current = none := by
  by_contra hne
  obtain ⟨⟨R, e⟩, hcur⟩ := Option.ne_none_iff_exists'.mp hne
  obtain ⟨j, q, hq, hqt⟩ := (h.current R e).mp hcur
  have := (hl.free hm).2 j q hq
  rw [hqt] at this
  cases this

theorem follows_handle {i : PeerRef} {p : Peer} {message : MessageDto} {now : Int} {task : Task}
    (hA : Agrees s) (hl : Locked s) (h : Follows s b) (hp : s.objects[i]? = some p)
    (ht : p.task = .listening) (hre : Reacts s i p.peerId message now s' task es) :
    Sequences b (.handled i message :: es) (s'.setTask i p task) := by
  have hob : (s'.setTask i p task).objects = (s.setTask i p task).objects := by
    simp only [setTask, setPeer, (reacts_frame hre).1]
  have hph : p.task.holds = false := by rw [ht]; rfl
  cases hre with
  | event hc hm =>
    have hnone := current_of_free hl h hm
    let e := (s.nextSynchronizedEvent p.peerId message.retrieveString).2
    refine ⟨[.start e s.getAllPeers], ⟨b.next + 1, some (s.getAllPeers, e)⟩, ?_, ?_, ?_⟩
    · refine run_singleton (t := []) ?_
      simp only [Broadcast.machine, Broadcast.step, hnone]
      rw [if_pos ⟨h.next.symm, nodup_getAllPeers hA⟩]
      rfl
    · rw [h.next]
      rfl
    · refine follows_holder (q := { p with task := .broadcasting s.getAllPeers e })
        (fun j r hj hr => ?_) hp hob fun R' e' => by simp
      rw [(hl.free hm).2 j r hj] at hr
      cases hr
  | pong timestamp =>
    refine sequences_outside h hp hph rfl hob ?_ rfl
    obtain ⟨time, id, since, he⟩ := reportPeerPong_fst s p.peerId timestamp now
    rw [he]
    rfl
  | error e => exact sequences_outside h hp hph rfl hob rfl rfl
  | broadcast hc hm => exact sequences_outside h hp hph rfl hob rfl rfl
  | direct dm ids hc hd hids hm => exact sequences_outside h hp hph rfl hob rfl rfl
  | select k ids hc hk hid hids hm => exact sequences_outside h hp hph rfl hob rfl rfl
  | toHost k hc hk hid hm => exact sequences_outside h hp hph rfl hob rfl rfl

/-- Every step of the session is its step of the sequencer, or none. -/
theorem step_follows {a : Op} (hA : Agrees s) (hl : Locked s) (h : Follows s b)
    (hs : s.step a = some (s', es)) : Sequences b es s' := by
  cases step_cases hs with
  | findSession => exact sequences_none rfl ⟨h.next, h.current⟩
  | newPeer k isHost hk =>
    refine sequences_none rfl ⟨h.next, ?_⟩
    intro R e
    rw [h.current]
    constructor
    · rintro ⟨i, p, hp, ht⟩
      have hlt := (List.getElem?_eq_some_iff.mp hp).1
      exact ⟨i, p, by rw [List.getElem?_append_left hlt, hp], ht⟩
    · rintro ⟨i, p, hp, ht⟩
      rw [getElem?_snoc] at hp
      split at hp
      · cases hp
        cases ht
      · exact ⟨i, p, hp, ht⟩
  | advance i p c s' es hp ha => exact follows_advance hl h hp ha
  | handle i p message now s₁ task es hp ht hre => exact follows_handle hA hl h hp ht hre
  | close i p hp ht => exact sequences_outside h hp (by rw [ht]; rfl) rfl rfl rfl rfl
  | tick c now s' es hk =>
    cases hk with
    | check timestamp rest j p ht hc hp hf =>
      exact sequences_none rfl (follows_setPeer h hp rfl (fun R e => by rw [task_countPing]) rfl)
    | drop timestamp rest j p ht hc hp hf =>
      exact sequences_none rfl (follows_setPeer h hp rfl (fun R e => by rw [task_countPing]) rfl)
    | _ => exact sequences_none rfl ⟨h.next, h.current⟩

theorem simulates_sequencer :
    Simulates machine (Broadcast.machine _ _ OutgoingSynchronizedMessageDto.eventId)
      (fun s b => Agrees s ∧ Locked s ∧ Follows s b) Event.broadcast? := by
  intro s a s' es b hs h
  obtain ⟨w, b', hw, hf⟩ := step_follows h.1 h.2.1 h.2.2 hs
  exact ⟨w, b', hw, (step_roster h.1 hs).1, step_locked h.2.1 hs, hf⟩

/-- A run of the session is a run of the sequencer. -/
theorem run_sequenced {id : String} {config : GameConfigDto} {w : List Op} {t : List Event}
    (hr : machine.run w [] { id := id, config := config } = some (t, s)) :
    ∃ b, Follows s b ∧ Broadcast.Sequenced OutgoingSynchronizedMessageDto.eventId
      (t.filterMap Event.broadcast?) b := by
  obtain ⟨v, b, hv, -, -, hf⟩ := simulates_sequencer.run
    ⟨agrees_init id config, locked_init id config, follows_init id config⟩ hr
  exact ⟨b, hf, Broadcast.run_sequenced hv⟩

theorem offeredTo_broadcast (j : PeerRef) (t : List Event) :
    Broadcast.offeredTo j (t.filterMap Event.broadcast?) =
      (offersTo j t).filterMap MessageDto.event? := by
  unfold Broadcast.offeredTo offersTo
  rw [List.filterMap_filterMap, List.filterMap_filterMap]
  congr 1
  funext e
  cases e with
  | offer i m =>
    by_cases hi : i = j
    · cases hm : m.event? <;>
        simp [Event.broadcast?, Event.offerTo?, Broadcast.Event.offeredTo?, hi, hm]
    · cases hm : m.event? <;>
        simp [Event.broadcast?, Event.offerTo?, Broadcast.Event.offeredTo?, hi, hm]
  | _ => rfl

/-- A broadcast goes to everyone in the map when it starts. -/
theorem broadcast_members {a : Op} {e : OutgoingSynchronizedMessageDto} {L : List PeerRef}
    (hs : s.step a = some (s', es)) (he : .broadcast e L ∈ es) : L = s.getAllPeers := by
  cases step_cases hs with
  | handle i p message now s₁ task es hp ht hre =>
    cases hre with
    | event hc hm =>
      simp only [List.mem_cons, reduceCtorEq, List.not_mem_nil, or_false, false_or,
        Event.broadcast.injEq] at he
      exact he.2
    | _ => simp at he
  | advance i p c s' es hp ha =>
    cases ha with
    | add ht hm =>
      rw [addPeer_snd] at he
      split at he
      · simp at he
      · obtain ⟨k, -, hk⟩ := mem_tellHost.mp (by simpa using he)
        cases hk
    | remove ht hm =>
      obtain ⟨-, k, -, hk⟩ := mem_removePeerById.mp (by simpa using he)
      cases hk
    | _ => simp at he
  | tick c now s' es hk => cases hk <;> simp at he
  | _ => simp at he

end Session

namespace Room
variable {id : String} {config : GameConfigDto} {t : List Event} {r : Room}

def handedEvents (j : PeerRef) (t : List Event) : List OutgoingSynchronizedMessageDto :=
  (Channel.popped (channel j t)).filterMap MessageDto.event?

theorem handedEvents_sublist (h : Reached id config t r) (j : PeerRef) :
    (handedEvents j t).Sublist
      ((Session.offersTo j (sessionPart t)).filterMap MessageDto.event?) :=
  ((h.popped_sublist j).trans (h.accepted_sublist j)).filterMap _

/-- An offer is accepted, or rejected by a queue that holds the maximum. -/
theorem offer_answered {j : PeerRef} {m : MessageDto} (h : Reached id config t r)
    (hm : m ∈ Session.offersTo j (sessionPart t)) :
    .accepted m ∈ channel j t ∨ .rejected m config.maxQueuedMessages ∈ channel j t := by
  obtain ⟨q, hq⟩ := h.accounted j
  rw [← h.offers j] at hm
  obtain ⟨e, he, hem⟩ := List.mem_filterMap.mp hm
  cases e with
  | accepted m' =>
    cases hem
    exact Or.inl he
  | rejected m' n =>
    cases hem
    rw [hq.full m n he] at he
    exact Or.inr he
  | popped m' => cases hem
  | cleared ms => cases hem

/-- Synchronized events are totally ordered: every socket is handed them in the order of their
numbers, a number means the same event to all, and a peer that is in `m_peers` when an event is
broadcast has it accepted or rejected by its full queue, once the loop has come to it. -/
theorem synchronized_events_ordered (id : String) (config : GameConfigDto) (w : List Op)
    (t : List Event) (r : Room) (hr : machine.run w [] (init id config) = some (t, r)) :
    (∀ j, (handedEvents j t).Pairwise fun e e' => e.eventId < e'.eventId) ∧
    (∀ i j, ∀ e ∈ handedEvents i t, ∀ e' ∈ handedEvents j t, e.eventId = e'.eventId → e = e') ∧
    (∀ i j, (handedEvents i t).filter (· ∈ handedEvents j t) =
      (handedEvents j t).filter (· ∈ handedEvents i t)) ∧
    (∀ u a v t₁ r₁ r₂ es, w = u ++ a :: v → machine.run u [] (init id config) = some (t₁, r₁) →
      r₁.step a = some (r₂, es) →
      ∀ e members, .session (.broadcast e members) ∈ es →
      ∀ peerId j, r₁.session.peers.find peerId = some j →
        (∃ m, m.event? = some e ∧ (.accepted m ∈ channel j t ∨
          .rejected m config.maxQueuedMessages ∈ channel j t)) ∨
        ∃ (i : PeerRef) (p : Peer) (R : List PeerRef), r.session.objects[i]? = some p ∧
          p.task = .broadcasting R e ∧ j ∈ R) := by
  have h := run_reached hr
  obtain ⟨v, hv⟩ := h.session
  obtain ⟨b, hf, hseq⟩ := Session.run_sequenced hv
  have hinc : ∀ j, (handedEvents j t).Pairwise fun e e' => e.eventId < e'.eventId := by
    intro j
    have hj := hseq.increasing j
    rw [Session.offeredTo_broadcast] at hj
    exact hj.sublist (handedEvents_sublist h j)
  have hstarted : ∀ j, ∀ e ∈ handedEvents j t, ∃ L, Broadcast.Event.started e L ∈
      (sessionPart t).filterMap Session.Event.broadcast? := by
    intro j e he
    refine hseq.known j e ?_
    rw [Session.offeredTo_broadcast]
    exact (handedEvents_sublist h j).subset he
  refine ⟨hinc, ?_, fun i j => Broadcast.filter_mem_comm (hinc i) (hinc j), ?_⟩
  · intro i j e he e' he' hid
    obtain ⟨L, hL⟩ := hstarted i e he
    obtain ⟨L', hL'⟩ := hstarted j e' he'
    exact hseq.unique e e' L L' hL hL' hid
  · intro u a v t₁ r₁ r₂ es hw hu ha e members he peerId j hj
    have hmem : j ∈ members := by
      obtain ⟨b, -, hs⟩ | ⟨-, -, hnil⟩ := step_session ha
      · rw [Session.broadcast_members hs (mem_sessionPart.mpr he)]
        exact UnorderedMap.mem_values.mpr ⟨peerId, hj⟩
      · have := mem_sessionPart.mpr he
        rw [hnil] at this
        cases this
    have hpre : (t₁ ++ es) <+: t := by
      rw [hw, run_append, hu] at hr
      have hrest : machine.run (a :: v) t₁ r₁ = some (t, r) := hr
      rw [run_cons ha] at hrest
      exact run_prefix hrest
    have hst : Broadcast.Event.started e members ∈
        (sessionPart t).filterMap Session.Event.broadcast? := by
      refine List.mem_filterMap.mpr ⟨.broadcast e members, ?_, rfl⟩
      exact mem_sessionPart.mpr (hpre.subset (List.mem_append_right t₁ he))
    obtain hd | ⟨R, hR, hjR⟩ := hseq.delivered e members j hst hmem
    · rw [Session.offeredTo_broadcast] at hd
      obtain ⟨m, hm, hme⟩ := List.mem_filterMap.mp hd
      exact Or.inl ⟨m, hme, offer_answered h hm⟩
    · obtain ⟨i, p, hp, ht⟩ := (hf.current R e).mp hR
      exact Or.inr ⟨i, p, R, hp, ht, hjR⟩

def twoEvents : List Op :=
  let event : IncomingMessage :=
    ⟨⟨some .incomingSynchronizedEvent, some (.string "data"), none⟩, fun p hp => by cases hp; rfl⟩
  [.session (.newPeer 0), .session (.advance 0 0), .session (.advance 0 0),
    .session .findSession, .session (.newPeer 0), .session (.advance 1 0),
    .session (.advance 1 0), .session (.handle 1 event 0), .session (.advance 1 0),
    .session (.advance 1 0), .session (.advance 1 0), .session (.handle 0 event 0),
    .session (.advance 0 1), .session (.advance 0 0), .session (.advance 0 0),
    .act 0 0, .send 0 0 true, .act 0 0, .send 0 0 false, .act 0 0, .send 0 0 true, .act 0 0,
    .act 1 0, .send 1 0 true, .act 1 0, .send 1 0 true, .act 1 0]

theorem synchronized_events_ordered_two :
    ∃ t r, machine.run twoEvents [] (init "lobby" {}) = some (t, r) ∧
      (handedEvents 0 t).map (·.eventId) = [0, 1] ∧ (handedEvents 1 t).map (·.eventId) = [0, 1] ∧
      (∀ j, (handedEvents j t).Pairwise fun e e' => e.eventId < e'.eventId) :=
  ⟨_, _, rfl, rfl, rfl, (synchronized_events_ordered "lobby" {} twoEvents _ _ rfl).1⟩

end Room
end Helicopter
