import Helicopter.SynchronizedEvents
import Helicopter.PingRules
import Helicopter.HostView
import Helicopter.EachSession
import Helicopter.Delivery
import Mathlib.Data.List.TakeWhile

/-! What the members of a session know when the server has come to rest. They agree on the
synchronized events, each from its joining on, and the host knows who else is a member. -/
namespace Helicopter
open Interleaving

namespace Session
variable {s s' : Session} {t es : List Event} {i j : PeerRef}

def broadcasts (t : List Event) : List OutgoingSynchronizedMessageDto :=
  Broadcast.started (t.filterMap Event.broadcast?)

def eventsDue (j : PeerRef) (t : List Event) : List OutgoingSynchronizedMessageDto :=
  Broadcast.due j (t.filterMap Event.broadcast?)

def Event.joins (j : PeerRef) : Event → Bool
  | .joined i _ => i == j
  | _ => false

def broadcastsBefore (j : PeerRef) (t : List Event) : Nat :=
  (broadcasts (t.takeWhile fun e => !e.joins j)).length

def stageOf (s : Session) (j : PeerRef) : Stage :=
  match s.objects[j]? with
  | some p => p.task.stage
  | none => .coming

theorem broadcasts_append (t u : List Event) :
    broadcasts (t ++ u) = broadcasts t ++ broadcasts u := by
  simp [broadcasts, Broadcast.started]

theorem eventsDue_append (j : PeerRef) (t u : List Event) :
    eventsDue j (t ++ u) = eventsDue j t ++ eventsDue j u := by
  simp [eventsDue, Broadcast.due]

theorem broadcastsBefore_le (j : PeerRef) (t : List Event) :
    broadcastsBefore j t ≤ (broadcasts t).length := by
  have hsplit := List.takeWhile_append_dropWhile (p := fun e : Event => !e.joins j) (l := t)
  have hall := congrArg (fun u => (broadcasts u).length) hsplit
  simp only [broadcasts_append, List.length_append] at hall
  unfold broadcastsBefore
  omega

/-- Who has joined has done so for good. -/
theorem broadcastsBefore_append (h : ∃ e ∈ t, e.joins j = true) :
    broadcastsBefore j (t ++ es) = broadcastsBefore j t := by
  unfold broadcastsBefore
  rw [List.takeWhile_append]
  split
  · next hlen =>
    obtain ⟨e, he, hjoins⟩ := h
    have hwhole := (List.takeWhile_prefix fun e : Event => !e.joins j).eq_of_length hlen
    rw [← hwhole] at he
    have hnot := List.mem_takeWhile_imp he
    rw [hjoins] at hnot
    cases hnot
  · rfl

theorem broadcastsBefore_joined (h : ∀ e ∈ t, e.joins j = false) (isHost : Bool)
    (fs : List Event) :
    broadcastsBefore j (t ++ .joined j isHost :: fs) = (broadcasts t).length := by
  have hall : ∀ e ∈ t, (!e.joins j) = true := fun e he => by rw [h e he]; rfl
  rw [broadcastsBefore, List.takeWhile_append_of_pos hall,
    List.takeWhile_cons_of_neg (by simp [Event.joins]), List.append_nil]

/-! ## What a step is to one peer -/

def Event.passes (j : PeerRef) : Event → Bool
  | .broadcast _ _ => false
  | e => !e.joins j

theorem joins_of_passes {e : Event} (h : e.passes j = true) : e.joins j = false := by
  cases e with
  | joined i isHost => simpa [Event.passes] using h
  | _ => rfl

theorem started_of_passes {e : Event} (h : e.passes j = true) :
    e.broadcast?.bind Broadcast.Event.started? = none := by
  cases e with
  | offer i m => cases hm : m.event? <;> simp [Event.broadcast?, hm, Broadcast.Event.started?]
  | broadcast e members => cases h
  | _ => rfl

theorem due_of_passes {e : Event} (h : e.passes j = true) :
    e.broadcast?.bind (Broadcast.Event.due? j) = none := by
  cases e with
  | offer i m => cases hm : m.event? <;> simp [Event.broadcast?, hm, Broadcast.Event.due?]
  | broadcast e members => cases h
  | _ => rfl

theorem broadcasts_passing (h : ∀ e ∈ es, e.passes j = true) : broadcasts es = [] := by
  rw [broadcasts, Broadcast.started, List.filterMap_filterMap, List.filterMap_eq_nil_iff]
  exact fun e he => started_of_passes (h e he)

theorem eventsDue_passing (h : ∀ e ∈ es, e.passes j = true) : eventsDue j es = [] := by
  rw [eventsDue, Broadcast.due, List.filterMap_filterMap, List.filterMap_eq_nil_iff]
  exact fun e he => due_of_passes (h e he)

inductive Attends (s : Session) (j : PeerRef) (es : List Event) (s' : Session) : Prop where
  | passes : (∀ e ∈ es, e.passes j = true) →
    (s'.stageOf j = s.stageOf j ∨ s'.stageOf j = .gone) → Attends s j es s'
  | joins (isHost : Bool) (fs : List Event) : es = .joined j isHost :: fs →
    (∀ e ∈ fs, e.passes j = true) → s.stageOf j = .coming → s'.stageOf j = .inside →
    Attends s j es s'
  | broadcast (i : PeerRef) (m : MessageDto) (e : OutgoingSynchronizedMessageDto) :
    es = [.handled i m, .broadcast e s.getAllPeers] → s'.stageOf j = s.stageOf j →
    Attends s j es s'

theorem stageOf_setPeer {p q : Peer} (hp : s.objects[i]? = some p)
    (ho : s'.objects = (s.setPeer i q).objects) (j : PeerRef) :
    s'.stageOf j = if j = i then q.task.stage else s.stageOf j := by
  unfold stageOf
  rw [ho, objects_setPeer hp]
  by_cases hj : j = i
  · rw [if_pos hj, if_pos hj]
  · rw [if_neg hj, if_neg hj]

theorem stageOf_object {p : Peer} (hp : s.objects[i]? = some p) : s.stageOf i = p.task.stage := by
  rw [stageOf, hp]

theorem stageOf_inside_iff (hA : Agrees s) : j ∈ s.getAllPeers ↔ s.stageOf j = .inside := by
  constructor
  · intro hj
    obtain ⟨p, hp, hin⟩ := inside_of_mem_getAllPeers hA hj
    rw [stageOf_object hp, hin]
  · intro hin
    unfold stageOf at hin
    split at hin
    · next p hp => exact mem_getAllPeers_of_inside hA hp hin
    · cases hin

/-- A thread goes on where it is. -/
theorem attends_stays {p q : Peer} (hp : s.objects[i]? = some p)
    (hq : q.task.stage = p.task.stage) (ho : s'.objects = (s.setPeer i q).objects)
    (hes : ∀ e ∈ es, e.passes j = true) : Attends s j es s' := by
  refine .passes hes (Or.inl ?_)
  rw [stageOf_setPeer hp ho]
  split
  · next hj => rw [hj, stageOf_object hp, hq]
  · rfl

theorem attends_add {p : Peer} (hp : s.objects[i]? = some p) (ht : p.task = .adding) :
    Attends s j (.joined i p.isHost :: (s.addPeer i p.peerId p.isHost).2)
      ((s.addPeer i p.peerId p.isHost).1.setTask i p .greeting) := by
  have htold : ∀ e ∈ (s.addPeer i p.peerId p.isHost).2, e.passes j = true := by
    intro e he
    obtain ⟨k, notice, rfl⟩ := offer_of_mem_addPeer he
    rfl
  have ho : ((s.addPeer i p.peerId p.isHost).1.setTask i p .greeting).objects =
      (s.setPeer i { p with task := .greeting }).objects := by
    rw [addPeer_fst]
    rfl
  have hst := stageOf_setPeer hp ho j
  by_cases hj : i = j
  · subst hj
    rw [if_pos rfl] at hst
    exact .joins p.isHost _ rfl htold (by rw [stageOf_object hp, ht]; rfl) hst
  · rw [if_neg (Ne.symm hj)] at hst
    refine .passes ?_ (Or.inl hst)
    intro e he
    obtain rfl | he := List.mem_cons.mp he
    · simp [Event.passes, Event.joins, hj]
    · exact htold e he

theorem attends_remove {p : Peer} (hp : s.objects[i]? = some p) :
    Attends s j (.left i (s.removePeerById p.peerId).2.1 :: (s.removePeerById p.peerId).2.2)
      ((s.removePeerById p.peerId).1.setTask i p .removed) := by
  have ho : ((s.removePeerById p.peerId).1.setTask i p .removed).objects =
      (s.setPeer i { p with task := .removed }).objects := by
    rw [removePeerById_fst]
    rfl
  refine .passes ?_ ?_
  · intro e he
    obtain rfl | he := List.mem_cons.mp he
    · rfl
    · obtain ⟨k, notice, rfl⟩ := offer_of_mem_removePeerById he
      rfl
  · rw [stageOf_setPeer hp ho]
    split
    · exact Or.inr rfl
    · exact Or.inl rfl

theorem attends_advance {p : Peer} (hp : s.objects[i]? = some p) (ha : Advances s i p s' es) :
    Attends s j es s' := by
  cases ha with
  | add ht hm => exact attends_add hp ht
  | remove ht hm => exact attends_remove hp
  | done ht =>
    refine attends_stays (q := { p with task := .listening }) hp ?_ rfl (by simp)
    obtain ⟨payload, ht⟩ | ht := ht <;> rw [ht] <;> rfl
  | record timestamp pingTime ht =>
    exact attends_stays (q := { recordPong p timestamp pingTime with task := .listening }) hp
      (by rw [ht]; rfl) rfl (by simp)
  | greet ht =>
    exact attends_stays (q := { p with task := .listening }) hp (by rw [ht]; rfl) rfl
      (by simp [Event.passes, Event.joins])
  | send recipients payload c k ht hk =>
    exact attends_stays hp (by rw [ht]; rfl) rfl (by simp [Event.passes, Event.joins])
  | event recipients event c k ht hk =>
    exact attends_stays hp (by rw [ht]; rfl) rfl (by simp [Event.passes, Event.joins])
  | eventDone event ht =>
    exact attends_stays (q := { p with task := .listening }) hp (by rw [ht]; rfl) rfl (by simp)
  | select peerIds ht hm => exact attends_stays hp (by rw [ht]; rfl) rfl (by simp)
  | kick targets c k ht hk =>
    exact attends_stays hp (by rw [ht]; rfl) rfl (by simp [Event.passes, Event.joins])
  | clear ht =>
    exact attends_stays hp (by rw [ht]; rfl) rfl (by simp [Event.passes, Event.joins])

theorem step_attends {a : Op} (hs : s.step a = some (s', es)) (j : PeerRef) :
    Attends s j es s' := by
  cases step_cases hs with
  | findSession => exact .passes (by simp) (Or.inl rfl)
  | newPeer k isHost hk =>
    refine .passes (by simp [Event.passes, Event.joins]) (Or.inl ?_)
    simp only [stageOf, getElem?_snoc]
    by_cases hj : j = s.objects.length
    · subst hj
      simp [Task.stage]
    · rw [if_neg hj]
  | advance i p c s' es hp ha => exact attends_advance hp ha
  | handle i p message now s₁ task es hp ht hre =>
    obtain ⟨ho, -, -, -, hstage, -⟩ := reacts_frame hre
    have hob : (s₁.setTask i p task).objects = (s.setPeer i { p with task := task }).objects := by
      simp only [setTask, setPeer, ho]
    have hst : task.stage = p.task.stage := by rw [ht]; exact hstage
    cases hre with
    | event hc hm =>
      refine .broadcast i message.message _ rfl ?_
      rw [stageOf_setPeer hp hob]
      split
      · next hj => rw [hj, stageOf_object hp]; exact hst
      · rfl
    | _ => exact attends_stays hp hst hob (by simp [Event.passes, Event.joins])
  | close i p hp ht =>
    exact attends_stays hp (by rw [ht]; rfl) rfl (by simp [Event.passes, Event.joins])
  | tick c now s' es hk =>
    cases hk with
    | check timestamp rest k p hpg hc hp hf =>
      exact attends_stays hp (congrArg Task.stage (task_countPing p timestamp)) rfl
        (by simp [Event.passes, Event.joins])
    | drop timestamp rest k p hpg hc hp hf =>
      exact attends_stays hp (congrArg Task.stage (task_countPing p timestamp)) rfl
        (by simp [Event.passes, Event.joins])
    | _ => exact .passes (by simp [Event.passes, Event.joins]) (Or.inl rfl)

/-! ## Every event from the joining on -/

structure Served (t : List Event) (s : Session) : Prop where
  agrees : Agrees s
  coming : ∀ j, s.stageOf j = .coming →
    (∀ e ∈ t, e.joins j = false) ∧ eventsDue j t = []
  inside : ∀ j, s.stageOf j = .inside →
    (∃ e ∈ t, e.joins j = true) ∧ eventsDue j t = (broadcasts t).drop (broadcastsBefore j t)

theorem served_init (id : String) (config : GameConfigDto) :
    Served [] { id := id, config := config } := by
  refine ⟨agrees_init id config, fun j _ => ⟨by simp, rfl⟩, ?_⟩
  intro j hj
  cases hj

theorem eventsDue_broadcast (i j : PeerRef) (m : MessageDto) (e : OutgoingSynchronizedMessageDto)
    (members : List PeerRef) :
    eventsDue j [.handled i m, .broadcast e members] = if j ∈ members then [e] else [] := by
  by_cases hj : j ∈ members <;>
    simp [eventsDue, Broadcast.due, List.filterMap_cons, Event.broadcast?, Broadcast.Event.due?, hj]

theorem served_coming {a : Op} (h : Served t s) (hs : s.step a = some (s', es))
    (hj : s'.stageOf j = .coming) :
    (∀ e ∈ t ++ es, e.joins j = false) ∧ eventsDue j (t ++ es) = [] := by
  have hnew : (∀ e ∈ es, e.joins j = false) ∧ eventsDue j es = [] ∧ s.stageOf j = .coming := by
    cases step_attends hs j with
    | passes hes hst =>
      rw [hj] at hst
      refine ⟨fun e he => joins_of_passes (hes e he), eventsDue_passing hes, ?_⟩
      exact (hst.resolve_right (by simp)).symm
    | joins isHost fs he hfs hst hst' =>
      rw [hj] at hst'
      cases hst'
    | broadcast i m e he hst =>
      rw [hj] at hst
      have hout : j ∉ s.getAllPeers := by
        rw [stageOf_inside_iff h.agrees, ← hst]
        simp
      refine ⟨by simp [he, Event.joins], ?_, hst.symm⟩
      rw [he, eventsDue_broadcast, if_neg hout]
  obtain ⟨hno, hdue, hst⟩ := hnew
  obtain ⟨hno', hdue'⟩ := h.coming j hst
  refine ⟨?_, by rw [eventsDue_append, hdue, hdue']; rfl⟩
  intro e he
  exact (List.mem_append.mp he).elim (hno' e) (hno e)

theorem served_inside {a : Op} (h : Served t s) (hs : s.step a = some (s', es))
    (hj : s'.stageOf j = .inside) :
    (∃ e ∈ t ++ es, e.joins j = true) ∧
      eventsDue j (t ++ es) = (broadcasts (t ++ es)).drop (broadcastsBefore j (t ++ es)) := by
  have hold : s.stageOf j = .inside → eventsDue j es = broadcasts es →
      (∃ e ∈ t ++ es, e.joins j = true) ∧
        eventsDue j (t ++ es) = (broadcasts (t ++ es)).drop (broadcastsBefore j (t ++ es)) := by
    intro hin hes
    obtain ⟨hjoined, hdue⟩ := h.inside j hin
    obtain ⟨e, he, hjoins⟩ := hjoined
    refine ⟨⟨e, List.mem_append_left es he, hjoins⟩, ?_⟩
    rw [broadcastsBefore_append ⟨e, he, hjoins⟩, eventsDue_append, broadcasts_append, hdue, hes,
      List.drop_append_of_le_length (broadcastsBefore_le j t)]
  cases step_attends hs j with
  | passes hes hst =>
    rw [hj] at hst
    exact hold (hst.resolve_right (by simp)).symm
      (by rw [eventsDue_passing hes, broadcasts_passing hes])
  | joins isHost fs he hfs hst hst' =>
    obtain ⟨hno, hdue⟩ := h.coming j hst
    have hnone : eventsDue j fs = [] := eventsDue_passing hfs
    have hquiet : broadcasts fs = [] := broadcasts_passing hfs
    have hfew : eventsDue j es = [] ∧ broadcasts es = [] := by
      rw [he]
      exact ⟨hnone, hquiet⟩
    refine ⟨⟨.joined j isHost, by simp [he], by simp [Event.joins]⟩, ?_⟩
    rw [eventsDue_append, broadcasts_append, hdue, hfew.1, hfew.2, he,
      broadcastsBefore_joined hno isHost fs]
    simp
  | broadcast i m e he hst =>
    rw [hj] at hst
    have hin := (stageOf_inside_iff h.agrees).mpr hst.symm
    refine hold hst.symm ?_
    rw [he, eventsDue_broadcast, if_pos hin]
    rfl

theorem step_served {a : Op} (h : Served t s) (hs : s.step a = some (s', es)) :
    Served (t ++ es) s' :=
  ⟨(step_roster h.agrees hs).1, fun _ => served_coming h hs, fun _ => served_inside h hs⟩

theorem run_served {id : String} {config : GameConfigDto} {w : List Op}
    (hr : machine.run w [] { id := id, config := config } = some (t, s)) : Served t s :=
  run_invariant (fun _ _ _ _ _ h hs => step_served h hs) (served_init id config) hr

/-- While nobody broadcasts, the members have been offered all that was broadcast since they
joined. -/
theorem run_events {id : String} {config : GameConfigDto} {w : List Op}
    (hr : machine.run w [] { id := id, config := config } = some (t, s))
    (hm : s.peersMutex = false) :
    (broadcasts t).map (·.eventId) = (List.range (broadcasts t).length).map Int.ofNat ∧
      ∀ j, s.stageOf j = .inside → (offersTo j t).filterMap MessageDto.event? =
        (broadcasts t).drop (broadcastsBefore j t) := by
  obtain ⟨v, b, hv, -, -, hf⟩ := simulates_sequencer.run
    ⟨agrees_init id config, locked_init id config, follows_init id config⟩ hr
  have hcomplete := Broadcast.run_complete hv
  have hnone := current_of_free (run_locked hr).1 hf hm
  refine ⟨hcomplete.numbers, ?_⟩
  intro j hj
  have hdue := hcomplete.due j
  have hpending : b.pending j = [] := by simp [Broadcast.Sequencer.pending, hnone]
  rw [hpending, List.append_nil, offeredTo_broadcast] at hdue
  rw [← hdue]
  exact ((run_served hr).inside j hj).2

end Session

namespace System
variable {gamesConfig : GamesConfig} {s : System} {t : List Event} {w : List Op} {k : RoomRef}
  {h : Hosted} {j : PeerRef}

/-- At rest every member that has its socket, and whose queue has rejected nothing, has been
handed the synchronized events from its joining on. Their numbers leave none out. -/
theorem events_agreed (hr : machine.run w [] (init gamesConfig) = some (t, s))
    (hrest : machine.AtRest Own s) (hk : s.registry.rooms[k]? = some h) :
    (Session.broadcasts (Room.sessionPart (roomPart k t))).map (·.eventId) =
        (List.range (Session.broadcasts (Room.sessionPart (roomPart k t))).length).map
          Int.ofNat ∧
      ∀ peerId j, h.room.session.peers.find peerId = some j → h.room.attached j = true →
        (∀ m n, .rejected m n ∉ Room.channel j (roomPart k t)) →
        (Outbox.concluded (Room.outboxPart j (roomPart k t))).filterMap MessageDto.event? =
          (Session.broadcasts (Room.sessionPart (roomPart k t))).drop
            (Session.broadcastsBefore j (Room.sessionPart (roomPart k t))) := by
  obtain ⟨id, config, hreached⟩ := run_reached hr hk
  obtain ⟨v, hv⟩ := hreached.session
  obtain ⟨hnumbers, hevents⟩ := Session.run_events hv (rest_room hr hrest hk).mutex
  refine ⟨hnumbers, ?_⟩
  intro peerId j hj hattached hno
  rw [offered_at_rest hr hrest hk hattached hno]
  refine hevents j ((Session.stageOf_inside_iff hreached.sound.1).mp ?_)
  exact UnorderedMap.mem_values.mpr ⟨peerId, hj⟩

def hostAnnounces : List Op :=
  let event : IncomingMessage :=
    ⟨⟨some .incomingSynchronizedEvent, some (.string "go"), none⟩, fun p hp => by cases hp; rfl⟩
  settledLobby ++
    [.room 0 (.session (.handle 0 event 0)), .room 0 (.session (.advance 0 1)),
      .room 0 (.session (.advance 0 0)), .room 0 (.session (.advance 0 0)),
      .room 0 (.act 0 0), .room 0 (.send 0 0 true), .room 0 (.act 0 0),
      .room 0 (.act 1 0), .room 0 (.send 1 0 true), .room 0 (.act 1 0)]

theorem events_agreed_hostAnnounces :
    ∃ t s, machine.run hostAnnounces [] (init oneGame) = some (t, s) ∧
      (Session.broadcasts (Room.sessionPart (roomPart 0 t))).map (·.eventId) = [0] ∧
      (Outbox.concluded (Room.outboxPart 1 (roomPart 0 t))).filterMap MessageDto.event? =
        (Session.broadcasts (Room.sessionPart (roomPart 0 t))).drop
          (Session.broadcastsBefore 1 (Room.sessionPart (roomPart 0 t))) ∧
      (Session.broadcasts (Room.sessionPart (roomPart 0 t))).length = 1 := by
  have hrun : ((machine.run hostAnnounces [] (init oneGame)).bind fun r =>
      (r.2.registry.rooms[0]?).map fun h => (decide r.2.Still, h.room.attached 1,
        h.room.session.peers.find 1, (Room.channel 1 (roomPart 0 r.1)).any Channel.Event.isRejected,
        (Session.broadcasts (Room.sessionPart (roomPart 0 r.1))).length)) =
        some (true, true, some 1, false, 1) := by
    decide +kernel
  obtain ⟨⟨t, s⟩, hr, hrun⟩ := Option.bind_eq_some_iff.mp hrun
  obtain ⟨h, hk, hh⟩ := Option.map_eq_some_iff.mp hrun
  simp only [Prod.mk.injEq] at hh
  obtain ⟨hstill, hattached, hfind, hnone, hone⟩ := hh
  have hrest := still_atRest (of_decide_eq_true hstill)
  obtain ⟨hnumbers, hagreed⟩ := events_agreed hr hrest hk
  rw [hone] at hnumbers
  refine ⟨t, s, hr, hnumbers, hagreed 1 1 hfind hattached ?_, hone⟩
  intro m n hm
  exact Bool.false_ne_true (hnone.symm.trans (List.any_eq_true.mpr ⟨_, hm, rfl⟩))

end System

/-! ## What the host knows -/

namespace Room
variable {t : List Event} {r : Room} {a : Op}

def addsHost (r : Room) : Op → Bool
  | .session (.advance i _) =>
    (r.session.objects[i]?).any fun p => p.task.stage == .coming && p.isHost
  | _ => false

theorem hostFirst_iff :
    HostFirst t r a ↔ (r.addsHost a = true → r.session.peers.isEmpty = true) := by
  constructor
  · intro h ha
    unfold addsHost at ha
    split at ha
    · next i c =>
      obtain ⟨p, hp, hadds⟩ := (Option.any_eq_true _ _).mp ha
      rw [Bool.and_eq_true] at hadds
      refine h i c p rfl hp ?_ hadds.2
      cases ht : p.task with
      | adding => rfl
      | _ => simp [ht, Task.stage] at hadds
    · cases ha
  · intro h i c p ha hp ht hh
    apply h
    simp [addsHost, ha, hp, ht, hh, Task.stage]

instance : Decidable (HostFirst t r a) := decidable_of_iff _ hostFirst_iff.symm

end Room

namespace System
variable {gamesConfig : GamesConfig} {s : System} {t : List Event} {w : List Op} {k : RoomRef}
  {h : Hosted}

instance (t : List Event) (s : System) : ∀ a, Decidable (Meets Room.HostFirst t s a)
  | .room k b =>
    match hk : s.registry.rooms[k]? with
    | none => isTrue fun h hh => by rw [hk] at hh; cases hh
    | some h => decidable_of_iff (Room.HostFirst (roomPart k t) h.room b)
        ⟨fun hf h' hh => by rw [hk] at hh; cases hh; exact hf, fun hf => hf h hk⟩
  | .connect _ | .getSession _ | .findGame _ | .deleteSession _ | .pinger _ _ _ _ => isTrue trivial

theorem run_informed (hr : machine.run w [] (init gamesConfig) = some (t, s))
    (hfirst : machine.Along (Meets Room.HostFirst) w [] (init gamesConfig)) :
    EachRoom Room.HostInformed t s := by
  refine eachRoom_of_registry (I := fun t r => ∃ id config, Room.Informed id config t r) ?_ ?_
  · refine run_invariant_along (I := fun t s => s.registry.EachRoom
      (fun t r => ∃ id config, Room.Informed id config t r) (registryPart t)) ?_ ?_ hfirst hr
    · intro t s a s' es h hc hs
      refine step_eachRoom ?_ ?_ ?_ h hc hs
      · exact fun id config => ⟨id, config, Room.reached_init id config, Roster.hostView_init⟩
      · intro t room a ha i c p hadvance
        rw [hadvance] at ha
        cases ha
      · intro t room a room' es h hf hs
        obtain ⟨id, config, h⟩ := h
        exact ⟨id, config, Room.informed_step h hf hs⟩
    · exact each_nil fun _ => rfl
  · intro t room h
    obtain ⟨id, config, h⟩ := h
    exact Room.hostInformed_of_informed h

/-- Where the host of each session was added first, a host that has its socket and whose queue
has rejected nothing has at rest been told of everyone who is in `m_peers` and of nobody else. -/
theorem host_told_at_rest (hr : machine.run w [] (init gamesConfig) = some (t, s))
    (hfirst : machine.Along (Meets Room.HostFirst) w [] (init gamesConfig))
    (hrest : machine.AtRest Own s) (hk : s.registry.rooms[k]? = some h) {i : PeerRef} {p : Peer}
    (hhost : h.room.session.host = some i) (hp : h.room.session.objects[i]? = some p)
    (hi : h.room.attached i = true)
    (hno : ∀ m n, .rejected m n ∉ Room.channel i (roomPart k t)) (peerId : Int) :
    peerId ∈ announced ((Outbox.concluded (Room.outboxPart i (roomPart k t))).filterMap
        MessageDto.notice?) ↔
      peerId ≠ p.peerId ∧ ∃ j, h.room.session.peers.find peerId = some j := by
  have hquiet : ¬ Room.Overflowed i (roomPart k t) := by
    intro ho
    obtain ⟨m, n, hm⟩ := ho
    exact hno m n hm
  rw [← concluded_at_rest hr hrest hk hi]
  exact (run_informed hr hfirst k h hk i p hhost hp hquiet).1 peerId

theorem host_told_at_rest_settledLobby :
    ∃ t s h, machine.run settledLobby [] (init oneGame) = some (t, s) ∧
      s.registry.rooms[0]? = some h ∧ (h.room.session.peers.find 1).isSome = true ∧
      (1 : Int) ∈ announced ((Outbox.concluded (Room.outboxPart 0 (roomPart 0 t))).filterMap
        MessageDto.notice?) := by
  have hrun : ((machine.run settledLobby [] (init oneGame)).bind fun r =>
      (r.2.registry.rooms[0]?).bind fun h => (h.room.session.objects[0]?).map fun p =>
        (decide r.2.Still && h.room.attached 0, h.room.session.host, p.peerId,
          h.room.session.peers.find 1, (Room.channel 0 (roomPart 0 r.1)).any
            Channel.Event.isRejected)) = some (true, some 0, 0, some 1, false) := by
    decide +kernel
  have hfirst : machine.Along (Meets Room.HostFirst) settledLobby [] (init oneGame) := by
    decide +kernel
  obtain ⟨⟨t, s⟩, hr, hrun⟩ := Option.bind_eq_some_iff.mp hrun
  obtain ⟨h, hk, hrun⟩ := Option.bind_eq_some_iff.mp hrun
  obtain ⟨p, hp, hh⟩ := Option.map_eq_some_iff.mp hrun
  simp only [Prod.mk.injEq, Bool.and_eq_true] at hh
  obtain ⟨⟨hstill, hattached⟩, hhost, hid, hfind, hnone⟩ := hh
  have hrest := still_atRest (of_decide_eq_true hstill)
  refine ⟨t, s, h, hr, hk, by rw [hfind]; rfl, ?_⟩
  refine (host_told_at_rest hr hfirst hrest hk hhost hp hattached ?_ 1).mpr ⟨?_, 1, hfind⟩
  · intro m n hm
    exact Bool.false_ne_true (hnone.symm.trans (List.any_eq_true.mpr ⟨_, hm, rfl⟩))
  · rw [hid]
    decide

end System
end Helicopter
