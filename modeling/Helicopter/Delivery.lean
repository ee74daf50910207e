import Helicopter.Rest
import Helicopter.Sockets

/-! What becomes of the messages that a queue has accepted. A queue is cleared only after its
socket has been taken away, so that none is lost to a peer that still has its socket. -/
namespace Helicopter
open Interleaving

namespace Outbox
variable {μ : Type*} {max : Nat} {o o' : Outbox μ} {a : Op μ} {es : List (Event μ)}

theorem step_uncleared (ha : a ≠ .clearQueue) (hs : step max o a = some (o', es)) :
    Channel.cleared (channel es) = [] := by
  cases a with
  | queueMessage message =>
    simp only [step, Option.some.injEq] at hs
    cases message with
    | none =>
      cases hs
      rfl
    | some m =>
      simp only [queueMessage] at hs
      split at hs
      · split at hs
        · split at hs <;> cases hs <;> rfl
        · cases hs
          rfl
      · cases hs
        rfl
  | act k =>
    simp only [step, act] at hs
    split at hs
    · split at hs <;> cases hs <;> rfl
    · cases hs
  | send k ok =>
    simp only [step, send] at hs
    split at hs
    · cases hs
      cases ok <;> rfl
    · cases hs
  | resetSocket =>
    cases hs
    rfl
  | clearQueue => exact absurd rfl ha

end Outbox

namespace Session
variable {s s' : Session} {t es : List Event} {j : PeerRef}

structure Invalidated (t : List Event) (s : Session) : Prop where
  threads : ∀ (i : Nat) (p : Peer), s.objects[i]? = some p → p.task = .clearing →
    .resetSocket i ∈ t
  pinger : ∀ timestamp rest i, s.pinger = .dropping timestamp rest i → .resetSocket i ∈ t
  cleared : ∀ i, .clearQueue i ∈ t → .resetSocket i ∈ t

theorem invalidated_init (id : String) (config : GameConfigDto) :
    Invalidated [] { id := id, config := config } := by
  refine ⟨?_, ?_, ?_⟩
  · intro i p hp
    cases hp
  · intro timestamp rest i hp
    cases hp
  · intro i hi
    cases hi

theorem reacts_clearing {i : PeerRef} {peerId now : Int} {message : MessageDto} {task : Task}
    (h : Reacts s i peerId message now s' task es) : task ≠ .clearing := by
  cases h <;> simp

theorem turns_clearing {a : Op} {i : PeerRef} {p q : Peer} (ht : Turns s a i p q)
    (hq : q.task = .clearing) : p.task = .clearing ∨ a = .close i := by
  cases ht with
  | thread c task hn => cases hn <;> cases hq
  | record c timestamp pingTime ht => cases hq
  | handle message now s₁ task es ht hre => exact absurd hq (reacts_clearing hre)
  | close ht => exact Or.inr rfl
  | check c now timestamp =>
    rw [task_countPing] at hq
    exact Or.inl hq

theorem close_resets {i : PeerRef} (hs : s.step (.close i) = some (s', es)) :
    .resetSocket i ∈ es := by
  cases step_cases hs with
  | close i p hp ht => exact List.mem_singleton.mpr rfl

/-- The queue is cleared by the thread of the peer, or by the pinger that drops it. -/
theorem step_clears {a : Op} (hs : s.step a = some (s', es)) (hj : .clearQueue j ∈ es) :
    (∃ p, s.objects[j]? = some p ∧ p.task = .clearing) ∨
      ∃ timestamp rest, s.pinger = .dropping timestamp rest j := by
  cases step_cases hs with
  | findSession => cases hj
  | newPeer k isHost hk => simp at hj
  | advance i p c s' es hp ha =>
    cases ha with
    | add ht hm =>
      obtain he | he := List.mem_cons.mp hj
      · cases he
      · obtain ⟨k, notice, he⟩ := offer_of_mem_addPeer he
        cases he
    | remove ht hm =>
      obtain he | he := List.mem_cons.mp hj
      · cases he
      · obtain ⟨k, notice, he⟩ := offer_of_mem_removePeerById he
        cases he
    | clear ht =>
      cases List.mem_singleton.mp hj
      exact Or.inl ⟨p, hp, ht⟩
    | _ => simp at hj
  | handle i p message now s₁ task es hp ht hre => cases hre <;> simp at hj
  | close i p hp ht => simp at hj
  | tick c now s' es hk =>
    cases hk with
    | clear timestamp rest i ht =>
      cases List.mem_singleton.mp hj
      exact Or.inr ⟨timestamp, rest, ht⟩
    | _ => simp at hj

theorem step_invalidated {a : Op} (h : Invalidated t s) (hs : s.step a = some (s', es)) :
    Invalidated (t ++ es) s' := by
  have hkeep : ∀ i, .resetSocket i ∈ t → .resetSocket i ∈ t ++ es :=
    fun i hi => List.mem_append_left es hi
  refine ⟨?_, ?_, ?_⟩
  · refine forall_step (P := fun i p => p.task = .clearing → .resetSocket i ∈ t ++ es) hs ?_ ?_ ?_
    · exact fun i p hp ht => hkeep i (h.threads i p hp ht)
    · exact fun isHost ht => by cases ht
    · intro i p q hp ht hq
      obtain hold | rfl := turns_clearing ht hq
      · exact hkeep i (h.threads i p hp hold)
      · exact List.mem_append_right t (close_resets hs)
  · intro timestamp rest i hpin
    cases a with
    | tick c now =>
      cases step_cases hs with
      | tick _ _ _ _ hk =>
        cases hk with
        | drop timestamp' rest' j p ht hj hp hf =>
          cases hpin
          exact List.mem_append_right t (by simp)
        | _ => cases hpin
    | _ =>
      rw [(step_threads hs (by simp)).1] at hpin
      exact hkeep i (h.pinger timestamp rest i hpin)
  · intro i hi
    obtain hi | hi := List.mem_append.mp hi
    · exact hkeep i (h.cleared i hi)
    · obtain ⟨p, hp, ht⟩ | ⟨timestamp, rest, hpin⟩ := step_clears hs hi
      · exact hkeep i (h.threads i p hp ht)
      · exact hkeep i (h.pinger timestamp rest i hpin)

theorem run_invalidated {id : String} {config : GameConfigDto} {w : List Op}
    (hr : machine.run w [] { id := id, config := config } = some (t, s)) : Invalidated t s :=
  run_invariant (fun _ _ _ _ _ h hs => step_invalidated h hs) (invalidated_init id config) hr

end Session

namespace Room
variable {id : String} {config : GameConfigDto} {t es : List Event} {r r' : Room} {a : Op}
  {os os' : List (Outbox MessageDto)} {max : Nat} {j : PeerRef}

theorem cleared_react (e : Session.Event) (he : e ≠ .clearQueue j) :
    Channel.cleared (channel j (react max os e).2) = [] := by
  unfold react
  split
  · rfl
  · split
    · rfl
    · next i b hb =>
      split
      · rfl
      · next hs =>
        obtain ⟨o, o', fs, -, hstep, -, rfl⟩ := stepOutbox_some hs
        rw [channel, outboxPart_session, outboxPart_outbox]
        split
        · next hji =>
          refine Outbox.step_uncleared ?_ hstep
          intro hclear
          rw [hclear] at hb
          cases e with
          | clearQueue i' =>
            cases hb
            exact he (by rw [hji])
          | _ => cases hb
        · rfl

theorem cleared_reactAll (es : List Session.Event) (he : .clearQueue j ∉ es) :
    Channel.cleared (channel j (reactAll max os es).2) = [] := by
  induction es generalizing os with
  | nil => rfl
  | cons e es ih =>
    rw [List.mem_cons, not_or] at he
    obtain ⟨hne, htail⟩ := he
    simp only [reactAll, channel_append, Channel.cleared_append]
    rw [cleared_react e (Ne.symm hne), ih htail]
    rfl

theorem cleared_stepOutbox {i : PeerRef} {b : Outbox.Op MessageDto} (hb : b ≠ .clearQueue)
    (h : stepOutbox max os i b = some (os', es)) : Channel.cleared (channel j es) = [] := by
  obtain ⟨o, o', fs, -, hs, -, rfl⟩ := stepOutbox_some h
  rw [channel, outboxPart_outbox]
  split
  · exact Outbox.step_uncleared hb hs
  · rfl

/-- Only `clearQueue` of the peer clears its queue. -/
theorem step_cleared (hs : r.step a = some (r', es)) (hno : .clearQueue j ∉ sessionPart es) :
    Channel.cleared (channel j es) = [] := by
  cases a with
  | session b =>
    simp only [step] at hs
    split at hs
    · cases hs
    · cases hs
      rw [sessionPart_reactAll] at hno
      exact cleared_reactAll _ hno
  | act i k =>
    simp only [step] at hs
    split at hs
    · cases hs
    · next hst =>
      cases hs
      exact cleared_stepOutbox (by simp) hst
  | send i k ok =>
    simp only [step] at hs
    split at hs
    · cases hs
    · next hst =>
      cases hs
      exact cleared_stepOutbox (by simp) hst

structure Delivering (id : String) (config : GameConfigDto) (t : List Event) (r : Room) :
    Prop where
  reached : Reached id config t r
  sockets : Sockets t r
  uncleared : ∀ j, .clearQueue j ∉ sessionPart t → Channel.cleared (channel j t) = []

theorem step_delivering (h : Delivering id config t r) (hs : r.step a = some (r', es)) :
    Delivering id config (t ++ es) r' := by
  refine ⟨reached_step h.reached hs, sockets_step h.reached h.sockets hs, ?_⟩
  intro j hno
  rw [sessionPart_append, List.mem_append, not_or] at hno
  rw [channel_append, Channel.cleared_append, h.uncleared j hno.1, step_cleared hs hno.2]
  rfl

theorem run_delivering {w : List Op} (hr : machine.run w [] (init id config) = some (t, r)) :
    Delivering id config t r :=
  run_invariant (fun _ _ _ _ _ h hs => step_delivering h hs)
    ⟨reached_init id config, sockets_init id config, fun _ _ => rfl⟩ hr

/-- A peer that has its socket has been handed what its queue has accepted, in that order, but
for the message in flight and those that wait. -/
theorem Delivering.kept {o : Outbox MessageDto} (h : Delivering id config t r)
    (ho : r.outboxes[j]? = some o) (hk : o.socket = true) :
    Channel.accepted (channel j t) =
      Outbox.concluded (outboxPart j t) ++ o.inFlight ++ o.queue.reverse := by
  have hlt : j < r.session.objects.length := by
    rw [← h.reached.length]
    exact (List.getElem?_eq_some_iff.mp ho).1
  have hattached : r.attached j = true := by
    simp only [attached, ho, Option.any_some]
    exact hk
  obtain ⟨u, hu⟩ := h.reached.session
  have hreset := (h.sockets.attached j hlt).mp hattached
  have hclear : .clearQueue j ∉ sessionPart t :=
    fun hc => hreset ((Session.run_invalidated hu).cleared j hc)
  obtain ⟨o₀, w, rfl, hw⟩ := h.reached.outboxes.reached j o ho
  have hconserved := (Outbox.run_accounted hw).conserved
  have hpopped := (Outbox.run_ready hw).2
  have hremoved := Channel.removed_of_uncleared (h.uncleared j hclear)
  unfold channel at hremoved ⊢
  rw [hconserved, hremoved, hpopped]

end Room

namespace System
variable {gamesConfig : GamesConfig} {s : System} {t : List Event} {w : List Op} {k : RoomRef}
  {h : Hosted} {j : PeerRef}

theorem run_delivering (hr : machine.run w [] (init gamesConfig) = some (t, s))
    (hk : s.registry.rooms[k]? = some h) :
    ∃ id config, Room.Delivering id config (roomPart k t) h.room := by
  have ht := (run_rooms hr).reached k h.room (by rw [List.getElem?_map, hk]; rfl)
  obtain ⟨room, w, ⟨id, config, rfl⟩, hw⟩ := ht
  exact ⟨id, config, Room.run_delivering hw⟩

theorem concluded_at_rest (hr : machine.run w [] (init gamesConfig) = some (t, s))
    (hrest : machine.AtRest Own s) (hk : s.registry.rooms[k]? = some h)
    (hj : h.room.attached j = true) :
    Channel.accepted (Room.channel j (roomPart k t)) =
      Outbox.concluded (Room.outboxPart j (roomPart k t)) := by
  obtain ⟨id, config, hdel⟩ := run_delivering hr hk
  cases ho : h.room.outboxes[j]? with
  | none => simp [Room.attached, ho] at hj
  | some o =>
    have hsocket : o.socket = true := by simpa [Room.attached, ho] using hj
    obtain ⟨hsenders, hqueue⟩ :=
      Outbox.rests_iff.mp ((rest_room hr hrest hk).queues o (List.mem_of_getElem? ho))
    rw [hdel.kept ho hsocket, hqueue hsocket, Outbox.inFlight, hsenders]
    simp

theorem offered_at_rest (hr : machine.run w [] (init gamesConfig) = some (t, s))
    (hrest : machine.AtRest Own s) (hk : s.registry.rooms[k]? = some h)
    (hj : h.room.attached j = true)
    (hno : ∀ m n, .rejected m n ∉ Room.channel j (roomPart k t)) :
    Outbox.concluded (Room.outboxPart j (roomPart k t)) =
      Session.offersTo j (Room.sessionPart (roomPart k t)) := by
  obtain ⟨id, config, hdel⟩ := run_delivering hr hk
  rw [← concluded_at_rest hr hrest hk hj, Channel.accepted_eq_offered hno, hdel.reached.offers]

/-- When the server has come to rest, every peer that has its socket has been handed all that its
queue has accepted, in that order; if nothing was rejected, all that it was sent. -/
theorem delivered_at_rest (hr : machine.run w [] (init gamesConfig) = some (t, s))
    (hrest : machine.AtRest Own s) (hk : s.registry.rooms[k]? = some h)
    (hj : h.room.attached j = true) :
    Channel.accepted (Room.channel j (roomPart k t)) =
        Outbox.concluded (Room.outboxPart j (roomPart k t)) ∧
      ((∀ m n, .rejected m n ∉ Room.channel j (roomPart k t)) →
        Outbox.concluded (Room.outboxPart j (roomPart k t)) =
          Session.offersTo j (Room.sessionPart (roomPart k t))) :=
  ⟨concluded_at_rest hr hrest hk hj, offered_at_rest hr hrest hk hj⟩

theorem delivered_at_rest_settledLobby :
    ∃ t s h, machine.run settledLobby [] (init oneGame) = some (t, s) ∧ s.Still ∧
      s.registry.rooms[0]? = some h ∧
      Channel.accepted (Room.channel 0 (roomPart 0 t)) =
        Outbox.concluded (Room.outboxPart 0 (roomPart 0 t)) ∧
      Outbox.concluded (Room.outboxPart 0 (roomPart 0 t)) =
        Session.offersTo 0 (Room.sessionPart (roomPart 0 t)) ∧
      (Session.offersTo 0 (Room.sessionPart (roomPart 0 t))).length = 2 := by
  have hrun : ((machine.run settledLobby [] (init oneGame)).bind fun r =>
      (r.2.registry.rooms[0]?).map fun h => (decide r.2.Still, h.room.attached 0,
        (Room.channel 0 (roomPart 0 r.1)).any Channel.Event.isRejected,
        (Session.offersTo 0 (Room.sessionPart (roomPart 0 r.1))).length)) =
        some (true, true, false, 2) := by
    decide +kernel
  obtain ⟨⟨t, s⟩, hr, hrun⟩ := Option.bind_eq_some_iff.mp hrun
  obtain ⟨h, hk, hh⟩ := Option.map_eq_some_iff.mp hrun
  simp only [Prod.mk.injEq] at hh
  obtain ⟨hstill, hattached, hnone, htwo⟩ := hh
  have hstill : s.Still := of_decide_eq_true hstill
  obtain ⟨haccepted, hoffered⟩ := delivered_at_rest hr (still_atRest hstill) hk hattached
  refine ⟨t, s, h, hr, hstill, hk, haccepted, hoffered ?_, htwo⟩
  intro m n hm
  exact Bool.false_ne_true (hnone.symm.trans (List.any_eq_true.mpr ⟨_, hm, rfl⟩))

end System
end Helicopter
