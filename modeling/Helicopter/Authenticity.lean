import Helicopter.SessionLineage
import Helicopter.Threads

/-! Whose message a peer is sent: the lineage from `handleMessage` of the sender, through the
loop of the handler, to the queue of the recipient. -/
namespace Helicopter
open Interleaving

def Task.directs (task : Task) (j : PeerRef) (m : MessageDto) : Prop :=
  match task with
  | .sending recipients payload => j ∈ recipients ∧ m = .outgoing payload
  | .broadcasting recipients event => j ∈ recipients ∧ m = .synchronizedEvent event
  | _ => False

def MessageDto.isRelayed (m : MessageDto) : Prop :=
  m.code = some .outgoingMessage ∨ m.code = some .outgoingSynchronizedEvent

namespace Session
variable {s s' : Session} {es : List Event} {i j : PeerRef} {p : Peer} {m : MessageDto}

def Directs (s : Session) (j : PeerRef) (m : MessageDto) : Prop :=
  ∃ (i : PeerRef) (p : Peer), s.objects[i]? = some p ∧ p.task.directs j m

/-- What the peer `i` with the id `peerId` makes the peer `j` be sent when its `message` is
handled in the state `s`. -/
inductive Authored (s : Session) (i : PeerRef) (peerId : Int) (message : MessageDto)
    (j : PeerRef) : MessageDto → Prop where
  | broadcast (id : Int) : message.code = some .incomingBroadcast → s.peers.find id = some j →
    j ≠ i → Authored s i peerId message j (.outgoing ⟨peerId, message.retrieveString⟩)
  | direct (dm : DirectMessageDto) (peerIds : List (Option Int)) (id : Int) :
    message.code = some .incomingDirectMessage → message.retrieveDirectMessage = some dm →
    dm.peerIds = some peerIds → some id ∈ peerIds → s.peers.find id = some j →
    s.peerId? j = some id → j ≠ i → Authored s i peerId message j (.outgoing ⟨peerId, dm.data⟩)
  | toHost : message.code = some .incomingClientMessage → s.host = some j → j ≠ i →
    Authored s i peerId message j (.outgoing ⟨peerId, message.retrieveString⟩)
  | event (eventId id : Int) : message.code = some .incomingSynchronizedEvent →
    s.peers.find id = some j → Authored s i peerId message j
      (.synchronizedEvent ⟨eventId, peerId, message.retrieveString⟩)

def Causes (s : Session) (a : Op) (j : PeerRef) (m : MessageDto) : Prop :=
  ∃ i message now, ∃ p : Peer, a = .handle i message now ∧ s.objects[i]? = some p ∧
    s.peers.find p.peerId = some i ∧ Authored s i p.peerId message.message j m

theorem reacts_directs {message : MessageDto} {now : Int} {task : Task} (h : Agrees s)
    (hp : s.objects[i]? = some p) (hr : Reacts s i p.peerId message now s' task es)
    (hd : task.directs j m) : Authored s i p.peerId message j m := by
  cases hr with
  | error e => exact hd.elim
  | pong timestamp => exact hd.elim
  | select k ids hc hk hid hids hm => exact hd.elim
  | broadcast hc hm =>
    obtain ⟨hj, rfl⟩ := hd
    obtain ⟨hall, hne⟩ := mem_of_mem_others hj
    obtain ⟨id, hid⟩ := UnorderedMap.mem_values.mp hall
    exact .broadcast id hc hid (hne ∘ (peerId?_eq_iff h hp).mpr)
  | direct dm peerIds hc hdm hids hm =>
    obtain ⟨hj, rfl⟩ := hd
    obtain ⟨hget, hne⟩ := mem_of_mem_others hj
    obtain ⟨id?, hmem, hid⟩ := List.mem_filterMap.mp hget
    obtain ⟨id, rfl, hfind⟩ := Option.bind_eq_some_iff.mp hid
    have hown : s.peerId? j = some id := by
      obtain ⟨n, hn, hid, -⟩ := (h.peers id j).mp hfind
      rw [getElem?_roster] at hn
      obtain ⟨q, hq, rfl⟩ := Option.map_eq_some_iff.mp hn
      rw [peerId?, hq]
      exact congrArg some hid
    exact .direct dm peerIds id hc hdm hids hmem hfind hown (hne ∘ (peerId?_eq_iff h hp).mpr)
  | event hc hm =>
    obtain ⟨hj, rfl⟩ := hd
    obtain ⟨id, hid⟩ := UnorderedMap.mem_values.mp hj
    exact .event s.synchronizedEventId id hc hid
  | toHost k hc hk hid hm =>
    obtain ⟨hj, rfl⟩ := hd
    rw [List.mem_singleton.mp hj]
    exact .toHost hc hk (hid ∘ (peerId?_eq_iff h hp).mpr)

/-- What a thread has left to send after its section, it had before. -/
theorem nextTask_directs {task : Task} (hn : NextTask s p task) (hd : task.directs j m) :
    p.task.directs j m := by
  cases hn with
  | send recipients payload c ht =>
    rw [ht]
    exact ⟨List.mem_of_mem_eraseIdx hd.1, hd.2⟩
  | event recipients event c ht =>
    rw [ht]
    exact ⟨List.mem_of_mem_eraseIdx hd.1, hd.2⟩
  | _ => exact hd.elim

/-- What a loop has left to send after the step, it had before, or the step is its handler. -/
theorem step_directs {a : Op} (h : Agrees s) (hs : s.step a = some (s', es))
    (hd : s'.Directs j m) : s.Directs j m ∨ s.Causes a j m := by
  obtain ⟨k, q, hq, hd⟩ := hd
  refine forall_step (P := fun _ q => q.task.directs j m → s.Directs j m ∨ s.Causes a j m) hs
    ?_ ?_ ?_ k q hq hd
  · intro k q hq hd
    exact Or.inl ⟨k, q, hq, hd⟩
  · intro isHost hd
    exact hd.elim
  · intro i p q hp ht hd
    cases ht with
    | thread c task hn => exact Or.inl ⟨i, p, hp, nextTask_directs hn hd⟩
    | record c timestamp pingTime ht => exact hd.elim
    | handle message now s₁ task es ht hr =>
      have hin : p.task.stage = .inside := by
        rw [ht]
        rfl
      exact Or.inr ⟨i, message, now, p, rfl, hp, find_inside h hp hin, reacts_directs h hp hr hd⟩
    | close ht => exact hd.elim
    | check c now timestamp =>
      rw [task_countPing] at hd
      exact Or.inl ⟨i, p, hp, hd⟩

/-- Only the loops queue relayed messages. -/
theorem step_relayed {a : Op} (hs : s.step a = some (s', es)) (ho : .offer j m ∈ es)
    (hm : m.isRelayed) : s.Directs j m := by
  have hnotice : ∀ n : Notice, ¬ n.message.isRelayed := by
    intro n
    cases n <;> simp [MessageDto.isRelayed, Notice.message, MessageDto.clientJoined,
      MessageDto.clientLeft]
  cases step_cases hs with
  | findSession => cases ho
  | newPeer k isHost hk => simp at ho
  | advance i p c s' es hp ha =>
    cases ha with
    | add ht hmx =>
      rw [addPeer_snd] at ho
      split at ho
      · simp at ho
      · obtain ⟨k, hk, he⟩ := mem_tellHost.mp (by simpa using ho)
        cases he
        exact absurd hm (hnotice _)
    | remove ht hmx =>
      obtain ⟨-, k, hk, he⟩ := mem_removePeerById.mp (by simpa using ho)
      cases he
      exact absurd hm (hnotice _)
    | greet ht =>
      simp only [List.mem_singleton, Event.offer.injEq] at ho
      rw [ho.2] at hm
      simp [MessageDto.isRelayed, MessageDto.hello] at hm
    | send recipients payload c k ht hk =>
      simp only [List.mem_singleton, Event.offer.injEq] at ho
      obtain ⟨rfl, rfl⟩ := ho
      exact ⟨i, p, hp, by rw [ht]; exact ⟨List.mem_of_getElem? hk, rfl⟩⟩
    | event recipients event c k ht hk =>
      simp only [List.mem_singleton, Event.offer.injEq] at ho
      obtain ⟨rfl, rfl⟩ := ho
      exact ⟨i, p, hp, by rw [ht]; exact ⟨List.mem_of_getElem? hk, rfl⟩⟩
    | _ => simp at ho
  | handle i p message now s₁ task es hp ht hre => cases hre <;> simp at ho
  | close i p hp ht => simp at ho
  | tick c now s' es hk => cases hk <;> simp at ho

end Session
namespace System
variable {gamesConfig : GamesConfig} {s s' : System} {t t' es : List Event} {k : RoomRef}
  {j : PeerRef} {m : MessageDto}

structure Relay where
  room : RoomRef
  peer : PeerRef
  message : MessageDto

def Relay.waits (s : System) (x : Relay) : Prop :=
  ∃ h, s.registry.rooms[x.room]? = some h ∧ h.room.session.Directs x.peer x.message

def Relay.offered (t : List Event) (x : Relay) : Prop :=
  .offer x.peer x.message ∈ Room.sessionPart (roomPart x.room t) ∧ x.message.isRelayed

def Relay.causes (x : Relay) (s : System) (a : Op) : Prop :=
  ∃ b h, a = .room x.room (.session b) ∧ s.registry.rooms[x.room]? = some h ∧
    h.room.session.Causes b x.peer x.message

theorem not_causes_quiet {s : Session} {b : Session.Op} (hb : ofPeers (.session b) = false) :
    ¬ s.Causes b j m := by
  rintro ⟨i, message, now, p, rfl, -⟩
  cases hb

theorem relay_lineage : SessionLineage Session.Agrees (fun x s b => s.Causes b x.peer x.message)
    (fun s (x : Relay) => s.Directs x.peer x.message)
    (fun t x => .offer x.peer x.message ∈ t ∧ x.message.isRelayed) where
  rules := {
    wait := fun _ _ _ _ _ _ hA hs hd => Session.step_directs hA hs hd
    out := fun _ _ _ _ _ _ _ hs ho => Session.step_relayed hs ho.1 ho.2
    append := by
      rintro t u x ⟨ho, hm⟩
      obtain ho | ho := List.mem_append.mp ho
      · exact Or.inl ⟨ho, hm⟩
      · exact Or.inr ⟨ho, hm⟩ }
  init := Session.agrees_init
  step _ _ _ _ hA hs := (Session.step_roster hA hs).1
  fresh := by
    rintro id config x ⟨i, p, hp, -⟩
    cases hp
  silent := by
    rintro x ⟨ho, -⟩
    cases ho
  quiet _ _ _ hb := not_causes_quiet hb

/-- Session isolation and sender authenticity. Whatever is in the queue of the peer `j` of the
session `k`, or has left it, is one of the server's own messages or was authored by a peer of
the same session whose message was handled at a step of the run. -/
theorem relayed_authentic {w : List Op} {h : Hosted} {o : Outbox MessageDto}
    (hr : machine.run w [] (init gamesConfig) = some (t, s))
    (hk : s.registry.rooms[k]? = some h) (ho : h.room.outboxes[j]? = some o)
    (hm : m ∈ o.queue ∨ m ∈ Channel.removed (Room.channel j (roomPart k t)))
    (hrel : m.isRelayed) : machine.Passes (Relay.causes ⟨k, j, m⟩) w (init gamesConfig) := by
  obtain ⟨id, config, hreached⟩ := run_reached hr hk
  obtain ⟨o₀, v, rfl, hv⟩ := hreached.outboxes.reached j o ho
  have hacc : m ∈ Channel.accepted (Room.channel j (roomPart k t)) := by
    rw [Room.channel, (Outbox.run_accounted hv).conserved]
    obtain hm | hm := hm
    · exact List.mem_append_right _ (List.mem_reverse.mpr hm)
    · exact List.mem_append_left _ hm
  have hoff : .offer j m ∈ Room.sessionPart (roomPart k t) :=
    Session.mem_offersTo.mp ((hreached.accepted_sublist j).subset hacc)
  exact (relay_lineage.run Relay.room hr ⟨k, j, m⟩).2 ⟨hoff, hrel⟩

def clientMessage : List Op :=
  let message : IncomingMessage :=
    ⟨⟨some .incomingClientMessage, some (.string "data"), none⟩, fun p hp => by cases hp; rfl⟩
  [.room 0 (.session (.advance 1 0)), .room 0 (.session (.handle 1 message 0)),
    .room 0 (.session (.advance 1 0))]

theorem relayed_authentic_clientMessage :
    ∃ t s h o, machine.run (hostAndClient ++ clientMessage) [] (init oneGame) = some (t, s) ∧
      s.registry.rooms[0]? = some h ∧ h.room.outboxes[0]? = some o ∧
      .outgoing ⟨1, some "data"⟩ ∈ o.queue ∧
      machine.Passes (Relay.causes ⟨0, 0, .outgoing ⟨1, some "data"⟩⟩)
        (hostAndClient ++ clientMessage) (init oneGame) := by
  have hrun : ((machine.run (hostAndClient ++ clientMessage) [] (init oneGame)).bind fun r =>
      (r.2.registry.rooms[0]?).bind fun h => (h.room.outboxes[0]?).map fun o =>
        decide (.outgoing ⟨1, some "data"⟩ ∈ o.queue)) = some true := by
    decide +kernel
  obtain ⟨⟨t, s⟩, hr, hrun⟩ := Option.bind_eq_some_iff.mp hrun
  obtain ⟨h, hk, hrun⟩ := Option.bind_eq_some_iff.mp hrun
  obtain ⟨o, ho, hm⟩ := Option.map_eq_some_iff.mp hrun
  have hm := of_decide_eq_true hm
  exact ⟨t, s, h, o, hr, hk, ho, hm, relayed_authentic hr hk ho (Or.inl hm) (Or.inl rfl)⟩

end System
end Helicopter
