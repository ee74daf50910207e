import Helicopter.Delivery
import Helicopter.DirectMessage

/-! What becomes of what the peers say. `promised` says, of the members of the session and its host
at the moment when a message is handled, what each of them is to get of it. Whatever the threads do
after that, this is what the peers are sent, in the order in which the messages were handled. -/
namespace Helicopter
open Interleaving

namespace Session
variable {s s' : Session} {t es : List Event} {i j : PeerRef} {p : Peer} {m : MessageDto}
  {task : Task} {now : Int}

def timesNamed (s : Session) (j : PeerRef) (peerIds : List (Option Int)) : Nat :=
  peerIds.countP fun id => id.bind s.peers.find = some j

def promised (s : Session) (i j : PeerRef) (m : MessageDto) : List MessageDto :=
  match m.code with
  | some .incomingBroadcast =>
    if j ∈ s.getAllPeers ∧ j ≠ i then [.outgoing ⟨i, m.retrieveString⟩] else []
  | some .incomingDirectMessage =>
    match m.retrieveDirectMessage with
    | none => []
    | some dm =>
      if j ≠ i then
        List.replicate (s.timesNamed j (dm.peerIds.getD [])) (.outgoing ⟨i, dm.data⟩)
      else []
  | some .incomingSynchronizedEvent =>
    if j ∈ s.getAllPeers then
      [.synchronizedEvent ⟨s.synchronizedEventId, i, m.retrieveString⟩]
    else []
  | some .incomingClientMessage =>
    if s.host = some j ∧ j ≠ i then [.outgoing ⟨i, m.retrieveString⟩] else []
  | _ => []

theorem count_others (hA : Agrees s) (hp : s.objects[i]? = some p) (l : List PeerRef) :
    (s.others p.peerId l).count j = if j = i then 0 else l.count j := by
  by_cases hji : j = i
  · rw [if_pos hji, List.count_eq_zero]
    intro hj
    exact (mem_of_mem_others hj).2 ((peerId?_eq_iff hA hp).mpr hji)
  · have hother : (s.peerId? j != some p.peerId) = true := by
      rw [bne_iff_ne]
      exact hji ∘ (peerId?_eq_iff hA hp).mp
    rw [if_neg hji, others, List.count_filter (p := fun j => s.peerId? j != some p.peerId) hother]

theorem count_getAllPeers (hA : Agrees s) :
    s.getAllPeers.count j = if j ∈ s.getAllPeers then 1 else 0 := by
  split
  · next hj => exact List.count_eq_one_of_mem (nodup_getAllPeers hA) hj
  · next hj => exact List.count_eq_zero.mpr hj

theorem count_getPeers_eq (peerIds : List (Option Int)) :
    (s.getPeers peerIds).count j = s.timesNamed j peerIds := by
  rw [getPeers, List.count_filterMap, timesNamed]
  exact List.countP_congr fun id _ => by simp

/-! ## What each handler has in hand after its first section -/

section
variable (hA : Agrees s) (hp : s.objects[i]? = some p) (hid : p.peerId = i)
include hA hp hid

theorem handleBroadcast_pending (hc : m.code = some .incomingBroadcast)
    (h : s.handleBroadcast p.peerId m = some (s', task, es)) :
    task.pending j = s.promised i j m := by
  unfold handleBroadcast at h
  split at h
  · cases h
  · cases h
    rw [Task.pending, count_others hA hp, count_getAllPeers hA, promised, hc, hid]
    by_cases hji : j = i
    · simp [hji]
    · by_cases hj : j ∈ s.getAllPeers <;> simp [hji, hj]

theorem handleDirectMessage_pending (hc : m.code = some .incomingDirectMessage)
    (h : s.handleDirectMessage i p.peerId m = some (s', task, es)) :
    task.pending j = s.promised i j m := by
  rw [promised, hc]
  unfold handleDirectMessage at h
  cases hdm : m.retrieveDirectMessage with
  | none =>
    rw [hdm] at h
    cases h
    rfl
  | some dm =>
    rw [hdm] at h
    simp only at h ⊢
    split at h
    · next hempty =>
      cases h
      simp [Task.pending, timesNamed, List.isEmpty_iff.mp hempty]
    · split at h
      · cases h
      · cases h
        rw [Task.pending, count_others hA hp, count_getPeers_eq, hid]
        by_cases hji : j = i <;> simp [hji]

omit hp in
theorem handleSynchronizedEvent_pending (hc : m.code = some .incomingSynchronizedEvent)
    (h : s.handleSynchronizedEvent p.peerId m = some (s', task, es)) :
    task.pending j = s.promised i j m := by
  unfold handleSynchronizedEvent at h
  split at h
  · cases h
  · cases h
    rw [Task.pending, count_getAllPeers hA, promised, hc, nextSynchronizedEvent, hid]
    by_cases hj : j ∈ s.getAllPeers <;> simp [hj]

theorem handleClientMessage_pending (hc : m.code = some .incomingClientMessage)
    (h : s.handleClientMessage i p.peerId m = some (s', task, es)) :
    task.pending j = s.promised i j m := by
  rw [promised, hc]
  unfold handleClientMessage at h
  split at h
  · cases h
  · split at h
    · next hh =>
      cases h
      simp [Task.pending, show s.host = none from hh]
    · next k hh =>
      have hh : s.host = some k := hh
      split at h
      · next hself =>
        cases h
        have hki : k = i := (peerId?_eq_iff hA hp).mp hself
        simp only [Task.pending, hh, hki, Option.some.injEq]
        by_cases hji : j = i
        · simp [hji]
        · simp [Ne.symm hji]
      · next hother =>
        cases h
        have hki : k ≠ i := fun hki => hother ((peerId?_eq_iff hA hp).mpr hki)
        simp only [Task.pending, hh, hid, Option.some.injEq, List.count_singleton]
        by_cases hkj : k = j
        · subst hkj
          simp [hki]
        · simp [hkj]

theorem handleMessage_pending (h : s.handleMessage i p.peerId m now = some (s', task, es)) :
    task.pending j = s.promised i j m := by
  have hnothing : ∀ {e : ErrorCodes} {text : String},
      s.sendErrorAsync i e text = some (s', task, es) → task.pending j = [] := by
    intro e text herror
    cases herror
    rfl
  unfold handleMessage at h
  split at h
  · next hc => rw [hnothing h, promised, hc]
  · next hc =>
    rw [promised, hc]
    unfold handlePong at h
    split at h
    · exact hnothing h
    · cases h
      rfl
  · next hc => exact handleBroadcast_pending hA hp hid hc h
  · next hc => exact handleDirectMessage_pending hA hp hid hc h
  · next hc => exact handleSynchronizedEvent_pending hA hid hc h
  · next hc =>
    rw [promised, hc]
    unfold handleKickMessage at h
    split at h
    · cases h
    · split at h
      · exact hnothing h
      · split at h
        · exact hnothing h
        · simp only at h
          split at h
          · exact hnothing h
          · cases h
            rfl
  · next hc => exact handleClientMessage_pending hA hp hid hc h
  · next code hpong hbroadcast hdirect hevent hkick hclient hc =>
    rw [hnothing h, promised, hc]
    cases code with
    | incomingPong => exact (hpong rfl).elim
    | incomingBroadcast => exact (hbroadcast rfl).elim
    | incomingDirectMessage => exact (hdirect rfl).elim
    | incomingSynchronizedEvent => exact (hevent rfl).elim
    | incomingHostKickClients => exact (hkick rfl).elim
    | incomingClientMessage => exact (hclient rfl).elim
    | _ => rfl

end

/-- What a peer takes upon itself is what it is to do. -/
theorem handle_promised {message : IncomingMessage} (hA : Agrees s) (hSig : Signed s)
    (hs : s.step (.handle i message now) = some (s', es)) :
    s'.pending i j = s.promised i j message.message := by
  simp only [step] at hs
  split at hs
  · cases hs
  · next p hp =>
    split at hs
    · split at hs
      · cases hs
      · next s₁ task fs hm =>
        cases hs
        have ho : s₁.objects = s.objects := (reacts_frame (handleMessage_reacts hm)).1
        have hp₁ : s₁.objects[i]? = some p := by rw [ho, hp]
        have hq : (s₁.setTask i p task).objects[i]? = some { p with task := task } :=
          (objects_setPeer hp₁ _ i).trans (if_pos rfl)
        rw [pending_of_task hq]
        exact handleMessage_pending hA hp (hSig.peerId hp) hm
    · cases hs

end Session

namespace Room
variable {r r' : Room} {es : List Event} {i j : PeerRef}

def promised (i j : PeerRef) (r : Room) : Op → List MessageDto
  | .session (.handle k message _) =>
    if k = i then r.session.promised i j message.message else []
  | _ => []

theorem begun_eq_promised {a : Op} (h : r.session.Agrees ∧ r.session.Signed)
    (hs : r.step a = some (r', es)) : begun i j r a r' = r.promised i j a := by
  obtain ⟨b, rfl, hb⟩ | ⟨hno, -, -⟩ := step_session hs
  · cases b with
    | handle k message now =>
      by_cases hk : k = i
      · subst hk
        simp only [begun, Session.begun, promised, if_true]
        exact Session.handle_promised h.1 h.2 hb
      · simp only [begun, Session.begun, promised, if_neg hk]
    | _ => rfl
  · cases a with
    | session b => exact absurd rfl (hno b)
    | _ => rfl

/-- Steps that no peer takes promise nothing. -/
theorem begun_quiet {v : List Op} (hv : ∀ b ∈ v, System.ofPeers b = false) :
    machine.takenUp (begun i j) v r = [] := by
  apply takenUp_eq_nil
  intro b hb s s'
  have hquiet := hv b hb
  cases b with
  | session b => cases b <;> first | rfl | cases hquiet
  | _ => cases hquiet

end Room

namespace System
variable {gamesConfig : GamesConfig} {s s' : System} {t es : List Event} {w : List Op}
  {k : RoomRef} {h : Hosted} {i j : PeerRef} {a : Op}

def promised (k : RoomRef) (i j : PeerRef) (s : System) (a : Op) (_ : System) : List MessageDto :=
  match a with
  | .room l b => if l = k then s.registry.rooms[k]?.elim [] fun h => h.room.promised i j b else []
  | _ => []

def pending (k : RoomRef) (i j : PeerRef) (s : System) : List MessageDto :=
  s.registry.rooms[k]?.elim [] fun h => h.room.session.pending i j

def sent (k : RoomRef) (i j : PeerRef) (t : List Event) : List MessageDto :=
  Session.sent i j (Room.sessionPart (roomPart k t))

def InOrder (s : System) : Prop :=
  ∀ (k : RoomRef) (h : Hosted), s.registry.rooms[k]? = some h →
    h.room.session.Agrees ∧ h.room.session.Signed

theorem inOrder_stood {room : Room} (hI : InOrder s) (h : Stood s.registry k room) :
    (room.session.Agrees ∧ room.session.Signed) ∧ room.session.pending i j = s.pending k i j := by
  obtain ⟨hosted, hk, rfl⟩ | ⟨hk, id, config, rfl⟩ := h
  · exact ⟨hI k hosted hk, by rw [pending, hk]; rfl⟩
  · exact ⟨⟨Session.agrees_init id config, Session.signed_init id config⟩, by
      rw [pending, hk]; rfl⟩

theorem step_inOrder (hI : InOrder s) (hs : s.step a = some (s', es)) : InOrder s' := by
  intro k h' hk
  cases step_room hs hk with
  | own h b ha hk₀ hst => exact Room.step_agrees_signed (hI k h hk₀) hst
  | quiet room v hst hv hq =>
    refine run_invariant (M := Room.machine)
      (I := fun _ r => r.session.Agrees ∧ r.session.Signed) ?_
      (inOrder_stood (i := 0) (j := 0) hI hst).1 hv
    exact fun _ _ _ _ _ h hs => Room.step_agrees_signed h hs

/-- A step that is none of the session's peers promises nothing there. -/
theorem promised_elsewhere (ha : ∀ b, a ≠ .room k b) : promised k i j s a s' = [] := by
  unfold promised
  split
  · next l b =>
    rw [if_neg]
    rintro rfl
    exact ha b rfl
  · rfl

theorem conserves (k : RoomRef) (i j : PeerRef) :
    Conserves machine InOrder (pending k i j) (promised k i j) (sent k i j) where
  step s a s' es hI hs := by
    unfold sent
    cases step_at k hs with
    | own b h room ha hk hroom hk' =>
      have hone := (Room.conserves i j).step h.room b room _ (hI k h hk) hroom
      rw [Room.begun_eq_promised (hI k h hk) hroom] at hone
      simp only [ha, pending, promised, hk, hk', if_true, Option.elim_some]
      exact hone
    | unmade ha hk hk' hnil =>
      rw [promised_elsewhere ha, hnil, pending, pending, hk, hk']
      rfl
    | quiet h' room v ha hk' hst hv hq =>
      obtain ⟨hroom, hpending⟩ := inOrder_stood (i := i) (j := j) hI hst
      have hrun := (Room.conserves i j).run
        (fun _ _ _ _ h hs => Room.step_agrees_signed h hs) hroom hv
      rw [Room.begun_quiet hq, List.append_nil, hpending] at hrun
      have hpending' : s'.pending k i j = h'.room.session.pending i j := by
        rw [pending, hk']
        rfl
      rw [promised_elsewhere ha, List.append_nil, hpending']
      exact hrun
  append t u := by
    simp only [sent, roomPart_append, Room.sessionPart_append]
    exact Session.sent_append i j _ _

theorem run_promised (hr : machine.run w [] (init gamesConfig) = some (t, s)) (k : RoomRef)
    (i j : PeerRef) :
    machine.takenUp (promised k i j) w (init gamesConfig) = sent k i j t ++ s.pending k i j := by
  have hinit : InOrder (init gamesConfig) := by
    intro k h hk
    cases hk
  exact (conserves k i j).run (fun _ _ _ _ hI hs => step_inOrder hI hs) hinit hr

/-- Of all that a peer has said, in the order in which it was handled, every peer of its session
has been sent what it was to get, but for what the handler at work has still in hand. When the
server has come to rest, a peer that has its socket and rejected nothing has been handed exactly
that. -/
theorem relayed (hr : machine.run w [] (init gamesConfig) = some (t, s)) (k : RoomRef)
    (i j : PeerRef) :
    machine.takenUp (promised k i j) w (init gamesConfig) = sent k i j t ++ s.pending k i j ∧
      ∀ h : Hosted, machine.AtRest Own s → s.registry.rooms[k]? = some h →
        h.room.attached j = true → (∀ m n, .rejected m n ∉ Room.channel j (roomPart k t)) →
        sentBy i (Outbox.concluded (Room.outboxPart j (roomPart k t))) =
          machine.takenUp (promised k i j) w (init gamesConfig) := by
  refine ⟨run_promised hr k i j, ?_⟩
  intro h hrest hk hj hno
  have hnothing : s.pending k i j = [] := by
    rw [pending, hk]
    cases hp : h.room.session.objects[i]? with
    | none => simp [Session.pending, hp]
    | some p =>
      have hrests := (rest_room hr hrest hk).threads p (List.mem_of_getElem? hp)
      rw [Option.elim_some, Session.pending_of_task hp]
      cases ht : p.task <;> simp_all [Task.rests, Task.pending]
  rw [run_promised hr, hnothing, List.append_nil, offered_at_rest hr hrest hk hj hno]
  rfl

def clientAsks : List Op :=
  let toHost : IncomingMessage :=
    ⟨⟨some .incomingClientMessage, some (.string "ready?"), none⟩, fun p hp => by cases hp; rfl⟩
  settledLobby ++
    [.room 0 (.session (.handle 1 toHost 0)), .room 0 (.session (.advance 1 0)),
      .room 0 (.session (.advance 1 0)), .room 0 (.act 0 0), .room 0 (.send 0 0 true),
      .room 0 (.act 0 0)]

theorem relayed_clientAsks :
    ∃ t s, machine.run clientAsks [] (init oneGame) = some (t, s) ∧
      sentBy 1 (Outbox.concluded (Room.outboxPart 0 (roomPart 0 t))) =
        machine.takenUp (promised 0 1 0) clientAsks (init oneGame) ∧
      machine.takenUp (promised 0 1 0) clientAsks (init oneGame) =
        [.outgoing ⟨1, some "ready?"⟩] := by
  have hrun : ((machine.run clientAsks [] (init oneGame)).bind fun r =>
      (r.2.registry.rooms[0]?).map fun h => (decide r.2.Still, h.room.attached 0,
        (Room.channel 0 (roomPart 0 r.1)).any Channel.Event.isRejected)) =
        some (true, true, false) := by
    decide +kernel
  have hword : machine.takenUp (promised 0 1 0) clientAsks (init oneGame) =
      [.outgoing ⟨1, some "ready?"⟩] := by
    decide +kernel
  obtain ⟨⟨t, s⟩, hr, hrun⟩ := Option.bind_eq_some_iff.mp hrun
  obtain ⟨h, hk, hh⟩ := Option.map_eq_some_iff.mp hrun
  obtain ⟨hstill, hrest⟩ := Prod.mk.inj hh
  obtain ⟨hattached, hnone⟩ := Prod.mk.inj hrest
  refine ⟨t, s, hr, ?_, hword⟩
  refine (relayed hr 0 1 0).2 h (still_atRest (of_decide_eq_true hstill)) hk hattached ?_
  intro m n hm
  exact Bool.false_ne_true (hnone.symm.trans (List.any_eq_true.mpr ⟨_, hm, rfl⟩))

end System
end Helicopter
