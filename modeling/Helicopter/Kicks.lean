import Helicopter.SenderOrder
import Helicopter.SessionLineage
import Helicopter.Sockets

/-! `Peer::kick` and the coroutines it starts: who makes the server invalidate the connection of
a peer. -/
namespace Helicopter
open Interleaving

def Task.kicks (i j : PeerRef) : Task → Prop
  | .selecting peerIds => some (j : Int) ∈ peerIds ∧ i ≠ j
  | .kicking targets => j ∈ targets
  | _ => False

namespace Session
variable {s s' : Session} {es : List Event} {a : Op} {i j : PeerRef} {p : Peer}

def Kicking (s : Session) (j : PeerRef) : Prop :=
  ∃ (i : PeerRef) (p : Peer), s.objects[i]? = some p ∧ p.task.kicks i j

def HostKicks (s : Session) (a : Op) (j : PeerRef) (peerId : Int) : Prop :=
  ∃ i message now, ∃ p : Peer, ∃ peerIds, a = .handle i message now ∧ s.objects[i]? = some p ∧
    p.isHost = true ∧ s.host = some i ∧ message.message.code = some .incomingHostKickClients ∧
    message.message.retrieveInt64s = some peerIds ∧ some peerId ∈ peerIds ∧ i ≠ j

/-- Whom a thread is about to kick after its section, it was about to kick before. -/
theorem nextTask_kicks {task : Task} (hA : Agrees s) (hS : Signed s)
    (hp : s.objects[i]? = some p) (hn : NextTask s p task) (hk : task.kicks i j) :
    p.task.kicks i j := by
  cases hn with
  | select peerIds ht =>
    obtain ⟨hget, hne⟩ := mem_of_mem_others hk
    obtain ⟨id?, hmem, hid⟩ := List.mem_filterMap.mp hget
    obtain ⟨id, rfl, hfind⟩ := Option.bind_eq_some_iff.mp hid
    obtain ⟨q, hq, rfl⟩ := peerId_of_find hA hfind
    rw [hS.peerId hq] at hmem
    rw [ht]
    exact ⟨hmem, fun he => hne ((peerId?_eq_iff hA hp).mpr he.symm)⟩
  | kick targets c ht =>
    rw [ht]
    exact List.mem_of_mem_eraseIdx hk
  | _ => exact hk.elim

theorem reacts_kicks {message : IncomingMessage} {now : Int} {task : Task} (hA : Agrees s)
    (hp : s.objects[i]? = some p)
    (hr : Reacts s i p.peerId message.message now s' task es) (hk : task.kicks i j) :
    s.HostKicks (.handle i message now) j j := by
  cases hr with
  | select h peerIds hc hh hid hids hm =>
    rw [(peerId?_eq_iff hA hp).mp hid] at hh
    exact ⟨i, message, now, p, peerIds, rfl, hp, isHost_of_host hA hp hh, hh, hc, hids, hk⟩
  | _ => exact hk.elim

theorem step_kicking (hA : Agrees s) (hS : Signed s) (hs : s.step a = some (s', es))
    (hk : s'.Kicking j) : s.Kicking j ∨ s.HostKicks a j j := by
  obtain ⟨i, p, hp, hk⟩ := hk
  refine forall_step (P := fun i p => p.task.kicks i j → s.Kicking j ∨ s.HostKicks a j j) hs
    ?_ ?_ ?_ i p hp hk
  · intro i p hp hk
    exact Or.inl ⟨i, p, hp, hk⟩
  · intro isHost hk
    exact hk.elim
  · intro i p q hp ht hk
    cases ht with
    | thread c task hn => exact Or.inl ⟨i, p, hp, nextTask_kicks hA hS hp hn hk⟩
    | record c timestamp pingTime ht => exact hk.elim
    | handle message now s₁ task es ht hr => exact Or.inr (reacts_kicks hA hp hr hk)
    | close ht => exact hk.elim
    | check c now timestamp =>
      rw [task_countPing] at hk
      exact Or.inl ⟨i, p, hp, hk⟩

/-- Only the loop of `handleKickMessage` calls `kick`. -/
theorem step_kick (hs : s.step a = some (s', es)) (hk : .kick j ∈ es) : s.Kicking j := by
  cases step_cases hs with
  | findSession => cases hk
  | newPeer k isHost hl => cases List.mem_singleton.mp hk
  | advance i p c s' es hp ha =>
    cases ha with
    | add ht hm =>
      obtain he | he := List.mem_cons.mp hk
      · cases he
      · obtain ⟨k, notice, he⟩ := offer_of_mem_addPeer he
        cases he
    | remove ht hm =>
      obtain he | he := List.mem_cons.mp hk
      · cases he
      · obtain ⟨k, notice, he⟩ := offer_of_mem_removePeerById he
        cases he
    | kick targets c k ht hc =>
      cases List.mem_singleton.mp hk
      exact ⟨i, p, hp, by rw [ht]; exact List.mem_of_getElem? hc⟩
    | _ => simp at hk
  | handle i p message now s₁ task es hp ht hr => cases hr <;> simp at hk
  | close i p hp ht => cases List.mem_singleton.mp hk
  | tick c now s' es ht => cases ht <;> simp at hk

end Session

/-- A `KickCoroutine` for the socket of the peer. -/
structure Kick where
  room : RoomRef
  peer : PeerRef
  deriving DecidableEq

structure Kicks where
  system : System
  coroutines : List Kick := []

namespace Kicks

inductive Event where
  | system (e : System.Event)
  /-- `onMessageSent` invalidates the connection -/
  | invalidated (kick : Kick)

inductive Op where
  | system (a : System.Op)
  | onMessageSent (n : Nat)
  /-- the frame is not written, and the coroutine ends with the error -/
  | failed (n : Nat)

def kick? : System.Event → Option Kick
  | .registry (.room k (.session (.kick j))) => some ⟨k, j⟩
  | _ => none

/-- `if (m_socket)` -/
def attached (s : System) (x : Kick) : Bool :=
  (s.registry.rooms[x.room]?).any fun h => h.room.attached x.peer

def step (s : Kicks) : Op → Option (Kicks × List Event)
  | .system a =>
    match s.system.step a with
    | none => none
    | some (s', es) =>
      let started := (es.filterMap kick?).filter (attached s.system)
      some (⟨s', s.coroutines ++ started⟩, es.map .system)
  | .onMessageSent n =>
    match s.coroutines[n]? with
    | none => none
    | some x => some ({ s with coroutines := s.coroutines.eraseIdx n }, [.invalidated x])
  | .failed n =>
    match s.coroutines[n]? with
    | none => none
    | some _ => some ({ s with coroutines := s.coroutines.eraseIdx n }, [])

def machine : Machine Kicks Op Event := ⟨step⟩

def init (gamesConfig : GamesConfig) : Kicks := { system := System.init gamesConfig }

def Event.system? : Event → Option System.Event
  | .system e => some e
  | .invalidated _ => none

def systemPart (t : List Event) : List System.Event := t.filterMap Event.system?

def Called (t : List Event) (x : Kick) : Prop :=
  .kick x.peer ∈ Room.sessionPart (System.roomPart x.room (systemPart t))

def Invalidates (t : List Event) (x : Kick) : Prop :=
  .resetSocket x.peer ∈ Room.sessionPart (System.roomPart x.room (systemPart t)) ∨
    .invalidated x ∈ t

def HostKicks (x : Kick) (peerId : Int) (s : Kicks) (a : Op) : Prop :=
  ∃ b h, a = .system (.room x.room (.session b)) ∧
    s.system.registry.rooms[x.room]? = some h ∧ h.room.session.HostKicks b x.peer peerId

@[simp] theorem systemPart_append (t u : List Event) :
    systemPart (t ++ u) = systemPart t ++ systemPart u := List.filterMap_append ..

@[simp] theorem systemPart_system (es : List System.Event) : systemPart (es.map .system) = es := by
  induction es with
  | nil => rfl
  | cons e es ih => exact congrArg (e :: ·) ih

theorem called_append (t u : List Event) (x : Kick) :
    Called (t ++ u) x ↔ Called t x ∨ Called u x := by
  simp [Called]

theorem kick_lineage : System.SessionLineage (fun s => s.Agrees ∧ s.Signed)
    (fun x s b => s.HostKicks b x.peer x.peer) (fun s (x : Kick) => s.Kicking x.peer)
    (fun t x => .kick x.peer ∈ t) where
  rules := {
    wait := fun _ _ _ _ _ _ hI hs hx => Session.step_kicking hI.1 hI.2 hs hx
    out := fun _ _ _ _ _ _ _ hs hx => Session.step_kick hs hx
    append := fun _ _ _ hx => List.mem_append.mp hx }
  init id config := ⟨Session.agrees_init id config, Session.signed_init id config⟩
  step _ _ _ _ hI hs := Session.step_agrees_signed hI hs
  fresh := by
    rintro id config x ⟨i, p, hp, -⟩
    cases hp
  silent _ hx := by cases hx
  quiet := by
    rintro x s b hb ⟨i, message, now, p, peerIds, rfl, -⟩
    cases hb

theorem mem_kick {es : List System.Event} {x : Kick} (hx : x ∈ es.filterMap kick?) :
    .kick x.peer ∈ Room.sessionPart (System.roomPart x.room es) := by
  obtain ⟨e, he, hx⟩ := List.mem_filterMap.mp hx
  unfold kick? at hx
  split at hx
  · next k j =>
    cases hx
    have hroom : .room k (.session (.kick j)) ∈ System.registryPart es :=
      List.mem_filterMap.mpr ⟨_, he, rfl⟩
    exact Room.mem_sessionPart.mpr (List.mem_filterMap.mpr ⟨_, hroom, if_pos rfl⟩)
  · cases hx

inductive Step (s : Kicks) : Op → Kicks → List Event → Prop where
  | system (a : System.Op) (s' : System) (es : List System.Event) :
    System.machine.step s.system a = some (s', es) →
    Step s (.system a)
      ⟨s', s.coroutines ++ (es.filterMap kick?).filter (attached s.system)⟩ (es.map .system)
  | onMessageSent (n : Nat) (x : Kick) : s.coroutines[n]? = some x →
    Step s (.onMessageSent n) { s with coroutines := s.coroutines.eraseIdx n } [.invalidated x]
  | failed (n : Nat) : Step s (.failed n) { s with coroutines := s.coroutines.eraseIdx n } []

theorem step_cases {s s' : Kicks} {a : Op} {es : List Event} (h : step s a = some (s', es)) :
    Step s a s' es := by
  cases a with
  | system a =>
    simp only [step] at h
    split at h
    · cases h
    · next hs => cases h; exact .system a _ _ hs
  | onMessageSent n =>
    simp only [step] at h
    split at h
    · cases h
    · next x hx => cases h; exact .onMessageSent n x hx
  | failed n =>
    simp only [step] at h
    split at h
    · cases h
    · cases h; exact .failed n

def Sound (t : List Event) (s : Kicks) : Prop :=
  System.Keeps (fun s => s.Agrees ∧ s.Signed) (systemPart t) s.system

theorem sound_step {t : List Event} {s s' : Kicks} {a : Op} {es : List Event} (h : Sound t s)
    (hs : machine.step s a = some (s', es)) : Sound (t ++ es) s' := by
  unfold Sound
  rw [systemPart_append]
  cases step_cases hs with
  | system b s' es hb =>
    rw [systemPart_system]
    exact kick_lineage.step_keeps h hb
  | onMessageSent n x hx => exact (List.append_nil (systemPart t)).symm ▸ h
  | failed n => exact (List.append_nil (systemPart t)).symm ▸ h

def Waits (s : Kicks) (x : Kick) : Prop :=
  System.WaitsIn Kick.room (fun s x => s.Kicking x.peer) s.system x ∨ x ∈ s.coroutines

theorem waits_eraseIdx {s : Kicks} {n : Nat} {x : Kick}
    (h : Waits { s with coroutines := s.coroutines.eraseIdx n } x) : Waits s x :=
  h.imp_right List.mem_of_mem_eraseIdx

/-- Coroutines come from calls of `kick`, and calls from messages of the host. -/
theorem lineage : Lineage machine Sound (fun x s a => HostKicks x x.peer s a) Waits
    (fun t x => Called t x ∨ .invalidated x ∈ t) where
  wait t s a s' es x hI hs hx := by
    have hserver := kick_lineage.server Kick.room
    cases step_cases hs with
    | system b s' es hb =>
      have hwaits : System.WaitsIn Kick.room (fun s x => s.Kicking x.peer) s' x →
          Waits s x ∨ HostKicks x x.peer s (.system b) := by
        intro hx
        obtain hx | ⟨c, h, hc, hk, hx⟩ := hserver.wait _ _ b _ _ x hI hb hx
        · exact Or.inl (Or.inl hx)
        · exact Or.inr ⟨c, h, by rw [hc], hk, hx⟩
      obtain hx | hx := hx
      · exact hwaits hx
      · obtain hx | hx := List.mem_append.mp hx
        · exact Or.inl (Or.inr hx)
        · have hcalled := mem_kick (List.mem_of_mem_filter hx)
          exact Or.inl (Or.inl (hserver.out _ _ b _ _ x hI hb hcalled))
    | onMessageSent n y hy => exact Or.inl (waits_eraseIdx hx)
    | failed n => exact Or.inl (waits_eraseIdx hx)
  out t s a s' es x hI hs hx := by
    cases step_cases hs with
    | system b s' es hb =>
      obtain hx | hx := hx
      · unfold Called at hx
        rw [systemPart_system] at hx
        exact Or.inl ((kick_lineage.server Kick.room).out _ _ b _ _ x hI hb hx)
      · obtain ⟨e, -, he⟩ := List.mem_map.mp hx
        cases he
    | onMessageSent n y hy =>
      obtain hx | hx := hx
      · cases hx
      · cases List.mem_singleton.mp hx
        exact Or.inr (List.mem_of_getElem? hy)
    | failed n => rcases hx with hx | hx <;> cases hx
  append t u x hx := by
    obtain hx | hx := hx
    · exact ((called_append t u x).mp hx).imp Or.inl Or.inl
    · exact (List.mem_append.mp hx).imp Or.inr Or.inr

/-- Only the pinger resets a socket in steps that no peer takes. -/
theorem run_resetSocket {v : List Room.Op} {r r' : Room} {fs : List Room.Event} {j : PeerRef}
    (hv : Room.machine.run v [] r = some (fs, r')) (hq : ∀ b ∈ v, System.ofPeers b = false)
    (hr : .resetSocket j ∈ Room.sessionPart fs) :
    ∃ timestamp, .checked j timestamp true ∈ Room.sessionPart fs := by
  refine run_invariant_along (M := Room.machine) (C := fun _ _ b => System.ofPeers b = false)
    (I := fun fs _ => .resetSocket j ∈ Room.sessionPart fs →
      ∃ timestamp, .checked j timestamp true ∈ Room.sessionPart fs) ?_
    (fun hr => by cases hr) (along_of_forall fun b hb _ _ => hq b hb) hv hr
  intro fs r b r' gs h hb hs hr
  rw [Room.sessionPart_append] at hr ⊢
  obtain hr | hr := List.mem_append.mp hr
  · obtain ⟨timestamp, hc⟩ := h hr
    exact ⟨timestamp, List.mem_append_left _ hc⟩
  · obtain ⟨c, rfl, hc⟩ | ⟨-, -, hnil⟩ := Room.step_session hs
    · obtain rfl | ⟨_, _, timestamp, -, hchecked⟩ := (Session.step_resetSocket hc hr).2
      · cases hb
      · exact ⟨timestamp, List.mem_append_right _ hchecked⟩
    · rw [hnil] at hr
      cases hr

/-- A socket is reset for its own end, or by the ping rules. -/
theorem resetSocket_cases {t es : List System.Event} {s s' : System} {a : System.Op} {x : Kick}
    (h : System.Keeps (fun s => s.Agrees ∧ s.Signed) t s)
    (hs : s.step a = some (s', es))
    (hr : .resetSocket x.peer ∈ Room.sessionPart (System.roomPart x.room es)) :
    a = .room x.room (.session (.close x.peer)) ∨
      ∃ timestamp, .checked x.peer timestamp true ∈
        Room.sessionPart (System.roomPart x.room es) := by
  cases hk : s'.registry.rooms[x.room]? with
  | none =>
    have hnil := (kick_lineage.step_keeps h hs).silent hk
    rw [System.roomPart_append] at hnil
    rw [(List.append_eq_nil_iff.mp hnil).2] at hr
    cases hr
  | some hosted =>
    cases System.step_room hs hk with
    | own h₀ b ha hk₀ hst =>
      obtain ⟨c, rfl, hc⟩ | ⟨-, -, hnil⟩ := Room.step_session hst
      · obtain rfl | ⟨_, _, timestamp, -, hc⟩ := (Session.step_resetSocket hc hr).2
        · exact Or.inl ha
        · exact Or.inr ⟨timestamp, hc⟩
      · rw [hnil] at hr
        cases hr
    | quiet r v hst hv hq => exact Or.inr (run_resetSocket hv hq hr)

/-- The peer that connected as host of a session is the only one who can remove another, and
only while it is there. Otherwise the server invalidates the connection of a peer for its own
end or by the ping rules. -/
theorem removed_by_host (gamesConfig : GamesConfig) (w : List Op) (t : List Event) (s : Kicks)
    (hr : machine.run w [] (init gamesConfig) = some (t, s)) (x : Kick) (h : Hosted) (q : Peer)
    (hk : s.system.registry.rooms[x.room]? = some h)
    (hq : h.room.session.objects[x.peer]? = some q) :
    (Called t x → machine.Passes (HostKicks x q.peerId) w (init gamesConfig)) ∧
    ∀ a s' es, machine.step s a = some (s', es) → Invalidates es x →
      a = .system (.room x.room (.session (.close x.peer))) ∨
      (∃ timestamp, .checked x.peer timestamp true ∈
        Room.sessionPart (System.roomPart x.room (systemPart es))) ∨
      ∃ n, a = .onMessageSent n ∧ s.coroutines[n]? = some x ∧
        machine.Passes (HostKicks x q.peerId) w (init gamesConfig) := by
  have hsound : Sound [] (init gamesConfig) := System.keeps_init _ gamesConfig
  have hstep : ∀ t s a s' es, Sound t s → machine.step s a = some (s', es) →
      Sound (t ++ es) s' := fun _ _ _ _ _ h hs => sound_step h hs
  have hI : Sound t s := run_invariant hstep hsound hr
  have hwaits : ∀ x, ¬ Waits (init gamesConfig) x := by
    rintro x (⟨h, hk, -⟩ | hx)
    · cases hk
    · cases hx
  have hnone : ∀ x, ¬ (Called [] x ∨ .invalidated x ∈ ([] : List Event)) := by
    rintro x (hx | hx) <;> cases hx
  obtain ⟨hpast, hcalled⟩ := lineage.run hstep hsound hwaits hnone hr x
  have hid : q.peerId = x.peer := (hI.holds hk).2.peerId hq
  rw [hid]
  refine ⟨fun hx => hcalled (Or.inl hx), ?_⟩
  intro a s' es hs hx
  cases step_cases hs with
  | system b s' es hb =>
    obtain hx | hx := hx
    · rw [systemPart_system] at hx ⊢
      obtain rfl | hx := resetSocket_cases hI hb hx
      · exact Or.inl rfl
      · exact Or.inr (Or.inl hx)
    · obtain ⟨e, -, he⟩ := List.mem_map.mp hx
      cases he
  | onMessageSent n y hy =>
    obtain hx | hx := hx
    · cases hx
    · cases List.mem_singleton.mp hx
      exact Or.inr (Or.inr ⟨n, rfl, hy, hpast (Or.inr (List.mem_of_getElem? hy))⟩)
  | failed n => rcases hx with hx | hx <;> cases hx

def hostKicks : List Op :=
  let message : IncomingMessage :=
    ⟨⟨some .incomingHostKickClients, some (.int64s [some 1]), none⟩, fun p hp => by cases hp; rfl⟩
  let greeted : List System.Op :=
    [.room 0 (.session (.advance 0 0)), .room 0 (.session (.advance 1 0))]
  let kicks : List System.Op :=
    [.room 0 (.session (.handle 0 message 0)), .room 0 (.session (.advance 0 0)),
      .room 0 (.session (.advance 0 0))]
  (System.hostAndClient ++ greeted ++ kicks).map .system

theorem removed_by_host_kicks :
    ∃ t s h q s' es, machine.run hostKicks [] (init System.oneGame) = some (t, s) ∧
      s.system.registry.rooms[0]? = some h ∧ h.room.session.objects[1]? = some q ∧
      machine.step s (.onMessageSent 0) = some (s', es) ∧ Invalidates es ⟨0, 1⟩ ∧
      machine.Passes (HostKicks ⟨0, 1⟩ q.peerId) hostKicks (init System.oneGame) := by
  have hrun : ((machine.run hostKicks [] (init System.oneGame)).bind fun r =>
      (r.2.system.registry.rooms[0]?).bind fun h => (h.room.session.objects[1]?).map fun _ =>
        decide (r.2.coroutines = [⟨0, 1⟩])) = some true := by
    decide +kernel
  obtain ⟨⟨t, s⟩, hr, hrun⟩ := Option.bind_eq_some_iff.mp hrun
  obtain ⟨h, hk, hrun⟩ := Option.bind_eq_some_iff.mp hrun
  obtain ⟨q, hq, hc⟩ := Option.map_eq_some_iff.mp hrun
  have hc : s.coroutines = [⟨0, 1⟩] := of_decide_eq_true hc
  have hs : machine.step s (.onMessageSent 0) =
      some ({ s with coroutines := [] }, [.invalidated ⟨0, 1⟩]) := by
    simp [machine, step, hc]
  have hinv : Invalidates [.invalidated ⟨0, 1⟩] ⟨0, 1⟩ := Or.inr List.mem_cons_self
  have hcases := (removed_by_host System.oneGame hostKicks t s hr ⟨0, 1⟩ h q hk hq).2 _ _ _ hs hinv
  refine ⟨t, s, h, q, _, _, hr, hk, hq, hs, hinv, ?_⟩
  obtain ha | ⟨timestamp, hx⟩ | ⟨n, -, -, hpast⟩ := hcases
  · cases ha
  · cases hx
  · exact hpast

end Kicks
end Helicopter
