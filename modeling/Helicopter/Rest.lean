import Helicopter.Settling
import Helicopter.PeersMutex

/-! Nobody waits for ever: where the server has no step of its own to take, every connection has
been answered, every thread listens, every pinger sleeps, and every queue with a socket is empty. -/
namespace Helicopter
open Interleaving

def Task.rests : Task → Bool
  | .listening | .removed => true
  | _ => false

def PingerTask.rests : PingerTask → Bool
  | .idle => true
  | _ => false

def Outbox.rests {μ : Type*} (o : Outbox μ) : Bool :=
  o.senders.isEmpty && (!o.socket || o.queue.isEmpty)

theorem Outbox.rests_iff {μ : Type*} {o : Outbox μ} :
    o.rests = true ↔ o.senders = [] ∧ (o.socket = true → o.queue = []) := by
  simp only [rests, Bool.and_eq_true, Bool.or_eq_true, List.isEmpty_iff, Bool.not_eq_true']
  cases o.socket <;> simp

namespace Session
variable {s : Session}

/-- A thread goes on, unless it waits for the mutex. -/
theorem advance_enabled {i : PeerRef} {p : Peer} (hl : Locked s) (hp : s.objects[i]? = some p)
    (hrest : p.task.rests = false) (hm : p.task.holds = true ∨ s.peersMutex = false) :
    s.step (.advance i 0) ≠ none := by
  have hfree : p.task.holds = false → s.peersMutex = false := by
    intro hno
    rw [hno] at hm
    exact hm.resolve_left (by simp)
  simp only [step, hp, advance]
  cases ht : p.task with
  | adding => simp [hfree (by rw [ht]; rfl)]
  | greeting => simp
  | listening => rw [ht] at hrest; cases hrest
  | reported timestamp pingTime =>
    have hpin := (hl.free (hfree (by rw [ht]; rfl))).1
    cases hpg : s.pinger with
    | dropping timestamp' rest j => rw [hpg] at hpin; cases hpin
    | _ => simp
  | sending recipients payload => cases recipients <;> simp
  | broadcasting recipients event => cases recipients <;> simp
  | selecting peerIds => simp [hfree (by rw [ht]; rfl)]
  | kicking targets => cases targets <;> simp
  | clearing => simp
  | removing => simp [hfree (by rw [ht]; rfl)]
  | removed => rw [ht] at hrest; cases hrest

/-- So does the pinger. -/
theorem tick_enabled (hR : Routed s) (hm : s.pinger.holds = true ∨ s.peersMutex = false)
    (now : Int) : s.step (.tick 0 now) ≠ none := by
  have hfree : s.pinger.holds = false → s.peersMutex = false := by
    intro hno
    rw [hno] at hm
    exact hm.resolve_left (by simp)
  simp only [step, tick]
  cases hpg : s.pinger with
  | idle => simp
  | checking timestamp => simp [hfree (by rw [hpg]; rfl)]
  | checkLoop timestamp rest =>
    cases rest with
    | nil => simp
    | cons j rest =>
      obtain ⟨p, hp, -⟩ := hR.pinger j (by rw [hpg]; exact List.mem_cons_self)
      simp only [List.getElem?_cons_zero, hp]
      split <;> simp
  | dropping timestamp rest j => simp
  | checked => simp
  | pinging timestamp => simp [hfree (by rw [hpg]; rfl)]
  | pingLoop timestamp rest => cases rest <;> simp

theorem newPeer_enabled (h : s.lookups ≠ []) : s.step (.newPeer 0) ≠ none := by
  cases hl : s.lookups with
  | nil => exact absurd hl h
  | cons isHost lookups => simp [step, hl]

end Session

namespace Room
variable {r : Room}

theorem session_enabled {b : Session.Op} (h : r.session.step b ≠ none) :
    r.step (.session b) ≠ none := by
  simp only [step]
  split
  · next hs => exact absurd hs h
  · simp

theorem sender_enabled {j : PeerRef} {o : Outbox MessageDto} (ho : r.outboxes[j]? = some o)
    (h : o.senders ≠ []) : r.step (.act j 0) ≠ none ∨ r.step (.send j 0 true) ≠ none := by
  cases hs : o.senders with
  | nil => exact absurd hs h
  | cons x senders =>
    cases x with
    | acting =>
      left
      simp only [step, stepOutbox, ho, Outbox.step, Outbox.act, hs, List.getElem?_cons_zero]
      cases o.queue.getLast? <;> simp
    | sending m =>
      right
      simp [step, stepOutbox, ho, Outbox.step, Outbox.send, hs]

structure Still (r : Room) : Prop where
  lookups : r.session.lookups.isEmpty = true
  threads : ∀ p ∈ r.session.objects, p.task.rests = true
  pinger : r.session.pinger.rests = true
  mutex : r.session.peersMutex = false
  queues : ∀ o ∈ r.outboxes, o.rests = true

instance (r : Room) : Decidable r.Still :=
  decidable_of_iff (r.session.lookups.isEmpty = true ∧ (∀ p ∈ r.session.objects,
      p.task.rests = true) ∧ r.session.pinger.rests = true ∧ r.session.peersMutex = false ∧
      ∀ o ∈ r.outboxes, o.rests = true)
    ⟨fun ⟨hl, ht, hp, hm, hq⟩ => ⟨hl, ht, hp, hm, hq⟩,
      fun ⟨hl, ht, hp, hm, hq⟩ => ⟨hl, ht, hp, hm, hq⟩⟩

theorem still_disabled (h : r.Still) {a : Op} (ha : own a = true) : r.step a = none := by
  cases a with
  | session b =>
    cases b with
    | newPeer k => simp [step, Session.step, List.isEmpty_iff.mp h.lookups]
    | advance i c =>
      cases hp : r.session.objects[i]? with
      | none => simp [step, Session.step, hp]
      | some p =>
        have hrest := h.threads p (List.mem_of_getElem? hp)
        cases ht : p.task with
        | listening => simp [step, Session.step, hp, Session.advance, ht]
        | removed => simp [step, Session.step, hp, Session.advance, ht]
        | _ => rw [ht] at hrest; cases hrest
    | _ => cases ha
  | act j k =>
    cases ho : r.outboxes[j]? with
    | none => simp [step, stepOutbox, ho]
    | some o =>
      have hnone := (Outbox.rests_iff.mp (h.queues o (List.mem_of_getElem? ho))).1
      simp [step, stepOutbox, ho, Outbox.step, Outbox.act, hnone]
  | send j k ok =>
    cases ho : r.outboxes[j]? with
    | none => simp [step, stepOutbox, ho]
    | some o =>
      have hnone := (Outbox.rests_iff.mp (h.queues o (List.mem_of_getElem? ho))).1
      simp [step, stepOutbox, ho, Outbox.step, Outbox.send, hnone]

/-- A queue without a coroutine, whose socket is there, is empty. -/
theorem queue_of_ready {o : Outbox MessageDto} (h : o.Ready) (hs : o.senders = [])
    (hk : o.socket = true) : o.queue = [] := by
  cases ha : o.active with
  | false => exact (h.idle ha).1
  | true =>
    have hlive := h.live ha hk
    rw [hs] at hlive
    cases hlive

end Room

namespace System
variable {gamesConfig : GamesConfig} {s s' : System} {t es : List Event}

structure Still (s : System) : Prop where
  admissions : s.admissions.isEmpty = true
  departures : s.departures.isEmpty = true
  games : ∀ game ∈ s.registry.gameObjects, game.locked = false
  rooms : ∀ h ∈ s.registry.rooms, h.room.Still

instance (s : System) : Decidable s.Still :=
  decidable_of_iff (s.admissions.isEmpty = true ∧ s.departures.isEmpty = true ∧
      (∀ game ∈ s.registry.gameObjects, game.locked = false) ∧
      ∀ h ∈ s.registry.rooms, h.room.Still)
    ⟨fun ⟨ha, hd, hg, hr⟩ => ⟨ha, hd, hg, hr⟩, fun ⟨ha, hd, hg, hr⟩ => ⟨ha, hd, hg, hr⟩⟩

theorem still_atRest (h : s.Still) : machine.AtRest Own s := by
  intro a ha
  show s.step a = none
  cases a with
  | connect params => cases ha
  | getSession c => simp [step, List.isEmpty_iff.mp h.admissions]
  | findGame d => simp [step, List.isEmpty_iff.mp h.departures]
  | deleteSession d => simp [step, List.isEmpty_iff.mp h.departures]
  | room k b =>
    cases hk : s.registry.rooms[k]? with
    | none => simp [step, stepPeers, Registry.stepRoom, hk]
    | some hosted =>
      have hnone := Room.still_disabled (h.rooms hosted (List.mem_of_getElem? hk)) (a := b) ha
      simp [step, stepPeers, Registry.stepRoom, hk, hnone]
  | pinger g p c now =>
    simp only [Own, own, Option.any_eq_true] at ha
    obtain ⟨game, hg, x, hx, hholds⟩ := ha
    have hfree := h.games game (List.mem_of_getElem? hg)
    rw [Game.locked, List.any_eq_false] at hfree
    exact absurd hholds (hfree x (List.mem_of_getElem? hx))

theorem room_disabled (h : machine.AtRest Own s) {k : RoomRef} {hosted : Hosted} {b : Room.Op}
    (hk : s.registry.rooms[k]? = some hosted) (hb : Room.own b = true) :
    hosted.room.step b = none := by
  have hnone : s.step (.room k b) = none := h (.room k b) hb
  have hpeers : ofPeers b = true := by
    cases b with
    | session b => cases b <;> first | rfl | cases hb
    | _ => rfl
  by_contra hne
  obtain ⟨⟨room, fs⟩, hst⟩ := Option.ne_none_iff_exists'.mp hne
  simp [step, stepPeers, Registry.stepRoom, hk, hst, hpeers] at hnone

/-- What is known of every session in a reachable state. -/
theorem run_session {w : List Op} (hr : machine.run w [] (init gamesConfig) = some (t, s))
    {k : RoomRef} {h : Hosted} (hk : s.registry.rooms[k]? = some h) :
    h.room.session.Routed ∧ h.room.session.Locked ∧ h.room.session.Owned := by
  obtain ⟨id, config, hreached⟩ := run_reached hr hk
  obtain ⟨w, hw⟩ := hreached.session
  obtain ⟨hlocked, howned⟩ := Session.run_locked hw
  exact ⟨hreached.sound.2, hlocked, howned⟩

/-- No thread is in the loop of a broadcast. -/
theorem rest_broadcasts {w : List Op} (hr : machine.run w [] (init gamesConfig) = some (t, s))
    (h : machine.AtRest Own s) {k : RoomRef} {hosted : Hosted}
    (hk : s.registry.rooms[k]? = some hosted) (i : Nat) (p : Peer)
    (hp : hosted.room.session.objects[i]? = some p) : p.task.holds = false := by
  obtain ⟨-, hlocked, -⟩ := run_session hr hk
  by_contra hholds
  have hholds : p.task.holds = true := by simpa using hholds
  have hbusy : p.task.rests = false := by
    cases ht : p.task with
    | broadcasting recipients event => rfl
    | _ => rw [ht] at hholds; cases hholds
  exact Room.session_enabled (Session.advance_enabled hlocked hp hbusy (Or.inl hholds))
    (room_disabled h hk (b := .session (.advance i 0)) rfl)

/-- Then the pinger of the session can go on. -/
theorem rest_tick {w : List Op} (hr : machine.run w [] (init gamesConfig) = some (t, s))
    (h : machine.AtRest Own s) {k : RoomRef} {hosted : Hosted}
    (hk : s.registry.rooms[k]? = some hosted) :
    s.registry.tickRoom k 0 0 ≠ none := by
  obtain ⟨hrouted, -, howned⟩ := run_session hr hk
  have hm : hosted.room.session.pinger.holds = true ∨
      hosted.room.session.peersMutex = false := by
    cases hm : hosted.room.session.peersMutex with
    | false => exact Or.inr rfl
    | true =>
      left
      obtain hpg | ⟨i, p, hp, hh⟩ := howned hm
      · exact hpg
      · rw [rest_broadcasts hr h hk i p hp] at hh
        cases hh
  have hroom := Room.session_enabled (Session.tick_enabled hrouted hm 0)
  obtain ⟨⟨room, fs⟩, hst⟩ := Option.ne_none_iff_exists'.mp hroom
  have hlt := (List.getElem?_eq_some_iff.mp hk).1
  simp [Registry.tickRoom, Registry.stepRoom, hk, hst, List.getElem?_set_self hlt]

/-- No pinger is in the middle of an activation. -/
theorem rest_games {w : List Op} (hr : machine.run w [] (init gamesConfig) = some (t, s))
    (h : machine.AtRest Own s) (g : GameRef) (game : Game)
    (hg : s.registry.gameObjects[g]? = some game) : game.locked = false := by
  rw [Game.locked, List.any_eq_false]
  intro x hmem hholds
  obtain ⟨p, hx⟩ := List.mem_iff_getElem?.mp hmem
  obtain ⟨v, bs, hv⟩ := run_calls hr
  have hsup := Registry.run_supervised hv
  have hown : Own s (.pinger g p 0 0) := by
    simp only [Own, own, hg, hx, Option.any_some]
    exact hholds
  have hnone : s.registry.pinger g p 0 0 = none := by
    have hstep : s.step (.pinger g p 0 0) = none := h _ hown
    simp only [step] at hstep
    split at hstep
    · next hp => exact hp
    · cases hstep
  -- the session it is in can go on
  have htick : ∀ k, x.current = some k → s.registry.tickRoom k 0 0 ≠ none := by
    intro k hk
    obtain ⟨hosted, hroom, -⟩ := Registry.expected_of_listed hsup hg hx
      fun ss hl => Registry.current_mem hl hk
    exact rest_tick hr h hroom
  unfold Registry.pinger at hnone
  simp only [hg, hx] at hnone
  cases x with
  | waiting => cases hholds
  | checking current rest =>
    cases current with
    | none => cases rest <;> simp at hnone
    | some k =>
      obtain ⟨⟨task, r, fs⟩, ht⟩ := Option.ne_none_iff_exists'.mp (htick k rfl)
      cases task <;> simp [ht] at hnone
  | pinging current rest =>
    cases current with
    | none => cases rest <;> simp at hnone
    | some k =>
      obtain ⟨⟨task, r, fs⟩, ht⟩ := Option.ne_none_iff_exists'.mp (htick k rfl)
      cases task <;> simp [ht] at hnone

theorem rest_pinger {w : List Op} (hr : machine.run w [] (init gamesConfig) = some (t, s))
    (h : machine.AtRest Own s) {k : RoomRef} {hosted : Hosted}
    (hk : s.registry.rooms[k]? = some hosted) : hosted.room.session.pinger = .idle := by
  obtain ⟨v, bs, hv⟩ := run_calls hr
  have hsup := Registry.run_supervised hv
  obtain ⟨game, hg, -⟩ := (run_standing hr).filed.hosted k hosted hk
  exact Registry.idle_of_free hsup.phased hsup.sound hg (rest_games hr h _ game hg) hk rfl

theorem rest_room {w : List Op} (hr : machine.run w [] (init gamesConfig) = some (t, s))
    (h : machine.AtRest Own s) {k : RoomRef} {hosted : Hosted}
    (hk : s.registry.rooms[k]? = some hosted) : hosted.room.Still := by
  obtain ⟨-, hlocked, howned⟩ := run_session hr hk
  obtain ⟨id, config, hreached⟩ := run_reached hr hk
  have hpin := rest_pinger hr h hk
  have hmutex : hosted.room.session.peersMutex = false := by
    by_contra hm
    obtain hpg | ⟨i, p, hp, hh⟩ := howned (by simpa using hm)
    · rw [hpin] at hpg
      cases hpg
    · rw [rest_broadcasts hr h hk i p hp] at hh
      cases hh
  refine ⟨?_, ?_, by rw [hpin]; rfl, hmutex, ?_⟩
  · rw [List.isEmpty_iff]
    by_contra hne
    exact Room.session_enabled (Session.newPeer_enabled hne)
      (room_disabled h hk (b := .session (.newPeer 0)) rfl)
  · intro p hmem
    obtain ⟨i, hp⟩ := List.mem_iff_getElem?.mp hmem
    by_contra hbusy
    exact Room.session_enabled
      (Session.advance_enabled hlocked hp (by simpa using hbusy) (Or.inr hmutex))
      (room_disabled h hk (b := .session (.advance i 0)) rfl)
  · intro o hmem
    obtain ⟨j, ho⟩ := List.mem_iff_getElem?.mp hmem
    have hnone : o.senders = [] := by
      by_contra hne
      obtain hact | hsend := Room.sender_enabled ho hne
      · exact hact (room_disabled h hk (b := .act j 0) rfl)
      · exact hsend (room_disabled h hk (b := .send j 0 true) rfl)
    obtain ⟨o₀, u, rfl, hu⟩ := hreached.outboxes.reached j o ho
    exact Outbox.rests_iff.mpr ⟨hnone, Room.queue_of_ready (Outbox.run_ready hu).1 hnone⟩

theorem findSession_enabled {r : Registry} {k : RoomRef} {hosted : Hosted}
    (hk : r.rooms[k]? = some hosted) : r.stepRoom k (.session .findSession) ≠ none := by
  simp [Registry.stepRoom, hk, Room.step, Session.step]

theorem rest_admissions {w : List Op} (hr : machine.run w [] (init gamesConfig) = some (t, s))
    (h : machine.AtRest Own s) : s.admissions.isEmpty = true := by
  have hstanding := run_standing hr
  cases hadm : s.admissions with
  | nil => rfl
  | cons a rest =>
    exfalso
    have hlt := hstanding.admissions a (by rw [hadm]; exact List.mem_cons_self)
    obtain ⟨game, hg⟩ : ∃ game, s.registry.gameObjects[a.game]? = some game :=
      ⟨_, List.getElem?_eq_getElem hlt⟩
    have hfree := rest_games hr h a.game game hg
    have hget : s.registry.getSession a ≠ none := by
      unfold Registry.getSession
      split
      · cases hf : game.sessions.find a.sessionId <;>
          simp [Registry.createNewSession, hg, hfree, hf]
      · cases hf : game.sessions.find a.sessionId with
        | none => simp [Registry.findSession, hg, hfree, hf]
        | some k =>
          obtain ⟨hosted, hk, -⟩ := hstanding.tables a.game a.sessionId k
            ((Registry.lookup_of_game hg a.sessionId).trans hf)
          obtain ⟨⟨r, fs⟩, hst⟩ := Option.ne_none_iff_exists'.mp (findSession_enabled hk)
          simp [Registry.findSession, hg, hfree, hf, hst]
    obtain ⟨⟨res, r, fs⟩, hres⟩ := Option.ne_none_iff_exists'.mp hget
    have hnone : s.step (.getSession 0) = none := h (.getSession 0) rfl
    simp only [step, hadm, List.getElem?_cons_zero, hres] at hnone
    cases res <;> cases hnone

theorem rest_departures {w : List Op} (hr : machine.run w [] (init gamesConfig) = some (t, s))
    (h : machine.AtRest Own s) : s.departures.isEmpty = true := by
  have hstanding := run_standing hr
  cases hdep : s.departures with
  | nil => rfl
  | cons d rest =>
    exfalso
    have hrefers := hstanding.departures d (by rw [hdep]; exact List.mem_cons_self)
    cases d with
    | emptied k =>
      obtain ⟨hosted, hk⟩ : ∃ hosted, s.registry.rooms[k]? = some hosted :=
        ⟨_, List.getElem?_eq_getElem hrefers⟩
      -- the game of the session is in the table
      obtain ⟨game, hg, hconf⟩ := hstanding.filed.hosted k hosted hk
      obtain ⟨g, hf, -⟩ := hstanding.filed.configs _ game hg
      rw [← hconf] at hf
      have hnone : s.step (.findGame 0) = none := h (.findGame 0) rfl
      simp [step, hdep, hk, Registry.getGameById, hf] at hnone
    | deleting g sessionId =>
      obtain ⟨game, hg⟩ : ∃ game, s.registry.gameObjects[g]? = some game :=
        ⟨_, List.getElem?_eq_getElem hrefers⟩
      have hfree := rest_games hr h g game hg
      have hnone : s.step (.deleteSession 0) = none := h (.deleteSession 0) rfl
      simp [step, hdep, Registry.deleteSession, hg, hfree] at hnone

theorem still_of_atRest {w : List Op} (hr : machine.run w [] (init gamesConfig) = some (t, s))
    (h : machine.AtRest Own s) : s.Still := by
  refine ⟨rest_admissions hr h, rest_departures hr h, ?_, ?_⟩
  · intro game hmem
    obtain ⟨g, hg⟩ := List.mem_iff_getElem?.mp hmem
    exact rest_games hr h g game hg
  · intro hosted hmem
    obtain ⟨k, hk⟩ := List.mem_iff_getElem?.mp hmem
    exact rest_room hr h hk

/-- No deadlock: in a reachable state that has no step of its own to take, nobody waits for
anybody but the clients and the timers. -/
theorem atRest_iff_still {w : List Op}
    (hr : machine.run w [] (init gamesConfig) = some (t, s)) :
    machine.AtRest Own s ↔ s.Still :=
  ⟨still_of_atRest hr, still_atRest⟩

def settledLobby : List Op :=
  hostAndClient ++
    [.room 0 (.session (.advance 0 0)), .room 0 (.session (.advance 1 0)),
      .room 0 (.act 0 0), .room 0 (.send 0 0 true), .room 0 (.act 0 0), .room 0 (.send 0 0 true),
      .room 0 (.act 0 0), .room 0 (.act 1 0), .room 0 (.send 1 0 true), .room 0 (.act 1 0)]

theorem settledLobby_run : ∃ t s, machine.run settledLobby [] (init oneGame) = some (t, s) ∧
    s.Still ∧ ∃ h, s.registry.rooms[0]? = some h ∧ h.room.attached 0 = true := by
  have hrun : ((machine.run settledLobby [] (init oneGame)).bind fun r =>
      (r.2.registry.rooms[0]?).map fun h => (decide r.2.Still, h.room.attached 0)) =
        some (true, true) := by
    decide +kernel
  obtain ⟨⟨t, s⟩, hr, hrun⟩ := Option.bind_eq_some_iff.mp hrun
  obtain ⟨h, hk, hh⟩ := Option.map_eq_some_iff.mp hrun
  obtain ⟨hstill, hattached⟩ := Prod.mk.inj hh
  exact ⟨t, s, hr, of_decide_eq_true hstill, h, hk, hattached⟩

theorem atRest_iff_still_settledLobby :
    ∃ t s, machine.run settledLobby [] (init oneGame) = some (t, s) ∧ s.Still ∧
      machine.AtRest Own s := by
  obtain ⟨t, s, hr, hstill, -⟩ := settledLobby_run
  exact ⟨t, s, hr, hstill, (atRest_iff_still hr).mpr hstill⟩

end System
end Helicopter
