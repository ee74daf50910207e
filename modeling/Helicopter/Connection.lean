import Helicopter.Registration

/-! `onAfterCreate_NonBlocking` and `onBeforeDestroy_NonBlocking` as whole calls: the sections
of one call, run one after the other. -/
namespace Helicopter
open Interleaving

namespace Session
variable {s s' : Session} {es : List Event} {i : PeerRef} {p : Peer} {isHost : Bool}

structure Idle (s : Session) : Prop where
  lookups : s.lookups = []
  free : s.peersMutex = false
  settled : ∀ (i : Nat) (p : Peer), s.objects[i]? = some p →
    p.task = .listening ∨ p.task = .removed

def entered (s : Session) (isHost : Bool) : Session :=
  { s with
    peerIdCounter := s.peerIdCounter + 1
    lookups := []
    objects := s.objects ++ [{ peerId := s.peerIdCounter, isHost := isHost, task := .listening }]
    peers := s.peers.insertNew s.peerIdCounter s.objects.length
    host := if isHost then some s.objects.length else s.host }

def enterOps (s : Session) : List Op :=
  [.newPeer (s.lookups.length - 1), .advance s.objects.length 0, .advance s.objects.length 0]

def departed (s : Session) (i : PeerRef) (p : Peer) : Session :=
  { s with
    objects := s.objects.set i { p with task := .removed }
    peers := s.peers.eraseKey p.peerId
    host := if s.isHostPeer p.peerId then none else s.host }

def leaveOps (i : PeerRef) : List Op := [.close i, .advance i 0, .advance i 0]

/-- The event that makes `onBeforeDestroy_NonBlocking` delete the session. -/
def Event.isLeftEmpty : Event → Bool
  | .left _ true => true
  | _ => false

/-- With the id drawn, before `addPeer`. -/
theorem step_newPeer_last (hl : s.lookups = [isHost]) :
    s.step (.newPeer (s.lookups.length - 1)) = some ({ s with
      peerIdCounter := s.peerIdCounter + 1
      lookups := []
      objects := s.objects ++ [{ peerId := s.peerIdCounter, isHost := isHost }] },
      [.created s.objects.length s.peerIdCounter isHost]) := by
  simp [step, hl, generateNewPeerId]

theorem step_adding (hp : s.objects[i]? = some p) (ht : p.task = .adding)
    (hm : s.peersMutex = false) (c : Nat) :
    s.step (.advance i c) = some ((s.addPeer i p.peerId p.isHost).1.setTask i p .greeting,
      .joined i p.isHost :: (s.addPeer i p.peerId p.isHost).2) := by
  simp [step, hp, advance, ht, hm]

theorem step_greeting (hp : s.objects[i]? = some p) (ht : p.task = .greeting) (c : Nat) :
    s.step (.advance i c) =
      some (s.setTask i p .listening, [.offer i (.hello p.peerId p.isHost)]) := by
  simp [step, hp, advance, ht]

theorem isLeftEmpty_tellHost {notice : Notice} {e : Event} (he : e ∈ s.tellHost notice) :
    e.isLeftEmpty = false := by
  obtain ⟨k, -, rfl⟩ := mem_tellHost.mp he
  rfl

theorem run_enter (hl : s.lookups = [isHost]) (hm : s.peersMutex = false) :
    ∃ es, machine.run s.enterOps [] s = some (es, s.entered isHost) ∧
      ∀ e ∈ es, e.isLeftEmpty = false := by
  let i := s.objects.length
  let p : Peer := { peerId := s.peerIdCounter, isHost := isHost }
  let s₁ : Session := { s with
    peerIdCounter := s.peerIdCounter + 1
    lookups := []
    objects := s.objects ++ [p] }
  let s₂ : Session := (s₁.addPeer i p.peerId p.isHost).1.setTask i p .greeting
  have hp₁ : s₁.objects[i]? = some p := by simp [s₁, i]
  have hp₂ : s₂.objects[i]? = some { p with task := .greeting } := by
    simp [s₂, s₁, i, addPeer_fst, setTask, setPeer]
  have h₁ : machine.step s (.newPeer (s.lookups.length - 1)) =
      some (s₁, [.created i s.peerIdCounter isHost]) := step_newPeer_last hl
  have h₂ : machine.step s₁ (.advance i 0) =
      some (s₂, .joined i isHost :: (s₁.addPeer i p.peerId p.isHost).2) :=
    step_adding hp₁ rfl hm 0
  have h₃ : machine.step s₂ (.advance i 0) =
      some (s.entered isHost, [.offer i (.hello s.peerIdCounter isHost)]) := by
    refine (step_greeting hp₂ rfl 0).trans ?_
    simp [s₂, s₁, i, addPeer_fst, setTask, setPeer, entered, p]
  refine ⟨[.created i s.peerIdCounter isHost] ++
    .joined i isHost :: (s₁.addPeer i p.peerId p.isHost).2 ++
    [.offer i (.hello s.peerIdCounter isHost)], ?_, ?_⟩
  · exact (run_cons h₁).trans ((run_cons h₂).trans (run_singleton h₃))
  · intro e he
    simp only [List.cons_append, List.nil_append, List.mem_cons, List.mem_append,
      List.not_mem_nil, or_false] at he
    obtain rfl | rfl | he | rfl := he
    · rfl
    · rfl
    · rw [addPeer_snd] at he
      split at he
      · cases he
      · exact isLeftEmpty_tellHost he
    · rfl

theorem isHostPeer_setTask (hp : s.objects[i]? = some p) (task : Task) (peerId : Int) :
    (s.setTask i p task).isHostPeer peerId = s.isHostPeer peerId := by
  have hid : ∀ j, (s.setTask i p task).peerId? j = s.peerId? j := by
    intro j
    unfold peerId? setTask
    rw [objects_setPeer hp]
    split
    · next hj => rw [hj, hp]; rfl
    · rfl
  have hhost : (s.setTask i p task).host = s.host := rfl
  unfold isHostPeer
  rw [hhost]
  cases s.host with
  | none => rfl
  | some h => simp only [hid]

theorem run_leave (hp : s.objects[i]? = some p) (ht : p.task = .listening)
    (hm : s.peersMutex = false) :
    ∃ es, machine.run (leaveOps i) [] s = some (es, s.departed i p) ∧
      es.any Event.isLeftEmpty = (s.departed i p).peers.isEmpty := by
  let s₁ := s.setTask i p .clearing
  let s₂ := s₁.setTask i { p with task := .clearing } .removing
  have hp₁ : s₁.objects[i]? = some { p with task := .clearing } := by
    simp only [s₁, setTask, objects_setPeer hp, if_true]
  have hp₂ : s₂.objects[i]? = some { p with task := .removing } := by
    simp only [s₂, setTask, objects_setPeer hp₁, if_true]
  have hhost : s₂.isHostPeer p.peerId = s.isHostPeer p.peerId := by
    rw [isHostPeer_setTask hp₁, isHostPeer_setTask hp]
  have h₁ : machine.step s (.close i) = some (s₁, [.resetSocket i]) := by
    simp [machine, step, hp, ht, s₁]
  have h₂ : machine.step s₁ (.advance i 0) = some (s₂, [.clearQueue i]) := by
    simp [machine, step, hp₁, advance, s₂]
  have h₃ : machine.step s₂ (.advance i 0) = some (s.departed i p,
      .left i (s₂.removePeerById p.peerId).2.1 :: (s₂.removePeerById p.peerId).2.2) := by
    have hm₂ : s₂.peersMutex = false := hm
    simp only [machine, step, hp₂, advance, hm₂, Bool.false_eq_true, if_false,
      removePeerById_fst, hhost]
    simp [s₂, s₁, setTask, setPeer, departed, hm]
  have hempty : (s₂.removePeerById p.peerId).2.1 = (s.departed i p).peers.isEmpty := by
    unfold removePeerById
    split <;> rfl
  refine ⟨[.resetSocket i] ++ [.clearQueue i] ++
    .left i (s₂.removePeerById p.peerId).2.1 :: (s₂.removePeerById p.peerId).2.2, ?_, ?_⟩
  · exact (run_cons h₁).trans ((run_cons h₂).trans (run_singleton h₃))
  · have hrest : (s₂.removePeerById p.peerId).2.2.any Event.isLeftEmpty = false := by
      rw [List.any_eq_false]
      intro e he
      obtain ⟨-, k, -, rfl⟩ := mem_removePeerById.mp he
      simp [Event.isLeftEmpty]
    rw [← hempty]
    simp only [List.any_append, List.any_cons, List.any_nil, hrest, Bool.or_false]
    cases (s₂.removePeerById p.peerId).2.1 <;> rfl

theorem agrees_run {w : List Op} {t t' : List Event} (h : Agrees s)
    (hr : machine.run w t s = some (t', s')) : Agrees s' :=
  run_invariant (I := fun _ s => Agrees s) (fun _ _ _ _ _ h hs => (step_roster h hs).1) h hr

theorem agrees_entered (h : Agrees s) (hl : s.lookups = [isHost]) (hm : s.peersMutex = false) :
    (s.entered isHost).Agrees := by
  obtain ⟨es, hrun, -⟩ := run_enter hl hm
  exact agrees_run h hrun

theorem agrees_departed (h : Agrees s) (hp : s.objects[i]? = some p) (ht : p.task = .listening)
    (hm : s.peersMutex = false) : (s.departed i p).Agrees := by
  obtain ⟨es, hrun, -⟩ := run_leave hp ht hm
  exact agrees_run h hrun

theorem objects_entered (j : PeerRef) : (s.entered isHost).objects[j]? =
    if j = s.objects.length then
      some { peerId := s.peerIdCounter, isHost := isHost, task := .listening }
    else s.objects[j]? :=
  getElem?_snoc s.objects _ j

theorem objects_departed (hp : s.objects[i]? = some p) (j : PeerRef) :
    (s.departed i p).objects[j]? =
      if j = i then some { p with task := .removed } else s.objects[j]? :=
  objects_setPeer hp { p with task := .removed } j

theorem idle_entered (hm : s.peersMutex = false)
    (hs : ∀ (j : Nat) (q : Peer), s.objects[j]? = some q →
      q.task = .listening ∨ q.task = .removed) :
    (s.entered isHost).Idle := by
  refine ⟨rfl, hm, ?_⟩
  intro j q hq
  rw [objects_entered] at hq
  split at hq
  · cases hq
    exact Or.inl rfl
  · exact hs j q hq

theorem idle_departed (h : s.Idle) (hp : s.objects[i]? = some p) : (s.departed i p).Idle := by
  refine ⟨h.lookups, h.free, ?_⟩
  intro j q hq
  rw [objects_departed hp] at hq
  split at hq
  · cases hq
    exact Or.inr rfl
  · exact h.settled j q hq

/-- In an idle session the map holds the peers that listen. -/
theorem find_iff_listening (h : s.Idle) (hA : s.Agrees) {id : Int} :
    s.peers.find id = some i ↔
      ∃ p : Peer, s.objects[i]? = some p ∧ p.peerId = id ∧ p.task = .listening := by
  constructor
  · intro hf
    obtain ⟨m, hm, hid, hin⟩ := (hA.peers id i).mp hf
    obtain ⟨p, hp, rfl⟩ := object_of_member hm
    refine ⟨p, hp, hid, ?_⟩
    obtain ht | ht := h.settled i p hp
    · exact ht
    · simp [Peer.member, ht, Task.stage] at hin
  · rintro ⟨p, hp, rfl, ht⟩
    exact find_inside hA hp (by rw [ht]; rfl)

theorem nonempty_iff_listening (h : s.Idle) (hA : s.Agrees) :
    s.peers.isEmpty = false ↔
      ∃ (i : PeerRef) (p : Peer), s.objects[i]? = some p ∧ p.task = .listening := by
  constructor
  · intro hne
    obtain ⟨id, i, hf⟩ := find_of_nonempty hne
    obtain ⟨p, hp, -, ht⟩ := (find_iff_listening h hA).mp hf
    exact ⟨i, p, hp, ht⟩
  · rintro ⟨i, p, hp, ht⟩
    exact nonempty_of_find ((find_iff_listening h hA).mpr ⟨p, hp, rfl, ht⟩)

theorem host_listening (h : s.Idle) (hA : s.Agrees) (hh : s.host = some i) :
    ∃ p, s.objects[i]? = some p ∧ p.task = .listening := by
  rw [hA.host, Roster.hostOf_eq_some hA.wf] at hh
  obtain ⟨m, hm, -, hin⟩ := hh
  obtain ⟨p, hp, rfl⟩ := object_of_member hm
  refine ⟨p, hp, ?_⟩
  obtain ht | ht := h.settled i p hp
  · exact ht
  · simp [Peer.member, ht, Task.stage] at hin

theorem host_departed (hA : s.Agrees) (hp : s.objects[i]? = some p) (j : PeerRef) :
    (s.departed i p).host = some j ↔ s.host = some j ∧ j ≠ i := by
  have hiff : s.isHostPeer p.peerId = true ↔ s.host = some i :=
    isHostPeer_iff hA (member_of_object hp)
  show (if s.isHostPeer p.peerId then none else s.host) = some j ↔ _
  by_cases hi : s.host = some i
  · rw [if_pos (hiff.mpr hi), hi]
    constructor
    · intro hj
      cases hj
    · rintro ⟨hj, hne⟩
      exact absurd (Option.some.inj hj).symm hne
  · rw [if_neg fun hh => hi (hiff.mp hh)]
    constructor
    · intro hj
      refine ⟨hj, ?_⟩
      intro he
      rw [he] at hj
      exact hi hj
    · intro hj
      exact hj.1

end Session

/-! ## Runs of one session inside the registry -/

theorem Room.run_session {as : List Session.Op} {r : Room} {t : List Room.Event}
    {es : List Session.Event} {s' : Session}
    (h : Session.machine.run as (Room.sessionPart t) r.session = some (es, s')) :
    ∃ fs os, Room.machine.run (as.map .session) t r = some (fs, ⟨s', os⟩) ∧
      Room.sessionPart fs = es := by
  induction as generalizing t r with
  | nil => cases h; exact ⟨t, r.outboxes, rfl, rfl⟩
  | cons a as ih =>
    obtain ⟨s₁, es₁, hs, hrest⟩ := run_cons_some h
    let q := Room.reactAll r.maxQueuedMessages r.outboxes es₁
    have hstep : Room.machine.step r (.session a) = some (⟨s₁, q.1⟩, q.2) := by
      have hs : r.session.step a = some (s₁, es₁) := hs
      simp only [Room.machine, Room.step, hs, q]
    have hpart : Room.sessionPart (t ++ q.2) = Room.sessionPart t ++ es₁ := by
      rw [Room.sessionPart_append, Room.sessionPart_reactAll]
    rw [← hpart] at hrest
    obtain ⟨fs, os, hrun, hfs⟩ := ih (r := ⟨s₁, q.1⟩) hrest
    exact ⟨fs, os, (run_cons hstep).trans hrun, hfs⟩

namespace Registry
variable {r r' : Registry} {k : RoomRef} {h : Hosted}

theorem run_room {w : List Room.Op} {t : List Event} {room : Room} {g : GameRef}
    {fs : List Room.Event} {room' : Room} (hk : r.rooms[k]? = some ⟨g, room⟩)
    (hw : Room.machine.run w [] room = some (fs, room')) :
    machine.run (w.map (.stepRoom k)) t r =
      some (t ++ fs.map (.room k), { r with rooms := r.rooms.set k ⟨g, room'⟩ }) := by
  have hlt := (List.getElem?_eq_some_iff.mp hk).1
  induction w generalizing r t room fs with
  | nil =>
    cases hw
    have hsame : r.rooms.set k ⟨g, room'⟩ = r.rooms := by
      apply List.ext_getElem?
      intro j
      by_cases hj : j = k
      · subst hj
        rw [List.getElem?_set_self hlt, hk]
      · rw [List.getElem?_set_ne (Ne.symm hj)]
    rw [hsame]
    simp [Machine.run]
  | cons a w ih =>
    obtain ⟨room₁, gs, hs, hrest⟩ := run_cons_some hw
    have hs : room.step a = some (room₁, gs) := hs
    have hstep : machine.step r (.stepRoom k a) =
        some ({ r with rooms := r.rooms.set k ⟨g, room₁⟩ }, gs.map (.room k)) := by
      simp only [machine, step, stepRoom, hk, hs]
    rw [run_history] at hrest
    obtain ⟨⟨fs₁, r₁⟩, hrun, he⟩ := Option.map_eq_some_iff.mp hrest
    cases he
    have hlt' : k < ({ r with rooms := r.rooms.set k ⟨g, room₁⟩ } : Registry).rooms.length := by
      simpa using hlt
    have hk' : ({ r with rooms := r.rooms.set k ⟨g, room₁⟩ } : Registry).rooms[k]? =
        some ⟨g, room₁⟩ := List.getElem?_set_self hlt
    rw [List.map_cons, run_cons hstep, ih hk' hrun hlt']
    simp

theorem any_leavesEmpty (k : RoomRef) (fs : List Room.Event) :
    (fs.map (Event.room k)).any Event.leavesEmpty =
      (Room.sessionPart fs).any Session.Event.isLeftEmpty := by
  induction fs with
  | nil => rfl
  | cons e fs ih =>
    rw [List.map_cons, List.any_cons, ih]
    cases e with
    | outbox j e => rfl
    | session e =>
      rw [Room.sessionPart_session, List.any_cons]
      congr 1
      cases e with
      | left i isEmpty => cases isEmpty <;> rfl
      | _ => rfl

def stepsOf (k : RoomRef) (as : List Session.Op) : List Op :=
  as.map fun a => .stepRoom k (.session a)

theorem run_stepsOf {as : List Session.Op} {es : List Session.Event} {s' : Session}
    (hk : r.rooms[k]? = some h) (hs : Session.machine.run as [] h.room.session = some (es, s')) :
    ∃ fs os, machine.run (stepsOf k as) [] r =
        some (fs, { r with rooms := r.rooms.set k ⟨h.game, ⟨s', os⟩⟩ }) ∧
      fs.any Event.leavesEmpty = es.any Session.Event.isLeftEmpty := by
  obtain ⟨fs, os, hrun, hpart⟩ := Room.run_session (t := []) hs
  have hreg := run_room (t := []) hk hrun
  rw [List.map_map] at hreg
  exact ⟨fs.map (.room k), os, hreg, by rw [any_leavesEmpty, hpart]⟩

/-! ## The calls -/

/-- The rest of `onAfterCreate_NonBlocking` once the connection has its session: it draws the
id, makes its `Peer`, and `addPeer` runs. -/
def addNewPeer (r : Registry) (k : RoomRef) : Option (PeerRef × Registry) :=
  match r.rooms[k]? with
  | none => none
  | some h =>
    match machine.run (stepsOf k h.room.session.enterOps) [] r with
    | none => none
    | some (_, r) => some (h.room.session.objects.length, r)

/-- The `Peer` is what `setListener` gives to the socket. -/
def onAfterCreate (r : Registry) (params : ParameterMap) :
    Option (Except ErrorDto (Bool × RoomRef × PeerRef) × Registry) :=
  match r.findGameForPeer params with
  | (.error e, r) => some (.error e, r)
  | (.ok a, r) =>
    match r.getSession a with
    | none => none
    | some (.error e, r, _) => some (.error e, r)
    | some (.ok k, r, _) =>
      match r.addNewPeer k with
      | none => none
      | some (i, r) => some (.ok (a.isHost, k, i), r)

/-- `onBeforeDestroy_NonBlocking` of a socket whose listener is the peer `i` of the session `k`. -/
def onBeforeDestroy (r : Registry) (k : RoomRef) (i : PeerRef) : Option Registry :=
  match machine.run (stepsOf k (Session.leaveOps i)) [] r with
  | none => none
  | some (es, r) =>
    if es.any Event.leavesEmpty then
      match r.rooms[k]? with
      | none => none
      | some h =>
        match r.getGameById h.room.session.config.gameId with
        | (none, _) => none
        | (some g, r) => r.deleteSession g h.room.session.id
    else some r

/-! ## Between two calls -/

structure Settled (r : Registry) : Prop where
  wellKeyed : r.gamesConfig.WellKeyed
  games : ∀ gameId g, r.games.find gameId = some g → ∃ game, r.gameObjects[g]? = some game ∧
    game.config.gameId = gameId ∧ (r.gamesConfig.getGameConfig gameId).isSome
  free : ∀ (g : GameRef) (game : Game), r.gameObjects[g]? = some game → game.locked = false
  tables : r.Tables
  rooms : ∀ (k : RoomRef) (h : Hosted), r.rooms[k]? = some h → h.room.session.Idle ∧
    h.room.session.Agrees ∧ r.games.find h.room.session.config.gameId = some h.game
  occupied : r.OccupiedRegistered
  registered : ∀ (g : GameRef) (sessionId : String) (k : RoomRef) (h : Hosted),
    r.lookup g sessionId = some k → r.rooms[k]? = some h → h.room.occupied

structure Moved (r r' : Registry) (k : RoomRef) (h : Hosted) : Prop where
  gamesConfig : r'.gamesConfig = r.gamesConfig
  games : r'.games = r.games
  objects : ∀ g : GameRef, (r'.gameObjects[g]?).map (fun game => (game.config, game.locked)) =
    (r.gameObjects[g]?).map fun game => (game.config, game.locked)
  rooms : ∀ j : RoomRef, r'.rooms[j]? = if j = k then some h else r.rooms[j]?
  lookup : ∀ g sessionId, r'.lookup g sessionId =
    if g = h.game ∧ sessionId = h.room.session.id then
      if h.room.session.peers.isEmpty then none else some k
    else r.lookup g sessionId

structure Place (r : Registry) (k : RoomRef) (h : Hosted) : Prop where
  lookup : r.lookup h.game h.room.session.id = none ∨
    r.lookup h.game h.room.session.id = some k
  same : ∀ h₀ : Hosted, r.rooms[k]? = some h₀ →
    h₀.game = h.game ∧ h₀.room.session.id = h.room.session.id

theorem ne_of_lookup (hs : r.Settled) (hp : Place r k h) {g : GameRef} {sessionId : String}
    {j : RoomRef} (hkey : ¬ (g = h.game ∧ sessionId = h.room.session.id))
    (hl : r.lookup g sessionId = some j) : j ≠ k := by
  intro hj
  subst hj
  obtain ⟨h₀, hk, hg, hid⟩ := hs.tables g sessionId j hl
  obtain ⟨hgame, hsame⟩ := hp.same h₀ hk
  exact hkey ⟨hg.symm.trans hgame, hid.symm.trans hsame⟩

theorem object_of_moved {g : GameRef} {game : Game} (hm : Moved r r' k h)
    (hg : r.gameObjects[g]? = some game) : ∃ game', r'.gameObjects[g]? = some game' ∧
      game'.config = game.config ∧ game'.locked = game.locked := by
  have ho := hm.objects g
  rw [hg] at ho
  obtain ⟨game', hg', he⟩ := Option.map_eq_some_iff.mp ho
  exact ⟨game', hg', (Prod.mk.inj he).1, (Prod.mk.inj he).2⟩

theorem settled_moved (hs : r.Settled) (hp : Place r k h) (hm : Moved r r' k h)
    (hidle : h.room.session.Idle) (hagrees : h.room.session.Agrees)
    (hgame : r.games.find h.room.session.config.gameId = some h.game) : r'.Settled where
  wellKeyed := by
    rw [hm.gamesConfig]
    exact hs.wellKeyed
  games gameId g hf := by
    rw [hm.games] at hf
    obtain ⟨game, hg, hid, hknown⟩ := hs.games gameId g hf
    obtain ⟨game', hg', hc, -⟩ := object_of_moved hm hg
    rw [hm.gamesConfig]
    exact ⟨game', hg', by rw [hc]; exact hid, hknown⟩
  free g game' hg' := by
    have ho := hm.objects g
    rw [hg'] at ho
    obtain ⟨game, hg, he⟩ := Option.map_eq_some_iff.mp ho.symm
    rw [← (Prod.mk.inj he).2]
    exact hs.free g game hg
  tables g sessionId j hl := by
    rw [hm.lookup] at hl
    rw [hm.rooms]
    split at hl
    · next hkey =>
      split at hl
      · cases hl
      · cases hl
        exact ⟨h, if_pos rfl, hkey.1.symm, hkey.2.symm⟩
    · next hkey =>
      rw [if_neg (ne_of_lookup hs hp hkey hl)]
      exact hs.tables g sessionId j hl
  rooms j h' hj := by
    rw [hm.rooms] at hj
    rw [hm.games]
    split at hj
    · cases hj
      exact ⟨hidle, hagrees, hgame⟩
    · exact hs.rooms j h' hj
  occupied j h' hj hocc := by
    rw [hm.rooms] at hj
    unfold Registered
    rw [hm.lookup]
    split at hj
    · next hjk =>
      cases hj
      have hne : h.room.session.peers.isEmpty = false := hocc
      rw [if_pos ⟨rfl, rfl⟩, hne, hjk]
      rfl
    · next hjk =>
      have hreg : r.lookup h'.game h'.room.session.id = some j := hs.occupied j h' hj hocc
      rw [if_neg, hreg]
      rintro ⟨hg, hid⟩
      rw [hg, hid] at hreg
      obtain hl | hl := hp.lookup
      · rw [hl] at hreg
        cases hreg
      · rw [hl] at hreg
        exact hjk (Option.some.inj hreg).symm
  registered g sessionId j h' hl hj := by
    rw [hm.lookup] at hl
    rw [hm.rooms] at hj
    split at hl
    · split at hl
      · cases hl
      · next hne =>
        cases hl
        rw [if_pos rfl] at hj
        cases hj
        exact Bool.eq_false_iff.mpr hne
    · next hkey =>
      rw [if_neg (ne_of_lookup hs hp hkey hl)] at hj
      exact hs.registered g sessionId j h' hl hj

/-! ## The calls between two settled states -/

def find (r : Registry) (key : String × String) : Option RoomRef :=
  (r.games.find (some key.1)).bind fun g => r.lookup g key.2

structure Untouched (r r' : Registry) : Prop where
  gamesConfig : r'.gamesConfig = r.gamesConfig
  rooms : r'.rooms = r.rooms
  gameObjects : ∃ new, r'.gameObjects = r.gameObjects ++ new ∧
    ∀ game ∈ new, game.sessions = ∅ ∧ game.isPingerActive = false ∧ game.pingers = []
  find : ∀ key, r'.find key = r.find key

theorem untouched_refl (r : Registry) : Untouched r r :=
  ⟨rfl, rfl, ⟨[], (List.append_nil _).symm, by simp⟩, fun _ => rfl⟩

def withGame (r : Registry) (gameId : Option String) (config : GameConfigDto) : Registry :=
  { r with
    games := r.games.insertNew gameId r.gameObjects.length
    gameObjects := r.gameObjects ++ [{ config := config }] }

theorem settled_withGame {gameId : Option String} {config : GameConfigDto} (hs : r.Settled)
    (hf : r.games.find gameId = none) (hc : r.gamesConfig.getGameConfig gameId = some config) :
    (r.withGame gameId config).Settled where
  wellKeyed := hs.wellKeyed
  games gameId' g hg := by
    simp only [withGame, UnorderedMap.find_insertNew] at hg
    cases hold : r.games.find gameId' with
    | some g' =>
      rw [hold, Option.some_or, Option.some.injEq] at hg
      subst hg
      obtain ⟨game, hgame, hrest⟩ := hs.games gameId' g' hold
      have hlt := (List.getElem?_eq_some_iff.mp hgame).1
      exact ⟨game, (List.getElem?_append_left hlt).trans hgame, hrest⟩
    | none =>
      rw [hold, Option.none_or] at hg
      split at hg
      · next hid =>
        cases hg
        subst hid
        exact ⟨{ config := config }, List.getElem?_concat_length,
          hs.wellKeyed gameId' config hc, by rw [withGame]; exact Option.isSome_of_mem hc⟩
      · cases hg
  free g game hg := by
    simp only [withGame, List.getElem?_append] at hg
    split at hg
    · exact hs.free g game hg
    · have hmem := List.mem_of_getElem? hg
      rw [List.mem_singleton.mp hmem]
      rfl
  tables g sessionId k hl := by
    rw [withGame, lookup_newGame] at hl
    exact hs.tables g sessionId k hl
  rooms k h hk := by
    obtain ⟨hidle, hagrees, hg⟩ := hs.rooms k h hk
    exact ⟨hidle, hagrees, UnorderedMap.find_insertNew_of_some _ hg⟩
  occupied k h hk hocc := by
    unfold Registered
    rw [withGame, lookup_newGame]
    exact hs.occupied k h hk hocc
  registered g sessionId k h hl hk := by
    rw [withGame, lookup_newGame] at hl
    exact hs.registered g sessionId k h hl hk

theorem untouched_withGame {gameId : Option String} (config : GameConfigDto)
    (hf : r.games.find gameId = none) : Untouched r (r.withGame gameId config) where
  gamesConfig := rfl
  rooms := rfl
  gameObjects := ⟨[{ config := config }], rfl, by simp⟩
  find key := by
    unfold find
    by_cases hkey : some key.1 = gameId
    · -- the new game has no sessions yet
      rw [hkey, hf]
      have hnew : (r.withGame gameId config).games.find gameId = some r.gameObjects.length :=
        UnorderedMap.find_insertNew_self _ hf
      rw [hnew]
      show (r.withGame gameId config).lookup r.gameObjects.length key.2 = none
      rw [withGame, lookup_newGame, lookup, List.getElem?_eq_none (Nat.le_refl _)]
      rfl
    · have hold : (r.withGame gameId config).games.find (some key.1) =
          r.games.find (some key.1) := UnorderedMap.find_insertNew_ne _ hkey
      rw [hold]
      congr 1
      funext g
      rw [withGame, lookup_newGame]

theorem getGameById_none {gameId : Option String} (hs : r.Settled)
    (hc : r.gamesConfig.getGameConfig gameId = none) : r.getGameById gameId = (none, r) := by
  unfold getGameById
  cases hf : r.games.find gameId with
  | none => simp only [hc]
  | some g =>
    obtain ⟨game, -, -, hknown⟩ := hs.games gameId g hf
    rw [hc] at hknown
    cases hknown

theorem getGameById_some {gameId : Option String} (hs : r.Settled)
    (hc : (r.gamesConfig.getGameConfig gameId).isSome) :
    ∃ g r', r.getGameById gameId = (some g, r') ∧ r'.Settled ∧ Untouched r r' ∧
      r'.games.find gameId = some g := by
  obtain ⟨config, hc⟩ := Option.isSome_iff_exists.mp hc
  unfold getGameById
  cases hf : r.games.find gameId with
  | some g => exact ⟨g, r, rfl, hs, untouched_refl r, hf⟩
  | none =>
    simp only [hc, hs.wellKeyed gameId config hc]
    exact ⟨r.gameObjects.length, r.withGame gameId config, rfl, settled_withGame hs hf hc,
      untouched_withGame config hf, UnorderedMap.find_insertNew_self _ hf⟩

theorem addNewPeer_some {isHost : Bool} (hk : r.rooms[k]? = some h)
    (hl : h.room.session.lookups = [isHost]) (hm : h.room.session.peersMutex = false) :
    ∃ os, r.addNewPeer k = some (h.room.session.objects.length,
      { r with rooms := r.rooms.set k ⟨h.game, ⟨h.room.session.entered isHost, os⟩⟩ }) := by
  obtain ⟨es, hrun, -⟩ := Session.run_enter hl hm
  obtain ⟨fs, os, hreg, -⟩ := run_stepsOf hk hrun
  exact ⟨os, by simp only [addNewPeer, hk, hreg]⟩

theorem nonempty_entered (s : Session) (isHost : Bool) :
    (s.entered isHost).peers.isEmpty = false := by
  by_contra he
  have hnone := UnorderedMap.isEmpty_iff.mp (by simpa using he) s.peerIdCounter
  rw [Session.entered, UnorderedMap.find_insertNew, if_pos rfl] at hnone
  cases hf : s.peers.find s.peerIdCounter <;> simp [hf] at hnone

theorem objects_setGame {g : GameRef} {game : Game} (hg : r.gameObjects[g]? = some game)
    (game' : Game) (hc : game'.config = game.config) (hl : game'.locked = game.locked)
    (j : GameRef) :
    ((r.setGame g game').gameObjects[j]?).map (fun game => (game.config, game.locked)) =
      (r.gameObjects[j]?).map fun game => (game.config, game.locked) := by
  have hlt := (List.getElem?_eq_some_iff.mp hg).1
  unfold setGame
  by_cases hj : j = g
  · subst hj
    simp only [List.getElem?_set_self hlt, hg, Option.map_some, hc, hl]
  · rw [List.getElem?_set_ne (Ne.symm hj)]

/-- A host's call, once it has the game: the session is made, and the host is in it. -/
theorem host_enters {g : GameRef} {game : Game} {sessionId : String} (hs : r.Settled)
    (hg : r.gameObjects[g]? = some game) (hl : r.lookup g sessionId = none) :
    ∃ os r₁ r', r.createNewSession g sessionId = some (some r.rooms.length, r₁) ∧
      r₁.addNewPeer r.rooms.length = some (0, r') ∧
      Moved r r' r.rooms.length
        ⟨g, ⟨(Room.init sessionId game.config).session.entered true, os⟩⟩ := by
  have hfree := hs.free g game hg
  rw [lookup_of_game hg] at hl
  let game₁ : Game :=
    Game.startPinger { game with sessions := game.sessions.insertNew sessionId r.rooms.length }
  let room₁ := Room.init sessionId game.config
  let r₁ : Registry := { r.setGame g game₁ with rooms := r.rooms ++ [⟨g, room₁⟩] }
  have hcreate : r.createNewSession g sessionId = some (some r.rooms.length, r₁) := by
    simp only [createNewSession, hg, hfree, hl, Bool.false_eq_true, if_false]
    rfl
  have hk₁ : r₁.rooms[r.rooms.length]? = some ⟨g, room₁⟩ := List.getElem?_concat_length
  obtain ⟨os, hadd⟩ := addNewPeer_some hk₁ (rfl : room₁.session.lookups = [true]) rfl
  refine ⟨os, r₁, _, hcreate, hadd, rfl, rfl, ?_, ?_, ?_⟩
  · exact objects_setGame hg game₁ (config_startPinger _) (locked_startPinger _)
  · intro j
    show ((r.rooms ++ [_]).set r.rooms.length _)[j]? = _
    by_cases hj : j = r.rooms.length
    · subst hj
      simp [room₁]
    · rw [List.getElem?_set_ne (Ne.symm hj), if_neg hj, getElem?_snoc, if_neg hj]
  · intro g' sessionId'
    refine (lookup_created hg hl _ _ g' sessionId').trans ?_
    rw [nonempty_entered]
    rfl

/-- A client's call, once it has found the session. -/
theorem client_enters (hs : r.Settled) (hk : r.rooms[k]? = some h) (hreg : r.Registered k h) :
    ∃ os r₁ es r', r.stepRoom k (.session .findSession) = some (r₁, es) ∧
      r₁.addNewPeer k = some (h.room.session.objects.length, r') ∧
      Moved r r' k ⟨h.game, ⟨h.room.session.entered false, os⟩⟩ := by
  obtain ⟨hidle, -, -⟩ := hs.rooms k h hk
  have hlt := (List.getElem?_eq_some_iff.mp hk).1
  let room₁ : Room := ⟨{ h.room.session with lookups := [false] }, h.room.outboxes⟩
  let r₁ : Registry := { r with rooms := r.rooms.set k ⟨h.game, room₁⟩ }
  have hfound : r.stepRoom k (.session .findSession) = some (r₁, []) := by
    simp only [stepRoom, hk, Room.step, Session.step, Room.reactAll, hidle.lookups]
    rfl
  have hk₁ : r₁.rooms[k]? = some ⟨h.game, room₁⟩ := List.getElem?_set_self hlt
  obtain ⟨os, hadd⟩ := addNewPeer_some hk₁ (rfl : room₁.session.lookups = [false]) hidle.free
  refine ⟨os, r₁, [], _, hfound, hadd, rfl, rfl, fun _ => rfl, ?_, ?_⟩
  · intro j
    show ((r.rooms.set k _).set k _)[j]? = _
    rw [List.set_set]
    by_cases hj : j = k
    · subst hj
      rw [List.getElem?_set_self hlt, if_pos rfl]
      rfl
    · rw [List.getElem?_set_ne (Ne.symm hj), if_neg hj]
  · intro g sessionId
    show r.lookup g sessionId = _
    rw [nonempty_entered]
    split
    · next hkey =>
      obtain ⟨rfl, rfl⟩ := hkey
      exact hreg
    · rfl

/-- The call for a connection that is in the session. -/
theorem peer_leaves {i : PeerRef} {p : Peer} (hs : r.Settled) (hk : r.rooms[k]? = some h)
    (hreg : r.Registered k h) (hp : h.room.session.objects[i]? = some p)
    (ht : p.task = .listening) :
    ∃ os r', r.onBeforeDestroy k i = some r' ∧
      Moved r r' k ⟨h.game, ⟨h.room.session.departed i p, os⟩⟩ := by
  obtain ⟨hidle, -, hgame⟩ := hs.rooms k h hk
  have hlt := (List.getElem?_eq_some_iff.mp hk).1
  obtain ⟨es, hrun, hempty⟩ := Session.run_leave hp ht hidle.free
  obtain ⟨fs, os, hsteps, hany⟩ := run_stepsOf hk hrun
  let h' : Hosted := ⟨h.game, ⟨h.room.session.departed i p, os⟩⟩
  let r₁ : Registry := { r with rooms := r.rooms.set k h' }
  have hsteps : machine.run (stepsOf k (Session.leaveOps i)) [] r = some (fs, r₁) := hsteps
  have hk₁ : r₁.rooms[k]? = some h' := List.getElem?_set_self hlt
  have hrooms : ∀ j, r₁.rooms[j]? = if j = k then some h' else r.rooms[j]? := by
    intro j
    by_cases hj : j = k
    · rw [hj, if_pos rfl, hk₁]
    · rw [if_neg hj]
      exact List.getElem?_set_ne (Ne.symm hj)
  rw [hempty] at hany
  have hreg : r.lookup h.game h.room.session.id = some k := hreg
  refine ⟨os, ?_⟩
  cases he : (h.room.session.departed i p).peers.isEmpty with
  | false =>
    refine ⟨r₁, by simp only [onBeforeDestroy, hsteps, hany, he]; rfl, rfl, rfl,
      fun _ => rfl, hrooms, ?_⟩
    intro g sessionId
    show r.lookup g sessionId = _
    rw [he]
    split
    · next hkey =>
      obtain ⟨rfl, rfl⟩ := hkey
      exact hreg
    · rfl
  | true =>
    obtain ⟨game, hg, -, -⟩ := hs.games _ _ hgame
    have hfree := hs.free h.game game hg
    have hfound : r₁.getGameById h'.room.session.config.gameId = (some h.game, r₁) := by
      have hgame₁ : r₁.games.find h'.room.session.config.gameId = some h.game := hgame
      simp only [getGameById, hgame₁]
    have hg₁ : r₁.gameObjects[h.game]? = some game := hg
    let game₁ : Game := { game with sessions := game.sessions.eraseKey h.room.session.id }
    have hdel : r₁.deleteSession h.game h'.room.session.id = some (r₁.setGame h.game game₁) := by
      simp only [deleteSession, hg₁, hfree, Bool.false_eq_true, if_false]
      rfl
    refine ⟨r₁.setGame h.game game₁, ?_, rfl, rfl, objects_setGame hg₁ game₁ rfl rfl, hrooms, ?_⟩
    · simp only [onBeforeDestroy, hsteps, hany, he, if_true, hk₁, hfound]
      exact hdel
    · intro g sessionId
      refine (lookup_deleted hg₁ _ g sessionId).trans ?_
      rw [he]
      rfl

end Registry
/-! ## The registry with its sockets -/

/-- A socket, by the listener that `onAfterCreate_NonBlocking` has given to it. -/
inductive Socket where
  | refused
  | listening (k : RoomRef) (i : PeerRef)
  | destroyed

structure Server where
  registry : Registry
  sockets : List Socket := []

inductive Callback where
  | onAfterCreate (params : ParameterMap)
  /-- for the socket `n` -/
  | onBeforeDestroy (n : Nat)

inductive Answer where
  | admitted (isHost : Bool)
  | rejected (code : ErrorCodes)
  deriving DecidableEq

namespace Server

def init (gamesConfig : GamesConfig) : Server := { registry := { gamesConfig := gamesConfig } }

def step (s : Server) : Callback → Option (Server × List Answer)
  | .onAfterCreate params =>
    match s.registry.onAfterCreate params with
    | none => none
    | some (.error e, r) => some (⟨r, s.sockets ++ [.refused]⟩, [.rejected e.code])
    | some (.ok (isHost, k, i), r) =>
      some (⟨r, s.sockets ++ [.listening k i]⟩, [.admitted isHost])
  | .onBeforeDestroy n =>
    match s.sockets[n]? with
    | some .refused => some ({ s with sockets := s.sockets.set n .destroyed }, [])
    | some (.listening k i) =>
      match s.registry.onBeforeDestroy k i with
      | none => none
      | some r => some (⟨r, s.sockets.set n .destroyed⟩, [])
    | _ => none

def machine : Machine Server Callback Answer := ⟨step⟩

end Server
end Helicopter
