import Helicopter.Lib.Unwinding
import Helicopter.Rest

/-! Some peers are slow: their sender coroutines take their time, or never go on. Nobody else can
tell. `slow` says of each peer of a session, or of each peer of each session, whether it is one of
them; what is covered of a slow peer is its queue and its sender coroutines, but not its socket. -/
namespace Helicopter
open Interleaving

def Outbox.veil {μ : Type*} (o : Outbox μ) : Outbox μ := { socket := o.socket }

/-- What a session asks of a queue, it does at any time, and its socket is the same after it
whatever it holds. -/
theorem Outbox.veil_step {μ : Type*} (max : Nat) (o : Outbox μ) {a : Outbox.Op μ}
    (hact : ∀ k, a ≠ .act k) (hsend : ∀ k ok, a ≠ .send k ok) :
    ∃ r q, Outbox.step max o a = some r ∧ Outbox.step max o.veil a = some q ∧
      r.1.veil = q.1.veil := by
  have hsocket : ∀ (m : Option μ) (o : Outbox μ),
      (o.queueMessage max m).1.socket = o.socket := by
    intro m o
    unfold Outbox.queueMessage
    cases m with
    | none => rfl
    | some m =>
      simp only
      repeat' split
      all_goals rfl
  cases a with
  | act k => exact absurd rfl (hact k)
  | send k ok => exact absurd rfl (hsend k ok)
  | resetSocket => exact ⟨_, _, rfl, rfl, rfl⟩
  | clearQueue => exact ⟨_, _, rfl, rfl, rfl⟩
  | queueMessage m =>
    refine ⟨_, _, rfl, rfl, ?_⟩
    rw [Outbox.veil, Outbox.veil, hsocket, hsocket]
    rfl

theorem Outbox.veil_act {μ : Type*} {o o' : Outbox μ} {k : Nat} {es : List (Outbox.Event μ)}
    (h : o.act k = some (o', es)) : o'.veil = o.veil := by
  unfold Outbox.act at h
  split at h
  · split at h <;> cases h <;> rfl
  · cases h

theorem Outbox.veil_send {μ : Type*} {o o' : Outbox μ} {k : Nat} {ok : Bool}
    {es : List (Outbox.Event μ)} (h : o.send k ok = some (o', es)) : o'.veil = o.veil := by
  unfold Outbox.send at h
  split at h
  · cases h
    rfl
  · cases h

namespace Room
variable {slow : PeerRef → Bool} {max : Nat} {os os' : List (Outbox MessageDto)} {j : PeerRef}

def veilOf (slow : PeerRef → Bool) (j : PeerRef) (o : Outbox MessageDto) : Outbox MessageDto :=
  if slow j then o.veil else o

def veilAll (slow : PeerRef → Bool) (os : List (Outbox MessageDto)) : List (Outbox MessageDto) :=
  os.mapIdx (veilOf slow)

def veil (slow : PeerRef → Bool) (r : Room) : Room := ⟨r.session, veilAll slow r.outboxes⟩

def Event.seen (slow : PeerRef → Bool) : Event → Bool
  | .session _ => true
  | .outbox j _ => !slow j

theorem getElem?_veilAll (os : List (Outbox MessageDto)) :
    (veilAll slow os)[j]? = (os[j]?).map (veilOf slow j) :=
  List.getElem?_mapIdx

theorem veilAll_set (os : List (Outbox MessageDto)) (o : Outbox MessageDto) :
    veilAll slow (os.set j o) = (veilAll slow os).set j (veilOf slow j o) :=
  List.mapIdx_set

theorem veilAll_snoc (os : List (Outbox MessageDto)) :
    veilAll slow (os ++ [({} : Outbox MessageDto)]) =
      veilAll slow os ++ [({} : Outbox MessageDto)] := by
  have hnew : veilOf slow os.length {} = {} := by
    unfold veilOf
    split <;> rfl
  rw [veilAll, List.mapIdx_concat, hnew]
  rfl

theorem veilOf_veilOf (o : Outbox MessageDto) :
    veilOf slow j (veilOf slow j o) = veilOf slow j o := by
  unfold veilOf
  split <;> rfl

theorem veilAll_veilAll (os : List (Outbox MessageDto)) :
    veilAll slow (veilAll slow os) = veilAll slow os := by
  apply List.ext_getElem?
  intro j
  rw [getElem?_veilAll, getElem?_veilAll, Option.map_map]
  congr 1
  funext o
  exact veilOf_veilOf o

theorem filter_outbox (es : List (Outbox.Event MessageDto)) :
    (es.map (Event.outbox j)).filter (Event.seen slow) =
      if slow j then [] else es.map (Event.outbox j) := by
  cases hj : slow j with
  | true => simp [List.filter_map, Function.comp_def, Event.seen, hj]
  | false => simp [List.filter_map, Function.comp_def, Event.seen, hj]

/-- A step of a queue that is in sight, or one that a session asks for. -/
theorem stepOutbox_veil (slow : PeerRef → Bool) (max : Nat) (os : List (Outbox MessageDto))
    (j : PeerRef) (a : Outbox.Op MessageDto)
    (h : slow j = false ∨ ((∀ k, a ≠ .act k) ∧ ∀ k ok, a ≠ .send k ok)) :
    (stepOutbox max os j a).map (fun r => (veilAll slow r.1, r.2.filter (Event.seen slow))) =
      (stepOutbox max (veilAll slow os) j a).map
        (fun r => (veilAll slow r.1, r.2.filter (Event.seen slow))) := by
  unfold stepOutbox
  rw [getElem?_veilAll]
  cases hj : os[j]? with
  | none => rfl
  | some o =>
    simp only [Option.map_some]
    cases hslow : slow j with
    | false =>
      have hsame : veilOf slow j o = o := by simp [veilOf, hslow]
      rw [hsame]
      cases hs : Outbox.step max o a with
      | none => rfl
      | some r => simp only [Option.map_some, veilAll_set, veilAll_veilAll]
    | true =>
      obtain ⟨r, q, hr, hq, hveil⟩ := Outbox.veil_step max o (h.resolve_left (by simp [hslow])).1
        (h.resolve_left (by simp [hslow])).2
      have hcover : veilOf slow j o = o.veil := by simp [veilOf, hslow]
      have hend : veilOf slow j r.1 = veilOf slow j q.1 := by simp [veilOf, hslow, hveil]
      simp only [hcover, hr, hq, Option.map_some, veilAll_set, veilAll_veilAll, filter_outbox,
        hslow, hend, if_true]

abbrev sight (slow : PeerRef → Bool) (r : List (Outbox MessageDto) × List Event) :
    List (Outbox MessageDto) × List Event :=
  (veilAll slow r.1, r.2.filter (Event.seen slow))

theorem outboxOp_asks {e : Session.Event} {a : Outbox.Op MessageDto}
    (h : outboxOp e = some (j, a)) : (∀ k, a ≠ .act k) ∧ ∀ k ok, a ≠ .send k ok := by
  cases e with
  | offer i m => cases h; simp
  | resetSocket i => cases h; simp
  | clearQueue i => cases h; simp
  | _ => cases h

theorem react_veil (max : Nat) (e : Session.Event) :
    sight slow (react max os e) = sight slow (react max (veilAll slow os) e) := by
  unfold react
  split
  · simp only [sight, veilAll_snoc, veilAll_veilAll]
  · split
    · simp only [sight, veilAll_veilAll]
    · next j a ho =>
      have hstep := stepOutbox_veil slow max os j a (Or.inr (outboxOp_asks ho))
      obtain ⟨hx, hy⟩ | ⟨r, q, hx, hy, heq⟩ := alike_cases hstep
      · simp only [hx, hy, sight, veilAll_veilAll]
      · obtain ⟨hqueues, hevents⟩ := Prod.mk.inj heq
        simp only [hx, hy, sight, hqueues, List.filter_cons, Event.seen, hevents]

theorem react_alike (max : Nat) (e : Session.Event) (h : veilAll slow os = veilAll slow os') :
    sight slow (react max os e) = sight slow (react max os' e) := by
  calc
    sight slow (react max os e) = sight slow (react max (veilAll slow os) e) := react_veil max e
    _ = sight slow (react max (veilAll slow os') e) := by rw [h]
    _ = sight slow (react max os' e) := (react_veil max e).symm

theorem reactAll_alike (max : Nat) (es : List Session.Event)
    (h : veilAll slow os = veilAll slow os') :
    sight slow (reactAll max os es) = sight slow (reactAll max os' es) := by
  induction es generalizing os os' with
  | nil => exact congrArg (·, []) h
  | cons e es ih =>
    obtain ⟨hqueues, hevents⟩ := Prod.mk.inj (react_alike max e h)
    obtain ⟨hrest, hall⟩ := Prod.mk.inj (ih hqueues)
    simp only [sight, reactAll, List.filter_append, hevents, hall, hrest]

def stalls (slow : PeerRef → Bool) : Op → Bool
  | .act j _ | .send j _ _ => slow j
  | .session _ => false

theorem veilAll_set_same {o o' : Outbox MessageDto} (hj : slow j = true) (ho : os[j]? = some o)
    (h : o'.veil = o.veil) : veilAll slow (os.set j o') = veilAll slow os := by
  have hplace : (veilAll slow os)[j]? = some (veilOf slow j o') := by
    rw [getElem?_veilAll, ho, Option.map_some]
    simp only [veilOf, hj, if_true, h]
  rw [veilAll_set, set_same hplace]

theorem step_stalled {r r' : Room} {a : Op} {es : List Event} (ha : stalls slow a = true)
    (h : r.step a = some (r', es)) :
    r'.veil slow = r.veil slow ∧ es.filter (Event.seen slow) = [] := by
  cases a with
  | session b => cases ha
  | act j k =>
    simp only [step] at h
    split at h
    · cases h
    · next hs =>
      cases h
      obtain ⟨o, o', fs, ho, hst, rfl, rfl⟩ := stepOutbox_some hs
      have hveil := veilAll_set_same ha ho (Outbox.veil_act hst)
      exact ⟨congrArg (Room.mk r.session) hveil, (filter_outbox fs).trans (if_pos ha)⟩
  | send j k ok =>
    simp only [step] at h
    split at h
    · cases h
    · next hs =>
      cases h
      obtain ⟨o, o', fs, ho, hst, rfl, rfl⟩ := stepOutbox_some hs
      have hveil := veilAll_set_same ha ho (Outbox.veil_send hst)
      exact ⟨congrArg (Room.mk r.session) hveil, (filter_outbox fs).trans (if_pos ha)⟩

/-- The steps in sight, and those of the session, do not need what is covered. -/
theorem step_veil (r : Room) {a : Op} (ha : stalls slow a = false) :
    (r.step a).map (inSight (veil slow) (Event.seen slow)) =
      ((r.veil slow).step a).map (inSight (veil slow) (Event.seen slow)) := by
  cases a with
  | session b =>
    simp only [step, veil, maxQueuedMessages]
    cases r.session.step b with
    | none => rfl
    | some q =>
      have hcover : veilAll slow r.outboxes = veilAll slow (veilAll slow r.outboxes) :=
        (veilAll_veilAll r.outboxes).symm
      obtain ⟨hqueues, hevents⟩ := Prod.mk.inj
        (reactAll_alike r.session.config.maxQueuedMessages q.2 hcover)
      simp only [Option.map_some, inSight, veil, hqueues, hevents]
  | act j k =>
    simp only [step, veil, maxQueuedMessages]
    obtain ⟨hx, hy⟩ | ⟨x, y, hx, hy, heq⟩ := alike_cases
      (stepOutbox_veil slow r.session.config.maxQueuedMessages r.outboxes j (.act k)
        (Or.inl ha))
    · rw [hx, hy]
    · obtain ⟨hqueues, hevents⟩ := Prod.mk.inj heq
      simp only [hx, hy, Option.map_some, inSight, veil, hqueues, hevents]
  | send j k ok =>
    simp only [step, veil, maxQueuedMessages]
    obtain ⟨hx, hy⟩ | ⟨x, y, hx, hy, heq⟩ := alike_cases
      (stepOutbox_veil slow r.session.config.maxQueuedMessages r.outboxes j (.send k ok)
        (Or.inl ha))
    · rw [hx, hy]
    · obtain ⟨hqueues, hevents⟩ := Prod.mk.inj heq
      simp only [hx, hy, Option.map_some, inSight, veil, hqueues, hevents]

end Room

namespace Registry
variable {slow : RoomRef → PeerRef → Bool} {r r' : Registry} {k : RoomRef} {g : GameRef}

def veilRoom (slow : RoomRef → PeerRef → Bool) (k : RoomRef) (h : Hosted) : Hosted :=
  ⟨h.game, h.room.veil (slow k)⟩

def veil (slow : RoomRef → PeerRef → Bool) (r : Registry) : Registry :=
  { r with rooms := r.rooms.mapIdx (veilRoom slow) }

def Event.seen (slow : RoomRef → PeerRef → Bool) : Event → Bool
  | .room k e => e.seen (slow k)

abbrev sight (slow : RoomRef → PeerRef → Bool) : Registry × List Event → Registry × List Event :=
  inSight (veil slow) (Event.seen slow)

theorem rooms_veil (r : Registry) :
    (r.veil slow).rooms[k]? = (r.rooms[k]?).map (veilRoom slow k) :=
  List.getElem?_mapIdx

theorem veilRoom_veilRoom (h : Hosted) :
    veilRoom slow k (veilRoom slow k h) = veilRoom slow k h := by
  simp only [veilRoom, Room.veil, Room.veilAll_veilAll]

theorem veil_veil (r : Registry) : (r.veil slow).veil slow = r.veil slow := by
  have hrooms : ((r.veil slow).veil slow).rooms = (r.veil slow).rooms := by
    apply List.ext_getElem?
    intro k
    rw [rooms_veil, rooms_veil, Option.map_map]
    congr 1
    funext h
    exact veilRoom_veilRoom h
  exact congrArg (fun rooms => { r with rooms := rooms }) hrooms

theorem veil_setRoom (h : Hosted) :
    veil slow { r with rooms := r.rooms.set k h } =
      { r.veil slow with rooms := (r.veil slow).rooms.set k (veilRoom slow k h) } :=
  congrArg (fun rooms => { r with rooms := rooms }) List.mapIdx_set

theorem filter_room (es : List Room.Event) :
    (es.map (Event.room k)).filter (Event.seen slow) =
      (es.filter (Room.Event.seen (slow k))).map (Event.room k) :=
  List.filter_map

/-- The session and its peers' connections are in sight of it as they were. -/
theorem stepRoom_veil (slow : RoomRef → PeerRef → Bool) (r : Registry) (k : RoomRef)
    {a : Room.Op} (ha : Room.stalls (slow k) a = false) :
    (r.stepRoom k a).map (sight slow) = ((r.veil slow).stepRoom k a).map (sight slow) := by
  unfold stepRoom
  rw [rooms_veil]
  cases hk : r.rooms[k]? with
  | none => rfl
  | some h =>
    simp only [Option.map_some, veilRoom]
    obtain ⟨hx, hy⟩ | ⟨x, y, hx, hy, heq⟩ := alike_cases (Room.step_veil h.room ha)
    · simp only [hx, hy]
    · obtain ⟨hroom, hevents⟩ := Prod.mk.inj heq
      simp only [hx, hy, Option.map_some, inSight, filter_room, hevents, veil_setRoom, veil_veil,
        veilRoom, hroom]

theorem stepRoom_stalled {a : Room.Op} {es : List Event} (ha : Room.stalls (slow k) a = true)
    (hs : r.stepRoom k a = some (r', es)) :
    r'.veil slow = r.veil slow ∧ es.filter (Event.seen slow) = [] := by
  obtain ⟨h, room, fs, hk, hst, rfl, rfl⟩ := stepRoom_some hs
  obtain ⟨hroom, hevents⟩ := Room.step_stalled ha hst
  constructor
  · have hplace : (r.veil slow).rooms[k]? = some (veilRoom slow k ⟨h.game, room⟩) := by
      rw [rooms_veil, hk, Option.map_some, veilRoom, veilRoom, hroom]
    rw [veil_setRoom, set_same hplace]
  · rw [filter_room, hevents]
    rfl

theorem getGameById_veil (r : Registry) (gameId : Option String) :
    (r.veil slow).getGameById gameId =
      ((r.getGameById gameId).1, (r.getGameById gameId).2.veil slow) := by
  simp only [getGameById, veil]
  split
  · rfl
  · split <;> rfl

theorem findGameForPeer_veil (r : Registry) (params : ParameterMap) :
    (r.veil slow).findGameForPeer params =
      ((r.findGameForPeer params).1, (r.findGameForPeer params).2.veil slow) := by
  unfold findGameForPeer
  split
  · rfl
  · next gameId _ =>
    split
    · rfl
    · split
      · rfl
      · rw [getGameById_veil]
        obtain ⟨answer, r'⟩ := r.getGameById (some gameId)
        cases answer <;> rfl

theorem veil_snoc (r : Registry) (id : String) (config : GameConfigDto) :
    veil slow { r with rooms := r.rooms ++ [⟨g, Room.init id config⟩] } =
      { r.veil slow with rooms := (r.veil slow).rooms ++ [⟨g, Room.init id config⟩] } :=
  congrArg (fun rooms => { r with rooms := rooms }) List.mapIdx_concat

theorem createNewSession_veil (r : Registry) (sessionId : String) :
    (r.veil slow).createNewSession g sessionId =
      (r.createNewSession g sessionId).map fun x => (x.1, x.2.veil slow) := by
  have hlen : (r.veil slow).rooms.length = r.rooms.length := List.length_mapIdx
  have hgames : (r.veil slow).gameObjects = r.gameObjects := rfl
  unfold createNewSession
  simp only [hlen, hgames]
  split
  · rfl
  · next game _ =>
    split
    · rfl
    · split
      · rfl
      · exact congrArg (fun r' => some (some r.rooms.length, r'))
          (veil_snoc (r.setGame g _) sessionId game.config).symm

theorem getSession_veil (slow : RoomRef → PeerRef → Bool) (r : Registry) (a : Admission) :
    (r.getSession a).map (fun x => (x.1, sight slow x.2)) =
      ((r.veil slow).getSession a).map fun x => (x.1, sight slow x.2) := by
  have hfind : (r.veil slow).findSession a.game a.sessionId =
      r.findSession a.game a.sessionId := rfl
  unfold getSession
  rw [hfind]
  split
  · rw [createNewSession_veil]
    cases r.createNewSession a.game a.sessionId with
    | none => rfl
    | some x =>
      obtain ⟨answer, r'⟩ := x
      cases answer <;> simp only [Option.map_some, inSight, veil_veil]
  · cases r.findSession a.game a.sessionId with
    | none => rfl
    | some answer =>
      cases answer with
      | none => simp only [Option.map_some, inSight, veil_veil]
      | some k =>
        obtain ⟨hx, hy⟩ | ⟨x, y, hx, hy, heq⟩ := alike_cases
          (stepRoom_veil slow r k (a := .session .findSession) rfl)
        · simp only [hx, hy]
        · simp only [hx, hy, Option.map_some, heq]

theorem deleteSession_veil (r : Registry) (sessionId : String) :
    (r.veil slow).deleteSession g sessionId = (r.deleteSession g sessionId).map (veil slow) := by
  have hgames : (r.veil slow).gameObjects = r.gameObjects := rfl
  unfold deleteSession
  rw [hgames]
  split
  · rfl
  · split <;> rfl

theorem tickRoom_veil (slow : RoomRef → PeerRef → Bool) (r : Registry) (k : RoomRef) (c : Nat)
    (now : Int) :
    (r.tickRoom k c now).map (fun x => (x.1, sight slow x.2)) =
      ((r.veil slow).tickRoom k c now).map fun x => (x.1, sight slow x.2) := by
  unfold tickRoom
  obtain ⟨hx, hy⟩ | ⟨x, y, hx, hy, heq⟩ := alike_cases
    (stepRoom_veil slow r k (a := .session (.tick c now)) rfl)
  · simp only [hx, hy]
  · obtain ⟨hveil, hevents⟩ := Prod.mk.inj heq
    have htask : (x.1.rooms[k]?).map (veilRoom slow k) = (y.1.rooms[k]?).map (veilRoom slow k) := by
      rw [← rooms_veil, ← rooms_veil, hveil]
    obtain ⟨hxk, hyk⟩ | ⟨h, h', hxk, hyk, hroom⟩ := alike_cases htask
    · simp only [hx, hy, hxk, hyk]
    · have hcovered : (veilRoom slow k h).room.session.pinger =
          (veilRoom slow k h').room.session.pinger := by rw [hroom]
      have hpinger : h.room.session.pinger = h'.room.session.pinger := hcovered
      simp only [hx, hy, hxk, hyk, Option.map_some, inSight, hveil, hevents, hpinger]

theorem tickRoom_cases (slow : RoomRef → PeerRef → Bool) (r : Registry) (k : RoomRef) (c : Nat)
    (now : Int) :
    (r.tickRoom k c now = none ∧ (r.veil slow).tickRoom k c now = none) ∨
      ∃ task r₁ r₂ es fs, r.tickRoom k c now = some (task, r₁, es) ∧
        (r.veil slow).tickRoom k c now = some (task, r₂, fs) ∧ r₁.veil slow = r₂.veil slow ∧
        es.filter (Event.seen slow) = fs.filter (Event.seen slow) := by
  obtain hnone | ⟨⟨task, r₁, es⟩, ⟨task', r₂, fs⟩, hx, hy, heq⟩ :=
    alike_cases (tickRoom_veil slow r k c now)
  · exact Or.inl hnone
  · obtain ⟨htask, hsight⟩ := Prod.mk.inj heq
    obtain ⟨hveil, hevents⟩ := Prod.mk.inj hsight
    simp only at htask
    subst htask
    exact Or.inr ⟨task, r₁, r₂, es, fs, hx, hy, hveil, hevents⟩

/-- The pinger looks at its game and at the sessions. -/
theorem pinger_veil (slow : RoomRef → PeerRef → Bool) (r : Registry) (g : GameRef) (p c : Nat)
    (now : Int) :
    (r.pinger g p c now).map (sight slow) =
      ((r.veil slow).pinger g p c now).map (sight slow) := by
  have hgames : (r.veil slow).gameObjects = r.gameObjects := rfl
  have hset : ∀ (q : Registry) game, (q.setGame g game).veil slow = (q.veil slow).setGame g game :=
    fun _ _ => rfl
  have hquiet : ∀ game, some (sight slow (r.setGame g game, [])) =
      some (sight slow ((r.veil slow).setGame g game, [])) := by
    intro game
    simp only [inSight, hset, veil_veil]
  unfold pinger
  rw [hgames]
  split
  · rfl
  · next game _ =>
    simp only
    split
    · rfl
    · split
      · rfl
      · split
        · exact hquiet _
        · exact hquiet _
    · exact hquiet _
    · split
      · rfl
      · exact hquiet _
    · next k rest _ =>
      obtain ⟨hx, hy⟩ | ⟨task, r₁, r₂, es, fs, hx, hy, hveil, hevents⟩ :=
        tickRoom_cases slow r k c now
      · simp only [hx, hy]
      · simp only [hx, hy]
        cases task <;> simp only [Option.map_some, inSight, hset, hveil, hevents]
    · exact hquiet _
    · split
      · rfl
      · exact hquiet _
    · next k rest _ =>
      obtain ⟨hx, hy⟩ | ⟨task, r₁, r₂, es, fs, hx, hy, hveil, hevents⟩ :=
        tickRoom_cases slow r k c now
      · simp only [hx, hy]
      · simp only [hx, hy]
        cases task <;> simp only [Option.map_some, inSight, hset, hveil, hevents]

end Registry

namespace System
variable {slow : RoomRef → PeerRef → Bool} {gamesConfig : GamesConfig} {s s' : System} {w : List Op}
  {t : List Event}

def veil (slow : RoomRef → PeerRef → Bool) (s : System) : System :=
  { s with registry := s.registry.veil slow }

def Event.seen (slow : RoomRef → PeerRef → Bool) : Event → Bool
  | .registry e => e.seen slow
  | _ => true

def stalls (slow : RoomRef → PeerRef → Bool) : Op → Bool
  | .room k a => Room.stalls (slow k) a
  | _ => false

theorem filter_registry (es : List Registry.Event) :
    (es.map Event.registry).filter (Event.seen slow) =
      (es.filter (Registry.Event.seen slow)).map Event.registry :=
  List.filter_map

theorem leavesEmpty_filter (slow : RoomRef → PeerRef → Bool) (es : List Registry.Event) :
    (es.filter (Registry.Event.seen slow)).any Registry.Event.leavesEmpty =
      es.any Registry.Event.leavesEmpty := by
  rw [List.any_filter]
  congr 1
  funext e
  obtain ⟨k, e⟩ := e
  cases e with
  | session e => simp [Registry.Event.seen, Room.Event.seen]
  | outbox j e => simp [Registry.Event.leavesEmpty]

theorem stalled_quiet {k : RoomRef} {a : Room.Op} {es : List Event}
    (ha : Room.stalls (slow k) a = true) (hs : s.stepPeers k a = some (s', es)) :
    s'.veil slow = s.veil slow ∧ es.filter (Event.seen slow) = [] := by
  unfold stepPeers at hs
  split at hs
  · cases hs
  · next r fs hst =>
    cases hs
    obtain ⟨hveil, hevents⟩ := Registry.stepRoom_stalled ha hst
    have hstays : fs.any Registry.Event.leavesEmpty = false := by
      rw [← leavesEmpty_filter slow, hevents]
      rfl
    constructor
    · simp only [veil, hveil, hstays, Bool.false_eq_true, if_false, List.append_nil]
    · rw [filter_registry, hevents]
      rfl

theorem stepPeers_veil {k : RoomRef} {a : Room.Op} (ha : Room.stalls (slow k) a = false) :
    (s.stepPeers k a).map (inSight (veil slow) (Event.seen slow)) =
      ((s.veil slow).stepPeers k a).map (inSight (veil slow) (Event.seen slow)) := by
  unfold stepPeers
  obtain ⟨hx, hy⟩ | ⟨x, y, hx, hy, heq⟩ := alike_cases (Registry.stepRoom_veil slow s.registry k ha)
  · simp only [hx, hy, veil]
  · obtain ⟨hveil, hevents⟩ := Prod.mk.inj heq
    have hempty : x.2.any Registry.Event.leavesEmpty = y.2.any Registry.Event.leavesEmpty := by
      rw [← leavesEmpty_filter slow, hevents, leavesEmpty_filter slow]
    simp only [hx, hy, veil, Option.map_some, inSight, hveil, hempty, filter_registry, hevents]

theorem getSession_step (s : System) (c : Nat) :
    (s.step (.getSession c)).map (inSight (veil slow) (Event.seen slow)) =
      ((s.veil slow).step (.getSession c)).map (inSight (veil slow) (Event.seen slow)) := by
  simp only [step, veil]
  split
  · rfl
  · next a _ =>
    obtain ⟨hx, hy⟩ | ⟨⟨res, r, es⟩, ⟨res', r', fs⟩, hx, hy, heq⟩ :=
      alike_cases (Registry.getSession_veil slow s.registry a)
    · simp only [hx, hy]
    · obtain ⟨hres, hsight⟩ := Prod.mk.inj heq
      obtain ⟨hveil, hevents⟩ := Prod.mk.inj hsight
      simp only at hres hveil hevents
      subst hres
      cases res <;>
        simp only [hx, hy, Option.map_some, inSight, veil, hveil, List.filter_append,
          filter_registry, hevents]

theorem findGame_step (s : System) (d : Nat) :
    (s.step (.findGame d)).map (inSight (veil slow) (Event.seen slow)) =
      ((s.veil slow).step (.findGame d)).map (inSight (veil slow) (Event.seen slow)) := by
  simp only [step, veil]
  split
  · next k _ =>
    rw [Registry.rooms_veil]
    cases s.registry.rooms[k]? with
    | none => rfl
    | some h =>
      simp only [Option.map_some, Registry.getGameById_veil]
      have hconfig : (Registry.veilRoom slow k h).room.session.config.gameId =
          h.room.session.config.gameId := rfl
      rw [hconfig]
      cases s.registry.getGameById h.room.session.config.gameId with
      | mk answer r =>
        cases answer with
        | none => rfl
        | some g =>
          simp only [Option.map_some, inSight, veil, Registry.veil_veil]
          rfl
  · rfl

theorem unwinds (slow : RoomRef → PeerRef → Bool) :
    Unwinds machine (stalls slow) (veil slow) (Event.seen slow) := by
  constructor
  · intro s a s' es ha hs
    cases a with
    | room k a =>
      simp only [machine, step] at hs
      split at hs
      · exact stalled_quiet ha hs
      · cases hs
    | _ => cases ha
  · intro s a ha
    cases a with
    | connect params =>
      simp only [machine, step, veil, Registry.findGameForPeer_veil]
      cases hf : s.registry.findGameForPeer params with
      | mk res r =>
        cases res <;> simp only [Option.map_some, inSight, veil, Registry.veil_veil]
    | getSession c => exact getSession_step s c
    | room k a =>
      simp only [machine, step]
      split
      · exact stepPeers_veil ha
      · rfl
    | findGame d => exact findGame_step s d
    | deleteSession d =>
      simp only [machine, step, veil]
      split
      · next g sessionId _ =>
        rw [Registry.deleteSession_veil]
        cases s.registry.deleteSession g sessionId with
        | none => rfl
        | some r => simp only [Option.map_some, inSight, veil, Registry.veil_veil]
      · rfl
    | pinger g p c now =>
      simp only [machine, step, veil]
      obtain ⟨hx, hy⟩ | ⟨x, y, hx, hy, heq⟩ :=
        alike_cases (Registry.pinger_veil slow s.registry g p c now)
      · simp only [hx, hy]
      · obtain ⟨hveil, hevents⟩ := Prod.mk.inj heq
        simp only [hx, hy, Option.map_some, inSight, veil, hveil, filter_registry, hevents]

/-- Slow peers hold nobody up: the run without the steps of their sender coroutines is a run as
well, in which everybody else has been sent the same and every session, game and connection is
where it was. -/
theorem slow_peers_isolated (slow : RoomRef → PeerRef → Bool)
    (hr : machine.run w [] (init gamesConfig) = some (t, s)) :
    ∃ t' s', machine.run (w.filter fun a => !stalls slow a) [] (init gamesConfig) =
        some (t', s') ∧ s'.veil slow = s.veil slow ∧
      t'.filter (Event.seen slow) = t.filter (Event.seen slow) := by
  obtain ⟨t', s', hr', hveil, hseen⟩ := (unwinds slow).run rfl rfl hr
  exact ⟨t', s', hr', hveil.symm, hseen.symm⟩

/-- The client never reads, and its sender coroutine never goes on. -/
theorem slow_peers_isolated_settledLobby :
    ∃ t s t' s', machine.run settledLobby [] (init oneGame) = some (t, s) ∧
      machine.run (settledLobby.filter fun a => !stalls (fun _ j => j == 1) a) [] (init oneGame) =
        some (t', s') ∧
      (settledLobby.filter fun a => !stalls (fun _ j => j == 1) a).length + 3 =
        settledLobby.length ∧
      s'.veil (fun _ j => j == 1) = s.veil fun _ j => j == 1 := by
  obtain ⟨t, s, hr, -⟩ := settledLobby_run
  obtain ⟨t', s', hr', hveil, -⟩ := slow_peers_isolated (fun _ j => j == 1) hr
  exact ⟨t, s, t', s', hr, hr', rfl, hveil⟩

end System
end Helicopter
