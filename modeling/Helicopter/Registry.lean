import Helicopter.Room

/-! `Registry` and `Game`: the games that have been looked up, their tables of sessions and
their pingers. A definition here is one critical section of the source. -/
namespace Helicopter
open Interleaving

/-- A `Game` object, by its place among those constructed so far. -/
abbrev GameRef := Nat

/-- A `Session` object, by its place among those constructed so far. -/
abbrev RoomRef := Nat

/-- A `Pinger` coroutine. From the beginning of `act` to `waitRepeat` it holds the mutex of the
game; `current` is the session it is in, `rest` are the ones still to come. -/
inductive Pinger where
  | waiting
  | checking (current : Option RoomRef) (rest : List RoomRef)
  | pinging (current : Option RoomRef) (rest : List RoomRef)

structure Game where
  config : GameConfigDto
  sessions : UnorderedMap String RoomRef := ∅
  isPingerActive : Bool := false
  pingers : List Pinger := []

def Pinger.holds : Pinger → Bool
  | .waiting => false
  | _ => true

def Game.locked (game : Game) : Bool := game.pingers.any Pinger.holds

def Game.startPinger (game : Game) : Game :=
  if !game.isPingerActive then
    { game with isPingerActive := true, pingers := game.pingers ++ [.waiting] }
  else game

/-- A `Session` object with the `Game` that made it, which the source does not record. -/
structure Hosted where
  game : GameRef
  room : Room

structure Registry where
  gamesConfig : GamesConfig
  games : UnorderedMap (Option String) GameRef := ∅
  gameObjects : List Game := []
  rooms : List Hosted := []

/-- The query parameters of a connection; the value may be null. -/
abbrev ParameterMap := UnorderedMap String (Option String)

namespace Constants

def paramGameId : String := "gameId"
def paramGameSessionId : String := "sessionId"
def paramPeerType : String := "peerType"
def paramPeerTypeHost : String := "host"

end Constants

/-- What `getSessionForPeer` has found out when it turns to the game. -/
structure Admission where
  gameId : String
  sessionId : String
  isHost : Bool
  game : GameRef

namespace Registry

inductive Event where
  | room (k : RoomRef) (e : Room.Event)

def getRequiredParameter (name : String) (params : ParameterMap) : Except ErrorDto String :=
  match params.find name with
  | some (some value) => .ok value
  | _ => .error ⟨.badRequest, "Missing required parameter - '" ++ name ++ "'."⟩

def getGameById (r : Registry) (gameId : Option String) : Option GameRef × Registry :=
  match r.games.find gameId with
  | some g => (some g, r)
  | none =>
    match r.gamesConfig.getGameConfig gameId with
    | some config =>
      let g := r.gameObjects.length
      (some g, { r with
        games := r.games.insertNew config.gameId g
        gameObjects := r.gameObjects ++ [{ config := config }] })
    | none => (none, r)

/-- `getSessionForPeer` up to and including `getGameById`. -/
def findGameForPeer (r : Registry) (params : ParameterMap) : Except ErrorDto Admission × Registry :=
  match getRequiredParameter Constants.paramGameId params with
  | .error e => (.error e, r)
  | .ok gameId =>
    match getRequiredParameter Constants.paramGameSessionId params with
    | .error e => (.error e, r)
    | .ok sessionId =>
      match getRequiredParameter Constants.paramPeerType params with
      | .error e => (.error e, r)
      | .ok peerType =>
        match r.getGameById (some gameId) with
        | (none, r) =>
          (.error ⟨.gameNotFound,
            "Game config not found. Game config should be present on the server."⟩, r)
        | (some g, r) =>
          (.ok ⟨gameId, sessionId, peerType == Constants.paramPeerTypeHost, g⟩, r)

def setGame (r : Registry) (g : GameRef) (game : Game) : Registry :=
  { r with gameObjects := r.gameObjects.set g game }

def stepRoom (r : Registry) (k : RoomRef) (a : Room.Op) : Option (Registry × List Event) :=
  match r.rooms[k]? with
  | none => none
  | some h =>
    match h.room.step a with
    | none => none
    | some (room, es) => some ({ r with rooms := r.rooms.set k ⟨h.game, room⟩ }, es.map (.room k))

/-- `createNewSession`; `none` in the result is the null pointer. -/
def createNewSession (r : Registry) (g : GameRef) (sessionId : String) :
    Option (Option RoomRef × Registry) :=
  match r.gameObjects[g]? with
  | none => none
  | some game =>
    if game.locked then none
    else
      match game.sessions.find sessionId with
      | some _ => some (none, r)
      | none =>
        let k := r.rooms.length
        let game := { game with sessions := game.sessions.insertNew sessionId k }
        some (some k, { r.setGame g game.startPinger with
          rooms := r.rooms ++ [⟨g, Room.init sessionId game.config⟩] })

def findSession (r : Registry) (g : GameRef) (sessionId : String) : Option (Option RoomRef) :=
  match r.gameObjects[g]? with
  | none => none
  | some game => if game.locked then none else some (game.sessions.find sessionId)

/-- The rest of `getSessionForPeer`. A client that has found the session counts among those who
are going to draw an id from it. -/
def getSession (r : Registry) (a : Admission) :
    Option (Except ErrorDto RoomRef × Registry × List Event) :=
  if a.isHost then
    match r.createNewSession a.game a.sessionId with
    | none => none
    | some (none, r) =>
      some (.error ⟨.operationNotPermitted,
        "Session with such ID already exists. Can't create new session session."⟩, r, [])
    | some (some k, r) => some (.ok k, r, [])
  else
    match r.findSession a.game a.sessionId with
    | none => none
    | some none =>
      some (.error ⟨.sessionNotFound, "No game session found for given sessionId."⟩, r, [])
    | some (some k) =>
      match r.stepRoom k (.session .findSession) with
      | none => none
      | some (r, es) => some (.ok k, r, es)

def deleteSession (r : Registry) (g : GameRef) (sessionId : String) : Option Registry :=
  match r.gameObjects[g]? with
  | none => none
  | some game =>
    if game.locked then none
    else some (r.setGame g { game with sessions := game.sessions.eraseKey sessionId })

/-- `checkAllPeersPings` or `pingAllPeers` of the session goes on by one section; `c` is the
choice of its loop. -/
def tickRoom (r : Registry) (k : RoomRef) (c : Nat) (now : Int) :
    Option (PingerTask × Registry × List Event) :=
  match r.stepRoom k (.session (.tick c now)) with
  | none => none
  | some (r, es) =>
    match r.rooms[k]? with
    | none => none
    | some h => some (h.room.session.pinger, r, es)

def pinger (r : Registry) (g : GameRef) (p : Nat) (c : Nat) (now : Int) :
    Option (Registry × List Event) :=
  match r.gameObjects[g]? with
  | none => none
  | some game =>
    let goTo (r : Registry) (next : Pinger) : Registry :=
      r.setGame g { game with pingers := game.pingers.set p next }
    match game.pingers[p]? with
    | none => none
    | some .waiting =>
      if game.locked then none
      else if game.sessions.isEmpty then
        some (r.setGame g
          { game with isPingerActive := false, pingers := game.pingers.eraseIdx p }, [])
      else some (goTo r (.checking none game.sessions.values), [])
    | some (.checking none []) => some (goTo r (.pinging none game.sessions.values), [])
    | some (.checking none rest) =>
      match rest[c]? with
      | none => none
      | some k => some (goTo r (.checking (some k) (rest.eraseIdx c)), [])
    | some (.checking (some k) rest) =>
      match r.tickRoom k c now with
      | none => none
      | some (.checked, r, es) => some (goTo r (.checking none rest), es)
      | some (_, r, es) => some (r, es)
    | some (.pinging none []) => some (goTo r .waiting, [])
    | some (.pinging none rest) =>
      match rest[c]? with
      | none => none
      | some k => some (goTo r (.pinging (some k) (rest.eraseIdx c)), [])
    | some (.pinging (some k) rest) =>
      match r.tickRoom k c now with
      | none => none
      | some (.idle, r, es) => some (goTo r (.pinging none rest), es)
      | some (_, r, es) => some (r, es)

/-! ## What can change -/

inductive Op where
  | getGameById (gameId : Option String)
  | createNewSession (g : GameRef) (sessionId : String)
  | stepRoom (k : RoomRef) (a : Room.Op)
  | deleteSession (g : GameRef) (sessionId : String)
  /-- what `Pinger::act` does to the state of its game -/
  | setPingers (g : GameRef) (pingers : List Pinger) (isPingerActive : Bool)

def step (r : Registry) : Op → Option (Registry × List Event)
  | .getGameById gameId => some ((r.getGameById gameId).2, [])
  | .createNewSession g sessionId =>
    match r.createNewSession g sessionId with
    | none => none
    | some (_, r) => some (r, [])
  | .stepRoom k a => r.stepRoom k a
  | .deleteSession g sessionId =>
    match r.deleteSession g sessionId with
    | none => none
    | some r => some (r, [])
  | .setPingers g pingers isPingerActive =>
    match r.gameObjects[g]? with
    | none => none
    | some game =>
      some (r.setGame g { game with pingers := pingers, isPingerActive := isPingerActive }, [])

def machine : Machine Registry Op Event := ⟨step⟩

variable {r r' : Registry} {es : List Event}

theorem locked_startPinger (game : Game) : game.startPinger.locked = game.locked := by
  unfold Game.startPinger
  split
  · simp [Game.locked, Pinger.holds]
  · rfl

theorem config_startPinger (game : Game) : game.startPinger.config = game.config := by
  unfold Game.startPinger
  split <;> rfl

theorem getGameById_run (r : Registry) (gameId : Option String) :
    machine.run [.getGameById gameId] [] r = some ([], (r.getGameById gameId).2) := rfl

/-- The first half of `getSessionForPeer` does at most one look-up. -/
theorem findGameForPeer_cases (r : Registry) (params : ParameterMap) :
    (r.findGameForPeer params).2 = r ∨
      ∃ gameId, (r.findGameForPeer params).2 = (r.getGameById gameId).2 := by
  unfold findGameForPeer
  split
  · exact Or.inl rfl
  · next gameId _ =>
    split
    · exact Or.inl rfl
    · split
      · exact Or.inl rfl
      · refine Or.inr ⟨some gameId, ?_⟩
        split <;> next he => rw [he]

theorem findGameForPeer_run (r : Registry) (params : ParameterMap) :
    ∃ w, machine.run w [] r = some ([], (r.findGameForPeer params).2) ∧
      ∀ op ∈ w, ∃ gameId, op = .getGameById gameId := by
  obtain hsame | ⟨gameId, hlookup⟩ := findGameForPeer_cases r params
  · refine ⟨[], ?_, by simp⟩
    rw [hsame]
    rfl
  · refine ⟨[.getGameById gameId], ?_, by simp⟩
    rw [hlookup]
    exact getGameById_run r gameId

inductive GetsSession (r : Registry) (a : Admission) :
    Except ErrorDto RoomRef → Registry → List Event → Prop where
  | created (k : RoomRef) (r' : Registry) :
    r.createNewSession a.game a.sessionId = some (some k, r') → GetsSession r a (.ok k) r' []
  | taken (e : ErrorDto) (r' : Registry) :
    r.createNewSession a.game a.sessionId = some (none, r') → GetsSession r a (.error e) r' []
  | missing (e : ErrorDto) : GetsSession r a (.error e) r []
  | found (k : RoomRef) (r' : Registry) (es : List Event) :
    r.findSession a.game a.sessionId = some (some k) →
    r.stepRoom k (.session .findSession) = some (r', es) → GetsSession r a (.ok k) r' es

theorem getSession_cases {a : Admission} {res : Except ErrorDto RoomRef}
    (h : r.getSession a = some (res, r', es)) : GetsSession r a res r' es := by
  unfold getSession at h
  split at h
  · split at h
    · cases h
    · next hc => cases h; exact .taken _ _ hc
    · next hc => cases h; exact .created _ _ hc
  · split at h
    · cases h
    · cases h; exact .missing _
    · next hf =>
      split at h
      · cases h
      · next hs => cases h; exact .found _ _ _ hf hs

theorem stepRoom_some {k : RoomRef} {a : Room.Op} (h : r.stepRoom k a = some (r', es)) :
    ∃ h room fs, r.rooms[k]? = some h ∧ h.room.step a = some (room, fs) ∧
      r' = { r with rooms := r.rooms.set k ⟨h.game, room⟩ } ∧ es = fs.map (.room k) := by
  unfold stepRoom at h
  split at h
  · cases h
  · next hosted hk =>
    split at h
    · cases h
    · next room fs hs => cases h; exact ⟨hosted, room, fs, hk, hs, rfl, rfl⟩

theorem tickRoom_some {k : RoomRef} {c : Nat} {now : Int} {task : PingerTask}
    (h : r.tickRoom k c now = some (task, r', es)) :
    r.stepRoom k (.session (.tick c now)) = some (r', es) := by
  unfold tickRoom at h
  split at h
  · cases h
  · next hs =>
    split at h
    · cases h
    · cases h; exact hs

inductive Creates (r : Registry) (g : GameRef) (sessionId : String) :
    Option RoomRef → Registry → Prop where
  | taken : Creates r g sessionId none r
  | created (game : Game) : r.gameObjects[g]? = some game → game.locked = false →
    game.sessions.find sessionId = none →
    Creates r g sessionId (some r.rooms.length)
      { r.setGame g (Game.startPinger
          { game with sessions := game.sessions.insertNew sessionId r.rooms.length }) with
        rooms := r.rooms ++ [⟨g, Room.init sessionId game.config⟩] }

theorem createNewSession_cases {g : GameRef} {sessionId : String} {answer : Option RoomRef}
    (h : r.createNewSession g sessionId = some (answer, r')) :
    Creates r g sessionId answer r' := by
  unfold createNewSession at h
  split at h
  · cases h
  · next game hg =>
    split at h
    · cases h
    · next hl =>
      split at h
      · cases h
        exact .taken
      · next hf =>
        cases h
        exact .created game hg (by simpa using hl) hf

theorem deleteSession_some {g : GameRef} {sessionId : String}
    (h : r.deleteSession g sessionId = some r') :
    ∃ game, r.gameObjects[g]? = some game ∧ game.locked = false ∧
      r' = r.setGame g { game with sessions := game.sessions.eraseKey sessionId } := by
  unfold deleteSession at h
  split at h
  · cases h
  · next game hg =>
    split at h
    · cases h
    · next hl =>
      cases h
      exact ⟨game, hg, by simpa using hl, rfl⟩

inductive Step (r : Registry) : Op → Registry → List Event → Prop where
  | idle (gameId : Option String) : Step r (.getGameById gameId) r []
  | newGame (gameId : Option String) (config : GameConfigDto) : r.games.find gameId = none →
    r.gamesConfig.getGameConfig gameId = some config →
    Step r (.getGameById gameId)
      { r with
        games := r.games.insertNew config.gameId r.gameObjects.length
        gameObjects := r.gameObjects ++ [{ config := config }] } []
  | refused (g : GameRef) (sessionId : String) : Step r (.createNewSession g sessionId) r []
  | created (g : GameRef) (sessionId : String) (game : Game) : r.gameObjects[g]? = some game →
    game.sessions.find sessionId = none →
    Step r (.createNewSession g sessionId)
      { r.setGame g (Game.startPinger
          { game with sessions := game.sessions.insertNew sessionId r.rooms.length }) with
        rooms := r.rooms ++ [⟨g, Room.init sessionId game.config⟩] } []
  | room (k : RoomRef) (a : Room.Op) (h : Hosted) (room : Room) (fs : List Room.Event) :
    r.rooms[k]? = some h → h.room.step a = some (room, fs) →
    Step r (.stepRoom k a) { r with rooms := r.rooms.set k ⟨h.game, room⟩ } (fs.map (.room k))
  | deleted (g : GameRef) (sessionId : String) (game : Game) : r.gameObjects[g]? = some game →
    Step r (.deleteSession g sessionId)
      (r.setGame g { game with sessions := game.sessions.eraseKey sessionId }) []
  | pingers (g : GameRef) (game : Game) (pingers : List Pinger) (active : Bool) :
    r.gameObjects[g]? = some game →
    Step r (.setPingers g pingers active)
      (r.setGame g { game with pingers := pingers, isPingerActive := active }) []

theorem step_cases {op : Op} (h : r.step op = some (r', es)) : Step r op r' es := by
  cases op with
  | getGameById gameId =>
    simp only [step, getGameById, Option.some.injEq, Prod.mk.injEq] at h
    obtain ⟨rfl, rfl⟩ := h
    split
    · exact .idle gameId
    · next hf =>
      split
      · next config hc => exact .newGame gameId config hf hc
      · exact .idle gameId
  | createNewSession g sessionId =>
    simp only [step] at h
    split at h
    · cases h
    · next hs =>
      cases h
      cases createNewSession_cases hs with
      | taken => exact .refused g sessionId
      | created game hg hl hf => exact .created g sessionId game hg hf
  | stepRoom k a =>
    obtain ⟨hosted, room, fs, hk, hs, rfl, rfl⟩ := stepRoom_some h
    exact .room k a hosted room fs hk hs
  | deleteSession g sessionId =>
    simp only [step] at h
    split at h
    · cases h
    · next hs =>
      cases h
      obtain ⟨game, hg, -, rfl⟩ := deleteSession_some hs
      exact .deleted g sessionId game hg
  | setPingers g pingers active =>
    simp only [step] at h
    split at h
    · cases h
    · next game hg => cases h; exact .pingers g game pingers active hg

theorem rooms_deleteSession {g : GameRef} {sessionId : String}
    (h : r.step (.deleteSession g sessionId) = some (r', es)) : es = [] ∧ r'.rooms = r.rooms := by
  cases step_cases h with
  | deleted _ _ game hg => exact ⟨rfl, rfl⟩

/-- A game that has been found stays found. -/
theorem step_games {op : Op} (h : r.step op = some (r', es)) :
    r'.gamesConfig = r.gamesConfig ∧
      ∀ gameId g, r.games.find gameId = some g → r'.games.find gameId = some g := by
  cases step_cases h with
  | newGame gameId config hf hc =>
    refine ⟨rfl, ?_⟩
    intro gameId' g hg
    exact UnorderedMap.find_insertNew_of_some _ hg
  | _ => exact ⟨rfl, fun gameId g hg => hg⟩

theorem getGameById_find {gameId : Option String} {g : GameRef} (hw : r.gamesConfig.WellKeyed)
    (h : r.getGameById gameId = (some g, r')) : r'.games.find gameId = some g := by
  unfold getGameById at h
  split at h
  · next hf => cases h; exact hf
  · next hf =>
    split at h
    · next config hc =>
      cases h
      rw [hw gameId config hc]
      exact UnorderedMap.find_insertNew_self _ hf
    · cases h

theorem findGameForPeer_find {params : ParameterMap} {a : Admission}
    (hw : r.gamesConfig.WellKeyed) (h : r.findGameForPeer params = (.ok a, r')) :
    r'.games.find (some a.gameId) = some a.game := by
  unfold findGameForPeer at h
  split at h
  · cases h
  · split at h
    · cases h
    · split at h
      · cases h
      · split at h
        · cases h
        · next hg => cases h; exact getGameById_find hw hg

/-! ## The rooms -/

def Event.room? (k : RoomRef) : Event → Option Room.Event
  | .room j e => if j = k then some e else none

def roomPart (k : RoomRef) (t : List Event) : List Room.Event := t.filterMap (Event.room? k)

@[simp] theorem roomPart_append (k : RoomRef) (t u : List Event) :
    roomPart k (t ++ u) = roomPart k t ++ roomPart k u :=
  List.filterMap_append ..

theorem roomPart_room (k j : RoomRef) (es : List Room.Event) :
    roomPart k (es.map (.room j)) = if k = j then es else [] := by
  by_cases hk : k = j
  · subst hk
    rw [if_pos rfl]
    induction es with
    | nil => rfl
    | cons e es ih =>
      simp only [roomPart, List.map_cons, List.filterMap_cons, Event.room?, if_pos] at ih ⊢
      rw [ih]
  · rw [if_neg hk]
    induction es with
    | nil => rfl
    | cons e es ih =>
      simp only [roomPart, List.map_cons, List.filterMap_cons, Event.room?,
        if_neg (Ne.symm hk)] at ih ⊢
      exact ih

def RoomsTracked (t : List Event) (r : Registry) : Prop :=
  Tracked Room.machine (fun room => ∃ id config, room = Room.init id config)
    (fun k => roomPart k t) (r.rooms.map Hosted.room)

theorem step_rooms {t : List Event} {op : Op} (h : RoomsTracked t r)
    (hs : r.step op = some (r', es)) : RoomsTracked (t ++ es) r' := by
  have hquiet : ∀ k, roomPart k (t ++ []) = roomPart k t := fun k => by simp
  cases step_cases hs with
  | idle gameId => exact tracked_same h hquiet
  | newGame gameId config hf hc => exact tracked_same h hquiet
  | refused g sessionId => exact tracked_same h hquiet
  | created g sessionId game hg hf =>
    unfold RoomsTracked
    rw [List.map_append]
    exact tracked_spawn h ⟨sessionId, game.config, rfl⟩ hquiet
  | room k a hosted room fs hk hst =>
    unfold RoomsTracked
    rw [List.map_set]
    refine tracked_step h (by rw [List.getElem?_map, hk]; rfl) hst ?_
    intro j
    rw [roomPart_append, roomPart_room]
    split <;> simp
  | deleted g sessionId game hg => exact tracked_same h hquiet
  | pingers g game pingers active hg => exact tracked_same h hquiet

end Registry
end Helicopter
