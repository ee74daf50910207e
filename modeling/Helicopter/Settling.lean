import Helicopter.Workload
import Helicopter.Standing

/-! The sections that the server has still to take if nothing more comes from outside: no
connection, no message, and no timer of a pinger. Each section that it takes leaves it fewer, so
that it comes to rest. -/
namespace Helicopter
open Interleaving

/-! ## The pingers -/

def Pinger.current : Pinger → Option RoomRef
  | .waiting => none
  | .checking current _ | .pinging current _ => current

def callSections (peers : Nat) (tasks : List PingerTask) : Option RoomRef → Nat
  | none => 0
  | some k => ((tasks[k]?).getD .idle).sections peers

/-- The rest of the activation, over the sessions of the game. A pinger that waits has nothing to
do until its timer wakes it. -/
def Pinger.sections (peers : Nat) (tasks : List PingerTask) (sessions : Nat) : Pinger → Nat
  | .waiting => 0
  | .checking current rest =>
    callSections peers tasks current + rest.length * (2 * peers + 4) + 1 +
      (sessions * (2 * peers + 4) + 1)
  | .pinging current rest => callSections peers tasks current + rest.length * (2 * peers + 4) + 1

def Game.sections (peers : Nat) (tasks : List PingerTask) (game : Game) : Nat :=
  total (Pinger.sections peers tasks game.sessions.values.length) game.pingers

namespace Registry
variable {r r' r₁ : Registry} {t bs : List Beat} {es fs : List Event} {g g' : GameRef}
  {game game' : Game} {p c peers : Nat} {now : Int}

def tasks (r : Registry) : List PingerTask := r.rooms.map fun h => h.room.session.pinger

def sections (peers : Nat) (r : Registry) : Nat :=
  total (fun h => h.room.sections) r.rooms + total (Game.sections peers r.tasks) r.gameObjects

def crowd (r : Registry) : Nat := total (fun h => h.room.crowd) r.rooms

theorem getElem?_tasks (k : RoomRef) :
    r.tasks[k]? = (r.rooms[k]?).map fun h => h.room.session.pinger := by
  rw [tasks, List.getElem?_map]

theorem tasks_set {k : RoomRef} {h : Hosted} (h' : Hosted) (hk : r.rooms[k]? = some h)
    (hp : h'.room.session.pinger = h.room.session.pinger) :
    tasks { r with rooms := r.rooms.set k h' } = r.tasks := by
  have hlt := (List.getElem?_eq_some_iff.mp hk).1
  apply List.ext_getElem?
  intro j
  rw [getElem?_tasks, getElem?_tasks]
  by_cases hj : j = k
  · rw [hj, List.getElem?_set_self hlt, hk]
    exact congrArg some hp
  · rw [List.getElem?_set_ne (Ne.symm hj)]

theorem callSections_snoc (tasks : List PingerTask) (current : Option RoomRef) :
    callSections peers (tasks ++ [.idle]) current = callSections peers tasks current := by
  cases current with
  | none => rfl
  | some k =>
    rw [callSections, callSections, getElem?_snoc]
    split
    · next hk =>
      rw [hk, List.getElem?_eq_none (Nat.le_refl _)]
      rfl
    · rfl

theorem sections_snoc (tasks : List PingerTask) (game : Game) :
    game.sections peers (tasks ++ [.idle]) = game.sections peers tasks := by
  have hsame : Pinger.sections peers (tasks ++ [.idle]) = Pinger.sections peers tasks := by
    funext n x
    cases x with
    | waiting => rfl
    | checking current rest => simp only [Pinger.sections, callSections_snoc]
    | pinging current rest => simp only [Pinger.sections, callSections_snoc]
  rw [Game.sections, Game.sections, hsame]

/-- Where the mutex of the game is free, its pinger waits. -/
theorem sections_free (hl : game.locked = false) (tasks : List PingerTask) :
    game.sections peers tasks = 0 := by
  unfold Game.locked at hl
  unfold Game.sections
  generalize game.pingers = xs at hl
  induction xs with
  | nil => rfl
  | cons x xs ih =>
    rw [List.any_cons, Bool.or_eq_false_iff] at hl
    rw [total_cons, ih hl.2]
    cases x with
    | waiting => rfl
    | _ => cases hl.1

/-- A game is changed whose pinger waits before and after. -/
theorem sections_setGame (peers : Nat) (hg : r.gameObjects[g]? = some game)
    (hl : game.locked = false) (hl' : game'.locked = false) (tasks : List PingerTask) :
    total (Game.sections peers tasks) (r.setGame g game').gameObjects =
      total (Game.sections peers tasks) r.gameObjects := by
  have hset := total_set (f := Game.sections peers tasks) (y := game') hg
  rw [sections_free hl, sections_free hl'] at hset
  exact hset

/-! ## The sections of the registry -/

theorem stepRoom_own (peers : Nat) {k : RoomRef} {a : Room.Op} (ha : Room.own a = true)
    (hs : r.stepRoom k a = some (r', es)) : ∃ fs, es = fs.map (.room k) ∧
      r'.sections peers + Session.departing (Room.sessionPart fs) < r.sections peers ∧
      r'.crowd ≤ r.crowd := by
  obtain ⟨h, room, fs, hk, hst, rfl, rfl⟩ := stepRoom_some hs
  obtain ⟨hlow, hcrowd, hpin⟩ := Room.own_lowers ha hst
  have hsum := total_set (f := fun h : Hosted => h.room.sections) (y := ⟨h.game, room⟩) hk
  have hpeople := total_set (f := fun h : Hosted => h.room.crowd) (y := ⟨h.game, room⟩) hk
  refine ⟨fs, rfl, ?_, ?_⟩
  · rw [sections, sections, tasks_set ⟨h.game, room⟩ hk hpin]
    simp only at hsum ⊢
    omega
  · unfold crowd
    simp only at hpeople ⊢
    omega

theorem getGameById_sections (peers : Nat) (r : Registry) (gameId : Option String) :
    (r.getGameById gameId).2.sections peers = r.sections peers ∧
      (r.getGameById gameId).2.crowd = r.crowd := by
  unfold getGameById
  split
  · exact ⟨rfl, rfl⟩
  · split
    · next config hc =>
      refine ⟨?_, rfl⟩
      have hnew : total (Game.sections peers r.tasks) (r.gameObjects ++ [{ config := config }]) =
          total (Game.sections peers r.tasks) r.gameObjects := by
        rw [total_append, total_cons, total_nil]
        rfl
      simp only [sections]
      exact congrArg _ hnew
    · exact ⟨rfl, rfl⟩

theorem createNewSession_sections (peers : Nat) {sessionId : String} {answer : Option RoomRef}
    (hc : r.createNewSession g sessionId = some (answer, r')) :
    r'.sections peers ≤ r.sections peers + 9 ∧ r'.crowd ≤ r.crowd + 1 := by
  cases createNewSession_cases hc with
  | taken => exact ⟨Nat.le_add_right _ _, Nat.le_add_right _ _⟩
  | created game hg hl hf =>
    have hl' : Game.locked (Game.startPinger
        { game with sessions := game.sessions.insertNew sessionId r.rooms.length }) = false := by
      rw [locked_startPinger]
      exact hl
    have hgames := sections_setGame peers hg hl hl' r.tasks
    have htasks : ∀ objects : List Game, tasks { r with
        gameObjects := objects
        rooms := r.rooms ++ [⟨g, Room.init sessionId game.config⟩] } = r.tasks ++ [.idle] := by
      intro objects
      simp [tasks, Room.init]
    have hsnoc : Game.sections peers (r.tasks ++ [.idle]) = Game.sections peers r.tasks :=
      funext fun game => sections_snoc r.tasks game
    refine ⟨?_, ?_⟩
    · simp only [sections, setGame] at hgames ⊢
      rw [htasks, hsnoc, hgames, total_append, total_cons, total_nil]
      simp only [Room.sections, Room.init, List.length_singleton, total_nil]
      omega
    · simp only [crowd, total_append, total_cons, total_nil, Room.crowd, Room.init,
        List.length_singleton, List.length_nil]
      omega

theorem getSession_sections (peers : Nat) {a : Admission} {res : Except ErrorDto RoomRef}
    (hs : r.getSession a = some (res, r', es)) :
    r'.sections peers ≤ r.sections peers + 9 ∧ r'.crowd ≤ r.crowd + 1 := by
  cases getSession_cases hs with
  | created k r' hc => exact createNewSession_sections peers hc
  | taken e r' hc => exact createNewSession_sections peers hc
  | missing e => exact ⟨Nat.le_add_right _ _, Nat.le_add_right _ _⟩
  | found k r' es hf hst =>
    obtain ⟨h, room, fs, hk, hroom, rfl, rfl⟩ := stepRoom_some hst
    obtain ⟨hmore, hcrowd, hpin⟩ := Room.findSession_sections hroom
    have hsum := total_set (f := fun h : Hosted => h.room.sections) (y := ⟨h.game, room⟩) hk
    have hpeople := total_set (f := fun h : Hosted => h.room.crowd) (y := ⟨h.game, room⟩) hk
    refine ⟨?_, ?_⟩
    · rw [sections, sections, tasks_set ⟨h.game, room⟩ hk hpin]
      simp only at hsum ⊢
      omega
    · unfold crowd
      simp only at hpeople ⊢
      omega

theorem deleteSession_sections (peers : Nat) {sessionId : String}
    (hd : r.deleteSession g sessionId = some r') :
    r'.sections peers = r.sections peers ∧ r'.crowd = r.crowd := by
  obtain ⟨game, hg, hl, rfl⟩ := deleteSession_some hd
  refine ⟨?_, rfl⟩
  have hl' : Game.locked { game with sessions := game.sessions.eraseKey sessionId } = false := hl
  exact congrArg (total (fun h => h.room.sections) r.rooms + ·)
    (sections_setGame peers hg hl hl' r.tasks)

/-! ## The sections of a pinger -/

/-- The rest of the activation changes with the session in which the pinger is. -/
theorem sections_of_current {tasks tasks' : List PingerTask} {n : Nat} {x : Pinger}
    (h : callSections peers tasks' x.current = callSections peers tasks x.current) :
    x.sections peers tasks' n = x.sections peers tasks n := by
  cases x with
  | waiting => rfl
  | checking current rest =>
    rw [Pinger.current] at h
    rw [Pinger.sections, Pinger.sections, h]
  | pinging current rest =>
    rw [Pinger.current] at h
    rw [Pinger.sections, Pinger.sections, h]

theorem current_mem {ss : List RoomRef} {x : Pinger} {k : RoomRef} (h : Listed ss x)
    (hk : x.current = some k) : k ∈ ss := by
  cases x with
  | waiting => cases hk
  | checking current rest =>
    rw [Pinger.current] at hk
    exact h.2 k (by rw [hk]; simp)
  | pinging current rest =>
    rw [Pinger.current] at hk
    exact h.2 k (by rw [hk]; simp)

/-- The pingers of the other games are in other sessions. -/
theorem sections_others {tasks' : List PingerTask} {j : RoomRef} {hosted : Hosted}
    (h : Supervised t r) (hj : r.rooms[j]? = some hosted)
    (hsame : ∀ k, k ≠ j → tasks'[k]? = r.tasks[k]?) (hne : g' ≠ hosted.game)
    (hg' : r.gameObjects[g']? = some game') :
    game'.sections peers tasks' = game'.sections peers r.tasks := by
  cases h.sound g' game' hg' with
  | off hp ha he => simp only [Game.sections, hp, total_nil]
  | on x hp ha hx =>
    have hlist := h.phased.listed g' game' hg'
    have hcur : coroutine game' = x := by simp [coroutine, hp]
    rw [hcur] at hlist
    simp only [Game.sections, hp, total_cons, total_nil]
    rw [sections_of_current]
    cases hc : x.current with
    | none => rfl
    | some k =>
      obtain ⟨hosted', hk, hgame⟩ := hosted_of_values h.tables hg' (current_mem hlist hc)
      have hkj : k ≠ j := by
        intro hkj
        rw [hkj, hj] at hk
        cases hk
        exact hne hgame.symm
      rw [callSections, callSections, hsame k hkj]

/-- The session `j` in which the pinger is goes on. -/
theorem sections_tick {x next : Pinger} {j : RoomRef} {task : PingerTask} (h : Supervised t r)
    (hg : r.gameObjects[g]? = some game) (hp : game.pingers = [x])
    (ht : r.tickRoom j c now = some (task, r₁, fs)) (hj : j ∈ game.sessions.values)
    (hnext : game'.pingers = [next]) (hss : game'.sessions = game.sessions)
    (hlow : ∀ tasks', tasks'[j]? = some task →
      next.sections peers tasks' game.sessions.values.length <
        x.sections peers r.tasks game.sessions.values.length) :
    (r₁.setGame g game').sections peers < r.sections peers ∧
      (r₁.setGame g game').crowd = r.crowd := by
  obtain ⟨hosted, room, es, hk, hst, hr, -⟩ := stepRoom_some (tickRoom_some ht)
  obtain ⟨hosted', room', es', hk', -, htask, hr'⟩ := tickRoom_ticks ht
  rw [hk] at hk'
  cases hk'
  have hlt := (List.getElem?_eq_some_iff.mp hk).1
  have hroom : room' = room := by
    have hrooms := congrArg (fun r : Registry => r.rooms[j]?) (hr'.symm.trans hr)
    simp only [List.getElem?_set_self hlt, Option.some.injEq, Hosted.mk.injEq] at hrooms
    exact hrooms.2
  subst hroom
  subst hr
  have hmine : hosted.game = g := by
    obtain ⟨hosted', hk', hgame⟩ := hosted_of_values h.tables hg hj
    rw [hk] at hk'
    cases hk'
    exact hgame
  obtain ⟨hload, hcrowd⟩ := Room.tick_sections hst
  have hsum := total_set (f := fun h : Hosted => h.room.sections) (y := ⟨hosted.game, room'⟩) hk
  have hpeople := total_set (f := fun h : Hosted => h.room.crowd) (y := ⟨hosted.game, room'⟩) hk
  -- the tasks of the pingers after the tick
  generalize htasks : tasks (setGame { r with rooms := r.rooms.set j ⟨hosted.game, room'⟩ } g
    game') = tasks'
  have hother : ∀ k, k ≠ j → tasks'[k]? = r.tasks[k]? := by
    intro k hkj
    rw [← htasks, getElem?_tasks, getElem?_tasks]
    exact congrArg _ (List.getElem?_set_ne (Ne.symm hkj))
  have hown : tasks'[j]? = some task := by
    rw [← htasks, getElem?_tasks]
    simp only [setGame, List.getElem?_set_self hlt]
    exact congrArg some htask
  have hgames := total_set_le (f := Game.sections peers r.tasks)
    (g := Game.sections peers tasks') (y := game') hg ?_
  · have hstep := hlow tasks' hown
    have hbefore : game.sections peers r.tasks =
        x.sections peers r.tasks game.sessions.values.length := by
      simp only [Game.sections, hp, total_cons, total_nil, Nat.add_zero]
    have hafter : game'.sections peers tasks' =
        next.sections peers tasks' game.sessions.values.length := by
      simp only [Game.sections, hnext, hss, total_cons, total_nil, Nat.add_zero]
    refine ⟨?_, ?_⟩
    · rw [sections, sections, htasks]
      simp only [setGame] at hsum hgames ⊢
      omega
    · unfold crowd
      simp only [setGame] at hpeople ⊢
      omega
  · intro g' game₁ hne hg'
    rw [← hmine] at hne
    exact Nat.le_of_eq (sections_others h hk hother hne hg')

/-- The session in which the pinger is, and its tick. -/
theorem ticks_inside {x : Pinger} {k : RoomRef} {task : PingerTask} (h : Supervised t r)
    (hg : r.gameObjects[g]? = some game) (hx : game.pingers[p]? = some x)
    (ht : r.tickRoom k c now = some (task, r₁, fs)) (hk : x.current = some k) :
    ∃ (hosted : Hosted) (room : Room) (es : List Session.Event), r.rooms[k]? = some hosted ∧
      Session.Ticks hosted.room.session c now room.session es ∧ room.session.pinger = task ∧
      Expected game.sessions.values k hosted.room.session.pinger x := by
  obtain ⟨hosted, room, es, hroom, hticks, htask, -⟩ := tickRoom_ticks ht
  obtain ⟨hosted', hroom', he⟩ := expected_of_listed h hg hx fun ss hl => current_mem hl hk
  rw [hroom] at hroom'
  cases hroom'
  exact ⟨hosted, room, es, hroom, hticks, htask, he⟩

/-- The pinger goes on outside of the sessions. -/
theorem sections_goTo {x next : Pinger} (hg : r.gameObjects[g]? = some game)
    (hp : game.pingers = [x])
    (hlow : next.sections peers r.tasks game.sessions.values.length <
      x.sections peers r.tasks game.sessions.values.length) :
    (r.goTo g game 0 next).sections peers < r.sections peers ∧
      (r.goTo g game 0 next).crowd = r.crowd := by
  have hset := total_set (f := Game.sections peers r.tasks)
    (y := { game with pingers := game.pingers.set 0 next }) hg
  have hbefore : game.sections peers r.tasks =
      x.sections peers r.tasks game.sessions.values.length := by
    simp only [Game.sections, hp, total_cons, total_nil, Nat.add_zero]
  have hafter : Game.sections peers r.tasks { game with pingers := game.pingers.set 0 next } =
      next.sections peers r.tasks game.sessions.values.length := by
    simp only [Game.sections, hp, List.set_cons_zero, total_cons, total_nil, Nat.add_zero]
  refine ⟨?_, rfl⟩
  have htasks : (r.goTo g game 0 next).tasks = r.tasks := rfl
  rw [sections, sections, htasks]
  simp only [goTo, setGame]
  omega

theorem callSections_of_room {k : RoomRef} {hosted : Hosted} (hk : r.rooms[k]? = some hosted) :
    callSections peers r.tasks (some k) = hosted.room.session.pinger.sections peers := by
  rw [callSections, getElem?_tasks, hk]
  rfl

theorem sections_pos (peers : Nat) (task : PingerTask) : 0 < task.sections peers := by
  cases task <;> simp only [PingerTask.sections] <;> omega

theorem callSections_pos (peers : Nat) {k : RoomRef} {hosted : Hosted}
    (hk : r.rooms[k]? = some hosted) : 0 < callSections peers r.tasks (some k) := by
  rw [callSections_of_room hk]
  exact sections_pos peers _

/-- The call of a session takes the place of the session in the rest of the loop. -/
theorem callSections_begins (peers : Nat) {rest : List RoomRef} {k : RoomRef} {hosted : Hosted}
    (hk : rest[c]? = some k) (hroom : r.rooms[k]? = some hosted)
    (hlow : hosted.room.session.pinger.sections peers < 2 * peers + 4) :
    callSections peers r.tasks (some k) + (rest.eraseIdx c).length * (2 * peers + 4) <
      callSections peers r.tasks none + rest.length * (2 * peers + 4) := by
  have hmul : rest.length * (2 * peers + 4) =
      (rest.eraseIdx c).length * (2 * peers + 4) + (2 * peers + 4) := by
    rw [← Session.length_eraseIdx_lt hk, Nat.add_mul, Nat.one_mul]
  rw [callSections_of_room hroom, callSections]
  omega

/-- The call that the pinger is in goes on. -/
theorem sections_inside {x : Pinger} {k : RoomRef} {task : PingerTask} {hosted : Hosted}
    (h : Supervised t r) (hg : r.gameObjects[g]? = some game) (hp : game.pingers = [x])
    (ht : r.tickRoom k c now = some (task, r₁, fs)) (hx : x.current = some k)
    (hk : k ∈ game.sessions.values) (hroom : r.rooms[k]? = some hosted)
    (hlow : task.sections peers < hosted.room.session.pinger.sections peers) :
    r₁.sections peers < r.sections peers ∧ r₁.crowd = r.crowd := by
  have hg₁ : r₁.gameObjects[g]? = some game := by
    rw [gameObjects_tickRoom ht]
    exact hg
  rw [← setGame_same hg₁]
  refine sections_tick h hg hp ht hk hp rfl ?_
  intro tasks' hown
  have hcall : callSections peers tasks' x.current < callSections peers r.tasks x.current := by
    rw [hx, callSections_of_room hroom, callSections, hown]
    exact hlow
  cases x with
  | waiting => cases hx
  | checking current rest =>
    simpa only [Pinger.sections, Pinger.current, Nat.add_lt_add_iff_right] using hcall
  | pinging current rest =>
    simpa only [Pinger.sections, Pinger.current, Nat.add_lt_add_iff_right] using hcall

/-- A section of a pinger in the middle of an activation. -/
theorem pinger_sections {x : Pinger} (h : Supervised t r)
    (hA : ∀ (k : RoomRef) (h : Hosted), r.rooms[k]? = some h → h.room.session.Agrees)
    (hpeers : r.crowd ≤ peers) (hg : r.gameObjects[g]? = some game)
    (hx : game.pingers[p]? = some x) (hholds : x.holds = true)
    (hs : r.pinger g p c now = some (r', es)) :
    r'.sections peers < r.sections peers ∧ r'.crowd = r.crowd := by
  have hacts := pinger_acts hg hx hs
  generalize hb : beats g game c x = bs at hacts
  obtain ⟨rfl, hp, -, -⟩ := only_pinger (h.sound g game hg) hx
  have hlist := h.phased.listed g game hg
  have hcur : coroutine game = x := by simp [coroutine, hp]
  rw [hcur] at hlist
  have hset : ∀ next, game.pingers.set 0 next = [next] := fun next => by rw [hp]; rfl
  have hsize : ∀ (k : RoomRef) (hosted : Hosted), r.rooms[k]? = some hosted →
      hosted.room.session.objects.length ≤ peers := by
    intro k hosted hk
    have hle := le_total (f := fun h : Hosted => h.room.crowd) hk
    unfold crowd at hpeers
    unfold Room.crowd at hle hpeers
    omega
  cases hacts with
  | stop hl he => cases hholds
  | activate hl he => cases hholds
  | check rest k hk =>
    obtain ⟨hosted, hroom, he⟩ := expected_of_listed h hg hx (k := k)
      fun ss hl => hl.2 k (List.mem_of_getElem? hk)
    rw [Expected, if_neg (by simp), if_neg fun hn => hn.2 (List.mem_of_getElem? hk)] at he
    have hbegins := callSections_begins peers hk hroom
      (by rw [he, PingerTask.sections]; omega)
    refine sections_goTo hg hp ?_
    rw [Pinger.sections, Pinger.sections]
    omega
  | ping rest k hk =>
    obtain ⟨hosted, hroom, he⟩ := expected_of_listed h hg hx (k := k)
      fun ss hl => hl.2 k (List.mem_of_getElem? hk)
    rw [Expected, if_neg (by simp), if_pos (List.mem_of_getElem? hk)] at he
    have hbegins := callSections_begins peers hk hroom
      (by rw [he, PingerTask.sections]; omega)
    refine sections_goTo hg hp ?_
    rw [Pinger.sections, Pinger.sections]
    omega
  | turn =>
    refine sections_goTo hg hp ?_
    simp only [Pinger.sections, callSections, List.length_nil]
    omega
  | wait =>
    refine sections_goTo hg hp ?_
    simp only [Pinger.sections]
    omega
  | checking k rest task r₁ fs ht hne =>
    obtain ⟨hosted, room, es, hroom, hticks, htask, hphase⟩ := ticks_inside h hg hx ht rfl
    rw [Expected, if_pos rfl] at hphase
    have hlow := Session.ticks_check_lowers (hA k hosted hroom) (hsize k hosted hroom) hticks hphase
      (by rw [htask]; exact hne)
    rw [htask] at hlow
    exact sections_inside h hg hp ht rfl (listed_back hlist).1 hroom hlow
  | checked k rest r₁ fs ht =>
    obtain ⟨hosted, room, es, hroom, -, -, -⟩ := tickRoom_ticks ht
    refine sections_tick h hg hp ht (listed_back hlist).1 (hset _) rfl ?_
    intro tasks' hown
    have hpos := callSections_pos peers hroom
    simp only [Pinger.sections, callSections] at hpos ⊢
    omega
  | pinging k rest task r₁ fs ht hne =>
    have hback : Listed game.sessions.values (.checking (some k) rest) := hlist
    obtain ⟨hosted, room, es, hroom, hticks, htask, hphase⟩ := ticks_inside h hg hx ht rfl
    rw [Expected, if_pos rfl] at hphase
    have hlow := Session.ticks_ping_lowers (hA k hosted hroom) (hsize k hosted hroom) hticks hphase
      (by rw [htask]; exact hne)
    rw [htask] at hlow
    exact sections_inside h hg hp ht rfl (listed_back hback).1 hroom hlow
  | pinged k rest r₁ fs ht =>
    have hback : Listed game.sessions.values (.checking (some k) rest) := hlist
    obtain ⟨hosted, room, es, hroom, -, -, -⟩ := tickRoom_ticks ht
    refine sections_tick h hg hp ht (listed_back hback).1 (hset _) rfl ?_
    intro tasks' hown
    have hpos := callSections_pos peers hroom
    simp only [Pinger.sections, callSections] at hpos ⊢
    omega

end Registry

/-! ## The server -/

def Departure.sections : Departure → Nat
  | .emptied _ => 2
  | .deleting _ _ => 1

namespace System
variable {gamesConfig : GamesConfig} {s s' : System} {t t' es : List Event}

/-- The steps that the server takes of itself. From outside come connections, messages, ends of
connections, and the timer that wakes a pinger. -/
def own (s : System) : Op → Bool
  | .connect _ => false
  | .getSession _ | .findGame _ | .deleteSession _ => true
  | .room _ a => Room.own a
  | .pinger g p _ _ =>
    (s.registry.gameObjects[g]?).any fun game => (game.pingers[p]?).any Pinger.holds

def Own (s : System) (a : Op) : Prop := s.own a = true

def sectionsLeft (peers : Nat) (s : System) : Nat :=
  10 * s.admissions.length + total Departure.sections s.departures + s.registry.sections peers

def crowd (s : System) : Nat := s.admissions.length + s.registry.crowd

theorem run_agrees {w : List Op} (hr : machine.run w [] (init gamesConfig) = some (t, s))
    {k : RoomRef} {h : Hosted} (hk : s.registry.rooms[k]? = some h) :
    h.room.session.Agrees ∧ h.room.session.Routed := by
  obtain ⟨id, config, hreached⟩ := run_reached hr hk
  exact hreached.sound

theorem departing_room (k : RoomRef) (fs : List Room.Event) :
    (fs.map (Registry.Event.room k)).any Registry.Event.leavesEmpty =
      (Room.sessionPart fs).any Session.Event.leavesEmpty := by
  induction fs with
  | nil => rfl
  | cons e fs ih =>
    cases e with
    | outbox j e => exact ih
    | session e =>
      rw [List.map_cons, List.any_cons, Room.sessionPart_session, List.any_cons, ih]
      congr 1
      cases e with
      | left i isEmpty => cases isEmpty <;> rfl
      | _ => rfl

theorem own_lowers {peers : Nat} {w : List Op} {a : Op}
    (hr : machine.run w [] (init gamesConfig) = some (t, s)) (hpeers : s.crowd ≤ peers)
    (ha : s.own a = true) (hs : s.step a = some (s', es)) :
    s'.sectionsLeft peers < s.sectionsLeft peers ∧ s'.crowd ≤ s.crowd := by
  cases step_cases hs with
  | rejected params e r hf => cases ha
  | found params b r hf => cases ha
  | refused c b e r fs hb hg =>
    have hlen := Session.length_eraseIdx_lt hb
    obtain ⟨hload, hcrowd⟩ := Registry.getSession_sections peers hg
    simp only [sectionsLeft, crowd]
    omega
  | admitted c b k r fs hb hg =>
    have hlen := Session.length_eraseIdx_lt hb
    obtain ⟨hload, hcrowd⟩ := Registry.getSession_sections peers hg
    simp only [sectionsLeft, crowd]
    omega
  | room k b r fs hb hst =>
    obtain ⟨gs, rfl, hload, hcrowd⟩ := Registry.stepRoom_own peers ha hst
    rw [departing_room]
    simp only [Session.departing] at hload
    refine ⟨?_, Nat.add_le_add_left hcrowd _⟩
    simp only [sectionsLeft, total_append]
    split
    · next he =>
      rw [if_pos he] at hload
      simp only [total_cons, total_nil, Departure.sections]
      omega
    · next he =>
      rw [if_neg he] at hload
      simp only [total_nil]
      omega
  | findGame d k hosted g r hd hk hg =>
    obtain ⟨hload, hcrowd⟩ := Registry.getGameById_sections peers s.registry
      hosted.room.session.config.gameId
    rw [hg] at hload hcrowd
    have hset := total_set (f := Departure.sections)
      (y := .deleting g hosted.room.session.id) hd
    simp only [sectionsLeft, crowd, Departure.sections] at hset ⊢
    simp only at hload hcrowd
    omega
  | deleteSession d g sessionId r hd hdel =>
    obtain ⟨hload, hcrowd⟩ := Registry.deleteSession_sections peers hdel
    have hpick := total_pick (f := Departure.sections) hd
    simp only [sectionsLeft, crowd, Departure.sections] at hpick ⊢
    omega
  | pinger g p c now r fs hp =>
    obtain ⟨v, bs, hv⟩ := run_calls hr
    have hsup := Registry.run_supervised hv
    obtain ⟨game, x, hg, hx⟩ := Registry.pinger_some hp
    have hholds : x.holds = true := by
      simp only [own, hg, hx, Option.any_some] at ha
      exact ha
    have hpeers' : s.registry.crowd ≤ peers := by
      unfold crowd at hpeers
      omega
    obtain ⟨hload, hcrowd⟩ := Registry.pinger_sections hsup
      (fun k h hk => (run_agrees hr hk).1) hpeers' hg hx hholds hp
    simp only [sectionsLeft, crowd]
    omega

/-- Every state that can be reached, with as many peers as there are or are coming. -/
theorem lowers (gamesConfig : GamesConfig) (peers : Nat) :
    Lowers machine Own (fun t s =>
      (∃ w, machine.run w [] (init gamesConfig) = some (t, s)) ∧ s.crowd ≤ peers)
      (sectionsLeft peers) := by
  intro t s a s' es h ha hs
  obtain ⟨⟨w, hr⟩, hpeers⟩ := h
  obtain ⟨hlow, hcrowd⟩ := own_lowers hr hpeers ha hs
  exact ⟨⟨⟨w ++ [a], run_step_last hr hs⟩, Nat.le_trans hcrowd hpeers⟩, hlow⟩

/-- Whatever the scheduler does, the server takes at most as many steps of itself as there are
sections left, and it can always be led to a state in which it has none to take. -/
theorem own_steps_bounded {w : List Op}
    (hr : machine.run w [] (init gamesConfig) = some (t, s)) :
    (∀ u t' s', machine.Alone Own u t s → machine.run u t s = some (t', s') →
      u.length ≤ s.sectionsLeft s.crowd) ∧
    ∃ u t' s', machine.Alone Own u t s ∧ machine.run u t s = some (t', s') ∧
      machine.AtRest Own s' := by
  refine ⟨?_, (lowers gamesConfig s.crowd).settles ⟨⟨w, hr⟩, Nat.le_refl _⟩⟩
  intro u t' s' hu hru
  have hle := ((lowers gamesConfig s.crowd).run ⟨⟨w, hr⟩, Nat.le_refl _⟩ hu hru).2
  omega

theorem own_steps_bounded_hostAndClient :
    ∃ t s, machine.run hostAndClient [] (init oneGame) = some (t, s) ∧
      0 < s.sectionsLeft s.crowd ∧
      (∀ u t' s', machine.Alone Own u t s → machine.run u t s = some (t', s') →
        u.length ≤ s.sectionsLeft s.crowd) ∧
      ∃ u t' s', machine.Alone Own u t s ∧ machine.run u t s = some (t', s') ∧
        machine.AtRest Own s' := by
  have hrun : ((machine.run hostAndClient [] (init oneGame)).map fun r =>
      decide (0 < r.2.sectionsLeft r.2.crowd)) = some true := by
    decide +kernel
  obtain ⟨⟨t, s⟩, hr, hpos⟩ := Option.map_eq_some_iff.mp hrun
  exact ⟨t, s, hr, of_decide_eq_true hpos, own_steps_bounded hr⟩

end System
end Helicopter
