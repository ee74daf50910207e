import Helicopter.GamePinger

/-! The activations of a game's pinger: each checks every session of the game once and then pings
every one of them once, and each of these calls runs from the beginning to the end. -/
namespace Helicopter
open Interleaving

/-- From the beginning of `checkAllPeersPings` to its end. The other tasks are those of
`pingAllPeers`. -/
def PingerTask.inCheck : PingerTask → Bool
  | .idle | .checking _ | .checkLoop _ _ | .dropping _ _ _ => true
  | .checked | .pinging _ | .pingLoop _ _ => false

namespace Registry
variable {r r' r₁ : Registry} {t bs : List Beat} {g : GameRef} {game : Game} {p c : Nat} {now : Int}

/-! ## The sessions of the game -/

def Expected (ss : List RoomRef) (k : RoomRef) (task : PingerTask) : Pinger → Prop
  | .waiting => task = .idle
  | .checking current rest =>
    if current = some k then task.inCheck = true
    else if k ∈ ss ∧ k ∉ rest then task = .checked
    else task = .idle
  | .pinging current rest =>
    if current = some k then task.inCheck = false
    else if k ∈ rest then task = .checked
    else task = .idle

def Listed (ss : List RoomRef) : Pinger → Prop
  | .waiting => True
  | .checking current rest | .pinging current rest =>
    (current.toList ++ rest).Nodup ∧ ∀ k ∈ current.toList ++ rest, k ∈ ss

/-- These hold of `.pinging` as they do of `.checking`. -/
theorem listed_all {ss : List RoomRef} (h : ss.Nodup) : Listed ss (.checking none ss) :=
  ⟨h, fun _ hk => hk⟩

theorem listed_pick {ss rest : List RoomRef} {k : RoomRef}
    (h : Listed ss (.checking none rest)) (hk : rest[c]? = some k) :
    Listed ss (.checking (some k) (rest.eraseIdx c)) := by
  have hperm := pick_perm hk
  exact ⟨hperm.nodup_iff.mpr h.1, fun j hj => h.2 j (hperm.mem_iff.mp hj)⟩

theorem listed_back {ss rest : List RoomRef} {k : RoomRef}
    (h : Listed ss (.checking (some k) rest)) :
    k ∈ ss ∧ k ∉ rest ∧ Listed ss (.checking none rest) := by
  obtain ⟨hn, hmem⟩ := h
  rw [Option.toList_some, List.singleton_append, List.nodup_cons] at hn
  exact ⟨hmem k (by simp), hn.1, hn.2, fun j hj => hmem j (List.mem_cons_of_mem k hj)⟩

/-- The pinger of the game. Without one the sessions are as if it waited. -/
def coroutine (game : Game) : Pinger := game.pingers.head?.getD .waiting

structure Phased (r : Registry) : Prop where
  hosted : ∀ (k : RoomRef) (h : Hosted), r.rooms[k]? = some h → h.game < r.gameObjects.length
  listed : ∀ (g : GameRef) (game : Game), r.gameObjects[g]? = some game →
    Listed game.sessions.values (coroutine game)
  phases : ∀ (k : RoomRef) (h : Hosted) (game : Game), r.rooms[k]? = some h →
    r.gameObjects[h.game]? = some game →
    Expected game.sessions.values k h.room.session.pinger (coroutine game)

section
variable {ss rest : List RoomRef} {j k : RoomRef} {task task' : PingerTask} {x : Pinger}

theorem expected_activate (h : Expected ss k task .waiting) :
    Expected ss k task (.checking none ss) := by
  have hno : ¬ (k ∈ ss ∧ k ∉ ss) := fun hk => hk.2 hk.1
  rw [Expected, if_neg (by simp), if_neg hno]
  exact h

theorem expected_check (hj : rest[c]? = some j)
    (h : Expected ss k task (.checking none rest)) :
    Expected ss k task (.checking (some j) (rest.eraseIdx c)) := by
  rw [Expected, if_neg (by simp)] at h
  rw [Expected]
  by_cases hjk : j = k
  · have hk : k ∈ rest := by
      rw [← hjk]
      exact List.mem_of_getElem? hj
    rw [if_neg (fun hk' => hk'.2 hk)] at h
    rw [if_pos (congrArg some hjk), h]
    rfl
  · rw [if_neg (fun he => hjk (Option.some.inj he))]
    simpa only [mem_pick hj (Ne.symm hjk)] using h

theorem expected_turn (h : Expected ss k task (.checking none [])) :
    Expected ss k task (.pinging none ss) := by
  rw [Expected, if_neg (by simp)] at h
  rw [Expected, if_neg (by simp)]
  simpa using h

theorem expected_ping (hj : rest[c]? = some j)
    (h : Expected ss k task (.pinging none rest)) :
    Expected ss k task (.pinging (some j) (rest.eraseIdx c)) := by
  rw [Expected, if_neg (by simp)] at h
  rw [Expected]
  by_cases hjk : j = k
  · have hk : k ∈ rest := by
      rw [← hjk]
      exact List.mem_of_getElem? hj
    rw [if_pos hk] at h
    rw [if_pos (congrArg some hjk), h]
    rfl
  · rw [if_neg (fun he => hjk (Option.some.inj he))]
    simpa only [mem_pick hj (Ne.symm hjk)] using h

theorem expected_wait (h : Expected ss k task (.pinging none [])) :
    Expected ss k task .waiting := by
  rw [Expected, if_neg (by simp), if_neg (by simp)] at h
  exact h

/-- A call has come to its end: the session it was for, and the others. -/
theorem expected_checked (hjk : j ≠ k) (h : Expected ss k task (.checking (some j) rest)) :
    Expected ss k task (.checking none rest) := by
  rw [Expected, if_neg (fun he => hjk (Option.some.inj he))] at h
  rw [Expected, if_neg (by simp)]
  exact h

theorem expected_pinged (hjk : j ≠ k) (h : Expected ss k task (.pinging (some j) rest)) :
    Expected ss k task (.pinging none rest) := by
  rw [Expected, if_neg (fun he => hjk (Option.some.inj he))] at h
  rw [Expected, if_neg (by simp)]
  exact h

end

/-- A step that concerns one game: the sessions of the others are as they were. -/
theorem phased_of_game {game' : Game} (h : Phased r) (hg : r.gameObjects[g]? = some game)
    (hr : r'.gameObjects = (r.setGame g game').gameObjects)
    (hold : ∀ (k : RoomRef) (h' : Hosted), r'.rooms[k]? = some h' →
      h'.game = g ∨ r.rooms[k]? = some h')
    (hlist : Listed game'.sessions.values (coroutine game'))
    (hnew : ∀ (k : RoomRef) (h' : Hosted), r'.rooms[k]? = some h' → h'.game = g →
      Expected game'.sessions.values k h'.room.session.pinger (coroutine game')) : Phased r' := by
  have hlt := (List.getElem?_eq_some_iff.mp hg).1
  refine ⟨?_, ?_, ?_⟩
  · intro k h' hk
    rw [hr, setGame, List.length_set]
    obtain hgame | hk := hold k h' hk
    · rw [hgame]
      exact hlt
    · exact h.hosted k h' hk
  · intro g' game₁ hg'
    rw [hr, gameObjects_setGame hg] at hg'
    split at hg'
    · cases hg'
      exact hlist
    · exact h.listed g' game₁ hg'
  · intro k h' game₁ hk hg'
    rw [hr, gameObjects_setGame hg] at hg'
    split at hg'
    · next hgame =>
      cases hg'
      exact hnew k h' hk hgame
    · next hgame => exact h.phases k h' game₁ ((hold k h' hk).resolve_left hgame) hg'

/-- A session moves, but not its pinger. -/
theorem phased_stepRoom {k : RoomRef} {a : Room.Op} {es : List Event} (h : Phased r)
    (ha : Room.isTick a = false) (hs : r.stepRoom k a = some (r', es)) : Phased r' := by
  obtain ⟨hosted, room, fs, hk, hst, rfl, -⟩ := stepRoom_some hs
  have hlt := (List.getElem?_eq_some_iff.mp hk).1
  have hpin : room.session.pinger = hosted.room.session.pinger := by
    obtain ⟨b, rfl, hb⟩ | ⟨-, hsame, -⟩ := Room.step_session hst
    · refine (Session.step_threads hb ?_).1
      intro c now hc
      rw [hc] at ha
      cases ha
    · rw [hsame]
  have hsame : ∀ (j : RoomRef) (h' : Hosted), (r.rooms.set k ⟨hosted.game, room⟩)[j]? = some h' →
      ∃ h₀, r.rooms[j]? = some h₀ ∧ h'.game = h₀.game ∧
        h'.room.session.pinger = h₀.room.session.pinger := by
    intro j h' hj
    by_cases hjk : k = j
    · rw [← hjk, List.getElem?_set_self hlt] at hj
      cases hj
      exact ⟨hosted, by rw [← hjk]; exact hk, rfl, hpin⟩
    · rw [List.getElem?_set_ne hjk] at hj
      exact ⟨h', hj, rfl, rfl⟩
  refine ⟨?_, h.listed, ?_⟩
  · intro j h' hj
    obtain ⟨h₀, hj₀, hgame, -⟩ := hsame j h' hj
    rw [hgame]
    exact h.hosted j h₀ hj₀
  · intro j h' game hj hg
    obtain ⟨h₀, hj₀, hgame, hp⟩ := hsame j h' hj
    rw [hgame] at hg
    rw [hp]
    exact h.phases j h₀ game hj₀ hg

theorem phased_getGameById {gameId : Option String} {answer : Option GameRef} (h : Phased r)
    (hl : Lookup r gameId answer r') : Phased r' := by
  cases hl with
  | hit g hf => exact h
  | notFound hf hc => exact h
  | constructed config hf hc =>
    refine ⟨?_, ?_, ?_⟩
    · intro k hosted hk
      rw [length_makeGame]
      exact Nat.lt_succ_of_lt (h.hosted k hosted hk)
    · intro g game hg
      rw [makeGame, getElem?_snoc] at hg
      split at hg
      · cases hg
        trivial
      · exact h.listed g game hg
    · intro k hosted game hk hg
      have hlt := h.hosted k hosted hk
      rw [makeGame, getElem?_snoc, if_neg (Nat.ne_of_lt hlt)] at hg
      exact h.phases k hosted game hk hg

theorem coroutine_of_free (h : Kept t g game) (hl : game.locked = false) :
    coroutine game = .waiting := by
  cases h with
  | off hp ha he =>
    rw [coroutine, hp]
    rfl
  | on x hp ha hx =>
    rw [coroutine, hp]
    exact waiting_of_free hl hp

theorem coroutine_startPinger (game : Game) : coroutine game.startPinger = coroutine game := by
  unfold Game.startPinger
  split
  · cases hp : game.pingers with
    | nil => simp [coroutine, hp]
    | cons x xs => simp [coroutine, hp]
  · rfl

theorem idle_of_free (h : Phased r) (hs : Sound t r) (hg : r.gameObjects[g]? = some game)
    (hl : game.locked = false) {k : RoomRef} {hosted : Hosted} (hk : r.rooms[k]? = some hosted)
    (hgame : hosted.game = g) : hosted.room.session.pinger = .idle := by
  rw [← hgame] at hg
  have hphase := h.phases k hosted game hk hg
  rw [coroutine_of_free (hs _ game hg) hl] at hphase
  exact hphase

theorem phased_createNewSession {sessionId : String} {answer : Option RoomRef} (h : Phased r)
    (hs : Sound t r) (hc : r.createNewSession g sessionId = some (answer, r')) : Phased r' := by
  cases createNewSession_cases hc with
  | taken => exact h
  | created game hg hl hf =>
    have hwait : coroutine (Game.startPinger { game with
        sessions := game.sessions.insertNew sessionId r.rooms.length }) = .waiting := by
      have hold := coroutine_of_free (hs g game hg) hl
      rw [coroutine_startPinger]
      exact hold
    refine phased_of_game h hg rfl ?_ (by rw [hwait]; trivial) ?_
    · intro k h' hk
      rw [getElem?_snoc] at hk
      split at hk
      · cases hk
        exact Or.inl rfl
      · exact Or.inr hk
    · intro k h' hk hgame
      rw [hwait]
      rw [getElem?_snoc] at hk
      split at hk
      · cases hk
        rfl
      · exact idle_of_free h hs hg hl hk hgame

theorem phased_deleteSession {sessionId : String} (h : Phased r) (hs : Sound t r)
    (hd : r.deleteSession g sessionId = some r') : Phased r' := by
  obtain ⟨game, hg, hl, rfl⟩ := deleteSession_some hd
  have hold := coroutine_of_free (hs g game hg) hl
  have hwait : coroutine { game with sessions := game.sessions.eraseKey sessionId } =
      .waiting := hold
  refine phased_of_game h hg rfl (fun k h' hk => Or.inr hk) (by rw [hwait]; trivial) ?_
  intro k h' hk hgame
  rw [hwait]
  exact idle_of_free h hs hg hl hk hgame

/-! ## The sessions in an activation -/

theorem ticks_inCheck {s s' : Session} {es : List Session.Event}
    (hk : Session.Ticks s c now s' es) (h : s.pinger.inCheck = true)
    (hne : s'.pinger ≠ .checked) : s'.pinger.inCheck = true := by
  cases hk with
  | checkDone timestamp ht => exact absurd rfl hne
  | stamp ht => rw [ht] at h; cases h
  | lockPing timestamp ht hm => rw [ht] at h; cases h
  | ping timestamp rest j ht hc => rw [ht] at h; cases h
  | pingDone timestamp ht => rw [ht] at h; cases h
  | _ => rfl

theorem ticks_inPing {s s' : Session} {es : List Session.Event}
    (hk : Session.Ticks s c now s' es) (h : s.pinger.inCheck = false)
    (hne : s'.pinger ≠ .idle) : s'.pinger.inCheck = false := by
  cases hk with
  | pingDone timestamp ht => exact absurd rfl hne
  | stamp ht => rfl
  | lockPing timestamp ht hm => rfl
  | ping timestamp rest j ht hc => rfl
  | read ht => rw [ht] at h; cases h
  | lockCheck timestamp ht hm => rw [ht] at h; cases h
  | check timestamp rest j p ht hc hp hf => rw [ht] at h; cases h
  | drop timestamp rest j p ht hc hp hf => rw [ht] at h; cases h
  | clear timestamp rest j ht => rw [ht] at h; cases h
  | checkDone timestamp ht => rw [ht] at h; cases h

theorem tickRoom_ticks {k : RoomRef} {task : PingerTask} {fs : List Event}
    (h : r.tickRoom k c now = some (task, r₁, fs)) :
    ∃ (hosted : Hosted) (room : Room) (es : List Session.Event), r.rooms[k]? = some hosted ∧
      Session.Ticks hosted.room.session c now room.session es ∧ room.session.pinger = task ∧
      r₁ = { r with rooms := r.rooms.set k ⟨hosted.game, room⟩ } := by
  obtain ⟨hosted, room, es, hk, hst, hr, -⟩ := stepRoom_some (tickRoom_some h)
  have hlt := (List.getElem?_eq_some_iff.mp hk).1
  refine ⟨hosted, room, Room.sessionPart es, hk, ?_, ?_, hr⟩
  · obtain ⟨b, hb, hs⟩ | ⟨hno, -, -⟩ := Room.step_session hst
    · cases hb
      exact Session.tick_ticks hs
    · exact absurd rfl (hno _)
  · unfold tickRoom at h
    split at h
    · cases h
    · next r₂ es' hs =>
      split at h
      · cases h
      · next h₂ hk₂ =>
        cases h
        rw [hr] at hk₂
        rw [List.getElem?_set_self hlt] at hk₂
        cases hk₂
        rfl

/-- The pinger goes on outside of the sessions. -/
theorem phased_goTo {x next : Pinger} (h : Phased r) (hg : r.gameObjects[g]? = some game)
    (hp : game.pingers = [x]) (hlist : Listed game.sessions.values next)
    (hnext : ∀ k task, Expected game.sessions.values k task x →
      Expected game.sessions.values k task next) : Phased (r.goTo g game 0 next) := by
  have hnow : coroutine { game with pingers := game.pingers.set 0 next } = next := by
    simp [coroutine, hp]
  have hold : coroutine game = x := by simp [coroutine, hp]
  refine phased_of_game h hg rfl (fun k h' hk => Or.inr hk) (by rw [hnow]; exact hlist) ?_
  intro k h' hk hgame
  rw [hnow]
  rw [← hgame] at hg
  have hphase := h.phases k h' game hk hg
  rw [hold] at hphase
  exact hnext k _ hphase

theorem hosted_of_values (htables : r.Tables) (hg : r.gameObjects[g]? = some game) {k : RoomRef}
    (hk : k ∈ game.sessions.values) : ∃ hosted, r.rooms[k]? = some hosted ∧ hosted.game = g := by
  obtain ⟨sessionId, hfind⟩ := UnorderedMap.mem_values.mp hk
  obtain ⟨hosted, hroom, hgame, -⟩ :=
    htables g sessionId k ((lookup_of_game hg sessionId).trans hfind)
  exact ⟨hosted, hroom, hgame⟩

/-- The session `j` in which the pinger is goes on. -/
theorem phased_tick {x next : Pinger} {j : RoomRef} {task : PingerTask} {fs : List Event}
    (h : Phased r) (htables : r.Tables) (hg : r.gameObjects[g]? = some game)
    (hp : game.pingers = [x]) (ht : r.tickRoom j c now = some (task, r₁, fs))
    (hj : j ∈ game.sessions.values) (hlist : Listed game.sessions.values next)
    (hothers : ∀ k task, j ≠ k → Expected game.sessions.values k task x →
      Expected game.sessions.values k task next)
    (hown : ∀ (s s' : Session) (es : List Session.Event), Session.Ticks s c now s' es →
      s'.pinger = task → Expected game.sessions.values j s.pinger x →
      Expected game.sessions.values j task next)
    {game' : Game} (hgame' : game'.pingers = [next]) (hss : game'.sessions = game.sessions) :
    Phased (r₁.setGame g game') := by
  obtain ⟨hosted, room, es, hk, hticks, htask, rfl⟩ := tickRoom_ticks ht
  have hlt := (List.getElem?_eq_some_iff.mp hk).1
  have hself : ∀ h', (r.rooms.set j ⟨hosted.game, room⟩)[j]? = some h' →
      h' = ⟨hosted.game, room⟩ := fun h' hk' =>
    Option.some.inj (hk'.symm.trans (List.getElem?_set_self hlt))
  have hmine : hosted.game = g := by
    obtain ⟨hosted', hk', hgame⟩ := hosted_of_values htables hg hj
    rw [hk] at hk'
    cases hk'
    exact hgame
  have hnow : coroutine game' = next := by simp [coroutine, hgame']
  have hold : coroutine game = x := by simp [coroutine, hp]
  have hphase : ∀ (k : RoomRef) (h' : Hosted), r.rooms[k]? = some h' → h'.game = g →
      Expected game.sessions.values k h'.room.session.pinger x := by
    intro k h' hk hgame
    rw [← hgame] at hg
    have := h.phases k h' game hk hg
    rwa [hold] at this
  refine phased_of_game h hg rfl ?_ (by rw [hnow, hss]; exact hlist) ?_
  · intro k h' hk'
    by_cases hjk : j = k
    · rw [← hjk] at hk'
      rw [hself h' hk']
      exact Or.inl hmine
    · exact Or.inr ((List.getElem?_set_ne hjk).symm.trans hk')
  · intro k h' hk' hgame
    rw [hnow, hss]
    by_cases hjk : j = k
    · rw [← hjk] at hk' ⊢
      rw [hself h' hk', htask]
      exact hown _ _ es hticks htask (hphase j hosted hk hmine)
    · have hk₀ : r.rooms[k]? = some h' := (List.getElem?_set_ne hjk).symm.trans hk'
      exact hothers k _ hjk (hphase k h' hk₀ hgame)

theorem setGame_same (hg : r.gameObjects[g]? = some game) : r.setGame g game = r := by
  obtain ⟨hlt, rfl⟩ := List.getElem?_eq_some_iff.mp hg
  rw [setGame, List.set_getElem_self]

/-- It goes on and stays inside. -/
theorem phased_inside {x : Pinger} {j : RoomRef} {task : PingerTask} {fs : List Event}
    (h : Phased r) (htables : r.Tables) (hg : r.gameObjects[g]? = some game)
    (hp : game.pingers = [x]) (ht : r.tickRoom j c now = some (task, r₁, fs))
    (hj : j ∈ game.sessions.values) (hlist : Listed game.sessions.values x)
    (hown : ∀ (s s' : Session) (es : List Session.Event), Session.Ticks s c now s' es →
      s'.pinger = task → Expected game.sessions.values j s.pinger x →
      Expected game.sessions.values j task x) : Phased r₁ := by
  have hg₁ : r₁.gameObjects[g]? = some game := by
    rw [gameObjects_tickRoom ht]
    exact hg
  rw [← setGame_same hg₁]
  exact phased_tick h htables hg hp ht hj hlist (fun k task _ he => he) hown hp rfl

theorem phased_acts {x : Pinger} {es : List Event} (h : Phased r) (hs : Sound t r)
    (htables : r.Tables) (hg : r.gameObjects[g]? = some game) (hx : game.pingers[p]? = some x)
    (ha : Acts r g game p c now x r' es bs) : Phased r' := by
  obtain ⟨rfl, hp, -, -⟩ := only_pinger (hs g game hg) hx
  have hlist := h.listed g game hg
  have hcur : coroutine game = x := by simp [coroutine, hp]
  have hset : ∀ next, game.pingers.set 0 next = [next] := fun next => by rw [hp]; rfl
  rw [hcur] at hlist
  cases ha with
  | stop hl he =>
    have hnow : coroutine { game with
        isPingerActive := false, pingers := game.pingers.eraseIdx 0 } = .waiting := by
      simp [coroutine, hp]
    refine phased_of_game h hg rfl (fun k h' hk => Or.inr hk) (by rw [hnow]; trivial) ?_
    intro k h' hk hgame
    rw [hnow]
    exact idle_of_free h hs hg hl hk hgame
  | activate hl he =>
    exact phased_goTo h hg hp (listed_all (nodup_sessions htables hg)) fun k _ => expected_activate
  | check rest k hk =>
    exact phased_goTo h hg hp (listed_pick hlist hk) fun j _ => expected_check hk
  | checking k rest task r₁ fs ht hne =>
    obtain ⟨hk, -, -⟩ := listed_back hlist
    refine phased_inside h htables hg hp ht hk hlist ?_
    intro s s' es hticks htask he
    rw [Expected, if_pos rfl] at he ⊢
    rw [← htask] at hne ⊢
    exact ticks_inCheck hticks he hne
  | checked k rest r₁ fs ht =>
    obtain ⟨hk, hno, hnext⟩ := listed_back hlist
    refine phased_tick h htables hg hp ht hk hnext (fun j _ => expected_checked) ?_ (hset _) rfl
    intro s s' es _ _ _
    rw [Expected, if_neg (by simp), if_pos ⟨hk, hno⟩]
  | turn =>
    exact phased_goTo h hg hp (listed_all (nodup_sessions htables hg)) fun k _ => expected_turn
  | ping rest k hk =>
    exact phased_goTo h hg hp (listed_pick hlist hk) fun j _ => expected_ping hk
  | pinging k rest task r₁ fs ht hne =>
    obtain ⟨hk, -, -⟩ := listed_back hlist
    refine phased_inside h htables hg hp ht hk hlist ?_
    intro s s' es hticks htask he
    rw [Expected, if_pos rfl] at he ⊢
    rw [← htask] at hne ⊢
    exact ticks_inPing hticks he hne
  | pinged k rest r₁ fs ht =>
    obtain ⟨hk, hno, hback⟩ := listed_back hlist
    have hnext : Listed game.sessions.values (.pinging none rest) := hback
    refine phased_tick h htables hg hp ht hk hnext (fun j _ => expected_pinged) ?_ (hset _) rfl
    intro s s' es _ _ _
    rw [Expected, if_neg (by simp), if_neg hno]
  | wait => exact phased_goTo h hg hp trivial fun k _ => expected_wait

theorem phased_call {a : Call} (h : Phased r) (hs : Sound t r) (htables : r.Tables)
    (hcall : r.stepCall a = some (r', bs)) : Phased r' := by
  cases stepCall_does hcall with
  | getGameById gameId => exact phased_getGameById h (getGameById_cases r gameId)
  | createNewSession g sessionId answer r' hc => exact phased_createNewSession h hs hc
  | deleteSession g sessionId r' hd => exact phased_deleteSession h hs hd
  | room k a r' es ha hst => exact phased_stepRoom h ha hst
  | pinger g p c now game x r' es hg hx hp =>
    exact phased_acts h hs htables hg hx (pinger_acts hg hx hp)

structure Supervised (t : List Beat) (r : Registry) : Prop where
  sound : Sound t r
  tables : r.Tables
  phased : Phased r

theorem run_supervised {gamesConfig : GamesConfig} {w : List Call}
    (hr : calls.run w [] (construct gamesConfig) = some (t, r)) : Supervised t r := by
  refine run_invariant (I := Supervised) ?_ ⟨?_, ?_, ?_⟩ hr
  · intro t r a r' bs h hs
    exact ⟨sound_call h.sound hs, tables_call h.tables hs, phased_call h.phased h.sound h.tables hs⟩
  · intro g game hg
    simp [construct] at hg
  · intro g sessionId k hk
    simp [lookup, construct] at hk
  · refine ⟨fun k h hk => ?_, fun g game hg => ?_, fun k h game hk => ?_⟩
    · simp [construct] at hk
    · simp [construct] at hg
    · simp [construct] at hk

theorem begins_check {x : Pinger} {k : RoomRef} {es : List Event}
    (ha : Acts r g game p c now x r' es bs)
    (hb : .checks g k ∈ bs) : ∃ rest, x = .checking none rest ∧ k ∈ rest := by
  cases ha with
  | check rest j hj =>
    obtain rfl : k = j := by simpa using hb
    exact ⟨rest, rfl, List.mem_of_getElem? hj⟩
  | _ => simp at hb

theorem begins_ping {x : Pinger} {k : RoomRef} {es : List Event}
    (ha : Acts r g game p c now x r' es bs)
    (hb : .pings g k ∈ bs) : ∃ rest, x = .pinging none rest ∧ k ∈ rest := by
  cases ha with
  | ping rest j hj =>
    obtain rfl : k = j := by simpa using hb
    exact ⟨rest, rfl, List.mem_of_getElem? hj⟩
  | _ => simp at hb

/-- The session `k`, to which the pinger is coming. -/
theorem expected_of_listed {x : Pinger} {k : RoomRef} (h : Supervised t r)
    (hg : r.gameObjects[g]? = some game) (hx : game.pingers[p]? = some x)
    (hk : ∀ ss, Listed ss x → k ∈ ss) : ∃ hosted, r.rooms[k]? = some hosted ∧
      Expected game.sessions.values k hosted.room.session.pinger x := by
  have hcur : coroutine game = x := by
    rw [coroutine, (only_pinger (h.sound g game hg) hx).2.1]
    rfl
  have hlist := h.phased.listed g game hg
  rw [hcur] at hlist
  obtain ⟨hosted, hroom, hgame⟩ := hosted_of_values h.tables hg (hk _ hlist)
  rw [← hgame] at hg
  have hphase := h.phased.phases k hosted game hroom hg
  rw [hcur] at hphase
  exact ⟨hosted, hroom, hphase⟩

theorem call_begins {a : Call} {k : RoomRef} (h : Supervised t r)
    (hs : r.stepCall a = some (r', bs)) :
    (.checks g k ∈ bs → ∃ h, r.rooms[k]? = some h ∧ h.room.session.pinger = .idle) ∧
    (.pings g k ∈ bs → ∃ h, r.rooms[k]? = some h ∧ h.room.session.pinger = .checked) := by
  cases stepCall_does hs with
  | pinger g' p c now game x r' es hg hx hp =>
    have hacts := pinger_acts hg hx hp
    have hgame : ∀ b ∈ beats g' game c x, b.game = g' := game_beats
    refine ⟨fun hb => ?_, fun hb => ?_⟩
    · obtain rfl : g = g' := hgame _ hb
      obtain ⟨rest, rfl, hk⟩ := begins_check hacts hb
      obtain ⟨hosted, hroom, he⟩ := expected_of_listed h hg hx (k := k) fun ss hl => hl.2 k hk
      rw [Expected, if_neg (by simp), if_neg (fun hn => hn.2 hk)] at he
      exact ⟨hosted, hroom, he⟩
    · obtain rfl : g = g' := hgame _ hb
      obtain ⟨rest, rfl, hk⟩ := begins_ping hacts hb
      obtain ⟨hosted, hroom, he⟩ := expected_of_listed h hg hx (k := k) fun ss hl => hl.2 k hk
      rw [Expected, if_neg (by simp), if_pos hk] at he
      exact ⟨hosted, hroom, he⟩
  | _ => exact ⟨fun hb => absurd hb (by simp), fun hb => absurd hb (by simp)⟩

/-- A pinger that is coming to `waitRepeat`. -/
theorem visited_of_waits (h : Supervised t r) (hg : r.gameObjects[g]? = some game)
    (hs : r.stepCall (.pinger g p c now) = some (r', [.waits g])) :
    ∃ ks ls, Visited t g game.sessions.values ks ls ∧ ks.Perm game.sessions.values ∧
      ls.Perm game.sessions.values := by
  generalize hbs : [Beat.waits g] = bs at hs
  cases stepCall_does hs with
  | pinger g p c now game' x r' es hg' hx hp =>
    rw [hg] at hg'
    cases hg'
    have hacts := pinger_acts hg hx hp
    rw [← hbs] at hacts
    obtain ⟨-, -, -, hprogress⟩ := only_pinger (h.sound g game hg) hx
    cases hacts with
    | wait =>
      cases hprogress with
      | pinging current rest ks ls hv hks hls =>
        rw [List.append_nil] at hls
        exact ⟨ks, ls, hv, hks, hls⟩

/-- A game has at most one pinger, `isPingerActive` says whether it has one, and where there are
sessions it has one. A call of `checkAllPeersPings` finds its session where the last activation
has left it, and one of `pingAllPeers` finds it checked. An activation that ends has checked each
session of the game once, and then pinged each of them once. -/
structure Attended (t : List Beat) (r : Registry) (g : GameRef) (game : Game) : Prop where
  single : game.pingers.length ≤ 1
  flag : game.isPingerActive = true ↔ game.pingers.length = 1
  active : game.sessions.isEmpty = false → game.isPingerActive = true
  checks : ∀ a r' bs k, r.stepCall a = some (r', bs) → .checks g k ∈ bs →
    ∃ h, r.rooms[k]? = some h ∧ h.room.session.pinger = .idle
  pings : ∀ a r' bs k, r.stepCall a = some (r', bs) → .pings g k ∈ bs →
    ∃ h, r.rooms[k]? = some h ∧ h.room.session.pinger = .checked
  distinct : game.sessions.values.Nodup
  visits : ∀ p c now r', r.stepCall (.pinger g p c now) = some (r', [.waits g]) →
    ∃ ks ls, Visited t g game.sessions.values ks ls ∧ ks.Perm game.sessions.values ∧
      ls.Perm game.sessions.values

theorem attended_of_supervised (h : Supervised t r) (hg : r.gameObjects[g]? = some game) :
    Attended t r g game where
  single := by
    cases h.sound g game hg with
    | off hp ha he => simp [hp]
    | on x hp ha hx => simp [hp]
  flag := by
    cases h.sound g game hg with
    | off hp ha he => simp [hp, ha]
    | on x hp ha hx => simp [hp, ha]
  active hne := by
    cases h.sound g game hg with
    | off hp ha he => simp [he] at hne
    | on x hp ha hx => exact ha
  checks _ _ _ _ hs := (call_begins h hs).1
  pings _ _ _ _ hs := (call_begins h hs).2
  distinct := nodup_sessions h.tables hg
  visits _ _ _ _ hs := visited_of_waits h hg hs

end Registry

/-! ## The server -/

namespace System
variable {r r' : Registry} {s s' : System}

theorem findGameForPeer_call (r : Registry) (params : ParameterMap) :
    (r.findGameForPeer params).2 = r ∨
      ∃ b, r.stepCall b = some ((r.findGameForPeer params).2, []) := by
  obtain hsame | ⟨gameId, hlookup⟩ := Registry.findGameForPeer_cases r params
  · exact Or.inl hsame
  · refine Or.inr ⟨.getGameById gameId, ?_⟩
    rw [hlookup]
    rfl

theorem getSession_call {a : Admission} {res : Except ErrorDto RoomRef} {es : List Registry.Event}
    (h : r.getSession a = some (res, r', es)) : r' = r ∨ ∃ b, r.stepCall b = some (r', []) := by
  cases Registry.getSession_cases h with
  | created k r' hc =>
    refine Or.inr ⟨.createNewSession a.game a.sessionId, ?_⟩
    rw [Registry.stepCall, hc]
  | taken e r' hc =>
    refine Or.inr ⟨.createNewSession a.game a.sessionId, ?_⟩
    rw [Registry.stepCall, hc]
  | missing e => exact Or.inl rfl
  | found k r' es hf hs =>
    refine Or.inr ⟨.room k (.session .findSession), ?_⟩
    rw [Registry.stepCall, if_neg (by simp [Room.isTick]), hs]

theorem isTick_of_peers {b : Room.Op} (h : ofPeers b = true) : Room.isTick b = false := by
  cases b with
  | session a =>
    cases a with
    | tick c now => cases h
    | _ => rfl
  | _ => rfl

theorem pinger_call {g : GameRef} {p c : Nat} {now : Int} {es : List Registry.Event}
    (h : r.pinger g p c now = some (r', es)) :
    ∃ bs, r.stepCall (.pinger g p c now) = some (r', bs) := by
  obtain ⟨game, x, hg, hx⟩ := Registry.pinger_some h
  exact ⟨Registry.beats g game c x, by simp only [Registry.stepCall, hg, hx, h]⟩

/-- A step of the server is at most one call of a method of a game. -/
theorem step_call {a : Op} {es : List Event} (h : s.step a = some (s', es)) :
    s'.registry = s.registry ∨ ∃ b bs, s.registry.stepCall b = some (s'.registry, bs) := by
  cases step_cases h with
  | rejected params e r hf =>
    have hcall := findGameForPeer_call s.registry params
    rw [hf] at hcall
    exact hcall.imp_right fun ⟨b, hb⟩ => ⟨b, [], hb⟩
  | found params a r hf =>
    have hcall := findGameForPeer_call s.registry params
    rw [hf] at hcall
    exact hcall.imp_right fun ⟨b, hb⟩ => ⟨b, [], hb⟩
  | refused c a e r fs ha hg => exact (getSession_call hg).imp_right fun ⟨b, hb⟩ => ⟨b, [], hb⟩
  | admitted c a k r fs ha hg => exact (getSession_call hg).imp_right fun ⟨b, hb⟩ => ⟨b, [], hb⟩
  | room k b r fs hb hs =>
    refine Or.inr ⟨.room k b, [], ?_⟩
    rw [Registry.stepCall, if_neg (by simp [isTick_of_peers hb]), hs]
  | findGame d k hosted g r hd hk hg =>
    refine Or.inr ⟨.getGameById hosted.room.session.config.gameId, [], ?_⟩
    rw [Registry.stepCall, hg]
  | deleteSession d g sessionId r hd hdel =>
    refine Or.inr ⟨.deleteSession g sessionId, [], ?_⟩
    rw [Registry.stepCall, hdel]
  | pinger g p c now r fs hp =>
    obtain ⟨bs, hb⟩ := pinger_call hp
    exact Or.inr ⟨_, bs, hb⟩

theorem run_calls {gamesConfig : GamesConfig} {w : List Op} {t : List Event}
    (hr : machine.run w [] (init gamesConfig) = some (t, s)) :
    ∃ v bs, Registry.calls.run v [] (Registry.construct gamesConfig) = some (bs, s.registry) := by
  refine run_invariant (I := fun _ s => ∃ v bs,
    Registry.calls.run v [] (Registry.construct gamesConfig) = some (bs, s.registry))
    ?_ ⟨[], [], rfl⟩ hr
  intro t s a s' es h hs
  obtain ⟨v, bs, hv⟩ := h
  obtain hsame | ⟨b, bs', hb⟩ := step_call hs
  · exact ⟨v, bs, by rw [hsame]; exact hv⟩
  · exact ⟨v ++ [b], bs ++ bs', run_step_last hv hb⟩

/-- The registry of a server is as the calls of its threads leave it. -/
theorem run_attended {gamesConfig : GamesConfig} {w : List Op} {t : List Event}
    (hr : machine.run w [] (init gamesConfig) = some (t, s)) :
    ∃ bs, ∀ (g : GameRef) (game : Game), s.registry.gameObjects[g]? = some game →
      Registry.Attended bs s.registry g game := by
  obtain ⟨v, bs, hv⟩ := run_calls hr
  exact ⟨bs, fun g game hg =>
    Registry.attended_of_supervised (Registry.run_supervised hv) hg⟩

/-- No session of the server that can be found is without a pinger, and none has two. -/
theorem session_supervised {gamesConfig : GamesConfig} {w : List Op} {t : List Event}
    {g : GameRef} {game : Game} {sessionId : String} {k : RoomRef}
    (hr : machine.run w [] (init gamesConfig) = some (t, s))
    (hg : s.registry.gameObjects[g]? = some game) (hk : game.sessions.find sessionId = some k) :
    game.isPingerActive = true ∧ game.pingers.length = 1 := by
  obtain ⟨bs, hattended⟩ := run_attended hr
  have h := hattended g game hg
  have hne : game.sessions.isEmpty = false := by
    cases he : game.sessions.isEmpty with
    | false => rfl
    | true =>
      rw [UnorderedMap.isEmpty_iff.mp he sessionId] at hk
      cases hk
  exact ⟨h.active hne, h.flag.mp (h.active hne)⟩

end System

namespace Registry

/-- Whatever calls there have been of the methods of the games, their pingers are as `Attended`
says, and a session that can be found in a server has its one pinger. -/
theorem one_pinger (gamesConfig : GamesConfig) :
    (∀ (w : List Call) (t : List Beat) (r : Registry) (g : GameRef) (game : Game),
      calls.run w [] (construct gamesConfig) = some (t, r) → r.gameObjects[g]? = some game →
      Attended t r g game) ∧
    ∀ (w : List System.Op) (t : List System.Event) (s : System) (g : GameRef) (game : Game)
      (sessionId : String) (k : RoomRef),
      System.machine.run w [] (System.init gamesConfig) = some (t, s) →
      s.registry.gameObjects[g]? = some game → game.sessions.find sessionId = some k →
      game.isPingerActive = true ∧ game.pingers.length = 1 :=
  ⟨fun _ _ _ _ _ hr hg => attended_of_supervised (run_supervised hr) hg,
    fun _ _ _ _ _ _ _ hr hg hk => System.session_supervised hr hg hk⟩

/-- The only session of the game is deleted while the pinger sleeps, and another one is created:
the pinger is the same, and has come to the end of its second activation. -/
def deletedAsleep : List Call :=
  [.getGameById (some "game"), .createNewSession 0 "lobby"] ++
    List.replicate 11 (.pinger 0 0 0 1) ++
    [.deleteSession 0 "lobby", .createNewSession 0 "other"] ++
    List.replicate 10 (.pinger 0 0 0 2)

/-- And the pinger of a server whose host and client are still there. -/
theorem one_pinger_deletedAsleep :
    (∃ t r game r', calls.run deletedAsleep [] (construct System.oneGame) = some (t, r) ∧
      r.gameObjects[0]? = some game ∧ Attended t r 0 game ∧
      r.stepCall (.pinger 0 0 0 2) = some (r', [.waits 0]) ∧
      ∃ ks ls, Visited t 0 game.sessions.values ks ls ∧ ks.Perm game.sessions.values ∧
        ls.Perm game.sessions.values) ∧
    ∃ t s game, System.machine.run System.hostAndClient [] (System.init System.oneGame) =
        some (t, s) ∧
      s.registry.gameObjects[0]? = some game ∧ game.sessions.find "lobby" = some 0 ∧
      game.isPingerActive = true ∧ game.pingers.length = 1 := by
  have hrun : ((calls.run deletedAsleep [] (construct System.oneGame)).bind fun r =>
      (r.2.gameObjects[0]?).bind fun _ =>
        (r.2.stepCall (.pinger 0 0 0 2)).map Prod.snd) = some [.waits 0] := by
    decide +kernel
  obtain ⟨⟨t, r⟩, hr, hrun⟩ := Option.bind_eq_some_iff.mp hrun
  obtain ⟨game, hg, hrun⟩ := Option.bind_eq_some_iff.mp hrun
  obtain ⟨⟨r', bs⟩, hs, rfl⟩ := Option.map_eq_some_iff.mp hrun
  have hattended := (one_pinger System.oneGame).1 deletedAsleep t r 0 game hr hg
  have hlobby : ((System.machine.run System.hostAndClient [] (System.init System.oneGame)).bind
      fun r => (r.2.registry.gameObjects[0]?).bind fun game => game.sessions.find "lobby") =
        some 0 := by
    decide +kernel
  obtain ⟨⟨t', s⟩, hr', hlobby⟩ := Option.bind_eq_some_iff.mp hlobby
  obtain ⟨game', hg', hk⟩ := Option.bind_eq_some_iff.mp hlobby
  refine ⟨⟨t, r, game, r', hr, hg, hattended, hs, hattended.visits 0 0 2 r' hs⟩, ?_⟩
  exact ⟨t', s, game', hr', hg', hk,
    (one_pinger System.oneGame).2 System.hostAndClient t' s 0 game' "lobby" 0 hr' hg' hk⟩

end Registry
end Helicopter
