import Helicopter.Registration
import Helicopter.GameLookup

/-! The pinger of a game. `createNewSession` starts one where none runs, and it stops where it
finds the table of sessions empty; both hold the mutex of the game, so that a game with sessions
always has exactly one. -/
namespace Helicopter
open Interleaving

def Room.isTick : Room.Op → Bool
  | .session (.tick _ _) => true
  | _ => false

namespace Registry

/-- The calls of the methods of `Game`, in any order and between any sections of its pinger and
of its sessions. -/
inductive Call where
  | getGameById (gameId : Option String)
  | createNewSession (g : GameRef) (sessionId : String)
  | deleteSession (g : GameRef) (sessionId : String)
  | room (k : RoomRef) (a : Room.Op)
  | pinger (g : GameRef) (p : Nat) (c : Nat) (now : Int)

def stepCall (r : Registry) : Call → Option (Registry × List Beat)
  | .getGameById gameId => some ((r.getGameById gameId).2, [])
  | .createNewSession g sessionId =>
    match r.createNewSession g sessionId with
    | none => none
    | some (_, r) => some (r, [])
  | .deleteSession g sessionId =>
    match r.deleteSession g sessionId with
    | none => none
    | some r => some (r, [])
  | .room k a =>
    if Room.isTick a then none
    else
      match r.stepRoom k a with
      | none => none
      | some (r, _) => some (r, [])
  | .pinger g p c now =>
    match r.gameObjects[g]? with
    | none => none
    | some game =>
      match game.pingers[p]? with
      | none => none
      | some x =>
        match r.pinger g p c now with
        | none => none
        | some (r, _) => some (r, beats g game c x)

def calls : Machine Registry Call Beat := ⟨stepCall⟩

variable {r r' r₁ : Registry} {t bs : List Beat} {g : GameRef} {game : Game} {p c : Nat} {now : Int}

/-! ## One game -/

def beatsOf (g : GameRef) (t : List Beat) : List Beat := t.filter fun b => b.game == g

/-- The activation that found the sessions `ss` has checked `ks` and pinged `ls` so far. -/
def Visited (t : List Beat) (g : GameRef) (ss ks ls : List RoomRef) : Prop :=
  ∃ u v, t = u ++ .activated g ss :: v ∧
    beatsOf g v = ks.map (.checks g) ++ ls.map (.pings g)

inductive Progress (t : List Beat) (g : GameRef) (ss : List RoomRef) : Pinger → Prop where
  | waiting : Progress t g ss .waiting
  | checking (current : Option RoomRef) (rest ks : List RoomRef) : Visited t g ss ks [] →
    (ks ++ rest).Perm ss → Progress t g ss (.checking current rest)
  | pinging (current : Option RoomRef) (rest ks ls : List RoomRef) : Visited t g ss ks ls →
    ks.Perm ss → (ls ++ rest).Perm ss → Progress t g ss (.pinging current rest)

inductive Kept (t : List Beat) (g : GameRef) (game : Game) : Prop where
  | off : game.pingers = [] → game.isPingerActive = false → game.sessions.isEmpty = true →
    Kept t g game
  | on (x : Pinger) : game.pingers = [x] → game.isPingerActive = true →
    Progress t g game.sessions.values x → Kept t g game

section
variable {ss ks ls : List RoomRef} {x : Pinger}

theorem beatsOf_append (g : GameRef) (t u : List Beat) :
    beatsOf g (t ++ u) = beatsOf g t ++ beatsOf g u := List.filter_append ..

theorem visited_append (h : Visited t g ss ks ls) (hbs : beatsOf g bs = []) :
    Visited (t ++ bs) g ss ks ls := by
  obtain ⟨u, v, rfl, hv⟩ := h
  refine ⟨u, v ++ bs, by simp, ?_⟩
  rw [beatsOf_append, hbs, List.append_nil, hv]

theorem visited_check {k : RoomRef} (h : Visited t g ss ks []) :
    Visited (t ++ [.checks g k]) g ss (ks ++ [k]) [] := by
  obtain ⟨u, v, rfl, hv⟩ := h
  refine ⟨u, v ++ [.checks g k], by simp, ?_⟩
  rw [beatsOf_append, hv]
  simp [beatsOf, Beat.game]

theorem visited_ping {k : RoomRef} (h : Visited t g ss ks ls) :
    Visited (t ++ [.pings g k]) g ss ks (ls ++ [k]) := by
  obtain ⟨u, v, rfl, hv⟩ := h
  refine ⟨u, v ++ [.pings g k], by simp, ?_⟩
  rw [beatsOf_append, hv]
  simp [beatsOf, Beat.game]

theorem visited_activated (t : List Beat) (g : GameRef) (ss : List RoomRef) :
    Visited (t ++ [.activated g ss]) g ss [] [] := ⟨t, [], rfl, rfl⟩

theorem perm_turn {rest : List RoomRef} {k : RoomRef} (h : (ks ++ rest).Perm ss)
    (hk : rest[c]? = some k) : (ks ++ [k] ++ rest.eraseIdx c).Perm ss := by
  rw [List.append_assoc]
  exact ((pick_perm hk).append_left ks).trans h

theorem progress_append (h : Progress t g ss x) (hbs : beatsOf g bs = []) :
    Progress (t ++ bs) g ss x := by
  cases h with
  | waiting => exact .waiting
  | checking current rest ks hv hp => exact .checking current rest ks (visited_append hv hbs) hp
  | pinging current rest ks ls hv hk hp =>
    exact .pinging current rest ks ls (visited_append hv hbs) hk hp

theorem kept_append (h : Kept t g game) (hbs : beatsOf g bs = []) : Kept (t ++ bs) g game := by
  cases h with
  | off hp ha he => exact .off hp ha he
  | on x hp ha hx => exact .on x hp ha (progress_append hx hbs)

/-- The mutex is free: nobody is in the middle of an activation. -/
theorem waiting_of_free (hl : game.locked = false) (hp : game.pingers = [x]) : x = .waiting := by
  rw [Game.locked, hp] at hl
  cases x with
  | waiting => rfl
  | _ => cases hl

theorem kept_created (h : Kept t g game) (hl : game.locked = false)
    (sessions : UnorderedMap String RoomRef) :
    Kept t g (Game.startPinger { game with sessions := sessions }) := by
  cases h with
  | off hp ha he =>
    refine .on .waiting ?_ ?_ .waiting
    · simp [Game.startPinger, ha, hp]
    · simp [Game.startPinger, ha]
  | on x hp ha hx =>
    have hsame : Game.startPinger { game with sessions := sessions } =
        { game with sessions := sessions } := by
      simp [Game.startPinger, ha]
    rw [hsame]
    refine .on x hp ha ?_
    rw [waiting_of_free hl hp]
    exact .waiting

theorem kept_deleted (h : Kept t g game) (hl : game.locked = false) (sessionId : String) :
    Kept t g { game with sessions := game.sessions.eraseKey sessionId } := by
  cases h with
  | off hp ha he =>
    refine .off hp ha (UnorderedMap.isEmpty_iff.mpr ?_)
    intro k
    rw [UnorderedMap.find_eraseKey]
    split
    · rfl
    · exact UnorderedMap.isEmpty_iff.mp he k
  | on x hp ha hx =>
    refine .on x hp ha ?_
    rw [waiting_of_free hl hp]
    exact .waiting

end

/-! ## All games -/

def Sound (t : List Beat) (r : Registry) : Prop :=
  ∀ g game, r.gameObjects[g]? = some game → Kept t g game

theorem gameObjects_setGame (hg : r.gameObjects[g]? = some game) (game' : Game) (g' : GameRef) :
    (r.setGame g game').gameObjects[g']? =
      if g' = g then some game' else r.gameObjects[g']? := by
  have hlt := (List.getElem?_eq_some_iff.mp hg).1
  unfold setGame
  by_cases hgg : g' = g
  · rw [if_pos hgg, hgg, List.getElem?_set_self hlt]
  · rw [if_neg hgg, List.getElem?_set_ne (Ne.symm hgg)]

theorem sound_setGame {game' : Game} (h : Sound t r) (hg : r.gameObjects[g]? = some game)
    (hk : Kept (t ++ bs) g game') (hbs : ∀ b ∈ bs, b.game = g) :
    Sound (t ++ bs) (r.setGame g game') := by
  intro g' game₁ hg'
  rw [gameObjects_setGame hg] at hg'
  split at hg'
  · next hgg =>
    cases hg'
    rw [hgg]
    exact hk
  · next hgg =>
    refine kept_append (h g' game₁ hg') (List.filter_eq_nil_iff.mpr ?_)
    intro b hb
    rw [hbs b hb]
    simpa using Ne.symm hgg

theorem sound_same (h : Sound t r) (hr : r'.gameObjects = r.gameObjects) : Sound t r' := by
  intro g game hg
  rw [hr] at hg
  exact h g game hg

/-- The pinger that takes a section is the only one of its game. -/
theorem only_pinger {x : Pinger} (h : Kept t g game) (hx : game.pingers[p]? = some x) :
    p = 0 ∧ game.pingers = [x] ∧ game.isPingerActive = true ∧
      Progress t g game.sessions.values x := by
  obtain ⟨hlt, hget⟩ := List.getElem?_eq_some_iff.mp hx
  cases h with
  | off hp hf he =>
    rw [hp] at hlt
    cases hlt
  | on y hp hon hy =>
    have hzero : p = 0 := by
      rw [hp, List.length_singleton] at hlt
      omega
    rw [hp, hzero] at hx
    cases hx
    exact ⟨hzero, hp, hon, hy⟩

/-- It goes on outside of the sessions, or comes back from one: the games are those of `r`. -/
theorem sound_goTo {x next : Pinger} (h : Sound t r) (hg : r.gameObjects[g]? = some game)
    (hp : game.pingers = [x]) (hon : game.isPingerActive = true)
    (hr : r₁.gameObjects = r.gameObjects) (hbs : ∀ b ∈ bs, b.game = g)
    (hnext : Progress (t ++ bs) g game.sessions.values next) :
    Sound (t ++ bs) (r₁.goTo g game 0 next) := by
  have hset : game.pingers.set 0 next = [next] := by
    rw [hp]
    rfl
  have hg₁ : r₁.gameObjects[g]? = some game := by
    rw [hr]
    exact hg
  exact sound_setGame (sound_same h hr) hg₁ (.on next hset hon hnext) hbs

/-- A section of the one pinger of the game. -/
theorem sound_acts {x : Pinger} {es : List Event} (h : Sound t r)
    (hg : r.gameObjects[g]? = some game) (hx : game.pingers[p]? = some x)
    (ha : Acts r g game p c now x r' es bs) : Sound (t ++ bs) r' := by
  obtain ⟨rfl, hp, hon, hprogress⟩ := only_pinger (h g game hg) hx
  cases ha with
  | stop hl he =>
    refine sound_setGame h hg (.off ?_ rfl he) (by simp [Beat.game])
    rw [hp]
    rfl
  | activate hl he =>
    refine sound_goTo h hg hp hon rfl (by simp [Beat.game]) ?_
    exact .checking none _ [] (visited_activated t g _) (List.Perm.refl _)
  | check rest k hk =>
    refine sound_goTo h hg hp hon rfl (by simp [Beat.game]) ?_
    cases hprogress with
    | checking current rest ks hv hperm =>
      exact .checking _ _ _ (visited_check hv) (perm_turn hperm hk)
  | checking k rest task r₁ fs ht hne =>
    rw [List.append_nil]
    exact sound_same h (gameObjects_tickRoom ht)
  | checked k rest r₁ fs ht =>
    refine sound_goTo h hg hp hon (gameObjects_tickRoom ht) (by simp) ?_
    cases hprogress with
    | checking current rest ks hv hperm =>
      exact .checking none rest ks (visited_append hv rfl) hperm
  | turn =>
    refine sound_goTo h hg hp hon rfl (by simp) ?_
    cases hprogress with
    | checking current rest ks hv hperm =>
      rw [List.append_nil] at hperm
      exact .pinging none _ ks [] (visited_append hv rfl) hperm (List.Perm.refl _)
  | ping rest k hk =>
    refine sound_goTo h hg hp hon rfl (by simp [Beat.game]) ?_
    cases hprogress with
    | pinging current rest ks ls hv hks hperm =>
      exact .pinging _ _ ks _ (visited_ping hv) hks (perm_turn hperm hk)
  | pinging k rest task r₁ fs ht hne =>
    rw [List.append_nil]
    exact sound_same h (gameObjects_tickRoom ht)
  | pinged k rest r₁ fs ht =>
    refine sound_goTo h hg hp hon (gameObjects_tickRoom ht) (by simp) ?_
    cases hprogress with
    | pinging current rest ks ls hv hks hperm =>
      exact .pinging none rest ks ls (visited_append hv rfl) hks hperm
  | wait => exact sound_goTo h hg hp hon rfl (by simp [Beat.game]) .waiting

/-- A method of the game in which the pinger is not seen. -/
theorem sound_quiet {game' : Game} (h : Sound t r) (hg : r.gameObjects[g]? = some game)
    (hk : Kept t g game') : Sound t (r.setGame g game') := by
  rw [← List.append_nil t] at hk ⊢
  exact sound_setGame h hg hk (by simp)

theorem sound_getGameById {gameId : Option String} {answer : Option GameRef} (h : Sound t r)
    (hl : Lookup r gameId answer r') : Sound t r' := by
  cases hl with
  | hit g hf => exact h
  | notFound hf hc => exact h
  | constructed config hf hc =>
    intro g game hg
    rw [makeGame, getElem?_snoc] at hg
    split at hg
    · cases hg
      exact .off rfl rfl rfl
    · exact h g game hg

theorem sound_createNewSession {sessionId : String} {answer : Option RoomRef} (h : Sound t r)
    (hc : r.createNewSession g sessionId = some (answer, r')) : Sound t r' := by
  cases createNewSession_cases hc with
  | taken => exact h
  | created game hg hl hf =>
    exact sound_same (sound_quiet h hg (kept_created (h g game hg) hl _)) rfl

theorem sound_deleteSession {sessionId : String} (h : Sound t r)
    (hd : r.deleteSession g sessionId = some r') : Sound t r' := by
  obtain ⟨game, hg, hl, rfl⟩ := deleteSession_some hd
  exact sound_quiet h hg (kept_deleted (h g game hg) hl sessionId)

theorem sound_stepRoom {k : RoomRef} {a : Room.Op} {es : List Event} (h : Sound t r)
    (hs : r.stepRoom k a = some (r', es)) : Sound t r' := by
  obtain ⟨hosted, room, fs, -, -, rfl, -⟩ := stepRoom_some hs
  exact h

theorem sound_pinger {x : Pinger} {es : List Event} (h : Sound t r)
    (hg : r.gameObjects[g]? = some game) (hx : game.pingers[p]? = some x)
    (hs : r.pinger g p c now = some (r', es)) : Sound (t ++ beats g game c x) r' :=
  sound_acts h hg hx (pinger_acts hg hx hs)

inductive Does (r : Registry) : Call → Registry → List Beat → Prop where
  | getGameById (gameId : Option String) : Does r (.getGameById gameId) (r.getGameById gameId).2 []
  | createNewSession (g : GameRef) (sessionId : String) (answer : Option RoomRef)
    (r' : Registry) : r.createNewSession g sessionId = some (answer, r') →
    Does r (.createNewSession g sessionId) r' []
  | deleteSession (g : GameRef) (sessionId : String) (r' : Registry) :
    r.deleteSession g sessionId = some r' → Does r (.deleteSession g sessionId) r' []
  | room (k : RoomRef) (a : Room.Op) (r' : Registry) (es : List Event) :
    Room.isTick a = false → r.stepRoom k a = some (r', es) → Does r (.room k a) r' []
  | pinger (g : GameRef) (p c : Nat) (now : Int) (game : Game) (x : Pinger) (r' : Registry)
    (es : List Event) : r.gameObjects[g]? = some game → game.pingers[p]? = some x →
    r.pinger g p c now = some (r', es) → Does r (.pinger g p c now) r' (beats g game c x)

theorem stepCall_does {a : Call} (h : r.stepCall a = some (r', bs)) : Does r a r' bs := by
  cases a with
  | getGameById gameId => cases h; exact .getGameById gameId
  | createNewSession g sessionId =>
    simp only [stepCall] at h
    split at h
    · cases h
    · next hc => cases h; exact .createNewSession g sessionId _ _ hc
  | deleteSession g sessionId =>
    simp only [stepCall] at h
    split at h
    · cases h
    · next hd => cases h; exact .deleteSession g sessionId _ hd
  | room k a =>
    simp only [stepCall] at h
    split at h
    · cases h
    · next ha =>
      split at h
      · cases h
      · next hs => cases h; exact .room k a _ _ (by simpa using ha) hs
  | pinger g p c now =>
    simp only [stepCall] at h
    split at h
    · cases h
    · next game hg =>
      split at h
      · cases h
      · next x hx =>
        split at h
        · cases h
        · next hs => cases h; exact .pinger g p c now game x _ _ hg hx hs

theorem sound_call {a : Call} (h : Sound t r) (hs : r.stepCall a = some (r', bs)) :
    Sound (t ++ bs) r' := by
  cases stepCall_does hs with
  | pinger g p c now game x r' es hg hx hp => exact sound_pinger h hg hx hp
  | getGameById gameId =>
    rw [List.append_nil]
    exact sound_getGameById h (getGameById_cases r gameId)
  | createNewSession g sessionId answer r' hc =>
    rw [List.append_nil]
    exact sound_createNewSession h hc
  | deleteSession g sessionId r' hd =>
    rw [List.append_nil]
    exact sound_deleteSession h hd
  | room k a r' es ha hst =>
    rw [List.append_nil]
    exact sound_stepRoom h hst

/-- A call is a run of the sections that the registry can take. -/
theorem call_run {a : Call} (hs : r.stepCall a = some (r', bs)) :
    ∃ w es, machine.run w [] r = some (es, r') := by
  cases stepCall_does hs with
  | pinger g p c now game x r' es hg hx hp =>
    obtain ⟨w, hw, -⟩ := pinger_run hp
    exact ⟨w, es, hw⟩
  | getGameById gameId => exact ⟨_, _, getGameById_run r gameId⟩
  | createNewSession g sessionId answer r' hc =>
    have hstep : machine.step r (.createNewSession g sessionId) = some (r', []) := by
      simp only [machine, step, hc]
    exact ⟨_, _, run_singleton hstep⟩
  | deleteSession g sessionId r' hd =>
    have hstep : machine.step r (.deleteSession g sessionId) = some (r', []) := by
      simp only [machine, step, hd]
    exact ⟨_, _, run_singleton hstep⟩
  | room k a r' es ha hst =>
    have hstep : machine.step r (.stepRoom k a) = some (r', es) := hst
    exact ⟨_, _, run_singleton hstep⟩

theorem tables_call {a : Call} (h : r.Tables) (hs : r.stepCall a = some (r', bs)) : r'.Tables := by
  obtain ⟨w, es, hw⟩ := call_run hs
  exact run_invariant (M := machine) (I := fun _ r => r.Tables)
    (fun _ _ _ _ _ h hs => step_tables h hs) h hw

/-- Two sessions of a game are two. -/
theorem nodup_sessions (h : r.Tables) (hg : r.gameObjects[g]? = some game) :
    game.sessions.values.Nodup := by
  refine UnorderedMap.nodup_values ?_
  intro sessionId sessionId' k hk hk'
  rw [← lookup_of_game hg] at hk hk'
  obtain ⟨hosted, hroom, -, hid⟩ := h g sessionId k hk
  obtain ⟨hosted', hroom', -, hid'⟩ := h g sessionId' k hk'
  rw [hroom] at hroom'
  cases hroom'
  rw [← hid, hid']

end Registry
end Helicopter
