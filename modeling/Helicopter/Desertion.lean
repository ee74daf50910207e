import Helicopter.Accounts
import Helicopter.Occupancy

/-! When everyone has gone. The last peer of a session takes the session with it, and a pinger
that finds its game without sessions ends. -/
namespace Helicopter
open Interleaving

namespace Game

structure Deserted (game : Game) : Prop where
  sessions : game.sessions.isEmpty = true
  pingers : game.pingers = [] ∧ game.isPingerActive = false ∨
    game.pingers = [.waiting] ∧ game.isPingerActive = true

variable {game : Game}

theorem Deserted.pinger {p : Nat} {x : Pinger} (h : game.Deserted)
    (hx : game.pingers[p]? = some x) :
    game.pingers = [.waiting] ∧ p = 0 ∧ x = .waiting := by
  obtain ⟨hnone, -⟩ | ⟨hone, -⟩ := h.pingers
  · rw [hnone] at hx
    cases hx
  · rw [hone] at hx
    cases p with
    | zero =>
      cases hx
      exact ⟨hone, rfl, rfl⟩
    | succ p => cases hx

theorem Deserted.ended (h : game.Deserted) :
    Deserted { game with isPingerActive := false, pingers := [] } :=
  ⟨h.sessions, Or.inl ⟨rfl, rfl⟩⟩

end Game

namespace Registry
variable {r r' : Registry} {es : List Event} {g : GameRef} {game : Game} {p c : Nat} {now : Int}

def Deserted (r : Registry) : Prop :=
  ∀ (g : GameRef) (game : Game), r.gameObjects[g]? = some game → game.Deserted

def numberOfPingers (r : Registry) : Nat := total (fun game => game.pingers.length) r.gameObjects

/-- Where there are no sessions an activation is the last one. -/
theorem pinger_deserted (h : r.Deserted) (hs : r.pinger g p c now = some (r', es)) :
    ∃ game, r.gameObjects[g]? = some game ∧ game.pingers = [.waiting] ∧
      r' = r.setGame g { game with isPingerActive := false, pingers := [] } ∧ es = [] := by
  obtain ⟨game, x, hg, hx⟩ := pinger_some hs
  obtain ⟨hone, rfl, rfl⟩ := (h g game hg).pinger hx
  have hfree : game.locked = false := by simp [Game.locked, hone, Pinger.holds]
  have hempty := (h g game hg).sessions
  simp only [pinger, hg, hone, List.getElem?_cons_zero, hfree, hempty] at hs
  cases hs
  exact ⟨game, hg, hone, rfl, rfl⟩

theorem pinger_enabled (h : r.Deserted) (hg : r.gameObjects[g]? = some game)
    (hne : game.pingers ≠ []) : r.pinger g 0 0 0 ≠ none := by
  obtain ⟨x, hx⟩ : ∃ x, game.pingers[0]? = some x :=
    ⟨_, List.getElem?_eq_getElem (List.length_pos_iff.mpr hne)⟩
  obtain ⟨hone, -, -⟩ := (h g game hg).pinger hx
  have hfree : game.locked = false := by simp [Game.locked, hone, Pinger.holds]
  have hempty := (h g game hg).sessions
  simp [pinger, hg, hone, hfree, hempty]

theorem deserted_setGame {game' : Game} (h : r.Deserted) (hgame : game'.Deserted) :
    (r.setGame g game').Deserted := by
  intro g' game'' hg'
  simp only [setGame] at hg'
  by_cases hgg : g = g'
  · subst hgg
    have hlt : g < r.gameObjects.length := by
      have hlt := (List.getElem?_eq_some_iff.mp hg').1
      rwa [List.length_set] at hlt
    rw [List.getElem?_set_self hlt] at hg'
    cases hg'
    exact hgame
  · rw [List.getElem?_set_ne hgg] at hg'
    exact h g' game'' hg'

theorem pinger_lowers (h : r.Deserted) (hs : r.pinger g p c now = some (r', es)) :
    r'.Deserted ∧ es = [] ∧ r'.numberOfPingers + 1 = r.numberOfPingers := by
  obtain ⟨game, hg, hone, rfl, rfl⟩ := pinger_deserted h hs
  refine ⟨deserted_setGame h (h g game hg).ended, rfl, ?_⟩
  have hset := total_set (f := fun game : Game => game.pingers.length)
    (y := { game with isPingerActive := false, pingers := [] }) hg
  rw [hone] at hset
  exact hset

theorem numberOfPingers_le (h : r.Deserted) : r.numberOfPingers ≤ r.gameObjects.length := by
  have hone : total (fun _ => 1) r.gameObjects = r.gameObjects.length := by simp [total]
  rw [← hone]
  apply total_le
  intro game hmem
  obtain ⟨g, hg⟩ := List.mem_iff_getElem?.mp hmem
  obtain ⟨hnone, -⟩ | ⟨hone, -⟩ := (h g game hg).pingers
  · simp [hnone]
  · simp [hone]

end Registry

namespace System
variable {gamesConfig : GamesConfig} {s s' : System} {t t' es : List Event} {w : List Op}

def Wakes (_ : System) : Op → Prop
  | .pinger _ _ _ _ => True
  | _ => False

theorem wakes_lowers (t₀ : List Event) :
    Lowers machine Wakes (fun t s => t = t₀ ∧ s.registry.Deserted)
      fun s => s.registry.numberOfPingers := by
  intro t s a s' es h ha hs
  cases a with
  | pinger g p c now =>
    have hs : s.step (.pinger g p c now) = some (s', es) := hs
    cases step_cases hs with
    | pinger _ _ _ _ r fs hp =>
      obtain ⟨hdeserted, rfl, hlt⟩ := Registry.pinger_lowers h.2 hp
      exact ⟨⟨by simpa using h.1, hdeserted⟩, by simp only; omega⟩
  | _ => exact ha.elim

/-- No pinger is left that a timer could wake. -/
theorem ended_of_atRest (h : s.registry.Deserted) (hrest : machine.AtRest Wakes s) (game : Game)
    (hmem : game ∈ s.registry.gameObjects) :
    game.sessions.isEmpty = true ∧ game.pingers = [] ∧ game.isPingerActive = false := by
  obtain ⟨g, hg⟩ := List.mem_iff_getElem?.mp hmem
  refine ⟨(h g game hg).sessions, ?_⟩
  obtain hended | ⟨hone, -⟩ := (h g game hg).pingers
  · exact hended
  · have hne := Registry.pinger_enabled h hg (by simp [hone])
    obtain ⟨⟨r, fs⟩, hp⟩ := Option.ne_none_iff_exists'.mp hne
    have hnone : s.step (.pinger g 0 0 0) = none := hrest (.pinger g 0 0 0) trivial
    simp [step, hp] at hnone

def Gone (t : List Event) (s : System) : Prop :=
  ∀ (k : RoomRef) (h : Hosted), s.registry.rooms[k]? = some h →
    t.countP (Event.admittedTo k) = Session.goneIn (Room.sessionPart (roomPart k t))

theorem unoccupied_of_gone {k : RoomRef} {h : Hosted}
    (hr : machine.run w [] (init gamesConfig) = some (t, s)) (hgone : Gone t s)
    (hk : s.registry.rooms[k]? = some h) : ¬ h.room.occupied := by
  have hcrowd := crowd_accounted hr hk
  have hall := hgone k h hk
  have hsize : h.room.session.peers.size = 0 := by omega
  unfold Room.occupied UnorderedMap.isEmpty
  rw [List.length_eq_zero_iff.mp hsize]
  simp

theorem deserted_of_gone (hw : gamesConfig.WellKeyed)
    (hr : machine.run w [] (init gamesConfig) = some (t, s)) (hrest : machine.AtRest Own s)
    (hgone : Gone t s) : s.registry.Deserted := by
  intro g game hg
  have hempty : game.sessions.isEmpty = true := by
    rw [UnorderedMap.isEmpty_iff]
    intro sessionId
    by_contra hne
    obtain ⟨k, hfind⟩ := Option.ne_none_iff_exists'.mp hne
    have hlookup := (Registry.lookup_of_game hg sessionId).trans hfind
    obtain ⟨h, hk, rfl, rfl⟩ := (run_standing hr).tables g sessionId k hlookup
    exact unoccupied_of_gone hr hgone hk (occupied_at_rest hw hr hrest hk hlookup)
  obtain ⟨v, bs, hv⟩ := run_calls hr
  have hfree := rest_games hr hrest g game hg
  refine ⟨hempty, ?_⟩
  cases (Registry.run_supervised hv).sound g game hg with
  | off hp ha he => exact Or.inl ⟨hp, ha⟩
  | on x hp ha hx =>
    rw [Registry.waiting_of_free hfree hp] at hp
    exact Or.inr ⟨hp, ha⟩

/-- When everyone has gone and the server has come to rest, no game has a session, and what is
left of the server are the sleeping pingers, at most one for each game. Each ends when it wakes,
and nothing else happens then; when all have woken up none is left. -/
theorem winds_down (hw : gamesConfig.WellKeyed)
    (hr : machine.run w [] (init gamesConfig) = some (t, s)) (hrest : machine.AtRest Own s)
    (hgone : Gone t s) :
    (∀ game ∈ s.registry.gameObjects, game.sessions.isEmpty = true) ∧
      (∀ u t' s', machine.Alone Wakes u t s → machine.run u t s = some (t', s') →
        t' = t ∧ u.length ≤ s.registry.gameObjects.length ∧
          (machine.AtRest Wakes s' → ∀ game ∈ s'.registry.gameObjects,
            game.sessions.isEmpty = true ∧ game.pingers = [] ∧ game.isPingerActive = false)) ∧
      ∃ u t' s', machine.Alone Wakes u t s ∧ machine.run u t s = some (t', s') ∧
        machine.AtRest Wakes s' := by
  have hdeserted := deserted_of_gone hw hr hrest hgone
  refine ⟨?_, ?_, (wakes_lowers t).settles ⟨rfl, hdeserted⟩⟩
  · intro game hmem
    obtain ⟨g, hg⟩ := List.mem_iff_getElem?.mp hmem
    exact (hdeserted g game hg).sessions
  · intro u t' s' hu hrun
    obtain ⟨⟨hsame, hdeserted'⟩, hle⟩ := (wakes_lowers t).run ⟨rfl, hdeserted⟩ hu hrun
    have hgames := Registry.numberOfPingers_le hdeserted
    exact ⟨hsame, by omega, ended_of_atRest hdeserted'⟩

def everyoneGone : List Op :=
  hostGone ++ [.findGame 0, .deleteSession 0, .room 0 (.act 0 0)]

theorem winds_down_everyoneGone :
    ∃ t s, machine.run everyoneGone [] (init oneGame) = some (t, s) ∧
      0 < s.registry.numberOfPingers ∧
      (∀ game ∈ s.registry.gameObjects, game.sessions.isEmpty = true) ∧
      ∃ u t' s', machine.Alone Wakes u t s ∧ machine.run u t s = some (t', s') ∧
        machine.AtRest Wakes s' ∧ t' = t ∧ u.length ≤ s.registry.gameObjects.length ∧
        ∀ game ∈ s'.registry.gameObjects,
          game.sessions.isEmpty = true ∧ game.pingers = [] ∧ game.isPingerActive = false := by
  have hrun : (machine.run everyoneGone [] (init oneGame)).map (fun r =>
      (decide r.2.Still, r.2.registry.rooms.length, r.2.registry.numberOfPingers,
        r.1.countP (Event.admittedTo 0), Session.goneIn (Room.sessionPart (roomPart 0 r.1)))) =
        some (true, 1, 1, 1, 1) := by
    decide +kernel
  obtain ⟨⟨t, s⟩, hr, hrun⟩ := Option.map_eq_some_iff.mp hrun
  simp only [Prod.mk.injEq] at hrun
  obtain ⟨hstill, hrooms, hpingers, hadmitted, hleft⟩ := hrun
  have hgone : Gone t s := by
    intro k h hk
    have hlt := (List.getElem?_eq_some_iff.mp hk).1
    rw [hrooms, Nat.lt_one_iff] at hlt
    rw [hlt, hadmitted, hleft]
  obtain ⟨hempty, hends, u, t', s', hu, hr', hrest⟩ :=
    winds_down wellKeyed_oneGame hr (still_atRest (of_decide_eq_true hstill)) hgone
  obtain ⟨hsame, hlength, hdone⟩ := hends u t' s' hu hr'
  exact ⟨t, s, hr, by omega, hempty, u, t', s', hu, hr', hrest, hsame, hlength, hdone hrest⟩

end System
end Helicopter
