import Helicopter.Registration

/-! What the server refers to exists: the games that the table of the registry and the waiting
connections name, the sessions that are to be deleted, and the game a session was made by. A step
makes a session, is a step of it, or leaves it as it is. -/
namespace Helicopter
open Interleaving

namespace Registry
variable {r r' : Registry} {es : List Event} {g : GameRef} {game game' : Game}

/-- Over a store that is not well keyed the table may lead from the id of a game to another. -/
structure Filed (r : Registry) : Prop where
  games : ∀ gameId g, r.games.find gameId = some g → g < r.gameObjects.length
  configs : ∀ (g : GameRef) (game : Game), r.gameObjects[g]? = some game →
    ∃ g', r.games.find game.config.gameId = some g' ∧ (r.gamesConfig.WellKeyed → g' = g)
  hosted : ∀ (k : RoomRef) (h : Hosted), r.rooms[k]? = some h →
    ∃ game, r.gameObjects[h.game]? = some game ∧ h.room.session.config = game.config

theorem filed_init (gamesConfig : GamesConfig) : Filed { gamesConfig := gamesConfig } := by
  refine ⟨?_, ?_, ?_⟩
  · intro gameId g hf
    rw [UnorderedMap.find_empty] at hf
    cases hf
  · intro g game hg
    cases hg
  · intro k h hk
    cases hk

/-- A game is changed, but not its config. -/
theorem filed_setGame (game' : Game) (h : Filed r) (hg : r.gameObjects[g]? = some game)
    (hc : game'.config = game.config) : Filed (r.setGame g game') := by
  have hlt := (List.getElem?_eq_some_iff.mp hg).1
  have hnow : ∀ g', (r.gameObjects.set g game')[g']? =
      if g' = g then some game' else r.gameObjects[g']? := by
    intro g'
    by_cases hgg : g' = g
    · rw [if_pos hgg, hgg, List.getElem?_set_self hlt]
    · rw [if_neg hgg, List.getElem?_set_ne (Ne.symm hgg)]
  refine ⟨?_, ?_, ?_⟩
  · intro gameId g' hf
    simp only [setGame, List.length_set]
    exact h.games gameId g' hf
  · intro g' game₁ hg'
    simp only [setGame, hnow] at hg'
    split at hg'
    · next hgg =>
      cases hg'
      rw [hc, hgg]
      exact h.configs g game hg
    · exact h.configs g' game₁ hg'
  · intro k hosted hk
    obtain ⟨game₁, hg₁, hconf⟩ := h.hosted k hosted hk
    simp only [setGame, hnow]
    split
    · next hgg =>
      rw [hgg, hg] at hg₁
      cases hg₁
      exact ⟨game', rfl, hconf.trans hc.symm⟩
    · exact ⟨game₁, hg₁, hconf⟩

theorem filed_newGame {gameId : Option String} {config : GameConfigDto} (h : Filed r)
    (hf : r.games.find gameId = none) (hc : r.gamesConfig.getGameConfig gameId = some config) :
    Filed { r with
      games := r.games.insertNew config.gameId r.gameObjects.length
      gameObjects := r.gameObjects ++ [{ config := config }] } := by
  refine ⟨?_, ?_, ?_⟩
  · intro gameId' g' hf'
    rw [UnorderedMap.find_insertNew] at hf'
    rw [List.length_append, List.length_singleton]
    cases hold : r.games.find gameId' with
    | some g₀ =>
      rw [hold] at hf'
      cases hf'
      exact Nat.lt_succ_of_lt (h.games gameId' g' hold)
    | none =>
      rw [hold, Option.none_or] at hf'
      split at hf'
      · cases hf'
        exact Nat.lt_succ_self _
      · cases hf'
  · intro g' game₁ hg'
    rw [getElem?_snoc] at hg'
    split at hg'
    · next hlast =>
      cases hg'
      show ∃ g₁, UnorderedMap.find _ config.gameId = some g₁ ∧ _
      rw [UnorderedMap.find_insertNew, if_pos rfl, hlast]
      cases hold : r.games.find config.gameId with
      | some g₀ =>
        refine ⟨g₀, rfl, ?_⟩
        intro hw
        rw [hw gameId config hc, hf] at hold
        cases hold
      | none => exact ⟨_, rfl, fun _ => rfl⟩
    · obtain ⟨g₁, hg₁, hsame⟩ := h.configs g' game₁ hg'
      exact ⟨g₁, UnorderedMap.find_insertNew_of_some _ hg₁, hsame⟩
  · intro k hosted hk
    obtain ⟨game₁, hg₁, hconf⟩ := h.hosted k hosted hk
    have hlt := (List.getElem?_eq_some_iff.mp hg₁).1
    exact ⟨game₁, (List.getElem?_append_left hlt).trans hg₁, hconf⟩

theorem step_filed {op : Op} (h : Filed r) (hs : r.step op = some (r', es)) : Filed r' := by
  cases step_cases hs with
  | idle gameId => exact h
  | refused g sessionId => exact h
  | newGame gameId config hf hc => exact filed_newGame h hf hc
  | pingers g game pingers active hg => exact filed_setGame _ h hg rfl
  | deleted g sessionId game hg => exact filed_setGame _ h hg rfl
  | created g sessionId game hg hf =>
    have hset := filed_setGame (Game.startPinger
      { game with sessions := game.sessions.insertNew sessionId r.rooms.length }) h hg
      (config_startPinger _)
    refine ⟨hset.games, hset.configs, ?_⟩
    intro k hosted hk
    rw [getElem?_snoc] at hk
    split at hk
    · cases hk
      have hlt := (List.getElem?_eq_some_iff.mp hg).1
      exact ⟨_, List.getElem?_set_self hlt, by rw [config_startPinger]; rfl⟩
    · exact hset.hosted k hosted hk
  | room j a hosted room fs hj hst =>
    refine ⟨h.games, h.configs, ?_⟩
    intro k hosted' hk
    have hlt := (List.getElem?_eq_some_iff.mp hj).1
    by_cases hkj : k = j
    · rw [hkj] at hk
      simp only [List.getElem?_set_self hlt, Option.some.injEq] at hk
      subst hk
      obtain ⟨game, hg, hconf⟩ := h.hosted j hosted hj
      exact ⟨game, hg, (Room.step_static hst).2.trans hconf⟩
    · simp only [List.getElem?_set_ne (Ne.symm hkj)] at hk
      exact h.hosted k hosted' hk

/-- Nothing is ever taken from the lists of objects. -/
theorem step_grows {op : Op} (hs : r.step op = some (r', es)) :
    r.rooms.length ≤ r'.rooms.length ∧ r.gameObjects.length ≤ r'.gameObjects.length := by
  cases step_cases hs with
  | newGame gameId config hf hc => simp
  | created g sessionId game hg hf => simp [setGame]
  | room k a hosted room fs hk hst => simp
  | deleted g sessionId game hg => simp [setGame]
  | pingers g game pingers active hg => simp [setGame]
  | _ => exact ⟨Nat.le_refl _, Nat.le_refl _⟩

theorem getGameById_lt {gameId : Option String} (h : Filed r)
    (hf : r.getGameById gameId = (some g, r')) : g < r'.gameObjects.length := by
  unfold getGameById at hf
  split at hf
  · next hg =>
    cases hf
    exact h.games gameId g hg
  · split at hf
    · cases hf
      simp
    · cases hf

theorem findGameForPeer_lt {params : ParameterMap} {a : Admission} (h : Filed r)
    (hf : r.findGameForPeer params = (.ok a, r')) : a.game < r'.gameObjects.length := by
  unfold findGameForPeer at hf
  split at hf
  · cases hf
  · split at hf
    · cases hf
    · split at hf
      · cases hf
      · split at hf
        · cases hf
        · next hg =>
          cases hf
          exact getGameById_lt h hg

end Registry

def Departure.refers (r : Registry) : Departure → Prop
  | .emptied k => k < r.rooms.length
  | .deleting g _ => g < r.gameObjects.length

namespace System
variable {gamesConfig : GamesConfig} {s s' : System} {t es : List Event}

structure Standing (s : System) : Prop where
  filed : s.registry.Filed
  tables : s.registry.Tables
  admissions : ∀ a ∈ s.admissions, a.game < s.registry.gameObjects.length
  departures : ∀ d ∈ s.departures, d.refers s.registry

theorem step_grows {a : Op} (hs : s.step a = some (s', es)) :
    s.registry.rooms.length ≤ s'.registry.rooms.length ∧
      s.registry.gameObjects.length ≤ s'.registry.gameObjects.length := by
  refine step_registry (I := fun _ r => s.registry.rooms.length ≤ r.rooms.length ∧
    s.registry.gameObjects.length ≤ r.gameObjects.length) (t := []) ?_
    ⟨Nat.le_refl _, Nat.le_refl _⟩ hs
  intro t r op r' es h hst
  obtain ⟨hrooms, hgames⟩ := Registry.step_grows hst
  exact ⟨Nat.le_trans h.1 hrooms, Nat.le_trans h.2 hgames⟩

theorem standing_init (gamesConfig : GamesConfig) : Standing (init gamesConfig) := by
  refine ⟨Registry.filed_init gamesConfig, ?_, ?_, ?_⟩
  · intro g sessionId k hk
    cases hk
  · intro a ha
    cases ha
  · intro d hd
    cases hd

theorem step_standing {a : Op} (h : Standing s) (hs : s.step a = some (s', es)) :
    Standing s' := by
  obtain ⟨hrooms, hgames⟩ := step_grows hs
  have hfiled : s'.registry.Filed := step_registry (I := fun _ r => r.Filed) (t := [])
    (fun _ _ _ _ _ h hst => Registry.step_filed h hst) h.filed hs
  have hadm : ∀ b ∈ s.admissions, b.game < s'.registry.gameObjects.length :=
    fun b hb => Nat.lt_of_lt_of_le (h.admissions b hb) hgames
  have hdep : ∀ d ∈ s.departures, d.refers s'.registry := by
    intro d hd
    have hold := h.departures d hd
    cases d with
    | emptied k => exact Nat.lt_of_lt_of_le hold hrooms
    | deleting g sessionId => exact Nat.lt_of_lt_of_le hold hgames
  refine ⟨hfiled, step_tables h.tables hs, ?_, ?_⟩
  · cases step_cases hs with
    | found params b r hf =>
      intro b' hb'
      obtain hb' | hb' := List.mem_append.mp hb'
      · exact hadm b' hb'
      · rw [List.mem_singleton.mp hb']
        exact Registry.findGameForPeer_lt h.filed hf
    | refused c b e r fs hb hg => exact fun b' hb' => hadm b' (List.mem_of_mem_eraseIdx hb')
    | admitted c b k r fs hb hg => exact fun b' hb' => hadm b' (List.mem_of_mem_eraseIdx hb')
    | _ => exact hadm
  · cases step_cases hs with
    | room k b r fs hb hst =>
      intro d hd
      obtain hd | hd := List.mem_append.mp hd
      · exact hdep d hd
      · split at hd
        · obtain ⟨h₀, room, gs, hk, -, hr, -⟩ := Registry.stepRoom_some hst
          rw [List.mem_singleton.mp hd]
          exact Nat.lt_of_lt_of_le (List.getElem?_eq_some_iff.mp hk).1 hrooms
        · cases hd
    | findGame d k hosted g r hd hk hg =>
      intro d' hd'
      obtain hd' | hd' := List.mem_or_eq_of_mem_set hd'
      · exact hdep d' hd'
      · rw [hd']
        exact Registry.getGameById_lt h.filed hg
    | deleteSession d g sessionId r hd hdel =>
      exact fun d' hd' => hdep d' (List.mem_of_mem_eraseIdx hd')
    | _ => exact hdep

theorem run_standing {w : List Op} (hr : machine.run w [] (init gamesConfig) = some (t, s)) :
    Standing s :=
  run_invariant (I := fun _ s => Standing s) (fun _ _ _ _ _ h hs => step_standing h hs)
    (standing_init gamesConfig) hr

end System

/-! ## What a step is to one session -/

namespace Registry
variable {r r' : Registry} {es : List Event}

/-- Nothing happens to a session that has not been made. -/
theorem step_unmade {op : Op} (hs : r.step op = some (r', es)) (k : RoomRef)
    (hk : r'.rooms.length ≤ k) : roomPart k es = [] := by
  cases step_cases hs with
  | room l a hosted room fs hl hst =>
    have hk : r.rooms.length ≤ k := by simpa using hk
    have hlt := (List.getElem?_eq_some_iff.mp hl).1
    have hkl : k ≠ l := Nat.ne_of_gt (Nat.lt_of_lt_of_le hlt hk)
    rw [roomPart_room, if_neg hkl]
  | _ => rfl

end Registry

namespace System
variable {s s' : System} {es : List Event} {a : Op} {k : RoomRef}

theorem step_unmade (hs : s.step a = some (s', es)) (hk : s'.registry.rooms[k]? = none) :
    s.registry.rooms[k]? = none ∧ roomPart k es = [] := by
  rw [List.getElem?_eq_none_iff] at hk ⊢
  refine ⟨Nat.le_trans (step_grows hs).1 hk, ?_⟩
  have hsilent := step_registry (t := []) (I := fun fs r => ∀ k, r.rooms.length ≤ k →
    Registry.roomPart k fs = []) ?_ (fun _ _ => rfl) hs
  · exact hsilent k hk
  · intro fs r op r' gs hI hst k hk
    have hgrows := (Registry.step_grows hst).1
    rw [Registry.roomPart_append, hI k (by omega), Registry.step_unmade hst k hk]
    rfl

inductive StepAt (s : System) (a : Op) (k : RoomRef) (fs : List Room.Event) (s' : System) :
    Prop where
  | own (b : Room.Op) (h : Hosted) (room : Room) : a = .room k b →
    s.registry.rooms[k]? = some h → h.room.step b = some (room, fs) →
    s'.registry.rooms[k]? = some ⟨h.game, room⟩ → StepAt s a k fs s'
  | unmade : (∀ b, a ≠ .room k b) → s.registry.rooms[k]? = none →
    s'.registry.rooms[k]? = none → fs = [] → StepAt s a k fs s'
  | quiet (h' : Hosted) (room : Room) (v : List Room.Op) : (∀ b, a ≠ .room k b) →
    s'.registry.rooms[k]? = some h' → Stood s.registry k room →
    Room.machine.run v [] room = some (fs, h'.room) → (∀ b ∈ v, ofPeers b = false) →
    StepAt s a k fs s'

theorem step_at (k : RoomRef) (hs : s.step a = some (s', es)) :
    StepAt s a k (roomPart k es) s' := by
  by_cases ha : ∃ b, a = .room k b
  · obtain ⟨b, rfl⟩ := ha
    cases step_cases hs with
    | room k b r fs hb hst =>
      obtain ⟨h, room, gs, hk, hroom, rfl, rfl⟩ := Registry.stepRoom_some hst
      have hlt := (List.getElem?_eq_some_iff.mp hk).1
      rw [roomPart, registryPart_registry, Registry.roomPart_room, if_pos rfl]
      exact .own b h room rfl hk hroom (List.getElem?_set_self hlt)
  · have ha : ∀ b, a ≠ .room k b := fun b hb => ha ⟨b, hb⟩
    cases hk : s'.registry.rooms[k]? with
    | none =>
      obtain ⟨hk₀, hnil⟩ := step_unmade hs hk
      exact .unmade ha hk₀ hk hnil
    | some h' =>
      cases step_room hs hk with
      | own h b hb hk₀ hst => exact absurd hb (ha b)
      | quiet room v hst hv hq => exact .quiet h' room v ha hk hst hv hq

end System
end Helicopter
