import Helicopter.Lib.UnorderedMap

/-! `GameConfigDto` with its defaults, and the store of the game configs. -/
namespace Helicopter

structure GameConfigDto where
  gameId : Option String := none
  staticHost : Bool := true
  maxPeers : Nat := 10
  maxMessageSizeBytes : Nat := 4 * 1024
  maxQueuedMessages : Nat := 100
  pingIntervalMillis : Nat := 5 * 1000
  maxFailedPings : Nat := 100
  deriving DecidableEq

/-- `GamesConfig`: the field `m_games`, null until the first config is put or a file is read. -/
structure GamesConfig where
  games : Option (UnorderedMap (Option String) (Option GameConfigDto)) := none

def GamesConfig.putGameConfig (c : GamesConfig) (config : GameConfigDto) : GamesConfig :=
  let games := c.games.getD ∅
  ⟨some (games.insertNew config.gameId (some config))⟩

def GamesConfig.getGameConfig (c : GamesConfig) (gameId : Option String) : Option GameConfigDto :=
  match c.games with
  | some games => (games.find gameId).join
  | none => none

namespace GamesConfig
variable {c : GamesConfig} {gameId : Option String} {config : GameConfigDto}

/-- Each id leads to a config that carries it. A file may say otherwise. -/
def WellKeyed (c : GamesConfig) : Prop :=
  ∀ gameId config, c.getGameConfig gameId = some config → config.gameId = gameId

theorem wellKeyed_empty : WellKeyed {} := by
  intro gameId config h
  cases h

theorem wellKeyed_putGameConfig (h : c.WellKeyed) (config : GameConfigDto) :
    (c.putGameConfig config).WellKeyed := by
  intro gameId config' hc
  have hold : ((c.games.getD ∅).find gameId).join = some config' → config'.gameId = gameId := by
    intro hf
    cases hg : c.games with
    | none =>
      rw [hg, Option.getD_none, UnorderedMap.find_empty] at hf
      cases hf
    | some games =>
      rw [hg, Option.getD_some] at hf
      exact h gameId config' (by simp only [getGameConfig, hg, hf])
  simp only [getGameConfig, putGameConfig, UnorderedMap.find_insertNew] at hc
  cases hf : (c.games.getD ∅).find gameId with
  | some entry =>
    rw [hf, Option.some_or] at hc
    exact hold (by rw [hf]; exact hc)
  | none =>
    rw [hf, Option.none_or] at hc
    split at hc
    · next hk =>
      cases hc
      exact hk.symm
    · cases hc

end GamesConfig

end Helicopter
