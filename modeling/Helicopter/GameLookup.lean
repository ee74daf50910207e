import Helicopter.Registry

/-! `getGameById` answers from `m_games` under the id asked for, and fills it under the
`gameId` of the config that it finds. -/
namespace Helicopter

def Registry.construct (gamesConfig : GamesConfig) : Registry := { gamesConfig := gamesConfig }

/-- Calls of `getGameById`, one after the other: which game each call that found one returned. -/
def Registry.getGames (r : Registry) :
    List (Option String) → List (Option String × GameRef) × Registry
  | [] => ([], r)
  | gameId :: gameIds =>
    let first := r.getGameById gameId
    let rest := first.2.getGames gameIds
    (first.1.toList.map (Prod.mk gameId) ++ rest.1, rest.2)

def Registry.makeGame (r : Registry) (config : GameConfigDto) : Registry :=
  { r with
    games := r.games.insertNew config.gameId r.gameObjects.length
    gameObjects := r.gameObjects ++ [{ config := config }] }

def Registry.configOf (r : Registry) (g : GameRef) : Option GameConfigDto :=
  r.gameObjects[g]?.map Game.config

structure OneGame (gamesConfig : GamesConfig) (found : List (Option String × GameRef))
    (r : Registry) : Prop where
  same : ∀ gameId g g', (gameId, g) ∈ found → (gameId, g') ∈ found → g = g'
  different : ∀ gameId gameId' g, (gameId, g) ∈ found → (gameId', g) ∈ found → gameId = gameId'
  stored : ∀ gameId g, (gameId, g) ∈ found →
    ∃ config, gamesConfig.getGameConfig gameId = some config ∧ r.configOf g = some config

/-- An id that leads to a config of another `gameId` is asked for once, and that other id is
not asked for after it, unless it has a config and has been asked for before. -/
def Unambiguous (gamesConfig : GamesConfig) (gameIds : List (Option String)) : Prop :=
  ∀ u gameId v config, gameIds = u ++ gameId :: v →
    gamesConfig.getGameConfig gameId = some config → config.gameId ≠ gameId →
      gameId ∉ v ∧ (config.gameId ∈ v →
        config.gameId ∈ u ∧ (gamesConfig.getGameConfig config.gameId).isSome)

namespace Registry
variable {r r' : Registry} {gamesConfig : GamesConfig} {gameId : Option String}
  {answer : Option GameRef}

theorem getGames_append (r : Registry) (u v : List (Option String)) :
    r.getGames (u ++ v) = ((r.getGames u).1 ++ ((r.getGames u).2.getGames v).1,
      ((r.getGames u).2.getGames v).2) := by
  induction u generalizing r with
  | nil => rfl
  | cons gameId u ih => simp [getGames, ih]

theorem mem_getGames {u : List (Option String)} {g : GameRef} (v : List (Option String))
    (h : ((r.getGames u).2.getGameById gameId).1 = some g) :
    (gameId, g) ∈ (r.getGames (u ++ gameId :: v)).1 := by
  rw [getGames_append]
  exact List.mem_append_right _ (by simp [getGames, h])

/-- One case for each way `getGameById` returns. -/
inductive Lookup (r : Registry) (gameId : Option String) : Option GameRef → Registry → Prop where
  | hit (g : GameRef) : r.games.find gameId = some g → Lookup r gameId (some g) r
  | constructed (config : GameConfigDto) : r.games.find gameId = none →
    r.gamesConfig.getGameConfig gameId = some config →
    Lookup r gameId (some r.gameObjects.length) (r.makeGame config)
  | notFound : r.games.find gameId = none → r.gamesConfig.getGameConfig gameId = none →
    Lookup r gameId none r

theorem getGameById_cases (r : Registry) (gameId : Option String) :
    Lookup r gameId (r.getGameById gameId).1 (r.getGameById gameId).2 := by
  unfold getGameById
  split
  · next g hg => exact .hit g hg
  · next hnone =>
    split
    · next config hc => exact .constructed config hnone hc
    · next hc => exact .notFound hnone hc

theorem getGameById_hit {g : GameRef} (h : r.games.find gameId = some g) :
    r.getGameById gameId = (some g, r) := by
  simp only [getGameById, h]

theorem getGameById_constructed {config : GameConfigDto} (h : r.games.find gameId = none)
    (hc : r.gamesConfig.getGameConfig gameId = some config) :
    r.getGameById gameId = (some r.gameObjects.length, r.makeGame config) := by
  simp only [getGameById, h, hc, makeGame]

@[simp] theorem configOf_makeGame (r : Registry) (config : GameConfigDto) :
    (r.makeGame config).configOf r.gameObjects.length = some config := by
  simp [makeGame, configOf]

@[simp] theorem length_makeGame (r : Registry) (config : GameConfigDto) :
    (r.makeGame config).gameObjects.length = r.gameObjects.length + 1 := by
  simp [makeGame]

theorem find_makeGame {config : GameConfigDto} {c : Option String} {g : GameRef}
    (h : (r.makeGame config).games.find c = some g) :
    r.games.find c = some g ∨
      (r.games.find c = none ∧ c = config.gameId ∧ g = r.gameObjects.length) := by
  simp only [makeGame, UnorderedMap.find_insertNew] at h
  cases hold : r.games.find c with
  | some g' =>
    rw [hold, Option.some_or] at h
    exact Or.inl h
  | none =>
    rw [hold, Option.none_or] at h
    split at h
    · next hkey =>
      cases h
      exact Or.inr ⟨rfl, hkey, rfl⟩
    · cases h

structure Extends (r r' : Registry) : Prop where
  config : r'.gamesConfig = r.gamesConfig
  games : ∀ c g, r.games.find c = some g → r'.games.find c = some g
  objects : ∀ g config, r.configOf g = some config → r'.configOf g = some config
  length : r.gameObjects.length ≤ r'.gameObjects.length

theorem Extends.trans {r' r'' : Registry} (h : Extends r r') (h' : Extends r' r'') :
    Extends r r'' where
  config := h'.config.trans h.config
  games c g hg := h'.games c g (h.games c g hg)
  objects g config hg := h'.objects g config (h.objects g config hg)
  length := Nat.le_trans h.length h'.length

theorem Lookup.extends (h : Lookup r gameId answer r') : Extends r r' := by
  cases h with
  | hit g hg => exact ⟨rfl, fun _ _ h => h, fun _ _ h => h, Nat.le_refl _⟩
  | notFound hnone hc => exact ⟨rfl, fun _ _ h => h, fun _ _ h => h, Nat.le_refl _⟩
  | constructed config hnone hc =>
    refine ⟨rfl, fun c g hg => UnorderedMap.find_insertNew_of_some _ hg, ?_, by simp⟩
    intro g config' hg
    obtain ⟨game, hgame, -⟩ := Option.map_eq_some_iff.mp hg
    have hlt := (List.getElem?_eq_some_iff.mp hgame).1
    simp only [configOf, makeGame, List.getElem?_append_left hlt]
    exact hg

theorem getGames_extends (r : Registry) (gameIds : List (Option String)) :
    Extends r (r.getGames gameIds).2 := by
  induction gameIds generalizing r with
  | nil => exact ⟨rfl, fun _ _ h => h, fun _ _ h => h, Nat.le_refl _⟩
  | cons gameId gameIds ih => exact (getGameById_cases r gameId).extends.trans (ih _)

structure LookedUp (gamesConfig : GamesConfig) (u : List (Option String))
    (found : List (Option String × GameRef)) (r : Registry) : Prop where
  config : r.gamesConfig = gamesConfig
  cached : ∀ c g, r.games.find c = some g → ∃ gameId config, (gameId, g) ∈ found ∧
    gamesConfig.getGameConfig gameId = some config ∧ config.gameId = c ∧
      r.configOf g = some config
  asked : ∀ gameId g, (gameId, g) ∈ found → gameId ∈ u ∧ g < r.gameObjects.length
  answered : ∀ gameId ∈ u, (gamesConfig.getGameConfig gameId).isSome → ∃ g, (gameId, g) ∈ found

theorem lookedUp_getGameById {u : List (Option String)} {found : List (Option String × GameRef)}
    (h : LookedUp gamesConfig u found r) (hs : Lookup r gameId answer r') :
    LookedUp gamesConfig (u ++ [gameId]) (found ++ answer.toList.map (Prod.mk gameId)) r' := by
  have hext := hs.extends
  cases hs with
  | hit g hg =>
    obtain ⟨maker, config, hmaker, -⟩ := h.cached gameId g hg
    refine ⟨h.config, ?_, ?_, ?_⟩
    · intro c g' hc
      obtain ⟨id, config', hid, hrest⟩ := h.cached c g' hc
      exact ⟨id, config', List.mem_append_left _ hid, hrest⟩
    · intro id g' hid
      obtain hid | hid := List.mem_append.mp hid
      · exact ⟨List.mem_append_left _ (h.asked id g' hid).1, (h.asked id g' hid).2⟩
      · obtain ⟨rfl, rfl⟩ : id = gameId ∧ g' = g := by simpa using hid
        exact ⟨by simp, (h.asked maker g' hmaker).2⟩
    · intro id hid hsome
      obtain hid | hid := List.mem_append.mp hid
      · obtain ⟨g', hg'⟩ := h.answered id hid hsome
        exact ⟨g', List.mem_append_left _ hg'⟩
      · obtain rfl : id = gameId := by simpa using hid
        exact ⟨g, by simp⟩
  | constructed config hnone hc =>
    rw [h.config] at hc
    refine ⟨h.config, ?_, ?_, ?_⟩
    · intro c g' hg'
      obtain hold | ⟨-, rfl, rfl⟩ := find_makeGame hg'
      · obtain ⟨id, config', hid, hstored, hkey, hobj⟩ := h.cached c g' hold
        exact ⟨id, config', List.mem_append_left _ hid, hstored, hkey, hext.objects _ _ hobj⟩
      · exact ⟨gameId, config, by simp, hc, rfl, configOf_makeGame r config⟩
    · intro id g' hid
      rw [length_makeGame]
      obtain hid | hid := List.mem_append.mp hid
      · have hlt := (h.asked id g' hid).2
        exact ⟨List.mem_append_left _ (h.asked id g' hid).1, Nat.lt_add_right _ hlt⟩
      · obtain ⟨rfl, rfl⟩ : id = gameId ∧ g' = r.gameObjects.length := by simpa using hid
        exact ⟨by simp, by simp⟩
    · intro id hid hsome
      obtain hid | hid := List.mem_append.mp hid
      · obtain ⟨g', hg'⟩ := h.answered id hid hsome
        exact ⟨g', List.mem_append_left _ hg'⟩
      · obtain rfl : id = gameId := by simpa using hid
        exact ⟨r.gameObjects.length, by simp⟩
  | notFound hnone hc =>
    rw [h.config] at hc
    simp only [Option.toList_none, List.map_nil, List.append_nil]
    refine ⟨h.config, h.cached, ?_, ?_⟩
    · intro id g' hid
      exact ⟨List.mem_append_left _ (h.asked id g' hid).1, (h.asked id g' hid).2⟩
    · intro id hid hsome
      obtain hid | hid := List.mem_append.mp hid
      · exact h.answered id hid hsome
      · obtain rfl : id = gameId := by simpa using hid
        rw [hc] at hsome
        cases hsome

theorem lookedUp_getGames {u : List (Option String)} {found : List (Option String × GameRef)}
    (h : LookedUp gamesConfig u found r) (v : List (Option String)) :
    LookedUp gamesConfig (u ++ v) (found ++ (r.getGames v).1) (r.getGames v).2 := by
  induction v generalizing u found r with
  | nil => simpa [getGames] using h
  | cons gameId v ih =>
    have hnext := ih (lookedUp_getGameById h (getGameById_cases r gameId))
    simpa [getGames] using hnext

theorem lookedUp_construct (gamesConfig : GamesConfig) (u : List (Option String)) :
    LookedUp gamesConfig u ((construct gamesConfig).getGames u).1
      ((construct gamesConfig).getGames u).2 := by
  have hnew : LookedUp gamesConfig [] [] (construct gamesConfig) := by
    refine ⟨rfl, ?_, by simp, by simp⟩
    intro c g hg
    simp [construct] at hg
  simpa using lookedUp_getGames hnew u

structure Sole (gamesConfig : GamesConfig) (u v : List (Option String))
    (found : List (Option String × GameRef)) (r : Registry) : Prop
    extends LookedUp gamesConfig u found r, OneGame gamesConfig found r where
  maker : ∀ c g, r.games.find c = some g → ∃ gameId, (gameId, g) ∈ found ∧ (gameId = c ∨ c ∉ v)
  again : ∀ gameId g, (gameId, g) ∈ found → gameId ∉ v ∨ r.games.find gameId = some g

/-- A call that makes no game and returns none that was not returned before. -/
theorem sole_found {u v : List (Option String)} {found : List (Option String × GameRef)}
    (h : Sole gamesConfig u (gameId :: v) found r)
    (hlooked : LookedUp gamesConfig (u ++ [gameId]) (found ++ answer.toList.map (Prod.mk gameId)) r)
    (hsub : found ++ answer.toList.map (Prod.mk gameId) ⊆ found) :
    Sole gamesConfig (u ++ [gameId]) v (found ++ answer.toList.map (Prod.mk gameId)) r := by
  have hlater : ∀ {c : Option String}, c ∉ gameId :: v → c ∉ v :=
    fun hc hm => hc (List.mem_cons_of_mem _ hm)
  refine ⟨hlooked, ⟨?_, ?_, ?_⟩, ?_, ?_⟩
  · exact fun id g g' hg hg' => h.same id g g' (hsub hg) (hsub hg')
  · exact fun id id' g hg hg' => h.different id id' g (hsub hg) (hsub hg')
  · exact fun id g hg => h.stored id g (hsub hg)
  · intro c g hc
    obtain ⟨id, hid, hor⟩ := h.maker c g hc
    exact ⟨id, List.mem_append_left _ hid, hor.imp_right hlater⟩
  · exact fun id g hid => (h.again id g (hsub hid)).imp_left hlater

/-- No call returned the new game or was made with its id. -/
theorem oneGame_makeGame {u v : List (Option String)} {found : List (Option String × GameRef)}
    {config : GameConfigDto} (h : Sole gamesConfig u (gameId :: v) found r)
    (hnone : r.games.find gameId = none)
    (hc : gamesConfig.getGameConfig gameId = some config) (hext : Extends r (r.makeGame config)) :
    OneGame gamesConfig (found ++ [(gameId, r.gameObjects.length)]) (r.makeGame config) := by
  have hfresh : ∀ g, (gameId, g) ∉ found := by
    intro g hg
    obtain hv | hf := h.again gameId g hg
    · simp at hv
    · rw [hnone] at hf
      cases hf
  have hnew : ∀ id, (id, r.gameObjects.length) ∉ found :=
    fun id hid => Nat.lt_irrefl _ (h.asked id _ hid).2
  have hmem : ∀ {id : Option String} {g : GameRef},
      (id, g) ∈ found ++ [(gameId, r.gameObjects.length)] →
        (id, g) ∈ found ∨ (id = gameId ∧ g = r.gameObjects.length) := by
    intro id g hid
    simpa using hid
  refine ⟨?_, ?_, ?_⟩
  · intro id g g' hg hg'
    obtain hg | ⟨rfl, rfl⟩ := hmem hg
    · obtain hg' | ⟨hid, -⟩ := hmem hg'
      · exact h.same id g g' hg hg'
      · exact absurd (hid ▸ hg) (hfresh g)
    · obtain hg' | ⟨-, hnew'⟩ := hmem hg'
      · exact absurd hg' (hfresh g')
      · exact hnew'.symm
  · intro id id' g hg hg'
    obtain hg | ⟨rfl, rfl⟩ := hmem hg
    · obtain hg' | ⟨-, hnew'⟩ := hmem hg'
      · exact h.different id id' g hg hg'
      · exact absurd (hnew' ▸ hg) (hnew id)
    · obtain hg' | ⟨hid, -⟩ := hmem hg'
      · exact absurd hg' (hnew id')
      · exact hid.symm
  · intro id g hg
    obtain hg | ⟨rfl, rfl⟩ := hmem hg
    · obtain ⟨config', hc', hobj⟩ := h.stored id g hg
      exact ⟨config', hc', hext.objects g config' hobj⟩
    · exact ⟨config, hc, configOf_makeGame r config⟩

theorem sole_getGameById {u v : List (Option String)} {found : List (Option String × GameRef)}
    (h : Sole gamesConfig u (gameId :: v) found r) (hs : Lookup r gameId answer r')
    (hgood : ∀ config, gamesConfig.getGameConfig gameId = some config → config.gameId ≠ gameId →
      gameId ∉ v ∧ (config.gameId ∈ v →
        config.gameId ∈ u ∧ (gamesConfig.getGameConfig config.gameId).isSome)) :
    Sole gamesConfig (u ++ [gameId]) v (found ++ answer.toList.map (Prod.mk gameId)) r' := by
  have hlooked := lookedUp_getGameById h.toLookedUp hs
  have hext := hs.extends
  have hlater : ∀ {c : Option String}, c ∉ gameId :: v → c ∉ v :=
    fun hc hm => hc (List.mem_cons_of_mem _ hm)
  cases hs with
  | hit g hg =>
    refine sole_found h hlooked ?_
    obtain ⟨id, hid, hor⟩ := h.maker gameId g hg
    obtain rfl : id = gameId := by simpa using hor
    simpa using hid
  | notFound hnone hc => exact sole_found h hlooked (by simp)
  | constructed config hnone hc =>
    rw [h.config] at hc
    refine ⟨hlooked, oneGame_makeGame h hnone hc hext, ?_, ?_⟩
    · intro c g hg
      obtain hold | ⟨hold, rfl, rfl⟩ := find_makeGame hg
      · obtain ⟨id, hid, hor⟩ := h.maker c g hold
        exact ⟨id, List.mem_append_left _ hid, hor.imp_right hlater⟩
      · refine ⟨gameId, by simp, ?_⟩
        by_cases hown : config.gameId = gameId
        · exact Or.inl hown.symm
        · right
          intro hlate
          -- the other id has been asked for, so it has its own game already
          obtain ⟨hu, hsome⟩ := (hgood config hc hown).2 hlate
          obtain ⟨g', hg'⟩ := h.answered _ hu hsome
          obtain hv | hf := h.again _ g' hg'
          · exact hlater hv hlate
          · rw [hold] at hf
            cases hf
    · intro id g hg
      obtain hg | ⟨rfl, rfl⟩ : (id, g) ∈ found ∨ (id = gameId ∧ g = r.gameObjects.length) := by
        simpa using hg
      · exact (h.again id g hg).imp hlater (UnorderedMap.find_insertNew_of_some _)
      · by_cases hown : config.gameId = id
        · right
          rw [makeGame, hown]
          exact UnorderedMap.find_insertNew_self _ hnone
        · exact Or.inl (hgood config hc hown).1

theorem sole_getGames {u : List (Option String)} {found : List (Option String × GameRef)}
    (v : List (Option String)) (h : Sole gamesConfig u v found r)
    (hgood : Unambiguous gamesConfig (u ++ v)) :
    Sole gamesConfig (u ++ v) [] (found ++ (r.getGames v).1) (r.getGames v).2 := by
  induction v generalizing u found r with
  | nil => simpa [getGames] using h
  | cons gameId v ih =>
    have hfirst := sole_getGameById h (getGameById_cases r gameId)
      (fun config => hgood u gameId v config rfl)
    have hrest := ih hfirst (by simpa using hgood)
    simpa [getGames] using hrest

theorem oneGame_of_unambiguous {gameIds : List (Option String)}
    (hgood : Unambiguous gamesConfig gameIds) :
    OneGame gamesConfig ((construct gamesConfig).getGames gameIds).1
      ((construct gamesConfig).getGames gameIds).2 := by
  have hnew : Sole gamesConfig [] gameIds [] (construct gamesConfig) := by
    refine ⟨lookedUp_construct gamesConfig [], ⟨by simp, by simp, by simp⟩, ?_, by simp⟩
    intro c g hg
    simp [construct] at hg
  have hall := sole_getGames gameIds hnew hgood
  simpa using hall.toOneGame

/-- Where there is one game for an id, asking for an id whose config has another `gameId`
makes a new `Game`: what is cached under an id carries that id. -/
theorem find_none_of_oneGame {u v : List (Option String)} {config : GameConfigDto}
    (h : OneGame gamesConfig ((construct gamesConfig).getGames (u ++ gameId :: v)).1
      ((construct gamesConfig).getGames (u ++ gameId :: v)).2)
    (hc : gamesConfig.getGameConfig gameId = some config) (hother : config.gameId ≠ gameId) :
    ((construct gamesConfig).getGames u).2.games.find gameId = none := by
  by_contra hhit
  obtain ⟨g, hg⟩ := Option.ne_none_iff_exists'.mp hhit
  obtain ⟨id, config', -, -, hkey, hobj⟩ := (lookedUp_construct gamesConfig u).cached gameId g hg
  obtain ⟨config'', hc'', hobj'⟩ := h.stored gameId g
    (mem_getGames v (by rw [getGameById_hit hg]))
  have hkept := (getGames_extends ((construct gamesConfig).getGames u).2
    (gameId :: v)).objects g config' hobj
  rw [getGames_append, hkept, Option.some.injEq] at hobj'
  rw [hc, Option.some.injEq] at hc''
  exact hother (by rw [hc'', ← hobj', hkey])

theorem unambiguous_of_oneGame {gameIds : List (Option String)}
    (h : OneGame gamesConfig ((construct gamesConfig).getGames gameIds).1
      ((construct gamesConfig).getGames gameIds).2) : Unambiguous gamesConfig gameIds := by
  intro u gameId v config hsplit hc hother
  subst hsplit
  have hlooked := lookedUp_construct gamesConfig u
  have hnone := find_none_of_oneGame h hc hother
  have hmade := getGameById_constructed hnone (by rw [hlooked.config]; exact hc)
  have hfirst := mem_getGames v (by rw [hmade])
  -- the state in which a call for `c` of `v` is made
  have hlater : ∀ v₁, Extends (((construct gamesConfig).getGames u).2.getGameById gameId).2
      ((construct gamesConfig).getGames (u ++ gameId :: v₁)).2 := by
    intro v₁
    rw [getGames_append]
    exact getGames_extends _ v₁
  constructor
  · intro hv
    obtain ⟨v₁, v₂, rfl⟩ := List.append_of_mem hv
    have hsplit : u ++ gameId :: (v₁ ++ gameId :: v₂) =
        (u ++ gameId :: v₁) ++ gameId :: v₂ := by simp
    rw [hsplit] at h hfirst
    have hlooked' := lookedUp_construct gamesConfig (u ++ gameId :: v₁)
    have hnone' := find_none_of_oneGame h hc hother
    have hmade' := getGameById_constructed hnone' (by rw [hlooked'.config]; exact hc)
    have hsecond := mem_getGames v₂ (by rw [hmade'])
    have hsame := h.same gameId _ _ hfirst hsecond
    have hlength := (hlater v₁).length
    rw [hmade, ← hsame, length_makeGame] at hlength
    exact absurd hlength (Nat.not_succ_le_self _)
  · intro hv
    obtain ⟨v₁, v₂, rfl⟩ := List.append_of_mem hv
    have hsplit : u ++ gameId :: (v₁ ++ config.gameId :: v₂) =
        (u ++ gameId :: v₁) ++ config.gameId :: v₂ := by simp
    rw [hsplit] at h hfirst
    have hcached : ∀ g, (((construct gamesConfig).getGames u).2.getGameById gameId).2.games.find
        config.gameId = some g → (config.gameId, g) ∈
          ((construct gamesConfig).getGames ((u ++ gameId :: v₁) ++ config.gameId :: v₂)).1 := by
      intro g hg
      have hfind := (hlater v₁).games _ g hg
      exact mem_getGames v₂ (by rw [getGameById_hit hfind])
    cases hold : ((construct gamesConfig).getGames u).2.games.find config.gameId with
    | none =>
      have hown := hcached ((construct gamesConfig).getGames u).2.gameObjects.length
        (by rw [hmade]; exact UnorderedMap.find_insertNew_self _ hold)
      exact absurd (h.different _ _ _ hown hfirst) hother
    | some g =>
      have hown := hcached g (by rw [hmade]; exact UnorderedMap.find_insertNew_of_some _ hold)
      obtain ⟨maker, config', hmaker, hstored, -⟩ := hlooked.cached _ g hold
      have hfound : (maker, g) ∈ ((construct gamesConfig).getGames
          ((u ++ gameId :: v₁) ++ config.gameId :: v₂)).1 := by
        rw [List.append_assoc, getGames_append]
        exact List.mem_append_left _ hmaker
      obtain rfl := h.different _ _ _ hfound hown
      exact ⟨(hlooked.asked _ g hmaker).1, by rw [hstored]; rfl⟩

/-- Any calls at all find one game for an id exactly when each id leads to a config of that
id, which holds of all that `putGameConfig` can build. -/
theorem one_game_per_id_iff (gamesConfig : GamesConfig) :
    (∀ gameIds, OneGame gamesConfig ((construct gamesConfig).getGames gameIds).1
      ((construct gamesConfig).getGames gameIds).2 ↔ Unambiguous gamesConfig gameIds) ∧
    ((∀ gameIds, OneGame gamesConfig ((construct gamesConfig).getGames gameIds).1
      ((construct gamesConfig).getGames gameIds).2) ↔ gamesConfig.WellKeyed) := by
  have hiff : ∀ gameIds, OneGame gamesConfig ((construct gamesConfig).getGames gameIds).1
      ((construct gamesConfig).getGames gameIds).2 ↔ Unambiguous gamesConfig gameIds :=
    fun gameIds => ⟨unambiguous_of_oneGame, oneGame_of_unambiguous⟩
  refine ⟨hiff, ?_, ?_⟩
  · intro h gameId config hc
    by_contra hother
    have htwice := (hiff [gameId, gameId]).mp (h [gameId, gameId])
    exact (htwice [] gameId [gameId] config rfl hc hother).1 List.mem_cons_self
  · intro hw gameIds
    refine (hiff gameIds).mpr ?_
    intro u gameId v config hsplit hc hother
    exact absurd (hw gameId config hc) hother

/-- Configs that have only been put are found one game for an id. -/
theorem oneGame_putGameConfig (configs : List GameConfigDto) (gameIds : List (Option String)) :
    OneGame (configs.foldl GamesConfig.putGameConfig {})
      ((construct (configs.foldl GamesConfig.putGameConfig {})).getGames gameIds).1
      ((construct (configs.foldl GamesConfig.putGameConfig {})).getGames gameIds).2 := by
  have hw : (configs.foldl GamesConfig.putGameConfig {}).WellKeyed := by
    refine List.foldlRecOn configs _ GamesConfig.wellKeyed_empty ?_
    intro c h config _
    exact GamesConfig.wellKeyed_putGameConfig h config
  apply oneGame_of_unambiguous
  intro u gameId v config hsplit hc hother
  exact absurd (hw gameId config hc) hother

/-- The file `{"a": {"gameId": "b"}}`. -/
def misfiled : GamesConfig :=
  ⟨some ((∅ : UnorderedMap _ _).insertNew (some "a") (some { gameId := some "b" }))⟩

/-- Two players who name the game `a` are sent to two tables of sessions. -/
theorem two_games_for_one_id :
    ((construct misfiled).getGames [some "a", some "a"]).1 = [(some "a", 0), (some "a", 1)] ∧
    ¬ OneGame misfiled ((construct misfiled).getGames [some "a", some "a"]).1
      ((construct misfiled).getGames [some "a", some "a"]).2 := by
  have hfound : ((construct misfiled).getGames [some "a", some "a"]).1 =
      [(some "a", 0), (some "a", 1)] := by decide
  refine ⟨hfound, ?_⟩
  intro h
  have hsame := h.same (some "a") 0 1 (by rw [hfound]; simp) (by rw [hfound]; simp)
  cases hsame

end Registry
end Helicopter
