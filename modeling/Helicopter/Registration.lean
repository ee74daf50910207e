import Helicopter.Identity
import Helicopter.GameLookup

/-! Which sessions are registered with their game while there are peers in them. A session is
found, entered and deleted in sections of their own. -/
namespace Helicopter
open Interleaving

namespace Session
variable {s s' : Session} {es : List Event}

/-- The step runs the locked section of `addPeer`. -/
def adds (s : Session) : Op → Prop
  | .advance i _ => ∃ p, s.objects[i]? = some p ∧ p.task = .adding
  | _ => False

theorem adds_advance_iff {i : PeerRef} {c : Nat} :
    s.adds (.advance i c) ↔
      ((s.objects[i]?).any fun p => p.task.stage == .coming) = true := by
  simp only [adds, Option.any_eq_true]
  refine exists_congr fun p => and_congr_right fun _ => ?_
  cases p.task <;> simp [Task.stage]

instance (s : Session) : ∀ a, Decidable (s.adds a)
  | .advance _ _ => decidable_of_iff _ adds_advance_iff.symm
  | .findSession | .newPeer _ | .handle _ _ _ | .close _ | .tick _ _ => isFalse not_false

/-- No other section puts an entry into the map. -/
theorem find_of_not_adds {a : Op} (hs : s.step a = some (s', es)) (hno : ¬ s.adds a) {k : Int}
    {i : PeerRef} (hk : s'.peers.find k = some i) : s.peers.find k = some i := by
  have hsame : s'.peers = s.peers → s.peers.find k = some i := by
    intro hp
    rw [← hp]
    exact hk
  cases step_cases hs with
  | findSession => exact hsame rfl
  | newPeer l isHost hl => exact hsame rfl
  | advance j p c s' es hp ha =>
    cases ha with
    | add ht hm => exact absurd ⟨p, hp, ht⟩ hno
    | remove ht hm =>
      rw [removePeerById_fst] at hk
      change (s.peers.eraseKey p.peerId).find k = some i at hk
      rw [UnorderedMap.find_eraseKey] at hk
      split at hk
      · cases hk
      · exact hk
    | _ => exact hsame rfl
  | handle j p message now s₁ task es hp ht hr =>
    have hpeers : s₁.peers = s.peers := (reacts_frame hr).2.1
    exact hsame hpeers
  | close j p hp ht => exact hsame rfl
  | tick c now s' es ht => cases ht <;> exact hsame rfl

theorem nonempty_of_find {k : Int} {i : PeerRef} (h : s.peers.find k = some i) :
    s.peers.isEmpty = false := by
  by_contra he
  have hnone := UnorderedMap.isEmpty_iff.mp (by simpa using he) k
  rw [h] at hnone
  cases hnone

theorem find_of_nonempty (h : s.peers.isEmpty = false) : ∃ k i, s.peers.find k = some i := by
  by_contra hno
  have he : s.peers.isEmpty = true := by
    rw [UnorderedMap.isEmpty_iff]
    intro k
    by_contra hne
    obtain ⟨i, hi⟩ := Option.ne_none_iff_exists'.mp hne
    exact hno ⟨k, i, hi⟩
  rw [h] at he
  cases he

theorem nonempty_of_adds {a : Op} (hs : s.step a = some (s', es)) (h : s.adds a) :
    s'.peers.isEmpty = false := by
  cases a with
  | advance i c =>
    obtain ⟨p, hp, ht⟩ := h
    rw [(step_add hp ht hs).1, addPeer_fst]
    change (s.peers.insertNew p.peerId i).isEmpty = false
    by_contra he
    have hnone := UnorderedMap.isEmpty_iff.mp (by simpa using he) p.peerId
    rw [UnorderedMap.find_insertNew, if_pos rfl] at hnone
    cases hf : s.peers.find p.peerId <;> simp [hf] at hnone
  | _ => exact h.elim

theorem nonempty_before {a : Op} (hs : s.step a = some (s', es)) (hno : ¬ s.adds a)
    (h : s'.peers.isEmpty = false) : s.peers.isEmpty = false := by
  obtain ⟨k, i, hk⟩ := find_of_nonempty h
  exact nonempty_of_find (find_of_not_adds hs hno hk)

end Session

namespace Room
variable {r r' : Room} {es : List Event}

theorem step_static {a : Op} (hs : r.step a = some (r', es)) :
    r'.session.id = r.session.id ∧ r'.session.config = r.session.config := by
  obtain ⟨b, -, hb⟩ | ⟨-, hsame, -⟩ := step_session hs
  · obtain ⟨hid, hc, -⟩ := Session.step_static hb
    exact ⟨hid, hc⟩
  · rw [hsame]
    exact ⟨rfl, rfl⟩

def adds (r : Room) : Op → Prop
  | .session a => r.session.adds a
  | _ => False

instance (r : Room) : ∀ a, Decidable (r.adds a)
  | .session a => inferInstanceAs (Decidable (r.session.adds a))
  | .act _ _ | .send _ _ _ => isFalse not_false

def occupied (r : Room) : Prop := r.session.peers.isEmpty = false

theorem occupied_of_adds {a : Op} (hs : r.step a = some (r', es)) (h : r.adds a) :
    r'.occupied := by
  obtain ⟨b, rfl, hb⟩ | ⟨hno, -, -⟩ := step_session hs
  · exact Session.nonempty_of_adds hb h
  · cases a with
    | session b => exact absurd rfl (hno b)
    | _ => exact h.elim

theorem occupied_before {a : Op} (hs : r.step a = some (r', es)) (hno : ¬ r.adds a)
    (h : r'.occupied) : r.occupied := by
  obtain ⟨b, rfl, hb⟩ | ⟨-, hsame, -⟩ := step_session hs
  · exact Session.nonempty_before hb hno h
  · unfold occupied at h ⊢
    rw [hsame] at h
    exact h

end Room

namespace Registry
variable {r r' : Registry} {t es : List Event} {k : RoomRef} {h : Hosted} {g g' : GameRef}
  {sessionId sessionId' : String} {game game' : Game}

def lookup (r : Registry) (g : GameRef) (sessionId : String) : Option RoomRef :=
  (r.gameObjects[g]?).bind fun game => game.sessions.find sessionId

theorem lookup_of_game (hg : r.gameObjects[g]? = some game) (sessionId : String) :
    r.lookup g sessionId = game.sessions.find sessionId := by
  rw [lookup, hg]
  rfl

theorem lookup_setGame (hg : r.gameObjects[g]? = some game) (game' : Game) (g' : GameRef)
    (sessionId : String) : (r.setGame g game').lookup g' sessionId =
      if g' = g then game'.sessions.find sessionId else r.lookup g' sessionId := by
  have hlt := (List.getElem?_eq_some_iff.mp hg).1
  unfold lookup setGame
  by_cases hgg : g' = g
  · subst hgg
    simp [List.getElem?_set_self hlt]
  · rw [if_neg hgg, List.getElem?_set_ne (Ne.symm hgg)]

theorem sessions_startPinger (game : Game) : game.startPinger.sessions = game.sessions := by
  unfold Game.startPinger
  split <;> rfl

theorem lookup_newGame (games : UnorderedMap (Option String) GameRef) (config : GameConfigDto)
    (g : GameRef) (sessionId : String) :
    lookup { r with games := games, gameObjects := r.gameObjects ++ [{ config := config }] }
      g sessionId = r.lookup g sessionId := by
  unfold lookup
  simp only [List.getElem?_append]
  split
  · rfl
  · next hlt =>
    rw [List.getElem?_eq_none_iff.mpr (show r.gameObjects.length ≤ g by omega)]
    cases hn : [({ config := config } : Game)][g - r.gameObjects.length]? with
    | none => rfl
    | some game =>
      have hmem := List.mem_of_getElem? hn
      simp only [List.mem_singleton] at hmem
      subst hmem
      exact UnorderedMap.find_empty sessionId

theorem lookup_created (hg : r.gameObjects[g]? = some game)
    (hf : game.sessions.find sessionId = none) (k : RoomRef) (rooms : List Hosted)
    (g' : GameRef) (sessionId' : String) :
    lookup { r.setGame g (Game.startPinger
        { game with sessions := game.sessions.insertNew sessionId k }) with rooms := rooms }
      g' sessionId' =
        if g' = g ∧ sessionId' = sessionId then some k else r.lookup g' sessionId' := by
  refine (lookup_setGame hg _ g' sessionId').trans ?_
  rw [sessions_startPinger]
  by_cases hgg : g' = g
  · subst hgg
    rw [if_pos rfl]
    by_cases hs : sessionId' = sessionId
    · subst hs
      rw [if_pos ⟨rfl, rfl⟩]
      exact UnorderedMap.find_insertNew_self k hf
    · rw [if_neg fun h => hs h.2, lookup_of_game hg]
      exact UnorderedMap.find_insertNew_ne k hs
  · rw [if_neg hgg, if_neg fun h => hgg h.1]

theorem lookup_deleted (hg : r.gameObjects[g]? = some game) (sessionId : String) (g' : GameRef)
    (sessionId' : String) :
    (r.setGame g { game with sessions := game.sessions.eraseKey sessionId }).lookup g' sessionId' =
      if g' = g ∧ sessionId' = sessionId then none else r.lookup g' sessionId' := by
  rw [lookup_setGame hg]
  by_cases hgg : g' = g
  · subst hgg
    rw [if_pos rfl, lookup_of_game hg]
    show (game.sessions.eraseKey sessionId).find sessionId' = _
    rw [UnorderedMap.find_eraseKey]
    by_cases hs : sessionId' = sessionId
    · rw [if_pos hs, if_pos ⟨rfl, hs⟩]
    · rw [if_neg hs, if_neg fun h => hs h.2]
  · rw [if_neg hgg, if_neg fun h => hgg h.1]

theorem lookup_pingers (hg : r.gameObjects[g]? = some game) (pingers : List Pinger)
    (active : Bool) (g' : GameRef) (sessionId' : String) :
    (r.setGame g { game with pingers := pingers, isPingerActive := active }).lookup g' sessionId' =
      r.lookup g' sessionId' := by
  rw [lookup_setGame hg]
  by_cases hgg : g' = g
  · subst hgg
    rw [if_pos rfl, lookup_of_game hg]
  · rw [if_neg hgg]

def Registered (r : Registry) (k : RoomRef) (h : Hosted) : Prop :=
  r.lookup h.game h.room.session.id = some k

def OccupiedRegistered (r : Registry) : Prop :=
  ∀ (k : RoomRef) (h : Hosted), r.rooms[k]? = some h → h.room.occupied → r.Registered k h

def InTime (r : Registry) : Op → Prop
  | .stepRoom k a => ∀ h : Hosted, r.rooms[k]? = some h → h.room.adds a → r.Registered k h
  | .deleteSession g sessionId => ∀ (k : RoomRef) (h : Hosted), r.lookup g sessionId = some k →
    r.rooms[k]? = some h → ¬ h.room.occupied
  | _ => True

instance (r : Registry) : ∀ op, Decidable (r.InTime op)
  | .stepRoom k a => inferInstanceAs (Decidable (∀ h ∈ r.rooms[k]?, h.room.adds a →
    r.lookup h.game h.room.session.id = some k))
  | .deleteSession g sessionId => decidable_of_iff (∀ k ∈ r.lookup g sessionId,
    ∀ h ∈ r.rooms[k]?, ¬ h.room.session.peers.isEmpty = false)
    ⟨fun h k h' hk hr => h k hk h' hr, fun h k hk h' hr => h k h' hk hr⟩
  | .getGameById _ | .createNewSession _ _ | .setPingers _ _ _ => isTrue trivial

def Tables (r : Registry) : Prop :=
  ∀ g sessionId k, r.lookup g sessionId = some k →
    ∃ h, r.rooms[k]? = some h ∧ h.game = g ∧ h.room.session.id = sessionId

theorem tables_of_lookup (h : r.Tables)
    (hl : ∀ g sessionId k, r'.lookup g sessionId = some k → r.lookup g sessionId = some k)
    (hr : r'.rooms = r.rooms) : r'.Tables := by
  intro g sessionId k hk
  rw [hr]
  exact h g sessionId k (hl g sessionId k hk)

theorem step_tables {op : Op} (h : r.Tables) (hs : r.step op = some (r', es)) : r'.Tables := by
  cases step_cases hs with
  | idle gameId => exact h
  | refused g sessionId => exact h
  | newGame gameId config hf hc =>
    refine tables_of_lookup h ?_ rfl
    intro g sessionId k hk
    rwa [lookup_newGame] at hk
  | pingers g game pingers active hg =>
    refine tables_of_lookup h ?_ rfl
    intro g' sessionId k hk
    rwa [lookup_pingers hg] at hk
  | deleted g sessionId game hg =>
    refine tables_of_lookup h ?_ rfl
    intro g' sessionId' k hk
    rw [lookup_deleted hg] at hk
    split at hk
    · cases hk
    · exact hk
  | created g sessionId game hg hf =>
    intro g' sessionId' k hk
    rw [lookup_created hg hf] at hk
    split at hk
    · next heq =>
      cases hk
      exact ⟨_, List.getElem?_concat_length, heq.1.symm, heq.2.symm⟩
    · obtain ⟨hosted, hr, hgame⟩ := h g' sessionId' k hk
      have hlt := (List.getElem?_eq_some_iff.mp hr).1
      exact ⟨hosted, (List.getElem?_append_left hlt).trans hr, hgame⟩
  | room j a hosted room fs hj hst =>
    intro g' sessionId' k hk
    obtain ⟨hosted', hr, hgame, hid⟩ := h g' sessionId' k hk
    have hlt := (List.getElem?_eq_some_iff.mp hr).1
    by_cases hkj : k = j
    · subst hkj
      rw [hj] at hr
      cases hr
      exact ⟨_, List.getElem?_set_self hlt, hgame, (Room.step_static hst).1.trans hid⟩
    · exact ⟨hosted', (List.getElem?_set_ne (Ne.symm hkj)).trans hr, hgame, hid⟩

/-- A step in time leaves no occupied session unregistered. -/
theorem step_occupiedRegistered {op : Op} (h : r.OccupiedRegistered) (hin : r.InTime op)
    (hs : r.step op = some (r', es)) : r'.OccupiedRegistered := by
  intro k hosted hk hocc
  unfold Registered
  cases step_cases hs with
  | idle gameId => exact h k hosted hk hocc
  | refused g sessionId => exact h k hosted hk hocc
  | newGame gameId config hf hc =>
    rw [lookup_newGame]
    exact h k hosted hk hocc
  | pingers g game pingers active hg =>
    rw [lookup_pingers hg]
    exact h k hosted hk hocc
  | deleted g sessionId game hg =>
    have hreg : r.lookup hosted.game hosted.room.session.id = some k := h k hosted hk hocc
    rw [lookup_deleted hg, if_neg, hreg]
    rintro ⟨hgame, hid⟩
    rw [hgame, hid] at hreg
    exact hin k hosted hreg hk hocc
  | created g sessionId game hg hf =>
    rw [lookup_created hg hf]
    simp only [List.getElem?_append] at hk
    split at hk
    · have hreg : r.lookup hosted.game hosted.room.session.id = some k := h k hosted hk hocc
      rw [if_neg, hreg]
      rintro ⟨hgame, hid⟩
      rw [hgame, hid, lookup_of_game hg, hf] at hreg
      cases hreg
    · have hmem := List.mem_of_getElem? hk
      simp only [List.mem_singleton] at hmem
      subst hmem
      cases hocc
  | room j a hosted₀ room fs hj hst =>
    have hlt := (List.getElem?_eq_some_iff.mp hj).1
    change r.lookup hosted.game hosted.room.session.id = some k
    by_cases hkj : k = j
    · subst hkj
      simp only [List.getElem?_set_self hlt, Option.some.injEq] at hk
      subst hk
      show r.lookup hosted₀.game room.session.id = some k
      rw [(Room.step_static hst).1]
      by_cases ha : hosted₀.room.adds a
      · exact hin hosted₀ hj ha
      · exact h k hosted₀ hj (Room.occupied_before hst ha hocc)
    · simp only [List.getElem?_set_ne (Ne.symm hkj)] at hk
      exact h k hosted hk hocc

/-- A step that is not in time leaves an occupied session unregistered. -/
theorem not_occupiedRegistered {op : Op} (h : r.Tables) (hin : ¬ r.InTime op)
    (hs : r.step op = some (r', es)) : ¬ r'.OccupiedRegistered := by
  intro hall
  apply hin
  cases step_cases hs with
  | room k a hosted room fs hk hst =>
    intro hosted' hk' ha
    rw [hk] at hk'
    cases hk'
    have hlt := (List.getElem?_eq_some_iff.mp hk).1
    have hreg := hall k _ (List.getElem?_set_self hlt) (Room.occupied_of_adds hst ha)
    unfold Registered at hreg
    simp only [(Room.step_static hst).1] at hreg
    exact hreg
  | deleted g sessionId game hg =>
    intro k hosted hl hk hocc
    obtain ⟨hosted', hk', hgame, hid⟩ := h g sessionId k hl
    rw [hk] at hk'
    cases hk'
    have hreg := hall k hosted hk hocc
    unfold Registered at hreg
    rw [lookup_deleted hg, if_pos ⟨hgame, hid⟩] at hreg
    cases hreg
  | _ => trivial

end Registry
namespace System
variable {gamesConfig : GamesConfig} {s s' : System} {t es : List Event}

/-- `addPeer` runs while its session is registered with its game, and `deleteSession` while
there is no peer in the session that it deletes. -/
def InTime (s : System) (a : Op) : Prop := ∀ op, s.section? a = some op → s.registry.InTime op

instance (s : System) (a : Op) : Decidable (s.InTime a) :=
  inferInstanceAs (Decidable (∀ op ∈ s.section? a, s.registry.InTime op))

theorem inTime_of_quiet {r : Registry} {op : Registry.Op} (h : Quiet op) : r.InTime op := by
  cases op with
  | stepRoom k b =>
    intro hosted hk ha
    cases b with
    | session b =>
      cases b with
      | advance i c => cases h
      | _ => exact ha.elim
    | _ => exact ha.elim
  | deleteSession g sessionId => exact h.elim
  | _ => trivial

theorem step_occupiedRegistered {a : Op} (h : s.registry.OccupiedRegistered) (hin : s.InTime a)
    (hs : s.step a = some (s', es)) : s'.registry.OccupiedRegistered := by
  obtain ⟨w, hw, hsec⟩ := step_sections hs
  split at hsec
  · next op hop =>
    subst hsec
    obtain ⟨r, fs, hst, hr⟩ := run_cons_some hw
    simp only [List.nil_append, Machine.run, Option.some.injEq, Prod.mk.injEq] at hr
    rw [← hr.2]
    exact Registry.step_occupiedRegistered h (hin op hop) hst
  · refine run_invariant_along (M := Registry.machine) (C := fun _ _ op => Quiet op)
      (I := fun _ r => r.OccupiedRegistered) ?_ h (along_of_forall fun op hop _ _ => hsec op hop) hw
    intro t r op r' fs hr hq hst
    exact Registry.step_occupiedRegistered hr (inTime_of_quiet hq) hst

theorem not_occupiedRegistered {a : Op} (h : s.registry.Tables) (hin : ¬ s.InTime a)
    (hs : s.step a = some (s', es)) : ¬ s'.registry.OccupiedRegistered := by
  unfold InTime at hin
  obtain ⟨op, hop⟩ := not_forall.mp hin
  obtain ⟨hop, hno⟩ := Classical.not_imp.mp hop
  obtain ⟨w, hw, hsec⟩ := step_sections hs
  rw [hop] at hsec
  subst hsec
  obtain ⟨r, fs, hst, hr⟩ := run_cons_some hw
  simp only [List.nil_append, Machine.run, Option.some.injEq, Prod.mk.injEq] at hr
  rw [← hr.2]
  exact Registry.not_occupiedRegistered h hno hst

/-! ## One session for one id -/

/-- Connections that were admitted with the same ids to sessions in which there are peers were
admitted to the same one. -/
def Shared (t : List Event) (s : System) : Prop :=
  ∀ a a' k k' h h', .admitted a k ∈ t → .admitted a' k' ∈ t → a.gameId = a'.gameId →
    a.sessionId = a'.sessionId → s.registry.rooms[k]? = some h → s.registry.rooms[k']? = some h' →
    h.room.occupied → h'.room.occupied → k = k'

structure Keyed (t : List Event) (s : System) : Prop where
  waiting : ∀ a ∈ s.admissions, s.registry.games.find (some a.gameId) = some a.game
  admitted : ∀ a k, .admitted a k ∈ t →
    s.registry.games.find (some a.gameId) = some a.game ∧
      ∃ h, s.registry.rooms[k]? = some h ∧ h.game = a.game ∧ h.room.session.id = a.sessionId

theorem shared_of_keyed (hk : Keyed t s) (ho : s.registry.OccupiedRegistered) : Shared t s := by
  intro a a' k k' h h' ha ha' hgame hsession hr hr' hocc hocc'
  obtain ⟨hfind, h₁, hr₁, hg, hid⟩ := hk.admitted a k ha
  obtain ⟨hfind', h₂, hr₂, hg', hid'⟩ := hk.admitted a' k' ha'
  rw [hr] at hr₁
  cases hr₁
  rw [hr'] at hr₂
  cases hr₂
  have hreg : s.registry.lookup h.game h.room.session.id = some k := ho k h hr hocc
  have hreg' : s.registry.lookup h'.game h'.room.session.id = some k' := ho k' h' hr' hocc'
  rw [← hgame, hfind] at hfind'
  have hsame : a.game = a'.game := Option.some.inj hfind'
  rw [hg', hid', ← hsame, ← hsession, ← hg, ← hid, hreg] at hreg'
  exact Option.some.inj hreg'

theorem step_tables {a : Op} (h : s.registry.Tables) (hs : s.step a = some (s', es)) :
    s'.registry.Tables :=
  step_registry (I := fun _ r => r.Tables) (t := [])
    (fun _ _ _ _ _ h hs => Registry.step_tables h hs) h hs

theorem step_games {a : Op} (hs : s.step a = some (s', es)) :
    s'.registry.gamesConfig = s.registry.gamesConfig ∧
      ∀ gameId g, s.registry.games.find gameId = some g →
        s'.registry.games.find gameId = some g := by
  refine step_registry (I := fun _ r => r.gamesConfig = s.registry.gamesConfig ∧
    ∀ gameId g, s.registry.games.find gameId = some g → r.games.find gameId = some g) (t := [])
    ?_ ⟨rfl, fun _ _ h => h⟩ hs
  intro t r op r' es h hst
  obtain ⟨hc, hg⟩ := Registry.step_games hst
  exact ⟨hc.trans h.1, fun gameId g hf => hg gameId g (h.2 gameId g hf)⟩

theorem step_rooms_static {a : Op} {k : RoomRef} {h : Hosted} (hs : s.step a = some (s', es))
    (hk : s.registry.rooms[k]? = some h) :
    ∃ h', s'.registry.rooms[k]? = some h' ∧ h'.game = h.game ∧
      h'.room.session.id = h.room.session.id := by
  have hrun : machine.run [a] [] s = some ([] ++ es, s') := run_singleton hs
  obtain ⟨h', hk', hg, w, t, hw⟩ := run_continues hrun k h hk
  refine ⟨h', hk', hg, ?_⟩
  exact run_invariant (M := Room.machine)
    (I := fun _ r => r.session.id = h.room.session.id)
    (fun _ _ _ _ _ h hst => (Room.step_static hst).1.trans h) rfl hw

/-- The session of an admitted connection is one of the game and the id it asked for. -/
theorem getSession_admits {r r' : Registry} {a : Admission} {k : RoomRef}
    {fs : List Registry.Event} (hT : r.Tables) (h : r.getSession a = some (.ok k, r', fs)) :
    ∃ h, r'.rooms[k]? = some h ∧ h.game = a.game ∧ h.room.session.id = a.sessionId := by
  cases Registry.getSession_cases h with
  | created k r' hc =>
    cases Registry.createNewSession_cases hc with
    | created game hg hl hf => exact ⟨_, List.getElem?_concat_length, rfl, rfl⟩
  | found k r' es hf hs =>
    have hl : r.lookup a.game a.sessionId = some k := by
      unfold Registry.findSession at hf
      split at hf
      · cases hf
      · next hg =>
        split at hf
        · cases hf
        · rw [Registry.lookup_of_game hg]
          exact Option.some.inj hf
    obtain ⟨hosted, hk, hg, hid⟩ := hT _ _ _ hl
    obtain ⟨hosted', room, gs, hk', hst, rfl, -⟩ := Registry.stepRoom_some hs
    rw [hk] at hk'
    cases hk'
    have hlt := (List.getElem?_eq_some_iff.mp hk).1
    exact ⟨_, List.getElem?_set_self hlt, hg, (Room.step_static hst).1.trans hid⟩

theorem step_keyed {a : Op} (hw : s.registry.gamesConfig.WellKeyed) (hT : s.registry.Tables)
    (h : Keyed t s) (hs : s.step a = some (s', es)) : Keyed (t ++ es) s' := by
  obtain ⟨-, hgrow⟩ := step_games hs
  -- what is waiting or admitted after the step is so before it, or is taken up by it
  have hkeep : (∀ b ∈ s'.admissions, b ∈ s.admissions ∨
        s'.registry.games.find (some b.gameId) = some b.game) →
      (∀ b k, .admitted b k ∈ es → s.registry.games.find (some b.gameId) = some b.game ∧
        ∃ h, s'.registry.rooms[k]? = some h ∧ h.game = b.game ∧
          h.room.session.id = b.sessionId) → Keyed (t ++ es) s' := by
    intro hwait hadm
    constructor
    · intro b hb
      obtain hb | hb := hwait b hb
      · exact hgrow _ _ (h.waiting b hb)
      · exact hb
    · intro b k hb
      obtain hb | hb := List.mem_append.mp hb
      · obtain ⟨hf, hosted, hk, hg, hid⟩ := h.admitted b k hb
        obtain ⟨hosted', hk', hg', hid'⟩ := step_rooms_static hs hk
        exact ⟨hgrow _ _ hf, hosted', hk', hg'.trans hg, hid'.trans hid⟩
      · obtain ⟨hf, hosted⟩ := hadm b k hb
        exact ⟨hgrow _ _ hf, hosted⟩
  have hnone : ∀ (fs : List Registry.Event) (b : Admission) (k : RoomRef),
      (Event.admitted b k) ∉ fs.map Event.registry := by
    intro fs b k hb
    obtain ⟨e, -, he⟩ := List.mem_map.mp hb
    cases he
  cases step_cases hs with
  | rejected params e r hf => exact hkeep (fun b hb => Or.inl hb) (fun b k hb => by simp at hb)
  | found params a r hf =>
    refine hkeep ?_ (fun b k hb => by cases hb)
    intro b hb
    obtain hb | hb := List.mem_append.mp hb
    · exact Or.inl hb
    · rw [List.mem_singleton.mp hb]
      exact Or.inr (Registry.findGameForPeer_find hw hf)
  | refused c a e r fs ha hg =>
    refine hkeep (fun b hb => Or.inl (List.mem_of_mem_eraseIdx hb)) ?_
    intro b k hb
    obtain hb | hb := List.mem_append.mp hb
    · exact absurd hb (hnone _ b k)
    · simp at hb
  | admitted c a k r fs ha hg =>
    refine hkeep (fun b hb => Or.inl (List.mem_of_mem_eraseIdx hb)) ?_
    intro b k' hb
    obtain hb | hb := List.mem_append.mp hb
    · exact absurd hb (hnone _ b k')
    · simp only [List.mem_singleton, Event.admitted.injEq] at hb
      obtain ⟨rfl, rfl⟩ := hb
      exact ⟨h.waiting b (List.mem_of_getElem? ha), getSession_admits hT hg⟩
  | room k b r fs hb hs =>
    exact hkeep (fun b hb => Or.inl hb) (fun b k hb => absurd hb (hnone _ b k))
  | findGame d k hosted g r hd hk hg =>
    exact hkeep (fun b hb => Or.inl hb) (fun b k hb => by cases hb)
  | deleteSession d g sessionId r hd hdel =>
    exact hkeep (fun b hb => Or.inl hb) (fun b k hb => by simp at hb)
  | pinger g p c now r fs hp =>
    exact hkeep (fun b hb => Or.inl hb) (fun b k hb => absurd hb (hnone _ b k))

def SessionsRegistered (t : List Event) (s : System) : Prop :=
  s.registry.OccupiedRegistered ∧ Shared t s

structure Registering (t : List Event) (s : System) : Prop where
  tables : s.registry.Tables
  occupied : s.registry.OccupiedRegistered
  keyed : s.registry.gamesConfig.WellKeyed → Keyed t s

theorem registering_step {a : Op} (h : Registering t s) (hin : s.InTime a)
    (hs : s.step a = some (s', es)) : Registering (t ++ es) s' := by
  refine ⟨step_tables h.tables hs, step_occupiedRegistered h.occupied hin hs, ?_⟩
  intro hw
  rw [(step_games hs).1] at hw
  exact step_keyed hw h.tables (h.keyed hw) hs

theorem registering_init (gamesConfig : GamesConfig) : Registering [] (init gamesConfig) := by
  refine ⟨?_, ?_, ?_⟩
  · intro g sessionId k hk
    cases hk
  · intro k h hk
    cases hk
  · intro hw
    exact ⟨(fun a ha => by cases ha), (fun a k ha => by cases ha)⟩

theorem run_occupiedRegistered_iff (gamesConfig : GamesConfig) (w : List Op) :
    machine.Throughout (fun _ s => s.registry.OccupiedRegistered) w [] (init gamesConfig) ↔
      machine.Along (fun _ s a => s.InTime a) w [] (init gamesConfig) := by
  refine throughout_iff_along (I := Registering) (fun _ _ h => h.occupied) ?_ ?_
    (registering_init gamesConfig)
  · intro t s a s' es h hin hs
    exact registering_step h hin hs
  · intro t s a s' es h hin hs
    exact not_occupiedRegistered h.tables hin hs

/-- In every state of a run the sessions with peers in them are registered, if and only if each
`addPeer` and each `deleteSession` of the run comes in time. Over a store that files each config
under its own id this is also when connections with the same ids share a session; over another
store two of them need not even be given the same game. -/
theorem sessions_registered_iff (gamesConfig : GamesConfig) (w : List Op) :
    (machine.Throughout (fun _ s => s.registry.OccupiedRegistered) w [] (init gamesConfig) ↔
      machine.Along (fun _ s a => s.InTime a) w [] (init gamesConfig)) ∧
    (gamesConfig.WellKeyed →
      (machine.Throughout SessionsRegistered w [] (init gamesConfig) ↔
        machine.Along (fun _ s a => s.InTime a) w [] (init gamesConfig))) := by
  refine ⟨run_occupiedRegistered_iff gamesConfig w, ?_⟩
  intro hw
  have hinit : Registering [] (init gamesConfig) ∧
      (init gamesConfig).registry.gamesConfig.WellKeyed := ⟨registering_init gamesConfig, hw⟩
  refine throughout_iff_along (I := fun t s => Registering t s ∧ s.registry.gamesConfig.WellKeyed)
    ?_ ?_ ?_ hinit
  · intro t s h
    obtain ⟨h, hw⟩ := h
    exact ⟨h.occupied, shared_of_keyed (h.keyed hw) h.occupied⟩
  · intro t s a s' es h hin hs
    obtain ⟨h, hw⟩ := h
    refine ⟨registering_step h hin hs, ?_⟩
    rw [(step_games hs).1]
    exact hw
  · intro t s a s' es h hin hs hP
    exact not_occupiedRegistered h.1.tables hin hs hP.1

theorem sessions_registered_iff_hostAndClient :
    machine.Throughout SessionsRegistered hostAndClient [] (init oneGame) :=
  ((sessions_registered_iff oneGame hostAndClient).2
    (GamesConfig.wellKeyed_putGameConfig GamesConfig.wellKeyed_empty _)).mpr (by decide +kernel)

def Event.asked? : Event → Option (String × String × RoomRef)
  | .admitted a k => some (a.gameId, a.sessionId, k)
  | _ => none

theorem admitted_of_asked (x : String × String × RoomRef) (h : x ∈ t.filterMap Event.asked?) :
    ∃ a, .admitted a x.2.2 ∈ t ∧ a.gameId = x.1 ∧ a.sessionId = x.2.1 := by
  obtain ⟨e, he, hx⟩ := List.mem_filterMap.mp h
  cases e with
  | admitted a k =>
    cases hx
    exact ⟨a, he, rfl, rfl⟩
  | _ => cases hx

def twoHosts : List Op :=
  [.connect (parameters "a" "lobby" "host"), .getSession 0,
    .room 0 (.session (.newPeer 0)), .room 0 (.session (.advance 0 0)),
    .connect (parameters "a" "lobby" "host"), .getSession 0,
    .room 1 (.session (.newPeer 0)), .room 1 (.session (.advance 0 0))]

/-- Two hosts ask for the session `lobby` of the game `a`. Over the store `misfiled` they sit in two
sessions, though each of them came in time. -/
theorem twoHosts_apart :
    machine.Along (fun _ s a => s.InTime a) twoHosts [] (init Registry.misfiled) ∧
      ∃ t s, machine.run twoHosts [] (init Registry.misfiled) = some (t, s) ∧ ¬ Shared t s := by
  refine ⟨by decide +kernel, ?_⟩
  have hrun : ((machine.run twoHosts [] (init Registry.misfiled)).bind fun r =>
      (r.2.registry.rooms[0]?).bind fun h => (r.2.registry.rooms[1]?).map fun h' =>
        (r.1.filterMap Event.asked?, h.room.session.peers.isEmpty,
          h'.room.session.peers.isEmpty)) =
        some ([("a", "lobby", 0), ("a", "lobby", 1)], false, false) := by
    decide +kernel
  obtain ⟨⟨t, s⟩, hr, hrun⟩ := Option.bind_eq_some_iff.mp hrun
  obtain ⟨h, hk, hrun⟩ := Option.bind_eq_some_iff.mp hrun
  obtain ⟨h', hk', hh⟩ := Option.map_eq_some_iff.mp hrun
  simp only [Prod.mk.injEq] at hh
  obtain ⟨hasked, hocc, hocc'⟩ := hh
  obtain ⟨a, ha, hgame, hsession⟩ := admitted_of_asked (t := t) ("a", "lobby", 0) (by simp [hasked])
  obtain ⟨a', ha', hgame', hsession'⟩ :=
    admitted_of_asked (t := t) ("a", "lobby", 1) (by simp [hasked])
  refine ⟨t, s, hr, ?_⟩
  intro hshared
  have hsame := hshared a a' 0 1 h h' ha ha' (hgame.trans hgame'.symm)
    (hsession.trans hsession'.symm) hk hk' hocc hocc'
  cases hsame

/-- A host opens a session, a client finds it and waits before `addPeer`, and the host leaves:
the session is empty and is deleted. Then the client is added. -/
def addedTooLate : List Op :=
  [.connect (parameters "game" "lobby" "host"), .getSession 0,
    .room 0 (.session (.newPeer 0)), .room 0 (.session (.advance 0 0)),
    .room 0 (.session (.advance 0 0)),
    .connect (parameters "game" "lobby" "client"), .getSession 0,
    .room 0 (.session (.newPeer 0)),
    .room 0 (.session (.close 0)), .room 0 (.session (.advance 0 0)),
    .room 0 (.session (.advance 0 0)), .findGame 0, .deleteSession 0,
    .room 0 (.session (.advance 1 0))]

theorem peer_in_unregistered_session :
    ∃ t s, machine.run addedTooLate [] (init oneGame) = some (t, s) ∧ ¬ SessionsRegistered t s := by
  have hrun : ((machine.run addedTooLate [] (init oneGame)).bind fun r =>
      (r.2.registry.rooms[0]?).map fun h => (h.room.session.peers.isEmpty,
        r.2.registry.lookup h.game h.room.session.id)) = some (false, none) := by
    decide +kernel
  obtain ⟨⟨t, s⟩, hr, hrun⟩ := Option.bind_eq_some_iff.mp hrun
  obtain ⟨h, hk, hh⟩ := Option.map_eq_some_iff.mp hrun
  obtain ⟨hocc, hnone⟩ := Prod.mk.inj hh
  refine ⟨t, s, hr, ?_⟩
  intro hreg
  have hsome : s.registry.lookup h.game h.room.session.id = some 0 := hreg.1 0 h hk hocc
  rw [hnone] at hsome
  cases hsome

end System
end Helicopter
