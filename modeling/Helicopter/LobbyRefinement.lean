import Helicopter.LobbyRelation

/-! With its callbacks run one at a time, the registry is the lobby. -/
namespace Helicopter
open Interleaving Gathering

namespace Server
variable {s s' : Server} {l : Lobby} {r' : Registry} {k : RoomRef} {i : PeerRef}
  {key : String × String} {party : Party Nat}

/-! ## What a call asks for -/

theorem getRequiredParameter_join (name : String) (params : ParameterMap) :
    Registry.getRequiredParameter name params =
      match (params.find name).join with
      | some value => .ok value
      | none => .error ⟨.badRequest, "Missing required parameter - '" ++ name ++ "'."⟩ := by
  unfold Registry.getRequiredParameter
  cases params.find name with
  | none => rfl
  | some value => cases value <;> rfl

theorem findGameForPeer_none (r : Registry) {params : ParameterMap} (h : request params = none) :
    ∃ e, r.findGameForPeer params = (.error e, r) ∧ e.code = .badRequest := by
  unfold request at h
  unfold Registry.findGameForPeer
  simp only [getRequiredParameter_join, Constants.paramGameId, Constants.paramGameSessionId,
    Constants.paramPeerType]
  cases hg : (params.find "gameId").join with
  | none => exact ⟨_, rfl, rfl⟩
  | some gameId =>
    cases hs : (params.find "sessionId").join with
    | none => exact ⟨_, rfl, rfl⟩
    | some sessionId =>
      cases hp : (params.find "peerType").join with
      | none => exact ⟨_, rfl, rfl⟩
      | some peerType =>
        rw [hg, hs, hp] at h
        cases h

/-- With all the parameters there, the game decides. -/
theorem findGameForPeer_request (r : Registry) {params : ParameterMap} {q : Request}
    {res : Option GameRef × Registry} (h : request params = some q)
    (hgame : r.getGameById (some q.gameId) = res) :
    match res with
    | (none, r') => ∃ e, r.findGameForPeer params = (.error e, r') ∧ e.code = .gameNotFound
    | (some g, r') =>
      r.findGameForPeer params = (.ok ⟨q.gameId, q.sessionId, q.isHost, g⟩, r') := by
  unfold request at h
  unfold Registry.findGameForPeer
  simp only [getRequiredParameter_join, Constants.paramGameId, Constants.paramGameSessionId,
    Constants.paramPeerType, Constants.paramPeerTypeHost]
  split at h
  · next gameId sessionId peerType hg hs hp =>
    cases h
    obtain ⟨g, r'⟩ := res
    cases g with
    | none =>
      simp only [hg, hs, hp, hgame]
      exact ⟨_, rfl, rfl⟩
    | some g => simp only [hg, hs, hp, hgame]
  · cases h

/-- The lobby has a party under a key exactly when the registry has a session there. -/
theorem party_isSome (hr : Refines s l) (key : String × String) :
    (l.parties key).isSome = (s.registry.find key).isSome := by
  have hold := hr.parties key
  cases hp : l.parties key <;> cases hf : s.registry.find key <;> rw [hp, hf] at hold
  · rfl
  · exact hold.elim
  · exact hold.elim
  · rfl

/-! ## The calls -/

theorem not_made {r : Registry} (h : Hosted) : r.rooms[r.rooms.length]? ≠ some h := by
  intro hk
  rw [List.getElem?_eq_none (Nat.le_refl _)] at hk
  cases hk

/-- The host enters the session that it has created, alone. -/
theorem enters_host {r : Registry} {g : GameRef} {q : Request} {config : GameConfigDto}
    {os : List (Outbox MessageDto)} (hg : r.games.find (some q.gameId) = some g)
    (hgameId : config.gameId = some q.gameId) (hl : r.lookup g q.sessionId = none)
    (hm : Registry.Moved r r' r.rooms.length
      ⟨g, ⟨(Room.init q.sessionId config).session.entered true, os⟩⟩) :
    Enters r r' r.rooms.length 0
      ⟨g, ⟨(Room.init q.sessionId config).session.entered true, os⟩⟩ q.key where
  moved := hm
  place := ⟨Or.inl hl, fun h₀ hk => absurd hk (not_made h₀)⟩
  key := ⟨hgameId, rfl⟩
  idle := Session.idle_entered rfl fun j q hq => by cases hq
  agrees := Session.agrees_entered (Session.agrees_init _ _) rfl rfl
  game := by
    show r.games.find config.gameId = some g
    rw [hgameId, hg]
  listens := ⟨_, rfl, rfl⟩
  others := by
    intro j p hj
    have hj : j ≠ (Room.init q.sessionId config).session.objects.length := hj
    rw [Session.objects_entered, if_neg hj]
    constructor
    · intro hp
      cases hp
    · rintro ⟨h₀, hk, -⟩
      exact absurd hk (not_made h₀)
  before := fun h₀ hk => absurd hk (not_made h₀)

theorem host_refines {g : GameRef} {q : Request} (hr : Refines s l)
    (hg : s.registry.games.find (some q.gameId) = some g)
    (hf : s.registry.find q.key = none) :
    ∃ k i r₁ r', s.registry.createNewSession g q.sessionId = some (some k, r₁) ∧
      r₁.addNewPeer k = some (i, r') ∧ Refines ⟨r', s.sockets ++ [.listening k i]⟩
        { l with
          parties := l.parties.set q.key (some (.found l.seats.length))
          seats := l.seats ++ [.taken q.key] } := by
  obtain ⟨game, hobj, hgameId, -⟩ := hr.settled.games _ _ hg
  have hl : s.registry.lookup g q.sessionId = none := by
    unfold Registry.find at hf
    rw [show q.key.1 = q.gameId from rfl, hg] at hf
    exact hf
  obtain ⟨os, r₁, r', hcreate, hadd, hm⟩ := Registry.host_enters hr.settled hobj hl
  have hfresh : ∀ n j, ¬ s.At n s.registry.rooms.length j := by
    intro n j hn
    obtain ⟨h, -, -, -, hk, -⟩ := listening_of_at hr hn
    exact not_made h hk
  refine ⟨s.registry.rooms.length, 0, r₁, r', hcreate, hadd, ?_⟩
  refine refines_entered hr (enters_host hg hgameId hl hm) ?_ ?_
  · intro n
    rw [Party.mem_found, hr.length]
    constructor
    · exact Or.inl
    · rintro (hn | ⟨j, hn⟩)
      · exact hn
      · exact absurd hn (hfresh n j)
  · intro n
    rw [Party.host_found, hr.length]
    constructor
    · intro hn
      exact ⟨0, Or.inl ⟨hn, rfl⟩, rfl⟩
    · rintro ⟨j, ⟨hn, -⟩ | hn, -⟩
      · exact hn
      · exact absurd hn (hfresh n j)

theorem madeFor_of_find (hs : s.registry.Settled) (hf : s.registry.find key = some k) :
    ∃ h, s.registry.games.find (some key.1) = some h.game ∧ s.registry.rooms[k]? = some h ∧
      Registry.MadeFor h key ∧ s.registry.Registered k h := by
  obtain ⟨g, hg, hl⟩ := Option.bind_eq_some_iff.mp hf
  obtain ⟨h, hk, rfl, hid⟩ := hs.tables g key.2 k hl
  obtain ⟨-, -, hgame⟩ := hs.rooms k h hk
  obtain ⟨game, hobj, hgameId, -⟩ := hs.games _ _ hg
  obtain ⟨game', hobj', hgameId', -⟩ := hs.games _ _ hgame
  rw [hobj] at hobj'
  cases hobj'
  refine ⟨h, hg, hk, ⟨hgameId'.symm.trans hgameId, hid⟩, ?_⟩
  unfold Registry.Registered
  rw [hid]
  exact hl

/-- A client enters a session that was there: the others in it are who they were. -/
theorem enters_client {r : Registry} {os : List (Outbox MessageDto)} (hs : r.Settled)
    (hk : r.rooms[k]? = some h) (hmade : Registry.MadeFor h key) (hreg : r.Registered k h)
    (hm : Registry.Moved r r' k ⟨h.game, ⟨h.room.session.entered false, os⟩⟩) :
    Enters r r' k h.room.session.objects.length
      ⟨h.game, ⟨h.room.session.entered false, os⟩⟩ key := by
  obtain ⟨hidle, hagrees, hgame⟩ := hs.rooms k h hk
  have honly : ∀ h₀, r.rooms[k]? = some h₀ → h₀ = h := by
    intro h₀ hk₀
    rw [hk] at hk₀
    exact (Option.some.inj hk₀).symm
  exact {
    moved := hm
    place := by
      refine ⟨Or.inr hreg, ?_⟩
      intro h₀ hk₀
      rw [honly h₀ hk₀]
      exact ⟨rfl, rfl⟩
    key := ⟨hmade.gameId, hmade.sessionId⟩
    idle := Session.idle_entered hidle.free hidle.settled
    agrees := by
      let found : Session := { h.room.session with lookups := [false] }
      have hfind : h.room.session.step .findSession = some (found, []) := by
        simp only [Session.step, hidle.lookups]
        rfl
      have hentered : (found.entered false).Agrees :=
        Session.agrees_entered (Session.step_roster hagrees hfind).1 rfl hidle.free
      exact hentered
    game := hgame
    listens := ⟨_, (Session.objects_entered _).trans (if_pos rfl), rfl⟩
    others := by
      intro j p hj
      rw [Session.objects_entered, if_neg hj]
      constructor
      · intro hp
        exact ⟨h, hk, hp⟩
      · rintro ⟨h₀, hk₀, hp⟩
        rw [honly h₀ hk₀] at hp
        exact hp
    before := by
      intro h₀ hk₀
      rw [honly h₀ hk₀]
      exact ⟨rfl, List.getElem?_eq_none (Nat.le_refl _)⟩ }

theorem client_refines {q : Request} (hr : Refines s l) (hf : s.registry.find q.key = some k)
    (hparty : l.parties q.key = some party) :
    ∃ g i r₁ es r', s.registry.games.find (some q.gameId) = some g ∧
      s.registry.findSession g q.sessionId = some (some k) ∧
      s.registry.stepRoom k (.session .findSession) = some (r₁, es) ∧
      r₁.addNewPeer k = some (i, r') ∧ Refines ⟨r', s.sockets ++ [.listening k i]⟩
        { l with
          parties := l.parties.set q.key (some (party.join l.seats.length))
          seats := l.seats ++ [.taken q.key] } := by
  obtain ⟨h, hg, hk, hmade, hreg⟩ := madeFor_of_find hr.settled hf
  obtain ⟨hidle, hagrees, hgame⟩ := hr.settled.rooms k h hk
  obtain ⟨os, r₁, es, r', hfound, hadd, hm⟩ := Registry.client_enters hr.settled hk hreg
  have hrep : Represents s k party := by
    have hold := hr.parties q.key
    rw [hf, hparty] at hold
    exact hold
  have hsession : s.registry.findSession h.game q.sessionId = some (some k) := by
    obtain ⟨game, hobj, -⟩ := hr.settled.games _ _ hgame
    have hl : s.registry.lookup h.game h.room.session.id = some k := hreg
    rw [hmade.sessionId, Registry.lookup_of_game hobj] at hl
    simp only [Registry.findSession, hobj, hr.settled.free _ _ hobj, Bool.false_eq_true, if_false]
    exact congrArg some hl
  have hnew : h.room.session.objects[h.room.session.objects.length]? = none :=
    List.getElem?_eq_none (Nat.le_refl _)
  refine ⟨h.game, h.room.session.objects.length, r₁, es, r', hg, hsession, hfound, hadd, ?_⟩
  refine refines_entered hr (enters_client hr.settled hk hmade hreg hm) ?_ ?_
  · intro n
    rw [Party.mem_join, hr.length, hrep.members]
  · intro n
    rw [Party.host_join, hrep.host]
    constructor
    · rintro ⟨j, h₀, hn, hk₀, hj⟩
      rw [hk] at hk₀
      cases hk₀
      exact ⟨j, Or.inr hn, hj⟩
    · rintro ⟨j, hn, hj⟩
      change h.room.session.host = some j at hj
      obtain ⟨-, rfl⟩ | hn := hn
      · -- the new peer is not the host
        obtain ⟨p, hp, -⟩ := Session.host_listening hidle hagrees hj
        rw [hnew] at hp
        cases hp
      · exact ⟨j, h, hn, hk, hj⟩

theorem find_of_game (r : Registry) {g : GameRef} {q : Request}
    (hg : r.games.find (some q.gameId) = some g) : r.find q.key = r.lookup g q.sessionId := by
  unfold Registry.find
  rw [show q.key.1 = q.gameId from rfl, hg]
  rfl

theorem host_refused {r : Registry} {g : GameRef} {q : Request} (hs : r.Settled)
    (hg : r.games.find (some q.gameId) = some g) (hh : q.isHost = true)
    (hf : (r.find q.key).isSome = true) :
    ∃ e, r.getSession ⟨q.gameId, q.sessionId, q.isHost, g⟩ = some (.error e, r, []) ∧
      e.code = .operationNotPermitted := by
  obtain ⟨game, hobj, -⟩ := hs.games _ _ hg
  obtain ⟨k, hk⟩ := Option.isSome_iff_exists.mp hf
  rw [find_of_game r hg, Registry.lookup_of_game hobj] at hk
  have hcreate : r.createNewSession g q.sessionId = some (none, r) := by
    simp only [Registry.createNewSession, hobj, hs.free g game hobj, hk, Bool.false_eq_true,
      if_false]
  simp only [Registry.getSession, hh, hcreate, if_true]
  exact ⟨_, rfl, rfl⟩

theorem client_refused {r : Registry} {g : GameRef} {q : Request} (hs : r.Settled)
    (hg : r.games.find (some q.gameId) = some g) (hh : q.isHost = false)
    (hf : (r.find q.key).isSome = false) :
    ∃ e, r.getSession ⟨q.gameId, q.sessionId, q.isHost, g⟩ = some (.error e, r, []) ∧
      e.code = .sessionNotFound := by
  obtain ⟨game, hobj, -⟩ := hs.games _ _ hg
  have hnone : r.find q.key = none := by simpa using hf
  rw [find_of_game r hg, Registry.lookup_of_game hobj] at hnone
  have hfind : r.findSession g q.sessionId = some none := by
    simp only [Registry.findSession, hobj, hs.free g game hobj, hnone, Bool.false_eq_true, if_false]
  simp only [Registry.getSession, hh, hfind, Bool.false_eq_true, if_false]
  exact ⟨_, rfl, rfl⟩

/-- One call of `onAfterCreate_NonBlocking` is one connection to the lobby. -/
theorem onAfterCreate_refines (hr : Refines s l) (params : ParameterMap) :
    match l.verdict params with
    | .error code => ∃ e r', s.registry.onAfterCreate params = some (.error e, r') ∧
        e.code = code ∧ r'.Settled ∧ Registry.Untouched s.registry r'
    | .ok q => ∃ k i r', s.registry.onAfterCreate params = some (.ok (q.isHost, k, i), r') ∧
        Refines ⟨r', s.sockets ++ [.listening k i]⟩
          { l with
            parties := l.parties.set q.key (l.enter q)
            seats := l.seats ++ [.taken q.key] } := by
  cases hq : request params with
  | none =>
    obtain ⟨e, hfound, he⟩ := findGameForPeer_none s.registry hq
    simp only [Lobby.verdict, hq]
    exact ⟨e, s.registry, by simp only [Registry.onAfterCreate, hfound], he, hr.settled,
      Registry.untouched_refl _⟩
  | some q =>
    have hknown := hr.known q.gameId
    cases hk : l.known q.gameId with
    | false =>
      rw [hk] at hknown
      have hgame := Registry.getGameById_none hr.settled (by simpa using hknown.symm)
      obtain ⟨e, hfound, he⟩ := findGameForPeer_request s.registry hq hgame
      simp only [Lobby.verdict, hq, hk, if_true]
      exact ⟨e, s.registry, by simp only [Registry.onAfterCreate, hfound], he, hr.settled,
        Registry.untouched_refl _⟩
    | true =>
      rw [hk] at hknown
      obtain ⟨g, r₁, hgame, hs₁, hu, hg⟩ := Registry.getGameById_some hr.settled hknown.symm
      have hfound := findGameForPeer_request s.registry hq hgame
      have hr₁ := refines_untouched hr hs₁ hu
      have hparty := party_isSome hr₁ q.key
      simp only [Lobby.verdict, hq, hk, Bool.true_eq_false, if_false]
      cases hh : q.isHost with
      | true =>
        cases hp : (l.parties q.key).isSome with
        | true =>
          rw [hp] at hparty
          obtain ⟨e, hget, he⟩ := host_refused hs₁ hg hh hparty.symm
          exact ⟨e, r₁, by simp only [Registry.onAfterCreate, hfound, hget], he, hs₁, hu⟩
        | false =>
          rw [hp] at hparty
          obtain ⟨k, i, r₂, r', hcreate, hadd, hr'⟩ := host_refines hr₁ hg
            (by simpa using hparty.symm)
          refine ⟨k, i, r', ?_, ?_⟩
          · simp only [Registry.onAfterCreate, hfound, Registry.getSession, hh, hcreate, hadd,
              if_true]
          · simpa only [Lobby.enter, hh, if_true] using hr'
      | false =>
        cases hp : l.parties q.key with
        | none =>
          rw [hp] at hparty
          obtain ⟨e, hget, he⟩ := client_refused hs₁ hg hh hparty.symm
          exact ⟨e, r₁, by simp only [Registry.onAfterCreate, hfound, hget], he, hs₁, hu⟩
        | some party =>
          rw [hp] at hparty
          obtain ⟨k, hf⟩ := Option.isSome_iff_exists.mp hparty.symm
          obtain ⟨g', i, r₂, es, r', hg', hfind, hstep, hadd, hr'⟩ := client_refines hr₁ hf hp
          rw [hg] at hg'
          cases hg'
          refine ⟨k, i, r', ?_, ?_⟩
          · simp only [Registry.onAfterCreate, hfound, Registry.getSession, hh, hfind, hstep, hadd,
              Bool.false_eq_true, if_false]
          · simpa only [Lobby.enter, hh, hp, Bool.false_eq_true, if_false, Option.map_some]
              using hr'

/-! ## Closes -/

theorem seat_of_socket (hr : Refines s l) {n : Nat} {x : Socket} (hx : s.sockets[n]? = some x) :
    ∃ y, l.seats[n]? = some y ∧ Sits s.registry x y := by
  have hlt := (List.getElem?_eq_some_iff.mp hx).1
  rw [hr.length] at hlt
  have hy := List.getElem?_eq_getElem hlt
  exact ⟨_, hy, hr.seats n x _ hx hy⟩

structure Closed (s : Server) (n : Nat) (s' : Server) : Prop where
  peers : ∀ m k i, s'.At m k i ↔ s.At m k i ∧ m ≠ n
  hosts : ∀ m k, s'.Hosts m k ↔ s.Hosts m k ∧ m ≠ n
  sessions : ∀ key k, s'.registry.find key = some k ↔
    s.registry.find key = some k ∧ ∃ m i, s'.At m k i

theorem inhabited_of_find (hr : Refines s l) (hf : s.registry.find key = some k) :
    ∃ m i, s.At m k i := by
  have hold := hr.parties key
  rw [hf] at hold
  cases hp : l.parties key with
  | none =>
    rw [hp] at hold
    exact hold.elim
  | some party =>
    rw [hp] at hold
    have hrep : Represents s k party := hold
    obtain ⟨m, hm⟩ := party.inhabited
    obtain ⟨i, hi⟩ := (hrep.members m).mp hm
    exact ⟨m, i, hi⟩

theorem closed_refused {n : Nat} (hr : Refines s l) (hn : s.sockets[n]? = some .refused) :
    Closed s n { s with sockets := s.sockets.set n .destroyed } where
  peers m k i := by
    have hlt := (List.getElem?_eq_some_iff.mp hn).1
    exact (at_destroyed hlt).trans and_comm
  hosts m k := by
    unfold Hosts
    simp only [at_closed hn]
    constructor
    · rintro ⟨i, h, hat, hk, hi⟩
      refine ⟨⟨i, h, hat, hk, hi⟩, ?_⟩
      intro hmn
      unfold At at hat
      rw [hmn, hn] at hat
      cases hat
    · intro h
      exact h.1
  sessions key k := by
    simp only [at_closed hn]
    constructor
    · intro hf
      exact ⟨hf, inhabited_of_find hr hf⟩
    · intro h
      exact h.1

theorem closed_left {h : Hosted} {n : Nat} {p : Peer} {os : List (Outbox MessageDto)}
    (hr : Refines s l) (hn : s.At n k i) (hk : s.registry.rooms[k]? = some h)
    (hkey : Registry.MadeFor h key) (hp : h.room.session.objects[i]? = some p)
    (ht : p.task = .listening)
    (hm : Registry.Moved s.registry r' k ⟨h.game, ⟨h.room.session.departed i p, os⟩⟩) :
    Closed s n ⟨r', s.sockets.set n .destroyed⟩ := by
  have hlt := lt_of_at hn
  have hr' := refines_left hr hn hk hkey hp ht hm
  obtain ⟨hidle, hagrees, hgame⟩ := hr.settled.rooms k h hk
  have hk' := (hm.rooms k).trans (if_pos rfl)
  refine ⟨fun m k i => (at_destroyed hlt).trans and_comm, ?_, ?_⟩
  · intro m k₁
    by_cases hkk : k₁ = k
    · subst hkk
      exact hosts_departed hr hn hk hp hk'
    · -- a session that the call does not touch
      have hrooms : r'.rooms[k₁]? = s.registry.rooms[k₁]? := (hm.rooms k₁).trans (if_neg hkk)
      unfold Hosts
      simp only [at_destroyed hlt, hrooms]
      constructor
      · rintro ⟨j, h₁, ⟨hmn, hat⟩, hk₁, hj⟩
        exact ⟨⟨j, h₁, hat, hk₁, hj⟩, hmn⟩
      · rintro ⟨⟨j, h₁, hat, hk₁, hj⟩, hmn⟩
        exact ⟨j, h₁, ⟨hmn, hat⟩, hk₁, hj⟩
  · intro key₁ k₁
    have hold : s.registry.find key = some k := (find_of_listening hr hk hkey hp ht).2
    have hfind := Registry.find_moved hr.settled hm ⟨hkey.gameId, hkey.sessionId⟩ hgame key₁
    show r'.find key₁ = some k₁ ↔ _
    constructor
    · intro hf
      refine ⟨?_, inhabited_of_find hr' hf⟩
      rw [hfind] at hf
      split at hf
      · next hkk =>
        split at hf
        · cases hf
        · rw [hkk, hold, hf]
      · exact hf
    · rintro ⟨hf, m, j, hat⟩
      by_cases hkk : key₁ = key
      · rw [hkk, hold] at hf
        cases hf
        -- whoever is left in the session keeps it registered
        obtain ⟨h₁, -, q, -, hk₁, -, hobj, hq⟩ := listening_of_at hr' hat
        change r'.rooms[k]? = some h₁ at hk₁
        rw [hk'] at hk₁
        cases hk₁
        have hne := (Session.nonempty_iff_listening (Session.idle_departed hidle hp)
          (Session.agrees_departed hagrees hp ht hidle.free)).mpr ⟨j, q, hobj, hq⟩
        rw [hfind, if_pos hkk, hne]
        rfl
      · rw [hfind, if_neg hkk]
        exact hf

theorem onBeforeDestroy_refines (hr : Refines s l) (n : Nat) :
    match l.step (.onBeforeDestroy n) with
    | none => s.step (.onBeforeDestroy n) = none
    | some (l', es) => ∃ s', s.step (.onBeforeDestroy n) = some (s', es) ∧ Refines s' l' ∧
        Closed s n s' := by
  simp only [Lobby.step, Server.step]
  cases hx : s.sockets[n]? with
  | none =>
    have hy : l.seats[n]? = none := by
      rw [List.getElem?_eq_none_iff] at hx ⊢
      rw [← hr.length]
      exact hx
    simp only [hy]
  | some x =>
    obtain ⟨y, hy, hsits⟩ := seat_of_socket hr hx
    cases x with
    | refused =>
      cases y with
      | refused =>
        simp only [hy]
        exact ⟨_, rfl, refines_closed hr hx, closed_refused hr hx⟩
      | _ => exact hsits.elim
    | listening k i =>
      cases y with
      | taken key =>
        obtain ⟨h, p, hk, hkey, hp, ht⟩ := hsits
        obtain ⟨hreg, -⟩ := find_of_listening hr hk hkey hp ht
        obtain ⟨os, r', hcall, hm⟩ := Registry.peer_leaves hr.settled hk hreg hp ht
        simp only [hy, hcall]
        exact ⟨_, rfl, refines_left hr hx hk hkey hp ht hm, closed_left hr hx hk hkey hp ht hm⟩
      | _ => exact hsits.elim
    | destroyed =>
      cases y with
      | left => simp only [hy]
      | _ => exact hsits.elim

/-! ## Runs -/

theorem refines_init {gamesConfig : GamesConfig} (hw : gamesConfig.WellKeyed) :
    Refines (init gamesConfig)
      { known := fun gameId => (gamesConfig.getGameConfig (some gameId)).isSome } where
  settled := {
    wellKeyed := hw
    games := by
      intro gameId g hg
      rw [init, UnorderedMap.find_empty] at hg
      cases hg
    free := fun g game hg => by cases hg
    tables := fun g sessionId k hl => by cases hl
    rooms := fun k h hk => by cases hk
    occupied := fun k h hk => by cases hk
    registered := fun g sessionId k h hl => by cases hl }
  known := fun _ => rfl
  length := rfl
  seats := fun n x y hx => by cases hx
  listeners := fun k h i p hk => by cases hk
  distinct := fun n m k i hn => by cases hn
  parties := by
    intro key
    rw [Registry.find, init, UnorderedMap.find_empty]
    trivial

theorem lockstep : Lockstep machine Lobby.machine Refines := by
  intro s l a hr
  cases a with
  | onAfterCreate params =>
    have hcall := onAfterCreate_refines hr params
    simp only [machine, Lobby.machine, Server.step, Lobby.step]
    cases hv : l.verdict params with
    | error code =>
      rw [hv] at hcall
      obtain ⟨e, r', hcall, rfl, hs, hu⟩ := hcall
      simp only [hcall]
      exact ⟨_, rfl, refines_refused (refines_untouched hr hs hu)⟩
    | ok q =>
      rw [hv] at hcall
      obtain ⟨k, i, r', hcall, hr'⟩ := hcall
      simp only [hcall]
      exact ⟨_, rfl, hr'⟩
  | onBeforeDestroy n =>
    have hcall := onBeforeDestroy_refines hr n
    simp only [machine, Lobby.machine]
    cases hl : l.step (.onBeforeDestroy n) with
    | none =>
      rw [hl] at hcall
      exact hcall
    | some res =>
      rw [hl] at hcall
      obtain ⟨s', hs, hr', -⟩ := hcall
      exact ⟨s', hs, hr'⟩

structure Answered (s : Server) (l : Lobby) (params : ParameterMap) (s' : Server)
    (answer : Answer) : Prop where
  admitted : ∀ isHost, answer = .admitted isHost ↔ ∃ q, request params = some q ∧
    q.isHost = isHost ∧ (s.registry.gamesConfig.getGameConfig (some q.gameId)).isSome = true ∧
    (isHost = true ↔ s.registry.find q.key = none)
  rejected : ∀ code, answer = .rejected code ↔ l.verdict params = .error code
  untouched : ∀ code, answer = .rejected code → Registry.Untouched s.registry s'.registry

theorem party_eq_none (hr : Refines s l) (key : String × String) :
    l.parties key = none ↔ s.registry.find key = none := by
  rw [← Option.not_isSome_iff_eq_none, ← Option.not_isSome_iff_eq_none, party_isSome hr]

theorem onAfterCreate_answered (hr : Refines s l) (params : ParameterMap) :
    ∃ s' answer, s.step (.onAfterCreate params) = some (s', [answer]) ∧
      Answered s l params s' answer := by
  have hcall := onAfterCreate_refines hr params
  have hok : ∀ q, l.verdict params = .ok q ↔ request params = some q ∧
      (s.registry.gamesConfig.getGameConfig (some q.gameId)).isSome = true ∧
      (q.isHost = true ↔ s.registry.find q.key = none) := by
    intro q
    rw [Lobby.verdict_ok, hr.known, party_eq_none hr]
  cases hv : l.verdict params with
  | error code =>
    rw [hv] at hcall
    obtain ⟨e, r', hcall, rfl, -, hu⟩ := hcall
    refine ⟨⟨r', s.sockets ++ [.refused]⟩, .rejected e.code, ?_, ?_, ?_, fun _ _ => hu⟩
    · simp only [Server.step, hcall]
    · intro isHost
      constructor
      · intro ha
        cases ha
      · rintro ⟨q, hq, rfl, hk, hh⟩
        rw [(hok q).mpr ⟨hq, hk, hh⟩] at hv
        cases hv
    · intro code
      simp [hv]
  | ok q =>
    rw [hv] at hcall
    obtain ⟨k, i, r', hcall, -⟩ := hcall
    refine ⟨⟨r', s.sockets ++ [.listening k i]⟩, .admitted q.isHost, ?_, ?_, ?_, ?_⟩
    · simp only [Server.step, hcall]
    · intro isHost
      obtain ⟨hq, hk, hh⟩ := (hok q).mp hv
      constructor
      · intro ha
        cases ha
        exact ⟨q, hq, rfl, hk, hh⟩
      · rintro ⟨q', hq', rfl, -⟩
        rw [hq] at hq'
        cases hq'
        rfl
    · intro code
      simp [hv]
    · intro code ha
      cases ha

theorem onBeforeDestroy_closed (hr : Refines s l) {n : Nat} {x : Socket}
    (hx : s.sockets[n]? = some x) (hopen : x ≠ .destroyed) :
    ∃ s', s.step (.onBeforeDestroy n) = some (s', []) ∧ Closed s n s' := by
  have hcall := onBeforeDestroy_refines hr n
  obtain ⟨y, hy, hsits⟩ := seat_of_socket hr hx
  simp only [Lobby.step, hy] at hcall
  cases y with
  | left =>
    cases x with
    | destroyed => exact absurd rfl hopen
    | _ => exact hsits.elim
  | refused =>
    obtain ⟨s', hs, -, hclosed⟩ := hcall
    exact ⟨s', hs, hclosed⟩
  | taken key =>
    obtain ⟨s', hs, -, hclosed⟩ := hcall
    exact ⟨s', hs, hclosed⟩

/-- The members of a session are the open sockets that listen for it. -/
theorem peer_iff_socket (hr : Refines s l) {h : Hosted} (hk : s.registry.rooms[k]? = some h)
    (i : PeerRef) : (∃ id, h.room.session.peers.find id = some i) ↔ ∃ n, s.At n k i := by
  obtain ⟨hidle, hagrees, -⟩ := hr.settled.rooms k h hk
  constructor
  · rintro ⟨id, hf⟩
    obtain ⟨p, hp, -, ht⟩ := (Session.find_iff_listening hidle hagrees).mp hf
    exact hr.listeners k h i p hk hp ht
  · rintro ⟨n, hn⟩
    obtain ⟨h₁, -, p, -, hk₁, -, hp, ht⟩ := listening_of_at hr hn
    rw [hk] at hk₁
    cases hk₁
    exact ⟨p.peerId, (Session.find_iff_listening hidle hagrees).mpr ⟨p, hp, rfl, ht⟩⟩

/-- Callback by callback the registry answers as the lobby does, and stands for it. -/
theorem registry_refines_lobby (gamesConfig : GamesConfig) (hw : gamesConfig.WellKeyed)
    (w : List Callback) :
    match Lobby.machine.run w []
        { known := fun gameId => (gamesConfig.getGameConfig (some gameId)).isSome } with
    | none => machine.run w [] (init gamesConfig) = none
    | some (t, l) => ∃ s, machine.run w [] (init gamesConfig) = some (t, s) ∧ Refines s l ∧
        (∀ (k : RoomRef) (h : Hosted), s.registry.rooms[k]? = some h → ∀ i,
          (∃ id, h.room.session.peers.find id = some i) ↔ ∃ n, s.At n k i) ∧
        (∀ params, ∃ s' answer, s.step (.onAfterCreate params) = some (s', [answer]) ∧
          Answered s l params s' answer) ∧
        ∀ n x, s.sockets[n]? = some x → x ≠ .destroyed →
          ∃ s', s.step (.onBeforeDestroy n) = some (s', []) ∧ Closed s n s' := by
  have hrun := lockstep.run w [] (refines_init hw)
  split
  · next hl =>
    rw [hl] at hrun
    exact hrun
  · next t l hl =>
    rw [hl] at hrun
    obtain ⟨s, hs, hr⟩ := hrun
    exact ⟨s, hs, hr, fun k h hk i => peer_iff_socket hr hk i, onAfterCreate_answered hr,
      fun n x hx hopen => onBeforeDestroy_closed hr hx hopen⟩

def sixConnections : List Callback :=
  [.onAfterCreate (System.parameters "game" "lobby" "host"),
    .onAfterCreate (System.parameters "game" "lobby" "client"),
    .onAfterCreate (System.parameters "game" "lobby" "host"),
    .onAfterCreate (System.parameters "game" "other" "client"),
    .onAfterCreate (System.parameters "chess" "lobby" "host"),
    .onBeforeDestroy 0, .onBeforeDestroy 2, .onBeforeDestroy 1,
    .onAfterCreate (System.parameters "game" "lobby" "host")]

theorem registry_refines_lobby_sixConnections :
    (machine.run sixConnections [] (init System.oneGame)).map Prod.fst =
      some [.admitted true, .admitted false, .rejected .operationNotPermitted,
        .rejected .sessionNotFound, .rejected .gameNotFound, .admitted true] := by
  have hw : System.oneGame.WellKeyed :=
    GamesConfig.wellKeyed_putGameConfig GamesConfig.wellKeyed_empty _
  have hrefines := registry_refines_lobby System.oneGame hw sixConnections
  have hlobby : (Lobby.machine.run sixConnections []
      { known := fun gameId => (System.oneGame.getGameConfig (some gameId)).isSome }).map Prod.fst =
      some [.admitted true, .admitted false, .rejected .operationNotPermitted,
        .rejected .sessionNotFound, .rejected .gameNotFound, .admitted true] := by
    decide +kernel
  split at hrefines
  · next hl =>
    rw [hl] at hlobby
    cases hlobby
  · next t l hl =>
    rw [hl] at hlobby
    obtain ⟨s, hs, -⟩ := hrefines
    rw [hs]
    exact hlobby

end Server
end Helicopter
