import Helicopter.Lobby

/-! The lobby that stands for a registry between two callbacks, and what keeps it so. -/
namespace Helicopter
open Interleaving Gathering

namespace Registry
variable {r r' : Registry} {k k' : RoomRef} {h : Hosted} {key key' : String × String}

structure MadeFor (h : Hosted) (key : String × String) : Prop where
  gameId : h.room.session.config.gameId = some key.1
  sessionId : h.room.session.id = key.2

theorem ne_key (hs : r.Settled) (hkey : MadeFor h key) {g : GameRef}
    (hgame : r.games.find h.room.session.config.gameId = some h.game)
    (hg : r.games.find (some key'.1) = some g) (hne : key' ≠ key) :
    ¬ (g = h.game ∧ key'.2 = h.room.session.id) := by
  rintro ⟨rfl, hid⟩
  rw [hkey.gameId] at hgame
  obtain ⟨game, hobj, hgameId, -⟩ := hs.games _ _ hgame
  obtain ⟨game', hobj', hgameId', -⟩ := hs.games _ _ hg
  rw [hobj] at hobj'
  cases hobj'
  rw [hgameId] at hgameId'
  apply hne
  rw [hkey.sessionId] at hid
  exact Prod.ext (Option.some.inj hgameId').symm hid

theorem ne_of_find (hs : r.Settled) (hp : Place r k h) (hkey : MadeFor h key)
    (hgame : r.games.find h.room.session.config.gameId = some h.game) (hne : key' ≠ key)
    (hf : r.find key' = some k') : k' ≠ k := by
  obtain ⟨g, hg, hl⟩ := Option.bind_eq_some_iff.mp hf
  exact ne_of_lookup hs hp (ne_key hs hkey hgame hg hne) hl

theorem find_moved (hs : r.Settled) (hm : Moved r r' k h) (hkey : MadeFor h key)
    (hgame : r.games.find h.room.session.config.gameId = some h.game) (key' : String × String) :
    r'.find key' = if key' = key then
      if h.room.session.peers.isEmpty then none else some k
    else r.find key' := by
  unfold find
  rw [hm.games]
  by_cases hk : key' = key
  · rw [if_pos hk, hk, ← hkey.gameId, hgame, ← hkey.sessionId]
    show r'.lookup h.game h.room.session.id = _
    rw [hm.lookup, if_pos ⟨rfl, rfl⟩]
  · rw [if_neg hk]
    cases hg : r.games.find (some key'.1) with
    | none => rfl
    | some g =>
      show r'.lookup g key'.2 = r.lookup g key'.2
      rw [hm.lookup, if_neg (ne_key hs hkey hgame hg hk)]

end Registry

namespace Server
variable {s s' : Server} {l : Lobby} {r' : Registry} {k k' : RoomRef} {i : PeerRef} {h : Hosted}
  {key : String × String} {party : Party Nat}

def Sits (r : Registry) : Socket → Seat → Prop
  | .refused, .refused => True
  | .destroyed, .left => True
  | .listening k i, .taken key => ∃ h, ∃ p : Peer, r.rooms[k]? = some h ∧
    Registry.MadeFor h key ∧ h.room.session.objects[i]? = some p ∧ p.task = .listening
  | _, _ => False

def At (s : Server) (n : Nat) (k : RoomRef) (i : PeerRef) : Prop :=
  s.sockets[n]? = some (.listening k i)

def Hosts (s : Server) (n : Nat) (k : RoomRef) : Prop :=
  ∃ i h, s.At n k i ∧ s.registry.rooms[k]? = some h ∧ h.room.session.host = some i

structure Represents (s : Server) (k : RoomRef) (party : Party Nat) : Prop where
  members : ∀ n, n ∈ party.members ↔ ∃ i, s.At n k i
  host : ∀ n, party.host = some n ↔ s.Hosts n k

def Holds (s : Server) : Option (Party Nat) → Option RoomRef → Prop
  | none, none => True
  | some party, some k => Represents s k party
  | _, _ => False

structure Refines (s : Server) (l : Lobby) : Prop where
  settled : s.registry.Settled
  known : ∀ gameId, l.known gameId =
    (s.registry.gamesConfig.getGameConfig (some gameId)).isSome
  length : s.sockets.length = l.seats.length
  seats : ∀ (n : Nat) (x : Socket) (y : Seat), s.sockets[n]? = some x → l.seats[n]? = some y →
    Sits s.registry x y
  listeners : ∀ (k : RoomRef) (h : Hosted) (i : PeerRef) (p : Peer),
    s.registry.rooms[k]? = some h → h.room.session.objects[i]? = some p → p.task = .listening →
    ∃ n, s.At n k i
  distinct : ∀ n m k i, s.At n k i → s.At m k i → n = m
  parties : ∀ key, Holds s (l.parties key) (s.registry.find key)

/-- The seats stay, where every listener is still found listening in a session of its key. -/
theorem sits_kept {r : Registry} {x : Socket} {y : Seat} (hx : Sits r x y)
    (hkeep : ∀ k i h key, ∀ p : Peer, x = .listening k i → r.rooms[k]? = some h →
      Registry.MadeFor h key → h.room.session.objects[i]? = some p → p.task = .listening →
      ∃ h', r'.rooms[k]? = some h' ∧ Registry.MadeFor h' key ∧
        h'.room.session.objects[i]? = some p) : Sits r' x y := by
  cases x with
  | listening k i =>
    cases y with
    | taken key =>
      obtain ⟨h, p, hk, hmade, hp, ht⟩ := hx
      obtain ⟨h', hk', hmade', hp'⟩ := hkeep k i h key p rfl hk hmade hp ht
      exact ⟨h', p, hk', hmade', hp', ht⟩
    | _ => exact hx.elim
  | refused => cases y <;> exact hx
  | destroyed => cases y <;> exact hx

theorem sits_same {r : Registry} {x : Socket} {y : Seat} (hr : r'.rooms = r.rooms)
    (hx : Sits r x y) : Sits r' x y := by
  refine sits_kept hx ?_
  intro k i h key p _ hk hmade hp _
  exact ⟨h, by rw [hr, hk], hmade, hp⟩

theorem represents_same (hs : ∀ n j, s'.At n k j ↔ s.At n k j)
    (hr : s'.registry.rooms[k]? = s.registry.rooms[k]?) (hp : Represents s k party) :
    Represents s' k party := by
  constructor
  · intro n
    rw [hp.members]
    simp only [hs]
  · intro n
    rw [hp.host]
    simp only [Hosts, hs, hr]

theorem holds_same {party? : Option (Party Nat)} {k? : Option RoomRef}
    (hs : ∀ k ∈ k?, ∀ n j, s'.At n k j ↔ s.At n k j)
    (hr : ∀ k ∈ k?, s'.registry.rooms[k]? = s.registry.rooms[k]?) (hp : Holds s party? k?) :
    Holds s' party? k? := by
  cases party? with
  | none =>
    cases k? with
    | none => trivial
    | some k => exact hp.elim
  | some party =>
    cases k? with
    | none => exact hp.elim
    | some k => exact represents_same (hs k rfl) (hr k rfl) hp

theorem lt_of_at {n : Nat} (h : s.At n k i) : n < s.sockets.length :=
  (List.getElem?_eq_some_iff.mp h).1

/-- A game may be made on the way. -/
theorem refines_untouched (h : Refines s l) (hs : r'.Settled)
    (hu : Registry.Untouched s.registry r') : Refines ⟨r', s.sockets⟩ l where
  settled := hs
  known := by
    intro gameId
    rw [hu.gamesConfig]
    exact h.known gameId
  length := h.length
  seats n x y hx hy := sits_same hu.rooms (h.seats n x y hx hy)
  listeners k hosted i p hk := by
    rw [hu.rooms] at hk
    exact h.listeners k hosted i p hk
  distinct := h.distinct
  parties key := by
    rw [hu.find]
    refine holds_same (s := s) (fun _ _ _ _ => Iff.rfl) ?_ (h.parties key)
    intro k _
    show r'.rooms[k]? = _
    rw [hu.rooms]

theorem at_refused {n : Nat} :
    At { s with sockets := s.sockets ++ [.refused] } n k i ↔ s.At n k i := by
  unfold At
  rw [getElem?_snoc]
  split
  · next hn =>
    constructor
    · intro hx
      cases hx
    · intro hx
      have hlt := lt_of_at hx
      omega
  · rfl

theorem refines_refused (h : Refines s l) :
    Refines { s with sockets := s.sockets ++ [.refused] }
      { l with seats := l.seats ++ [.refused] } where
  settled := h.settled
  known := h.known
  length := by simp [h.length]
  seats := related_snoc (R := Sits s.registry) h.length trivial h.seats
  listeners k hosted i p hk hp ht := by
    obtain ⟨n, hn⟩ := h.listeners k hosted i p hk hp ht
    exact ⟨n, at_refused.mpr hn⟩
  distinct n m k i hn hm := h.distinct n m k i (at_refused.mp hn) (at_refused.mp hm)
  parties key := holds_same (fun _ _ _ _ => at_refused) (fun _ _ => rfl) (h.parties key)

/-! ## A connection enters -/

theorem at_listening {n : Nat} {j : PeerRef} :
    At ⟨r', s.sockets ++ [.listening k i]⟩ n k' j ↔
      (n = s.sockets.length ∧ k' = k ∧ j = i) ∨ s.At n k' j := by
  unfold At
  rw [getElem?_snoc]
  split
  · next hn =>
    constructor
    · intro hx
      cases hx
      exact Or.inl ⟨hn, rfl, rfl⟩
    · rintro (⟨-, rfl, rfl⟩ | hx)
      · rfl
      · have hlt := lt_of_at hx
        omega
  · next hn =>
    constructor
    · intro hx
      exact Or.inr hx
    · rintro (⟨hn', -, -⟩ | hx)
      · exact absurd hn' hn
      · exact hx

structure Enters (r r' : Registry) (k : RoomRef) (i : PeerRef) (h : Hosted)
    (key : String × String) : Prop where
  moved : Registry.Moved r r' k h
  place : Registry.Place r k h
  key : Registry.MadeFor h key
  idle : h.room.session.Idle
  agrees : h.room.session.Agrees
  game : r.games.find h.room.session.config.gameId = some h.game
  listens : ∃ p, h.room.session.objects[i]? = some p ∧ p.task = .listening
  others : ∀ (j : PeerRef) (p : Peer), j ≠ i → (h.room.session.objects[j]? = some p ↔
    ∃ h₀ : Hosted, r.rooms[k]? = some h₀ ∧ h₀.room.session.objects[j]? = some p)
  before : ∀ h₀ : Hosted, r.rooms[k]? = some h₀ →
    h₀.room.session.config = h.room.session.config ∧ h₀.room.session.objects[i]? = none

/-- A party of another key is in another session. -/
theorem holds_elsewhere {key' : String × String} (hr : Refines s l)
    (hplace : Registry.Place s.registry k h) (hkey : Registry.MadeFor h key)
    (hgame : s.registry.games.find h.room.session.config.gameId = some h.game)
    (hne : key' ≠ key) (hat : ∀ k', k' ≠ k → ∀ n j, s'.At n k' j ↔ s.At n k' j)
    (hrooms : ∀ k', k' ≠ k → s'.registry.rooms[k']? = s.registry.rooms[k']?) :
    Holds s' (l.parties key') (s.registry.find key') := by
  have hother : ∀ k' ∈ s.registry.find key', k' ≠ k := fun k' hk' =>
    Registry.ne_of_find hr.settled hplace hkey hgame hne hk'
  refine holds_same ?_ ?_ (hr.parties key')
  · intro k' hk' n j
    exact hat k' (hother k' hk') n j
  · intro k' hk'
    exact hrooms k' (hother k' hk')

theorem listening_of_at (hr : Refines s l) {n : Nat} (hn : s.At n k i) :
    ∃ h key, ∃ p : Peer, l.seats[n]? = some (.taken key) ∧ s.registry.rooms[k]? = some h ∧
      Registry.MadeFor h key ∧ h.room.session.objects[i]? = some p ∧ p.task = .listening := by
  have hlt := lt_of_at hn
  obtain ⟨y, hy⟩ : ∃ y, l.seats[n]? = some y :=
    ⟨_, List.getElem?_eq_getElem (by rw [← hr.length]; exact hlt)⟩
  have hsits := hr.seats n _ y hn hy
  cases y with
  | taken key =>
    obtain ⟨h, p, hk, hmade, hobj, ht⟩ := hsits
    exact ⟨h, key, p, hy, hk, hmade, hobj, ht⟩
  | _ => exact hsits.elim

/-- No socket had the new peer. -/
theorem not_at_entered (hr : Refines s l) (he : Enters s.registry r' k i h key) (n : Nat) :
    ¬ s.At n k i := by
  intro hn
  obtain ⟨h₀, -, p, -, hk₀, -, hobj, -⟩ := listening_of_at hr hn
  rw [(he.before h₀ hk₀).2] at hobj
  cases hobj

theorem sits_entered {x : Socket} {y : Seat} (he : Enters s.registry r' k i h key)
    (hx : Sits s.registry x y) : Sits r' x y := by
  refine sits_kept hx ?_
  intro k' j h₀ key' p _ hk₀ hmade hobj ht
  by_cases hkk : k' = k
  · subst hkk
    obtain ⟨hconfig, hnew⟩ := he.before h₀ hk₀
    have hj : j ≠ i := by
      intro hj
      rw [hj, hnew] at hobj
      cases hobj
    refine ⟨h, by rw [he.moved.rooms, if_pos rfl], ⟨?_, ?_⟩,
      (he.others j p hj).mpr ⟨h₀, hk₀, hobj⟩⟩
    · rw [← hconfig]
      exact hmade.gameId
    · rw [← (he.place.same h₀ hk₀).2]
      exact hmade.sessionId
  · exact ⟨h₀, by rw [he.moved.rooms, if_neg hkk, hk₀], hmade, hobj⟩

/-- The party with the new connection is the session with its peer. -/
theorem represents_entered (he : Enters s.registry r' k i h key)
    (hp : ∀ n, n ∈ party.members ↔ n = s.sockets.length ∨ ∃ j, s.At n k j)
    (hhost : ∀ n, party.host = some n ↔ ∃ j,
      ((n = s.sockets.length ∧ j = i) ∨ s.At n k j) ∧ h.room.session.host = some j) :
    Represents ⟨r', s.sockets ++ [.listening k i]⟩ k party := by
  have hk : r'.rooms[k]? = some h := by rw [he.moved.rooms, if_pos rfl]
  constructor
  · intro n
    rw [hp]
    constructor
    · rintro (hn | ⟨j, hn⟩)
      · exact ⟨i, at_listening.mpr (Or.inl ⟨hn, rfl, rfl⟩)⟩
      · exact ⟨j, at_listening.mpr (Or.inr hn)⟩
    · intro hn
      obtain ⟨j, hn⟩ := hn
      cases at_listening.mp hn with
      | inl hn => exact Or.inl hn.1
      | inr hn => exact Or.inr ⟨j, hn⟩
  · intro n
    rw [hhost]
    constructor
    · intro hat
      obtain ⟨j, hat, hj⟩ := hat
      refine ⟨j, h, at_listening.mpr ?_, hk, hj⟩
      cases hat with
      | inl hn => exact Or.inl ⟨hn.1, rfl, hn.2⟩
      | inr hn => exact Or.inr hn
    · intro hat
      obtain ⟨j, h', hat, hk', hj⟩ := hat
      change r'.rooms[k]? = some h' at hk'
      rw [hk] at hk'
      cases hk'
      refine ⟨j, ?_, hj⟩
      cases at_listening.mp hat with
      | inl hn => exact Or.inl ⟨hn.1, hn.2.2⟩
      | inr hn => exact Or.inr hn

theorem refines_entered (hr : Refines s l) (he : Enters s.registry r' k i h key)
    (hp : ∀ n, n ∈ party.members ↔ n = s.sockets.length ∨ ∃ j, s.At n k j)
    (hhost : ∀ n, party.host = some n ↔ ∃ j,
      ((n = s.sockets.length ∧ j = i) ∨ s.At n k j) ∧ h.room.session.host = some j) :
    Refines ⟨r', s.sockets ++ [.listening k i]⟩
      { l with parties := l.parties.set key (some party), seats := l.seats ++ [.taken key] } := by
  have hk : r'.rooms[k]? = some h := by rw [he.moved.rooms, if_pos rfl]
  have hfresh := not_at_entered hr he
  obtain ⟨q, hq, hlisten⟩ := he.listens
  refine ⟨Registry.settled_moved hr.settled he.place he.moved he.idle he.agrees he.game, ?_,
    by simp [hr.length], ?_, ?_, ?_, ?_⟩
  · intro gameId
    rw [he.moved.gamesConfig]
    exact hr.known gameId
  · exact related_snoc (R := Sits r') hr.length ⟨h, q, hk, he.key, hq, hlisten⟩
      fun n x y hx hy => sits_entered he (hr.seats n x y hx hy)
  · intro k' h' j p hk' hobj ht
    rw [he.moved.rooms] at hk'
    split at hk'
    · next hkk =>
      cases hk'
      by_cases hj : j = i
      · exact ⟨s.sockets.length, at_listening.mpr (Or.inl ⟨rfl, hkk, hj⟩)⟩
      · obtain ⟨h₀, hk₀, hobj₀⟩ := (he.others j p hj).mp hobj
        obtain ⟨n, hn⟩ := hr.listeners k h₀ j p hk₀ hobj₀ ht
        rw [hkk]
        exact ⟨n, at_listening.mpr (Or.inr hn)⟩
    · obtain ⟨n, hn⟩ := hr.listeners k' h' j p hk' hobj ht
      exact ⟨n, at_listening.mpr (Or.inr hn)⟩
  · intro n m k' j hn hm
    obtain ⟨hn, hkk, hj⟩ | hn := at_listening.mp hn
    · obtain ⟨hm, -, -⟩ | hm := at_listening.mp hm
      · rw [hn, hm]
      · rw [hkk, hj] at hm
        exact absurd hm (hfresh m)
    · obtain ⟨hm, hkk, hj⟩ | hm := at_listening.mp hm
      · rw [hkk, hj] at hn
        exact absurd hn (hfresh n)
      · exact hr.distinct n m k' j hn hm
  · intro key'
    show Holds _ (l.parties.set key (some party) key') (r'.find key')
    rw [Registry.find_moved hr.settled he.moved he.key he.game]
    by_cases hkey : key' = key
    · have hne : h.room.session.peers.isEmpty = false :=
        (Session.nonempty_iff_listening he.idle he.agrees).mpr ⟨i, q, hq, hlisten⟩
      rw [if_pos hkey, hne, hkey, Parties.set_self]
      exact represents_entered he hp hhost
    · rw [if_neg hkey, Parties.set_ne _ _ hkey]
      refine holds_elsewhere hr he.place he.key he.game hkey ?_ ?_
      · intro k' hkk n j
        rw [at_listening]
        constructor
        · intro hn
          exact hn.resolve_left fun hf => hkk hf.2.1
        · exact Or.inr
      · intro k' hkk
        show r'.rooms[k']? = _
        rw [he.moved.rooms, if_neg hkk]

/-! ## A connection leaves -/

theorem at_destroyed {n m : Nat} {j : PeerRef} (hn : n < s.sockets.length) :
    At ⟨r', s.sockets.set n .destroyed⟩ m k j ↔ m ≠ n ∧ s.At m k j := by
  unfold At
  by_cases hm : m = n
  · subst hm
    simp [List.getElem?_set_self hn]
  · rw [List.getElem?_set_ne (Ne.symm hm)]
    constructor
    · intro hx
      exact ⟨hm, hx⟩
    · intro hx
      exact hx.2

theorem at_closed {n m : Nat} {j : PeerRef} (hn : s.sockets[n]? = some .refused) :
    At { s with sockets := s.sockets.set n .destroyed } m k j ↔ s.At m k j := by
  have hlt := (List.getElem?_eq_some_iff.mp hn).1
  refine (at_destroyed hlt).trans ?_
  constructor
  · intro hx
    exact hx.2
  · intro hx
    refine ⟨?_, hx⟩
    intro hmn
    unfold At at hx
    rw [hmn, hn] at hx
    cases hx

theorem refines_closed {n : Nat} (hr : Refines s l) (hn : s.sockets[n]? = some .refused) :
    Refines { s with sockets := s.sockets.set n .destroyed }
      { l with seats := l.seats.set n .left } where
  settled := hr.settled
  known := hr.known
  length := by simp [hr.length]
  seats := related_set (R := Sits s.registry) (List.getElem?_eq_some_iff.mp hn).1 hr.length trivial
    fun m x y _ hx hy => hr.seats m x y hx hy
  listeners k h i p hk hp ht := by
    obtain ⟨m, hm⟩ := hr.listeners k h i p hk hp ht
    exact ⟨m, (at_closed hn).mpr hm⟩
  distinct m m' k i hm hm' := hr.distinct m m' k i ((at_closed hn).mp hm) ((at_closed hn).mp hm')
  parties key := holds_same (fun _ _ _ _ => at_closed hn) (fun _ _ => rfl) (hr.parties key)

theorem eq_of_at {n : Nat} {j : PeerRef} (hi : s.At n k i) (hj : s.At n k' j) :
    k' = k ∧ j = i := by
  unfold At at hi hj
  rw [hi] at hj
  cases hj
  exact ⟨rfl, rfl⟩

theorem find_of_listening (hr : Refines s l) {p : Peer} (hk : s.registry.rooms[k]? = some h)
    (hkey : Registry.MadeFor h key) (hp : h.room.session.objects[i]? = some p)
    (ht : p.task = .listening) :
    s.registry.Registered k h ∧ s.registry.find key = some k := by
  obtain ⟨hidle, hagrees, hgame⟩ := hr.settled.rooms k h hk
  have hocc : h.room.occupied :=
    (Session.nonempty_iff_listening hidle hagrees).mpr ⟨i, p, hp, ht⟩
  have hreg : s.registry.lookup h.game h.room.session.id = some k :=
    hr.settled.occupied k h hk hocc
  refine ⟨hreg, ?_⟩
  unfold Registry.find
  rw [← hkey.gameId, hgame, ← hkey.sessionId]
  exact hreg

/-- Whoever else listens in the session stays. -/
theorem stays_listening {s : Session} {p q : Peer} {j : PeerRef} (hp : s.objects[i]? = some p)
    (hq : q.task = .listening) :
    (s.departed i p).objects[j]? = some q ↔ j ≠ i ∧ s.objects[j]? = some q := by
  rw [Session.objects_departed hp]
  split
  · next hj =>
    constructor
    · intro he
      cases he
      cases hq
    · intro he
      exact absurd hj he.1
  · next hj => exact ⟨fun he => ⟨hj, he⟩, fun he => he.2⟩

theorem hosts_departed {n m : Nat} {p : Peer} {os : List (Outbox MessageDto)} (hr : Refines s l)
    (hn : s.At n k i) (hk : s.registry.rooms[k]? = some h)
    (hp : h.room.session.objects[i]? = some p)
    (hk' : r'.rooms[k]? = some ⟨h.game, ⟨h.room.session.departed i p, os⟩⟩) :
    Hosts ⟨r', s.sockets.set n .destroyed⟩ m k ↔ s.Hosts m k ∧ m ≠ n := by
  have hlt := lt_of_at hn
  obtain ⟨-, hagrees, -⟩ := hr.settled.rooms k h hk
  unfold Hosts
  simp only [at_destroyed hlt]
  constructor
  · rintro ⟨j, h₁, ⟨hmn, hat⟩, hk₁, hj⟩
    rw [hk'] at hk₁
    cases hk₁
    have hold := ((Session.host_departed hagrees hp j).mp hj).1
    exact ⟨⟨j, h, hat, hk, hold⟩, hmn⟩
  · rintro ⟨⟨j, h₁, hat, hk₁, hj⟩, hmn⟩
    rw [hk] at hk₁
    cases hk₁
    refine ⟨j, _, ⟨hmn, hat⟩, hk', ?_⟩
    refine (Session.host_departed hagrees hp j).mpr ⟨hj, ?_⟩
    intro hji
    rw [hji] at hat
    exact hmn (hr.distinct m n k i hat hn)

/-- The party without the connection is the session without its peer. -/
theorem holds_leave {n : Nat} {p : Peer} {os : List (Outbox MessageDto)} (hr : Refines s l)
    (hn : s.At n k i) (hk : s.registry.rooms[k]? = some h)
    (hp : h.room.session.objects[i]? = some p) (ht : p.task = .listening)
    (hk' : r'.rooms[k]? = some ⟨h.game, ⟨h.room.session.departed i p, os⟩⟩)
    (hparty : Represents s k party) :
    Holds ⟨r', s.sockets.set n .destroyed⟩ (party.leave n)
      (if (h.room.session.departed i p).peers.isEmpty then none else some k) := by
  have hlt := lt_of_at hn
  obtain ⟨hidle, hagrees, -⟩ := hr.settled.rooms k h hk
  have hempty := Session.nonempty_iff_listening (Session.idle_departed hidle hp)
    (Session.agrees_departed hagrees hp ht hidle.free)
  have hother : ∀ {m : Nat} {j : PeerRef}, s.At m k j → (m ≠ n ↔ j ≠ i) := by
    intro m j hm
    constructor
    · intro hne hj
      rw [hj] at hm
      exact hne (hr.distinct m n k i hm hn)
    · intro hne hmn
      rw [hmn] at hm
      exact hne (eq_of_at hn hm).2
  cases hleave : party.leave n with
  | none =>
    have hall := Party.leave_eq_none.mp hleave
    have he : (h.room.session.departed i p).peers.isEmpty = true := by
      by_contra hne
      obtain ⟨j, q, hobj, hq⟩ := hempty.mp (by simpa using hne)
      obtain ⟨hj, hobj⟩ := (stays_listening hp hq).mp hobj
      obtain ⟨m, hm⟩ := hr.listeners k h j q hk hobj hq
      exact (hother hm).mpr hj (hall m ((hparty.members m).mpr ⟨j, hm⟩))
    rw [he]
    trivial
  | some party' =>
    have hne : (h.room.session.departed i p).peers.isEmpty = false := by
      have hsome : ¬ ∀ m ∈ party.members, m = n := by
        intro hall
        rw [Party.leave_eq_none.mpr hall] at hleave
        cases hleave
      obtain ⟨m, hm⟩ := not_forall.mp hsome
      obtain ⟨hm, hmn⟩ := Classical.not_imp.mp hm
      obtain ⟨j, hat⟩ := (hparty.members m).mp hm
      obtain ⟨h₁, -, q, -, hk₁, -, hobj, hq⟩ := listening_of_at hr hat
      rw [hk] at hk₁
      cases hk₁
      exact hempty.mpr ⟨j, q, (stays_listening hp hq).mpr ⟨(hother hat).mp hmn, hobj⟩, hq⟩
    rw [hne]
    constructor
    · intro m
      rw [Party.mem_of_leave hleave, hparty.members]
      simp only [at_destroyed hlt]
      constructor
      · rintro ⟨⟨j, hat⟩, hmn⟩
        exact ⟨j, hmn, hat⟩
      · rintro ⟨j, hmn, hat⟩
        exact ⟨⟨j, hat⟩, hmn⟩
    · intro m
      rw [Party.host_of_leave hleave, hparty.host, hosts_departed hr hn hk hp hk']

/-- The seats of all other sockets are where they were. -/
theorem sits_left {n m : Nat} {p : Peer} {os : List (Outbox MessageDto)} {x : Socket} {y : Seat}
    (hr : Refines s l) (hn : s.At n k i) (hk : s.registry.rooms[k]? = some h)
    (hp : h.room.session.objects[i]? = some p)
    (hm : Registry.Moved s.registry r' k ⟨h.game, ⟨h.room.session.departed i p, os⟩⟩)
    (hmn : m ≠ n) (hx : s.sockets[m]? = some x) (hy : l.seats[m]? = some y) : Sits r' x y := by
  refine sits_kept (hr.seats m x y hx hy) ?_
  intro k₁ j h₁ key₁ q hxj hk₁ hmade hobj hq
  by_cases hkk : k₁ = k
  · subst hkk
    rw [hk] at hk₁
    cases hk₁
    have hj : j ≠ i := by
      intro hj
      rw [hxj, hj] at hx
      exact hmn (hr.distinct m n k₁ i hx hn)
    exact ⟨⟨h.game, ⟨h.room.session.departed i p, os⟩⟩, by rw [hm.rooms, if_pos rfl],
      ⟨hmade.gameId, hmade.sessionId⟩, (stays_listening hp hq).mpr ⟨hj, hobj⟩⟩
  · exact ⟨h₁, by rw [hm.rooms, if_neg hkk, hk₁], hmade, hobj⟩

theorem at_elsewhere {n m : Nat} {j : PeerRef} (hn : s.At n k i) (hne : k' ≠ k) :
    At ⟨r', s.sockets.set n .destroyed⟩ m k' j ↔ s.At m k' j := by
  rw [at_destroyed (lt_of_at hn)]
  constructor
  · intro hat
    exact hat.2
  · intro hat
    refine ⟨?_, hat⟩
    intro hmn
    rw [hmn] at hat
    exact hne (eq_of_at hn hat).1

/-- Whoever listens after the connection has left has a socket. -/
theorem listeners_left {n : Nat} {p q : Peer} {os : List (Outbox MessageDto)} {h₁ : Hosted}
    {j : PeerRef} (hr : Refines s l) (hn : s.At n k i) (hk : s.registry.rooms[k]? = some h)
    (hp : h.room.session.objects[i]? = some p)
    (hm : Registry.Moved s.registry r' k ⟨h.game, ⟨h.room.session.departed i p, os⟩⟩)
    (hk' : r'.rooms[k']? = some h₁) (hobj : h₁.room.session.objects[j]? = some q)
    (hq : q.task = .listening) : ∃ m, At ⟨r', s.sockets.set n .destroyed⟩ m k' j := by
  rw [hm.rooms] at hk'
  split at hk'
  · next hkk =>
    cases hk'
    obtain ⟨hj, hobj⟩ := (stays_listening hp hq).mp hobj
    obtain ⟨m, hat⟩ := hr.listeners k h j q hk hobj hq
    rw [hkk]
    refine ⟨m, (at_destroyed (lt_of_at hn)).mpr ⟨?_, hat⟩⟩
    intro hmn
    rw [hmn] at hat
    exact hj (eq_of_at hn hat).2
  · next hkk =>
    obtain ⟨m, hat⟩ := hr.listeners k' h₁ j q hk' hobj hq
    exact ⟨m, (at_elsewhere hn hkk).mpr hat⟩

theorem refines_left {n : Nat} {p : Peer} {os : List (Outbox MessageDto)} (hr : Refines s l)
    (hn : s.At n k i) (hk : s.registry.rooms[k]? = some h) (hkey : Registry.MadeFor h key)
    (hp : h.room.session.objects[i]? = some p) (ht : p.task = .listening)
    (hm : Registry.Moved s.registry r' k ⟨h.game, ⟨h.room.session.departed i p, os⟩⟩) :
    Refines ⟨r', s.sockets.set n .destroyed⟩
      { l with
        parties := l.parties.set key ((l.parties key).bind fun p => p.leave n)
        seats := l.seats.set n .left } := by
  have hlt := lt_of_at hn
  obtain ⟨hidle, hagrees, hgame⟩ := hr.settled.rooms k h hk
  obtain ⟨hreg, hfind⟩ := find_of_listening hr hk hkey hp ht
  have hidle' := Session.idle_departed hidle hp
  have hagrees' := Session.agrees_departed hagrees hp ht hidle.free
  let h' : Hosted := ⟨h.game, ⟨h.room.session.departed i p, os⟩⟩
  have hkey' : Registry.MadeFor h' key := ⟨hkey.gameId, hkey.sessionId⟩
  have hplace : Registry.Place s.registry k h' := by
    refine ⟨Or.inr hreg, ?_⟩
    intro h₀ hk₀
    rw [hk] at hk₀
    cases hk₀
    exact ⟨rfl, rfl⟩
  have hk' : r'.rooms[k]? = some h' := by rw [hm.rooms, if_pos rfl]
  refine ⟨Registry.settled_moved hr.settled hplace hm hidle' hagrees' hgame, ?_,
    by simp [hr.length], ?_, ?_, ?_, ?_⟩
  · intro gameId
    rw [hm.gamesConfig]
    exact hr.known gameId
  · exact related_set (R := Sits r') hlt hr.length trivial
      fun m x y hmn hx hy => sits_left hr hn hk hp hm hmn hx hy
  · intro k₁ h₁ j q hk₁ hobj hq
    exact listeners_left hr hn hk hp hm hk₁ hobj hq
  · intro m m' k₁ j hm₁ hm₂
    exact hr.distinct m m' k₁ j ((at_destroyed hlt).mp hm₁).2 ((at_destroyed hlt).mp hm₂).2
  · intro key₁
    show Holds _ (l.parties.set key _ key₁) (r'.find key₁)
    rw [Registry.find_moved hr.settled hm hkey' hgame]
    by_cases hkk : key₁ = key
    · have hold := hr.parties key
      rw [hfind] at hold
      rw [if_pos hkk, hkk, Parties.set_self]
      cases hparty : l.parties key with
      | none =>
        rw [hparty] at hold
        exact hold.elim
      | some party =>
        rw [hparty] at hold
        exact holds_leave hr hn hk hp ht hk' hold
    · rw [if_neg hkk, Parties.set_ne _ _ hkk]
      refine holds_elsewhere hr hplace hkey' hgame hkk ?_ ?_
      · intro k₁ hne m j
        exact at_elsewhere hn hne
      · intro k₁ hne
        show r'.rooms[k₁]? = _
        rw [hm.rooms, if_neg hne]

end Server
end Helicopter
