import Helicopter.Pinger
import Helicopter.Lib.Family

/-! The server under any interleaving of its connections, handlers, sender coroutines and
pingers. What a connection carries from one of its sections to the next is kept in `admissions`
and `departures`. -/
namespace Helicopter
open Interleaving

/-- A connection in `onBeforeDestroy_NonBlocking` that was told that its session is empty:
before `getGameById`, and before `deleteSession`. -/
inductive Departure where
  | emptied (k : RoomRef)
  | deleting (game : GameRef) (sessionId : String)

structure System where
  registry : Registry
  admissions : List Admission := []
  departures : List Departure := []

/-- `removePeerById` reported an empty session. -/
def Registry.Event.leavesEmpty : Registry.Event → Bool
  | .room _ (.session (.left _ true)) => true
  | _ => false

namespace System

inductive Event where
  | registry (e : Registry.Event)
  /-- `sendSocketErrorAsync` of a fatal error -/
  | rejected (error : ErrorDto)
  | admitted (admission : Admission) (k : RoomRef)
  | deleted (game : GameRef) (sessionId : String)

inductive Op where
  /-- `onAfterCreate_NonBlocking` up to `getGameById` -/
  | connect (params : ParameterMap)
  /-- `createNewSession` or `findSession` of a connection -/
  | getSession (c : Nat)
  /-- the threads of the peers of a session -/
  | room (k : RoomRef) (a : Room.Op)
  /-- `getGameById` of a connection that left a session empty -/
  | findGame (d : Nat)
  | deleteSession (d : Nat)
  | pinger (g : GameRef) (p : Nat) (c : Nat) (now : Int)

/-- The steps of a session that its peers take; the others are `getSession` and `pinger`. -/
def ofPeers : Room.Op → Bool
  | .session .findSession | .session (.tick _ _) => false
  | _ => true

/-- A step of a session after which the connection of a peer may have to delete it. -/
def stepPeers (s : System) (k : RoomRef) (a : Room.Op) : Option (System × List Event) :=
  match s.registry.stepRoom k a with
  | none => none
  | some (r, es) =>
    let emptied := es.any Registry.Event.leavesEmpty
    some ({ s with
      registry := r
      departures := s.departures ++ if emptied then [.emptied k] else [] },
      es.map .registry)

def step (s : System) : Op → Option (System × List Event)
  | .connect params =>
    match s.registry.findGameForPeer params with
    | (.error e, r) => some ({ s with registry := r }, [.rejected e])
    | (.ok a, r) => some ({ s with registry := r, admissions := s.admissions ++ [a] }, [])
  | .getSession c =>
    match s.admissions[c]? with
    | none => none
    | some a =>
      match s.registry.getSession a with
      | none => none
      | some (.error e, r, es) =>
        some ({ s with registry := r, admissions := s.admissions.eraseIdx c },
          es.map .registry ++ [.rejected e])
      | some (.ok k, r, es) =>
        some ({ s with registry := r, admissions := s.admissions.eraseIdx c },
          es.map .registry ++ [.admitted a k])
  | .room k a => if ofPeers a then s.stepPeers k a else none
  | .findGame d =>
    match s.departures[d]? with
    | some (.emptied k) =>
      match s.registry.rooms[k]? with
      | none => none
      | some h =>
        match s.registry.getGameById h.room.session.config.gameId with
        -- the source dereferences a null pointer
        | (none, _) => none
        | (some g, r) =>
          some ({ s with
            registry := r
            departures := s.departures.set d (.deleting g h.room.session.id) }, [])
    | _ => none
  | .deleteSession d =>
    match s.departures[d]? with
    | some (.deleting g sessionId) =>
      match s.registry.deleteSession g sessionId with
      | none => none
      | some r =>
        some ({ s with registry := r, departures := s.departures.eraseIdx d },
          [.deleted g sessionId])
    | _ => none
  | .pinger g p c now =>
    match s.registry.pinger g p c now with
    | none => none
    | some (r, es) => some ({ s with registry := r }, es.map .registry)

def machine : Machine System Op Event := ⟨step⟩

def init (gamesConfig : GamesConfig) : System := { registry := { gamesConfig := gamesConfig } }

def parameters (gameId sessionId peerType : String) : ParameterMap :=
  ((UnorderedMap.insertNew ∅ Constants.paramGameId (some gameId)).insertNew
    Constants.paramGameSessionId (some sessionId)).insertNew Constants.paramPeerType (some peerType)

def Event.registry? : Event → Option Registry.Event
  | .registry e => some e
  | _ => none

def registryPart (t : List Event) : List Registry.Event := t.filterMap Event.registry?

def roomPart (k : RoomRef) (t : List Event) : List Room.Event :=
  Registry.roomPart k (registryPart t)

@[simp] theorem registryPart_append (t u : List Event) :
    registryPart (t ++ u) = registryPart t ++ registryPart u :=
  List.filterMap_append ..

@[simp] theorem registryPart_registry (es : List Registry.Event) :
    registryPart (es.map .registry) = es := by
  induction es with
  | nil => rfl
  | cons e es ih => exact congrArg (e :: ·) ih

@[simp] theorem registryPart_rejected (e : ErrorDto) : registryPart [.rejected e] = [] := rfl
@[simp] theorem registryPart_admitted (a : Admission) (k : RoomRef) :
    registryPart [.admitted a k] = [] := rfl
@[simp] theorem registryPart_deleted (g : GameRef) (sessionId : String) :
    registryPart [.deleted g sessionId] = [] := rfl
@[simp] theorem roomPart_append (k : RoomRef) (t u : List Event) :
    roomPart k (t ++ u) = roomPart k t ++ roomPart k u := by
  simp [roomPart]

/-! ## Steps of the system as steps of the registry -/

def section? (s : System) : Op → Option Registry.Op
  | .room k a => some (.stepRoom k a)
  | .deleteSession d =>
    match s.departures[d]? with
    | some (.deleting g sessionId) => some (.deleteSession g sessionId)
    | _ => none
  | _ => none

def Quiet : Registry.Op → Prop
  | .stepRoom _ a => ofPeers a = false
  | .deleteSession _ _ => False
  | _ => True

variable {s s' : System} {es : List Event}

theorem getSession_run {r r' : Registry} {a : Admission} {res : Except ErrorDto RoomRef}
    {es : List Registry.Event} (h : r.getSession a = some (res, r', es)) :
    ∃ w, Registry.machine.run w [] r = some (es, r') ∧ ∀ op ∈ w, Quiet op := by
  have hcreate : ∀ {answer : Option RoomRef} {r₁ : Registry},
      r.createNewSession a.game a.sessionId = some (answer, r₁) →
      ∃ w, Registry.machine.run w [] r = some ([], r₁) ∧ ∀ op ∈ w, Quiet op := by
    intro answer r₁ hc
    have hstep : Registry.machine.step r (.createNewSession a.game a.sessionId) =
        some (r₁, []) := by
      simp only [Registry.machine, Registry.step, hc]
    exact ⟨[.createNewSession a.game a.sessionId], run_singleton hstep, by simp [Quiet]⟩
  cases Registry.getSession_cases h with
  | created k r' hc => exact hcreate hc
  | taken e r' hc => exact hcreate hc
  | missing e => exact ⟨[], rfl, by simp⟩
  | found k r' es hf hs =>
    have hstep : Registry.machine.step r (.stepRoom k (.session .findSession)) =
        some (r', es) := hs
    exact ⟨[.stepRoom k (.session .findSession)], run_singleton hstep, by simp [Quiet, ofPeers]⟩

inductive Step (s : System) : Op → System → List Event → Prop where
  | rejected (params : ParameterMap) (e : ErrorDto) (r : Registry) :
    s.registry.findGameForPeer params = (.error e, r) →
    Step s (.connect params) { s with registry := r } [.rejected e]
  | found (params : ParameterMap) (a : Admission) (r : Registry) :
    s.registry.findGameForPeer params = (.ok a, r) →
    Step s (.connect params) { s with registry := r, admissions := s.admissions ++ [a] } []
  | refused (c : Nat) (a : Admission) (e : ErrorDto) (r : Registry) (fs : List Registry.Event) :
    s.admissions[c]? = some a → s.registry.getSession a = some (.error e, r, fs) →
    Step s (.getSession c) { s with registry := r, admissions := s.admissions.eraseIdx c }
      (fs.map .registry ++ [.rejected e])
  | admitted (c : Nat) (a : Admission) (k : RoomRef) (r : Registry) (fs : List Registry.Event) :
    s.admissions[c]? = some a → s.registry.getSession a = some (.ok k, r, fs) →
    Step s (.getSession c) { s with registry := r, admissions := s.admissions.eraseIdx c }
      (fs.map .registry ++ [.admitted a k])
  | room (k : RoomRef) (b : Room.Op) (r : Registry) (fs : List Registry.Event) :
    ofPeers b = true → s.registry.stepRoom k b = some (r, fs) →
    Step s (.room k b)
      { s with
        registry := r
        departures := s.departures ++
          if fs.any Registry.Event.leavesEmpty then [.emptied k] else [] }
      (fs.map .registry)
  | findGame (d : Nat) (k : RoomRef) (h : Hosted) (g : GameRef) (r : Registry) :
    s.departures[d]? = some (.emptied k) → s.registry.rooms[k]? = some h →
    s.registry.getGameById h.room.session.config.gameId = (some g, r) →
    Step s (.findGame d)
      { s with
        registry := r
        departures := s.departures.set d (.deleting g h.room.session.id) } []
  | deleteSession (d : Nat) (g : GameRef) (sessionId : String) (r : Registry) :
    s.departures[d]? = some (.deleting g sessionId) →
    s.registry.deleteSession g sessionId = some r →
    Step s (.deleteSession d) { s with registry := r, departures := s.departures.eraseIdx d }
      [.deleted g sessionId]
  | pinger (g : GameRef) (p c : Nat) (now : Int) (r : Registry) (fs : List Registry.Event) :
    s.registry.pinger g p c now = some (r, fs) →
    Step s (.pinger g p c now) { s with registry := r } (fs.map .registry)

theorem step_cases {a : Op} (h : s.step a = some (s', es)) : Step s a s' es := by
  cases a with
  | connect params =>
    simp only [step] at h
    split at h
    · next hf => cases h; exact .rejected params _ _ hf
    · next hf => cases h; exact .found params _ _ hf
  | getSession c =>
    simp only [step] at h
    split at h
    · cases h
    · next a ha =>
      split at h
      · cases h
      · next hg => cases h; exact .refused c a _ _ _ ha hg
      · next hg => cases h; exact .admitted c a _ _ _ ha hg
  | room k b =>
    simp only [step] at h
    split at h
    · next hb =>
      unfold stepPeers at h
      split at h
      · cases h
      · next hs => cases h; exact .room k b _ _ hb hs
    · cases h
  | findGame d =>
    simp only [step] at h
    split at h
    · next k hd =>
      split at h
      · cases h
      · next hosted hk =>
        split at h
        · cases h
        · next hg => cases h; exact .findGame d k hosted _ _ hd hk hg
    · cases h
  | deleteSession d =>
    simp only [step] at h
    split at h
    · next g sessionId hd =>
      split at h
      · cases h
      · next hdel => cases h; exact .deleteSession d g sessionId _ hd hdel
    · cases h
  | pinger g p c now =>
    simp only [step] at h
    split at h
    · cases h
    · next hp => cases h; exact .pinger g p c now _ _ hp

theorem quiet_getGameById {w : List Registry.Op}
    (h : ∀ op ∈ w, ∃ gameId, op = .getGameById gameId) : ∀ op ∈ w, Quiet op := by
  intro op hop
  obtain ⟨gameId, rfl⟩ := h op hop
  trivial

/-- Every step of the system is a run of the registry's sections. -/
theorem step_sections {a : Op} (h : s.step a = some (s', es)) :
    ∃ w, Registry.machine.run w [] s.registry = some (registryPart es, s'.registry) ∧
      match s.section? a with
      | some op => w = [op]
      | none => ∀ op ∈ w, Quiet op := by
  cases step_cases h with
  | rejected params e r hf =>
    obtain ⟨w, hw, hq⟩ := Registry.findGameForPeer_run s.registry params
    exact ⟨w, by rw [hw, hf]; rfl, quiet_getGameById hq⟩
  | found params a r hf =>
    obtain ⟨w, hw, hq⟩ := Registry.findGameForPeer_run s.registry params
    exact ⟨w, by rw [hw, hf]; rfl, quiet_getGameById hq⟩
  | refused c a e r fs ha hg =>
    obtain ⟨w, hw, hq⟩ := getSession_run hg
    exact ⟨w, by simpa using hw, hq⟩
  | admitted c a k r fs ha hg =>
    obtain ⟨w, hw, hq⟩ := getSession_run hg
    exact ⟨w, by simpa using hw, hq⟩
  | room k b r fs hb hs =>
    have hstep : Registry.machine.step s.registry (.stepRoom k b) = some (r, fs) := hs
    exact ⟨[.stepRoom k b], by rw [run_singleton hstep]; simp, rfl⟩
  | findGame d k hosted g r hd hk hg =>
    refine ⟨[.getGameById hosted.room.session.config.gameId], ?_, by simp [Quiet, section?]⟩
    rw [Registry.getGameById_run, hg]
    rfl
  | deleteSession d g sessionId r hd hdel =>
    refine ⟨[.deleteSession g sessionId], ?_, by simp [section?, hd]⟩
    have hstep : Registry.machine.step s.registry (.deleteSession g sessionId) =
        some (r, []) := by
      simp only [Registry.machine, Registry.step, hdel]
    rw [run_singleton hstep]
    rfl
  | pinger g p c now r fs hp =>
    obtain ⟨w, hw, hq⟩ := Registry.pinger_run hp
    refine ⟨w, by simpa using hw, ?_⟩
    intro op hop
    obtain ⟨pingers, active, rfl⟩ | ⟨k, rfl⟩ := hq op hop
    · trivial
    · rfl

/-! ## One session in a step of the system -/

def Stood (r : Registry) (k : RoomRef) (room : Room) : Prop :=
  (∃ h, r.rooms[k]? = some h ∧ room = h.room) ∨
    (r.rooms[k]? = none ∧ ∃ id config, room = Room.init id config)

inductive RoomStep (s : System) (a : Op) (k : RoomRef) (fs : List Room.Event) (room' : Room) :
    Prop where
  | own (h : Hosted) (b : Room.Op) : a = .room k b → s.registry.rooms[k]? = some h →
    h.room.step b = some (room', fs) → RoomStep s a k fs room'
  | quiet (room : Room) (v : List Room.Op) : Stood s.registry k room →
    Room.machine.run v [] room = some (fs, room') → (∀ b ∈ v, ofPeers b = false) →
    RoomStep s a k fs room'

structure QuietlyFrom (r₀ : Registry) (t : List Registry.Event) (r : Registry) : Prop where
  length : r₀.rooms.length ≤ r.rooms.length
  silent : ∀ k, r.rooms.length ≤ k → Registry.roomPart k t = []
  rooms : ∀ (k : Nat) (h : Hosted), r.rooms[k]? = some h → ∃ room v, Stood r₀ k room ∧
    Room.machine.run v [] room = some (Registry.roomPart k t, h.room) ∧
      ∀ b ∈ v, ofPeers b = false

theorem quietlyFrom_refl (r : Registry) : QuietlyFrom r [] r :=
  ⟨Nat.le_refl _, fun _ _ => rfl, fun _ h hk => ⟨h.room, [], Or.inl ⟨h, hk, rfl⟩, rfl, by simp⟩⟩

theorem quietlyFrom_step {r₀ r r' : Registry} {t fs : List Registry.Event} {op : Registry.Op}
    (h : QuietlyFrom r₀ t r) (hq : Quiet op) (hs : r.step op = some (r', fs)) :
    QuietlyFrom r₀ (t ++ fs) r' := by
  have hsame : r'.rooms = r.rooms → QuietlyFrom r₀ (t ++ []) r' := by
    intro hr
    rw [List.append_nil]
    exact ⟨by rw [hr]; exact h.length, by rw [hr]; exact h.silent, by rw [hr]; exact h.rooms⟩
  have hlen := h.length
  cases Registry.step_cases hs with
  | created g sessionId game hg hf =>
    rw [List.append_nil]
    refine ⟨?_, ?_, ?_⟩
    · simp only [List.length_append]
      omega
    · intro k hk
      simp only [List.length_append] at hk
      exact h.silent k (by omega)
    · intro k hosted hk
      simp only [List.getElem?_append] at hk
      split at hk
      · exact h.rooms k hosted hk
      · next hlt =>
        have hnone : r₀.rooms[k]? = none := List.getElem?_eq_none_iff.mpr (by omega)
        have hmem := List.mem_of_getElem? hk
        simp only [List.mem_singleton] at hmem
        subst hmem
        refine ⟨_, [], Or.inr ⟨hnone, sessionId, game.config, rfl⟩, ?_, by simp⟩
        rw [h.silent k (by omega)]
        rfl
  | room j b hosted room fs hj hst =>
    have hjlt := (List.getElem?_eq_some_iff.mp hj).1
    refine ⟨?_, ?_, ?_⟩
    · rw [List.length_set]
      exact h.length
    · intro k hk
      rw [List.length_set] at hk
      have hkj : k ≠ j := by omega
      rw [Registry.roomPart_append, Registry.roomPart_room, if_neg hkj, h.silent k hk,
        List.append_nil]
    · intro k hosted' hk
      rw [Registry.roomPart_append, Registry.roomPart_room]
      by_cases hkj : k = j
      · subst hkj
        simp only [List.getElem?_set_self hjlt, Option.some.injEq] at hk
        subst hk
        obtain ⟨room₀, v, hst₀, hv, hvq⟩ := h.rooms k hosted hj
        refine ⟨room₀, v ++ [b], hst₀, ?_, ?_⟩
        · rw [if_pos rfl]
          exact run_step_last hv hst
        · intro c hc
          obtain hc | hc := List.mem_append.mp hc
          · exact hvq c hc
          · rw [List.mem_singleton.mp hc]
            exact hq
      · rw [if_neg hkj, List.append_nil]
        exact h.rooms k hosted' ((List.getElem?_set_ne (Ne.symm hkj)).symm.trans hk)
  | deleted g sessionId game hg => exact hq.elim
  | idle gameId => exact hsame rfl
  | newGame gameId config hf hc => exact hsame rfl
  | refused g sessionId => exact hsame rfl
  | pingers g game pingers active hg => exact hsame rfl

theorem step_room {a : Op} {k : RoomRef} {h' : Hosted} (hs : s.step a = some (s', es))
    (hk : s'.registry.rooms[k]? = some h') : RoomStep s a k (roomPart k es) h'.room := by
  obtain ⟨w, hw, hsec⟩ := step_sections hs
  unfold roomPart
  generalize registryPart es = fs at hw
  have hquiet : QuietlyFrom s.registry fs s'.registry →
      RoomStep s a k (Registry.roomPart k fs) h'.room := by
    intro hq
    obtain ⟨room, v, hst, hv, hvq⟩ := hq.rooms k h' hk
    exact .quiet room v hst hv hvq
  split at hsec
  · next op hop =>
    subst hsec
    obtain ⟨r₁, fs₁, hstep, hnil⟩ := run_cons_some hw
    simp only [List.nil_append, Machine.run, Option.some.injEq, Prod.mk.injEq] at hnil
    obtain ⟨rfl, rfl⟩ := hnil
    cases a with
    | room j b =>
      cases hop
      obtain ⟨hosted, room, gs, hj, hst, hr, rfl⟩ := Registry.stepRoom_some hstep
      rw [Registry.roomPart_room]
      rw [hr] at hk
      have hjlt := (List.getElem?_eq_some_iff.mp hj).1
      by_cases hkj : k = j
      · subst hkj
        simp only [List.getElem?_set_self hjlt, Option.some.injEq] at hk
        subst hk
        rw [if_pos rfl]
        exact .own hosted b rfl hj hst
      · rw [if_neg hkj]
        have hk₀ : s.registry.rooms[k]? = some h' :=
          (List.getElem?_set_ne (Ne.symm hkj)).symm.trans hk
        exact .quiet h'.room [] (Or.inl ⟨h', hk₀, rfl⟩) rfl (by simp)
    | deleteSession d =>
      simp only [section?] at hop
      split at hop
      · next g sessionId hd =>
        cases hop
        obtain ⟨hnil, hr⟩ := Registry.rooms_deleteSession hstep
        subst hnil
        rw [hr] at hk
        exact .quiet h'.room [] (Or.inl ⟨h', hk, rfl⟩) rfl (by simp)
      · cases hop
    | _ => cases hop
  · refine hquiet ?_
    exact run_invariant_along (M := Registry.machine) (C := fun _ _ op => Quiet op)
      (fun _ _ _ _ _ h hq hs => quietlyFrom_step h hq hs) (quietlyFrom_refl s.registry)
      (along_of_forall fun op hop _ _ => hsec op hop) hw

/-- What the registry's sections keep, the system's steps keep. -/
theorem step_registry {I : List Registry.Event → Registry → Prop}
    (hstep : ∀ t r op r' es, I t r → r.step op = some (r', es) → I (t ++ es) r')
    {t : List Event} {a : Op} (h : I (registryPart t) s.registry)
    (hs : s.step a = some (s', es)) : I (registryPart (t ++ es)) s'.registry := by
  obtain ⟨w, hw, -⟩ := step_sections hs
  rw [registryPart_append]
  refine run_invariant (M := Registry.machine) hstep h (w := w) ?_
  rw [run_history, hw]
  rfl

theorem run_rooms {gamesConfig : GamesConfig} {w : List Op} {t : List Event}
    (hr : machine.run w [] (init gamesConfig) = some (t, s)) :
    s.registry.RoomsTracked (registryPart t) := by
  have hinit : (init gamesConfig).registry.RoomsTracked (registryPart []) :=
    tracked_nil fun _ => rfl
  exact run_invariant (I := fun t s => s.registry.RoomsTracked (registryPart t))
    (fun _ _ _ _ _ h hs => step_registry (fun _ _ _ _ _ => Registry.step_rooms) h hs) hinit hr

/-- Everything proved of a room holds of every session of the server. -/
theorem run_reached {gamesConfig : GamesConfig} {w : List Op} {t : List Event} {k : RoomRef}
    {h : Hosted} (hr : machine.run w [] (init gamesConfig) = some (t, s))
    (hk : s.registry.rooms[k]? = some h) :
    ∃ id config, Room.Reached id config (roomPart k t) h.room := by
  have ht := (run_rooms hr).reached k h.room (by rw [List.getElem?_map, hk]; rfl)
  obtain ⟨room, w, ⟨id, config, rfl⟩, hw⟩ := ht
  exact ⟨id, config, Room.run_reached hw⟩

def oneGame : GamesConfig := GamesConfig.putGameConfig {} { gameId := some "game" }

def hostAndClient : List Op :=
  [.connect (parameters "game" "lobby" "host"), .getSession 0,
    .room 0 (.session (.newPeer 0)), .room 0 (.session (.advance 0 0)),
    .connect (parameters "game" "lobby" "client"), .getSession 0,
    .room 0 (.session (.newPeer 0)), .room 0 (.session (.advance 1 0))]

end System
end Helicopter
