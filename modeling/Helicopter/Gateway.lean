import Helicopter.Accounts
import Helicopter.Runner

/-! The server behind its API servers. A connection comes to the registry only through a request
to one of the endpoints, and who a peer may be depends on where its request was received. -/
namespace Helicopter
open Interleaving

namespace Registry
variable {r r' : Registry} {es : List Event}

def ids (r : Registry) : List String := r.rooms.map fun h => h.room.session.id

theorem step_ids {op : Op} (hop : op.admits = false) (hs : r.step op = some (r', es)) :
    r'.ids = r.ids := by
  cases step_cases hs with
  | created g sessionId game hg hf => cases hop
  | room k a h room fs hk hst =>
    have hlt := (List.getElem?_eq_some_iff.mp hk).1
    simp only [ids, List.map_set, (Room.step_static hst).1]
    exact set_same (by rw [List.getElem?_map, hk]; rfl)
  | _ => rfl

/-- A host that gets its session has made it. -/
theorem getSession_ids {a : Admission} {res : Except ErrorDto RoomRef}
    (h : r.getSession a = some (res, r', es)) :
    r'.ids = r.ids ++ if res.isOk && a.isHost then [a.sessionId] else [] := by
  have hcreate : ∀ {answer : Option RoomRef} {r₁ : Registry},
      r.createNewSession a.game a.sessionId = some (answer, r₁) →
      r₁.ids = r.ids ++ if answer.isSome then [a.sessionId] else [] := by
    intro answer r₁ hc
    cases createNewSession_cases hc with
    | taken => exact (List.append_nil _).symm
    | created game hg hl hf => simp [ids, Room.init]
  unfold getSession at h
  split at h
  · next hhost =>
    split at h
    · cases h
    · next hc =>
      cases h
      exact hcreate hc
    · next hc =>
      cases h
      rw [hhost]
      exact hcreate hc
  · next hclient =>
    have hquiet : ∀ b : Bool, (b && a.isHost) = false := by simp [hclient]
    rw [hquiet, if_neg Bool.false_ne_true, List.append_nil]
    split at h
    · cases h
    · cases h
      rfl
    · split at h
      · cases h
      · next hs =>
        cases h
        obtain ⟨hosted, room, fs, hk, hst, rfl, -⟩ := stepRoom_some hs
        simp only [ids, List.map_set, (Room.step_static hst).1]
        exact set_same (by rw [List.getElem?_map, hk]; rfl)

theorem getSession_message {a : Admission} {e : ErrorDto}
    (h : r.getSession a = some (.error e, r', es)) :
    e.message ≠ "Missing required parameter - 'peerType'." := by
  unfold getSession at h
  split at h
  · split at h
    · cases h
    · cases h
      decide
    · cases h
  · split at h
    · cases h
    · cases h
      decide
    · split at h <;> cases h

end Registry

namespace System
variable {s s' : System} {t es : List Event} {w : List Op}

def Event.opened? : Event → Option String
  | .admitted a _ => if a.isHost then some a.sessionId else none
  | _ => none

theorem step_ids {a : Op} (hs : s.step a = some (s', es)) :
    s'.registry.ids = s.registry.ids ++ es.filterMap Event.opened? := by
  have hquiet : ∀ fs : List Registry.Event,
      (fs.map Event.registry).filterMap Event.opened? = [] := by
    intro fs
    simp [List.filterMap_map, Function.comp_def, Event.opened?]
  obtain ⟨c, rfl⟩ | ⟨⟨v, hv, hq⟩, hnobody⟩ := step_elsewhere hs
  · cases step_cases hs with
    | refused c a e r fs ha hg =>
      rw [List.filterMap_append, hquiet]
      exact Registry.getSession_ids hg
    | admitted c a k r fs ha hg =>
      rw [List.filterMap_append, hquiet, List.nil_append]
      refine (Registry.getSession_ids hg).trans (congrArg (s.registry.ids ++ ·) ?_)
      cases hhost : a.isHost <;> simp [Event.opened?, hhost, Except.isOk, Except.toBool]
  · have hnone : es.filterMap Event.opened? = [] := by
      rw [List.filterMap_eq_nil_iff]
      intro e he
      have hno := hnobody e he
      cases e with
      | admitted a k => cases hno
      | _ => rfl
    rw [hnone, List.append_nil]
    exact Registry.run_unadmitting (fun _ _ _ _ => Registry.step_ids) hq hv

/-- The sessions made are those of the hosts let in. -/
theorem run_ids {gamesConfig : GamesConfig}
    (hr : machine.run w [] (init gamesConfig) = some (t, s)) :
    s.registry.ids = t.filterMap Event.opened? := by
  refine run_invariant (I := fun t s => s.registry.ids = t.filterMap Event.opened?) ?_ rfl hr
  intro t s a s' es hI hs
  rw [step_ids hs, hI, List.filterMap_append]

def Event.admits (p : Admission → Bool) : Event → Bool
  | .admitted a _ => p a
  | _ => false

/-- Who is let in has waited for it. -/
theorem step_waiting (p : Admission → Bool) {a : Op} (ha : a.connects = false)
    (hs : s.step a = some (s', es)) :
    es.countP (Event.admits p) + s'.admissions.countP p ≤ s.admissions.countP p := by
  have hquiet : ∀ fs : List Registry.Event,
      (fs.map Event.registry).countP (Event.admits p) = 0 := countP_registry fun _ => rfl
  cases step_cases hs with
  | rejected params e r hf => cases ha
  | found params a r hf => cases ha
  | refused c a e r fs hc hg =>
    rw [List.countP_append, hquiet, Nat.zero_add]
    exact Nat.le_trans (Nat.le_of_eq (Nat.zero_add _)) ((List.eraseIdx_sublist _ _).countP_le)
  | admitted c a k r fs hc hg =>
    have hpick := (pick_perm hc).countP_eq p
    rw [List.countP_cons] at hpick
    have hone : [Event.admitted a k].countP (Event.admits p) = if p a then 1 else 0 :=
      List.countP_singleton
    show _ + (s.admissions.eraseIdx c).countP p ≤ s.admissions.countP p
    rw [List.countP_append, hquiet, hone]
    omega
  | room k b r fs hb hst => rw [hquiet, Nat.zero_add]
  | findGame d k h g r hd hk hg => simp
  | deleteSession d g sessionId r hd hdel => simp [Event.admits]
  | pinger g q c now r fs hp => rw [hquiet, Nat.zero_add]

end System

/-! ## Requests -/

def Admission.under (endpoint : Endpoint) (sessionId : String) (a : Admission) : Bool :=
  a.isHost == (endpoint == .createGame) && a.sessionId == sessionId

namespace IncomingRequest

def asks (endpoint : Endpoint) (sessionId : String) (q : IncomingRequest) : Bool :=
  q.endpoint == endpoint && q.getQueryParameter Constants.paramGameSessionId == some sessionId

theorem find_gameId (q : IncomingRequest) : q.parameters.find Constants.paramGameId =
    some (q.getQueryParameter Constants.paramGameId) := by
  simp [parameters, UnorderedMap.find_insertNew]

theorem find_sessionId (q : IncomingRequest) : q.parameters.find Constants.paramGameSessionId =
    some (q.getQueryParameter Constants.paramGameSessionId) := by
  simp [parameters, UnorderedMap.find_insertNew, Constants.paramGameId,
    Constants.paramGameSessionId]

theorem find_peerType (q : IncomingRequest) :
    q.parameters.find Constants.paramPeerType = some (some q.peerType) := by
  simp [parameters, UnorderedMap.find_insertNew, Constants.paramGameId,
    Constants.paramGameSessionId, Constants.paramPeerType]

theorem peerType_host (q : IncomingRequest) :
    (q.peerType == Constants.paramPeerTypeHost) = (q.endpoint == .createGame) := by
  unfold peerType
  cases q.endpoint <;> decide

/-- A connection that has found its game asks for what its request asked for. -/
theorem found_asks {q : IncomingRequest} {r r' : Registry} {a : Admission}
    (h : r.findGameForPeer q.parameters = (.ok a, r')) (endpoint : Endpoint)
    (sessionId : String) : q.asks endpoint sessionId = a.under endpoint sessionId := by
  unfold Registry.findGameForPeer Registry.getRequiredParameter at h
  rw [find_gameId, find_sessionId, find_peerType] at h
  cases hgame : q.getQueryParameter Constants.paramGameId with
  | none => simp [hgame] at h
  | some gameId =>
    cases hid : q.getQueryParameter Constants.paramGameSessionId with
    | none => simp [hgame, hid] at h
    | some id =>
      simp only [hgame, hid] at h
      split at h
      · cases h
      · cases h
        simp only [asks, Admission.under, hid, peerType_host]
        cases q.endpoint <;> cases endpoint <;> rfl

/-- The type of the peer is not among what a request may lack. -/
theorem rejected_message {q : IncomingRequest} {r r' : Registry} {e : ErrorDto}
    (h : r.findGameForPeer q.parameters = (.error e, r')) :
    e.message ≠ "Missing required parameter - 'peerType'." := by
  unfold Registry.findGameForPeer Registry.getRequiredParameter at h
  rw [find_gameId, find_sessionId, find_peerType] at h
  cases hgame : q.getQueryParameter Constants.paramGameId with
  | none =>
    simp only [hgame] at h
    cases h
    decide
  | some gameId =>
    cases hid : q.getQueryParameter Constants.paramGameSessionId with
    | none =>
      simp only [hgame, hid] at h
      cases h
      decide
    | some id =>
      simp only [hgame, hid] at h
      split at h
      · cases h
        decide
      · cases h

end IncomingRequest

namespace System
variable {s s' : System} {es : List Event}

theorem count_opened (sessionId : String) (t : List Event) :
    (t.filterMap Event.opened?).count sessionId =
      t.countP (Event.admits (Admission.under .createGame sessionId)) := by
  induction t with
  | nil => rfl
  | cons e t ih =>
    rw [List.countP_cons, ← ih]
    cases e with
    | admitted a k =>
      cases hhost : a.isHost with
      | true =>
        simp [Event.opened?, Event.admits, Admission.under, hhost, List.count_cons]
      | false => simp [Event.opened?, Event.admits, Admission.under, hhost]
    | _ => rfl

/-- Who has found its game is not turned away for a missing parameter. -/
theorem rejected_message {a : Op} {e : ErrorDto} (ha : a.connects = false)
    (hs : s.step a = some (s', es)) (he : .rejected e ∈ es) :
    e.message ≠ "Missing required parameter - 'peerType'." := by
  have hquiet : ∀ fs : List Registry.Event, .rejected e ∉ fs.map Event.registry := by simp
  cases step_cases hs with
  | rejected params e' r hf => cases ha
  | found params a r hf => cases ha
  | refused c a e' r fs hc hg =>
    obtain he | he := List.mem_append.mp he
    · exact absurd he (hquiet fs)
    · cases List.mem_singleton.mp he
      exact Registry.getSession_message hg
  | admitted c a k r fs hc hg => simp at he
  | room k b r fs hb hst => exact absurd he (hquiet fs)
  | findGame d k h g r hd hk hg => simp at he
  | deleteSession d g sessionId r hd hdel => simp at he
  | pinger g q c now r fs hp => exact absurd he (hquiet fs)

end System

/-! ## The server behind its API servers -/

structure Gateway where
  servers : List APIServer
  system : System

namespace Gateway

inductive Event where
  /-- received by the server at this address -/
  | request (address : Address) (q : IncomingRequest)
  | system (e : System.Event)

inductive Op where
  /-- `upgraded` is what `serversideHandshake` makes of the headers. -/
  | request (i : Nat) (q : IncomingRequest) (upgraded : Bool)
  | system (a : System.Op)

def step (g : Gateway) : Op → Option (Gateway × List Event)
  | .request i q upgraded =>
    match g.servers[i]? with
    | none => none
    | some server =>
      if server.router.contains q.endpoint && upgraded then
        match g.system.step (.connect q.parameters) with
        | none => none
        | some (system, es) =>
          some ({ g with system := system },
            .request server.config.address q :: es.map .system)
      else some (g, [.request server.config.address q])
  | .system a =>
    if a.connects then none
    else
      match g.system.step a with
      | none => none
      | some (system, es) => some ({ g with system := system }, es.map .system)

def machine : Machine Gateway Op Event := ⟨step⟩

def init (servers : List APIServer) (gamesConfig : GamesConfig) : Gateway :=
  ⟨servers, System.init gamesConfig⟩

def Event.system? : Event → Option System.Event
  | .system e => some e
  | _ => none

def systemPart (t : List Event) : List System.Event := t.filterMap Event.system?

def Event.asks (address : Option Address) (endpoint : Endpoint) (sessionId : String) :
    Event → Bool
  | .request address' q => some address' == address && q.asks endpoint sessionId
  | _ => false

@[simp] theorem systemPart_append (t u : List Event) :
    systemPart (t ++ u) = systemPart t ++ systemPart u :=
  List.filterMap_append ..

@[simp] theorem systemPart_nil : systemPart [] = [] := rfl

@[simp] theorem systemPart_request (address : Address) (q : IncomingRequest) (es : List Event) :
    systemPart (.request address q :: es) = systemPart es := rfl

@[simp] theorem systemPart_system (es : List System.Event) :
    systemPart (es.map .system) = es := by
  induction es with
  | nil => rfl
  | cons e es ih => exact congrArg (e :: ·) ih

inductive Step (g : Gateway) : Op → Gateway → List Event → Prop where
  | unanswered (i : Nat) (q : IncomingRequest) (upgraded : Bool) (server : APIServer) :
    g.servers[i]? = some server →
    Step g (.request i q upgraded) g [.request server.config.address q]
  | request (i : Nat) (q : IncomingRequest) (server : APIServer) (system : System)
    (es : List System.Event) : g.servers[i]? = some server → q.endpoint ∈ server.router →
    g.system.step (.connect q.parameters) = some (system, es) →
    Step g (.request i q true) { g with system := system }
      (.request server.config.address q :: es.map .system)
  | system (a : System.Op) (system : System) (es : List System.Event) : a.connects = false →
    g.system.step a = some (system, es) →
    Step g (.system a) { g with system := system } (es.map .system)

variable {g g' : Gateway} {t es : List Event} {op : Op} {w : List Op} {config : ConfigDto}
  {servers : List APIServer} {gamesConfig : GamesConfig}

theorem step_cases (hs : g.step op = some (g', es)) : Step g op g' es := by
  cases op with
  | request i q upgraded =>
    simp only [step] at hs
    split at hs
    · cases hs
    · next server hi =>
      split at hs
      · next hrouted =>
        simp only [Bool.and_eq_true, List.contains_iff_mem] at hrouted
        split at hs
        · cases hs
        · next hc =>
          cases hs
          rw [hrouted.2]
          exact .request i q server _ _ hi hrouted.1 hc
      · cases hs
        exact .unanswered i q upgraded server hi
  | system a =>
    simp only [step] at hs
    split at hs
    · cases hs
    · next ha =>
      split at hs
      · cases hs
      · next hc =>
        cases hs
        exact .system a _ _ (by simpa using ha) hc

/-- What the server does behind the API servers is a run of it. -/
theorem run_system (hr : machine.run w [] (init servers gamesConfig) = some (t, g)) :
    ∃ v, System.machine.run v [] (System.init gamesConfig) = some (systemPart t, g.system) := by
  refine run_invariant (I := fun t g => ∃ v,
    System.machine.run v [] (System.init gamesConfig) = some (systemPart t, g.system)) ?_
    ⟨[], rfl⟩ hr
  intro t g op g' es ⟨v, hv⟩ hs
  have hs : g.step op = some (g', es) := hs
  cases step_cases hs with
  | unanswered i q upgraded server hi => exact ⟨v, by simpa using hv⟩
  | request i q server system es hi hrouted hc =>
    have hc : System.machine.step g.system (.connect q.parameters) = some (system, es) := hc
    exact ⟨v ++ [.connect q.parameters], by simpa using run_step_last hv hc⟩
  | system a system es ha hc =>
    have hc : System.machine.step g.system a = some (system, es) := hc
    exact ⟨v ++ [a], by simpa using run_step_last hv hc⟩

/-- A request that is answered was received where its endpoint is served. -/
theorem asks_request {address : Address} {q : IncomingRequest} {endpoint : Endpoint}
    {sessionId : String} (h : config.address q.endpoint = some address) :
    Event.asks (config.address endpoint) endpoint sessionId (.request address q) =
      q.asks endpoint sessionId := by
  by_cases he : q.endpoint = endpoint
  · simp [Event.asks, ← he, h]
  · simp [Event.asks, IncomingRequest.asks, he]

/-- Who is let in or waits for it was asked for where the endpoint is served. -/
theorem run_asked (hc : Runner.init config = .ok servers)
    (hr : machine.run w [] (init servers gamesConfig) = some (t, g)) (endpoint : Endpoint)
    (sessionId : String) :
    (systemPart t).countP (System.Event.admits (Admission.under endpoint sessionId)) +
        g.system.admissions.countP (Admission.under endpoint sessionId) ≤
      t.countP (Event.asks (config.address endpoint) endpoint sessionId) := by
  have hserves := Runner.init_serves hc
  have hquiet : ∀ fs : List System.Event, (fs.map Event.system).countP
      (Event.asks (config.address endpoint) endpoint sessionId) = 0 := by
    intro fs
    rw [List.countP_map, List.countP_eq_zero]
    exact fun _ _ hasks => Bool.false_ne_true hasks
  refine (run_invariant (I := fun t g => g.servers = servers ∧
    (systemPart t).countP (System.Event.admits (Admission.under endpoint sessionId)) +
        g.system.admissions.countP (Admission.under endpoint sessionId) ≤
      t.countP (Event.asks (config.address endpoint) endpoint sessionId)) ?_
    ⟨rfl, Nat.le_refl 0⟩ hr).2
  intro t g op g' es ⟨hservers, hle⟩ hs
  have hs : g.step op = some (g', es) := hs
  cases step_cases hs with
  | unanswered i q upgraded server hi =>
    refine ⟨hservers, ?_⟩
    rw [systemPart_append, systemPart_request, systemPart_nil, List.append_nil,
      List.countP_append]
    omega
  | request i q server system es hi hrouted hstep =>
    refine ⟨hservers, ?_⟩
    rw [hservers] at hi
    have hplaced := hserves.placed server (List.mem_of_getElem? hi) q.endpoint hrouted
    rw [systemPart_append, systemPart_request, systemPart_system, List.countP_append,
      List.countP_append, List.countP_cons, hquiet]
    cases System.step_cases hstep with
    | rejected params e r hf => simp [System.Event.admits]; omega
    | found params a r hf =>
      have hone : (g.system.admissions ++ [a]).countP (Admission.under endpoint sessionId) =
          g.system.admissions.countP (Admission.under endpoint sessionId) +
            if a.under endpoint sessionId then 1 else 0 := by
        rw [List.countP_append, List.countP_singleton]
      have hasks : Event.asks (config.address endpoint) endpoint sessionId
          (.request server.config.address q) = a.under endpoint sessionId :=
        (asks_request hplaced).trans (IncomingRequest.found_asks hf endpoint sessionId)
      show _ + (g.system.admissions ++ [a]).countP _ ≤ _
      rw [hone, hasks, List.countP_nil]
      omega
  | system a system es ha hstep =>
    refine ⟨hservers, ?_⟩
    have hwaiting := System.step_waiting (Admission.under endpoint sessionId) ha hstep
    rw [systemPart_append, systemPart_system, List.countP_append, List.countP_append, hquiet]
    show _ + system.admissions.countP _ ≤ _
    omega

theorem rejected_not_peerType (hr : machine.run w [] (init servers gamesConfig) = some (t, g)) :
    ∀ e, .rejected e ∈ systemPart t → e.message ≠ "Missing required parameter - 'peerType'." := by
  refine run_invariant (I := fun t _ => ∀ e, .rejected e ∈ systemPart t →
    e.message ≠ "Missing required parameter - 'peerType'.") ?_ (by simp) hr
  intro t g op g' es hI hs e he
  have hs : g.step op = some (g', es) := hs
  rw [systemPart_append, List.mem_append] at he
  obtain he | he := he
  · exact hI e he
  cases step_cases hs with
  | unanswered i q upgraded server hi => simp at he
  | request i q server system es hi hrouted hstep =>
    rw [systemPart_request, systemPart_system] at he
    cases System.step_cases hstep with
    | rejected params e' r hf =>
      cases List.mem_singleton.mp he
      exact IncomingRequest.rejected_message hf
    | found params a r hf => simp at he
  | system a system es ha hstep =>
    rw [systemPart_system] at he
    exact System.rejected_message ha hstep he

/-- A session under some id is made no more often, and no more clients are let into sessions under
that id, than requests for it have come to the address where this may be asked for. No connection
is turned away for want of a type of peer. -/
theorem sessions_asked_for (hc : Runner.init config = .ok servers)
    (hr : machine.run w [] (init servers gamesConfig) = some (t, g)) :
    (∀ sessionId, g.system.registry.ids.count sessionId ≤
        t.countP (Event.asks (config.address .createGame) .createGame sessionId)) ∧
      (∀ sessionId, (systemPart t).countP
          (System.Event.admits (Admission.under .joinGame sessionId)) ≤
        t.countP (Event.asks (config.address .joinGame) .joinGame sessionId)) ∧
      ∀ e, .rejected e ∈ systemPart t →
        e.message ≠ "Missing required parameter - 'peerType'." := by
  refine ⟨?_, ?_, rejected_not_peerType hr⟩
  · intro sessionId
    obtain ⟨v, hv⟩ := run_system hr
    have hasked := run_asked hc hr .createGame sessionId
    rw [System.run_ids hv, System.count_opened]
    omega
  · intro sessionId
    have hasked := run_asked hc hr .joinGame sessionId
    omega

def snakeServers : List APIServer :=
  [{ config := { host := some "0.0.0.0", port := some 8000 }, router := [.createGame] },
    { config := { host := some "0.0.0.0", port := some 8001 }, router := [.joinGame] }]

def snakeQuery : UnorderedMap String String :=
  (UnorderedMap.insertNew ∅ Constants.paramGameId "snake").insertNew
    Constants.paramGameSessionId "den"

def snakeGame : List Op :=
  [.request 0 ⟨.createGame, snakeQuery⟩ true, .system (.getSession 0),
    .request 1 ⟨.joinGame, snakeQuery⟩ true, .system (.getSession 0),
    .request 1 ⟨.createGame, snakeQuery⟩ true]

theorem sessions_asked_for_snake :
    ∃ t g, machine.run snakeGame [] (init snakeServers AppComponent.gameConfig) = some (t, g) ∧
      g.system.registry.ids = ["den"] ∧ g.system.registry.ids.count "den" ≤ t.countP
        (Event.asks (AppComponent.appConfig.address .createGame) .createGame "den") := by
  have hrun : (machine.run snakeGame [] (init snakeServers AppComponent.gameConfig)).map
      (fun r => r.2.system.registry.ids) = some ["den"] := by
    rfl
  have hservers : Runner.init AppComponent.appConfig = .ok snakeServers := by rfl
  obtain ⟨⟨t, g⟩, hr, hids⟩ := Option.map_eq_some_iff.mp hrun
  exact ⟨t, g, hr, hids, (sessions_asked_for hservers hr).1 "den"⟩

end Gateway
end Helicopter
