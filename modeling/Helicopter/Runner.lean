import Helicopter.System

/-! `Runner` and the controllers: which API server takes which requests, and with which parameters
their connections come to the registry. -/
namespace Helicopter

structure TLSConfigDto where
  pkFile : Option String := none
  chainFile : Option String := none

structure ServerConfigDto where
  host : Option String := none
  port : Option UInt16 := none
  tls : Option TLSConfigDto := none

structure ConfigDto where
  hostAPIServer : Option ServerConfigDto := none
  clientAPIServer : Option ServerConfigDto := none

/-- The one endpoint of `HostController` and the one of `ClientController`. -/
inductive Endpoint where
  /-- `GET api/create-game/*` -/
  | createGame
  /-- `GET api/join-game/*` -/
  | joinGame
deriving DecidableEq

structure APIServer where
  config : ServerConfigDto
  router : List Endpoint := []

abbrev Address := Option String × Option UInt16

def ServerConfigDto.address (config : ServerConfigDto) : Address := (config.host, config.port)

def ConfigDto.address (config : ConfigDto) : Endpoint → Option Address
  | .createGame => config.hostAPIServer.map ServerConfigDto.address
  | .joinGame => config.clientAPIServer.map ServerConfigDto.address

def APIServer.addController (server : APIServer) (endpoint : Endpoint) : APIServer :=
  { server with router := server.router ++ [endpoint] }

namespace Runner

/-- What it has shown not to be null is dereferenced after it. -/
def assertServerConfig (config : Option ServerConfigDto) (serverName : String) (checkTls : Bool) :
    Except String ServerConfigDto :=
  match config with
  | none => .error ("Error: Missing config value - '" ++ serverName ++ "'")
  | some config =>
    if config.host.isNone then
      .error ("Error: Missing config value - '" ++ serverName ++ ".host'")
    else if config.port.isNone then
      .error ("Error: Missing config value - '" ++ serverName ++ ".port'")
    else
      match config.tls with
      | none => .ok config
      | some tls =>
        if checkTls then
          if tls.pkFile.isNone then
            .error ("Error: Missing config value - '" ++ serverName ++ ".tls.pkFile'")
          else if tls.chainFile.isNone then
            .error ("Error: Missing config value - '" ++ serverName ++ ".tls.chainFile'")
          else .ok config
        else .ok config

def init (config : ConfigDto) : Except String (List APIServer) :=
  match assertServerConfig config.hostAPIServer "hostAPIServer" true with
  | .error e => .error e
  | .ok host =>
    let hostServer : APIServer := APIServer.addController ⟨host, []⟩ .createGame
    match assertServerConfig config.clientAPIServer "clientAPIServer" false with
    | .error e => .error e
    | .ok client =>
      if client.host == host.host && client.port == host.port then
        .ok [hostServer.addController .joinGame]
      else
        match assertServerConfig config.clientAPIServer "clientAPIServer" true with
        | .error e => .error e
        | .ok client => .ok [hostServer, APIServer.addController ⟨client, []⟩ .joinGame]

end Runner

namespace AppComponent

def appConfig : ConfigDto where
  hostAPIServer := some { host := some "0.0.0.0", port := some 8000 }
  clientAPIServer := some { host := some "0.0.0.0", port := some 8001 }

def gameConfig : GamesConfig := GamesConfig.putGameConfig {} { gameId := some "snake" }

end AppComponent

structure IncomingRequest where
  endpoint : Endpoint
  query : UnorderedMap String String := ∅

namespace Constants

def paramPeerTypeClient : String := "client"

end Constants

namespace IncomingRequest

def getQueryParameter (q : IncomingRequest) (name : String) : Option String := q.query.find name

def peerType (q : IncomingRequest) : String :=
  match q.endpoint with
  | .createGame => Constants.paramPeerTypeHost
  | .joinGame => Constants.paramPeerTypeClient

/-- The connection upgrade parameters that `act` of the endpoint sets. -/
def parameters (q : IncomingRequest) : ParameterMap :=
  ((UnorderedMap.insertNew ∅ Constants.paramGameId
      (q.getQueryParameter Constants.paramGameId)).insertNew Constants.paramGameSessionId
      (q.getQueryParameter Constants.paramGameSessionId)).insertNew Constants.paramPeerType
    (some q.peerType)

end IncomingRequest

/-! ## What a runner that starts has -/

namespace Runner
variable {config : ConfigDto} {server host client : ServerConfigDto} {servers : List APIServer}

structure Complete (config : ServerConfigDto) : Prop where
  host : config.host.isSome
  port : config.port.isSome
  tls : ∀ tls, config.tls = some tls → tls.pkFile.isSome ∧ tls.chainFile.isSome

theorem assertServerConfig_ok {given : Option ServerConfigDto} {serverName : String}
    {checkTls : Bool} (h : assertServerConfig given serverName checkTls = .ok server) :
    given = some server ∧ (checkTls = true → Complete server) := by
  unfold assertServerConfig at h
  split at h
  · cases h
  · next config =>
    split at h
    · cases h
    · next hhost =>
      split at h
      · cases h
      · next hport =>
        have hhost : config.host.isSome := by simpa [Option.isSome_iff_ne_none] using hhost
        have hport : config.port.isSome := by simpa [Option.isSome_iff_ne_none] using hport
        split at h
        · next hno =>
          cases h
          refine ⟨rfl, fun _ => ⟨hhost, hport, ?_⟩⟩
          intro tls htls
          rw [hno] at htls
          cases htls
        · next tls htls =>
          split at h
          · split at h
            · cases h
            · next hpk =>
              split at h
              · cases h
              · next hchain =>
                cases h
                refine ⟨rfl, fun _ => ⟨hhost, hport, ?_⟩⟩
                intro tls' htls'
                rw [htls, Option.some.injEq] at htls'
                subst htls'
                exact ⟨by simpa [Option.isSome_iff_ne_none] using hpk,
                  by simpa [Option.isSome_iff_ne_none] using hchain⟩
          · next hcheck =>
            cases h
            exact ⟨rfl, fun hchecks => absurd hchecks hcheck⟩

structure Serves (config : ConfigDto) (servers : List APIServer) : Prop where
  complete : ∀ server ∈ servers, Complete server.config
  apart : (servers.map fun server => server.config.address).Nodup
  placed : ∀ server ∈ servers, ∀ endpoint ∈ server.router,
    config.address endpoint = some server.config.address
  served : ∀ endpoint, ∃ server ∈ servers, endpoint ∈ server.router

theorem serves_one (hhost : config.hostAPIServer = some host)
    (hclient : config.clientAPIServer = some client) (hcomplete : Complete host)
    (haddress : client.address = host.address) :
    Serves config [(APIServer.addController ⟨host, []⟩ .createGame).addController .joinGame] where
  complete := by simp [APIServer.addController, hcomplete]
  apart := by simp
  placed := by
    intro server hserver endpoint _
    cases List.mem_singleton.mp hserver
    cases endpoint with
    | createGame => simp [ConfigDto.address, hhost, APIServer.addController]
    | joinGame => simp [ConfigDto.address, hclient, APIServer.addController, haddress]
  served := by
    intro endpoint
    exact ⟨_, List.mem_singleton_self _, by cases endpoint <;> simp [APIServer.addController]⟩

theorem serves_two (hhost : config.hostAPIServer = some host)
    (hclient : config.clientAPIServer = some client) (hcomplete : Complete host)
    (hcomplete' : Complete client) (haddress : host.address ≠ client.address) :
    Serves config [APIServer.addController ⟨host, []⟩ .createGame,
      APIServer.addController ⟨client, []⟩ .joinGame] where
  complete := by simp [APIServer.addController, hcomplete, hcomplete']
  apart := by simp [APIServer.addController, haddress]
  placed := by
    intro server hserver endpoint hendpoint
    simp only [APIServer.addController, List.nil_append, List.mem_cons, List.not_mem_nil,
      or_false] at hserver
    obtain rfl | rfl := hserver
    · cases List.mem_singleton.mp hendpoint
      simp [ConfigDto.address, hhost]
    · cases List.mem_singleton.mp hendpoint
      simp [ConfigDto.address, hclient]
  served := by
    intro endpoint
    cases endpoint with
    | createGame => exact ⟨_, List.mem_cons_self, by simp [APIServer.addController]⟩
    | joinGame =>
      exact ⟨_, List.mem_cons_of_mem _ (List.mem_singleton_self _),
        by simp [APIServer.addController]⟩

theorem init_serves (h : init config = .ok servers) : Serves config servers := by
  unfold init at h
  split at h
  · cases h
  · next host hhost =>
    obtain ⟨hhost, hcomplete⟩ := assertServerConfig_ok hhost
    split at h
    · cases h
    · next client hclient =>
      have hclient := (assertServerConfig_ok hclient).1
      split at h
      · next hsame =>
        cases h
        exact serves_one hhost hclient (hcomplete rfl)
          (by simpa [ServerConfigDto.address] using hsame)
      · next hdiffer =>
        have haddress : host.address ≠ client.address := by
          intro heq
          simp only [ServerConfigDto.address, Prod.mk.injEq] at heq
          simp [heq.1, heq.2] at hdiffer
        split at h
        · cases h
        · next client' hclient' =>
          obtain ⟨hclient', hcomplete'⟩ := assertServerConfig_ok hclient'
          rw [hclient, Option.some.injEq] at hclient'
          subst hclient'
          cases h
          exact serves_two hhost hclient (hcomplete rfl) (hcomplete' rfl) haddress

end Runner
end Helicopter
