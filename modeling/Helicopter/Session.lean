import Helicopter.Lib.Machine
import Helicopter.Lib.UnorderedMap
import Helicopter.Dto
import Helicopter.GamesConfig

/-! `Session` with the `Peer` objects constructed for it, and the threads that run on them: one
per connection and the pinger. One step is one critical section of the source. Outgoing queues
and sockets react to the events of a step; they are modelled apart. -/
namespace Helicopter
open Interleaving

/-- A `Peer` of the session, by its place in the list of those constructed so far. -/
abbrev PeerRef := Nat

/-- Where the thread of a connection is, once it has its `Peer`. -/
inductive Task where
  /-- in `onAfterCreate_NonBlocking`, before the locked section of `addPeer` -/
  | adding
  /-- in `addPeer`, before the HELLO is queued -/
  | greeting
  | listening
  /-- in `handlePong`, after `reportPeerPong` has answered -/
  | reported (timestamp pingTime : Int)
  /-- in the loop of a handler that queues an `OUTGOING_MESSAGE` to each of the recipients left -/
  | sending (recipients : List PeerRef) (payload : OutgoingMessageDto)
  /-- in the loop of `broadcastSynchronizedEvent`, holding `m_peersMutex` -/
  | broadcasting (recipients : List PeerRef) (event : OutgoingSynchronizedMessageDto)
  /-- in `handleKickMessage`, after its checks and before `getPeers` -/
  | selecting (peerIds : List (Option Int))
  | kicking (targets : List PeerRef)
  /-- in `onBeforeDestroy_NonBlocking`, between the halves of `invalidateSocket` -/
  | clearing
  /-- before `removePeerById` -/
  | removing
  | removed

/-- Where the `Pinger` is in its tick of this session. The loops hold `m_peersMutex`. -/
inductive PingerTask where
  | idle
  | checking (timestamp : Int)
  | checkLoop (timestamp : Int) (rest : List PeerRef)
  /-- between the halves of `invalidateSocket`, in `checkPingsRules` of a dropped peer -/
  | dropping (timestamp : Int) (rest : List PeerRef) (peer : PeerRef)
  | checked
  | pinging (timestamp : Int)
  | pingLoop (timestamp : Int) (rest : List PeerRef)

/-- `isHost` is `sessionInfo.isHost` of the connection. -/
structure Peer where
  peerId : Int
  isHost : Bool
  task : Task := .adding
  pingTime : Int := -1
  failedPings : Int := 0
  lastPingTimestamp : Int := -1

/-- `lookups` are the connections that have got this session from `createNewSession` (`true`)
or `findSession` (`false`) and have not drawn their id; `objects` are the peers constructed. -/
structure Session where
  id : String
  config : GameConfigDto
  peerIdCounter : Int := 0
  synchronizedEventId : Int := 0
  peers : UnorderedMap Int PeerRef := ∅
  host : Option PeerRef := none
  peersMutex : Bool := false
  pingCurrentTimestamp : Int := -1
  pingBestTime : Int := -1
  pingBestPeerId : Int := -1
  pingBestPeerSinceTimestamp : Int := -1
  lookups : List Bool := [true]
  objects : List Peer := []
  pinger : PingerTask := .idle

namespace Session

inductive Event where
  | created (peer : PeerRef) (peerId : Int) (isHost : Bool)
  | joined (peer : PeerRef) (isHost : Bool)
  | left (peer : PeerRef) (isEmpty : Bool)
  | handled (peer : PeerRef) (message : MessageDto)
  | error (peer : PeerRef) (message : MessageDto)
  /-- `queueMessage` of the peer is called -/
  | offer (peer : PeerRef) (message : MessageDto)
  | broadcast (event : OutgoingSynchronizedMessageDto) (members : List PeerRef)
  | kick (peer : PeerRef)
  | resetSocket (peer : PeerRef)
  | clearQueue (peer : PeerRef)
  /-- `reportPeerPong` answers the pong of the peer -/
  | pong (peer : PeerRef) (timestamp pingTime : Int)
  /-- `pingAllPeers` sets the current timestamp -/
  | round (timestamp : Int)
  | ping (peer : PeerRef) (timestamp : Int)
  /-- `checkPingsRules` of the peer runs -/
  | checked (peer : PeerRef) (timestamp : Int) (dropped : Bool)
  deriving DecidableEq

def Event.offerTo? (j : PeerRef) : Event → Option MessageDto
  | .offer i m => if i = j then some m else none
  | _ => none

def offersTo (j : PeerRef) (t : List Event) : List MessageDto := t.filterMap (Event.offerTo? j)

def Event.isCreated : Event → Bool
  | .created _ _ _ => true
  | _ => false

def peerId? (s : Session) (i : PeerRef) : Option Int := (s.objects[i]?).map Peer.peerId

def setPeer (s : Session) (i : PeerRef) (p : Peer) : Session :=
  { s with objects := s.objects.set i p }

def setTask (s : Session) (i : PeerRef) (p : Peer) (task : Task) : Session :=
  s.setPeer i { p with task := task }

/-! ## `Session.cpp` -/

def generateNewPeerId (s : Session) : Int × Session :=
  (s.peerIdCounter, { s with peerIdCounter := s.peerIdCounter + 1 })

/-- `if(m_host) m_host->queueMessage(...)` -/
def tellHost (s : Session) (notice : Notice) : List Event :=
  match s.host with
  | some h => [.offer h notice.message]
  | none => []

/-- `addPeer`, the section under `m_peersMutex`. -/
def addPeer (s : Session) (i : PeerRef) (peerId : Int) (isHost : Bool) : Session × List Event :=
  let s := { s with peers := s.peers.insertNew peerId i }
  if isHost then ({ s with host := some i }, [])
  else (s, s.tellHost (.joined peerId))

/-- `m_host && m_host->getPeerId() == peerId` -/
def isHostPeer (s : Session) (peerId : Int) : Bool :=
  match s.host with
  | some h => s.peerId? h == some peerId
  | none => false

/-- `removePeerById`; the flag is `isEmpty`. -/
def removePeerById (s : Session) (peerId : Int) : Session × Bool × List Event :=
  let s := if s.isHostPeer peerId then { s with host := none } else s
  let s := { s with peers := s.peers.eraseKey peerId }
  (s, s.peers.isEmpty, s.tellHost (.left peerId))

def getHost (s : Session) : Option PeerRef := s.host

/-- `std::unordered_map` iterates in no particular order; the loops over the result pick any
peer that is left. -/
def getAllPeers (s : Session) : List PeerRef := s.peers.values

def getPeers (s : Session) (peerIds : List (Option Int)) : List PeerRef :=
  peerIds.filterMap fun id => id.bind s.peers.find

/-- `broadcastSynchronizedEvent` up to its loop. -/
def nextSynchronizedEvent (s : Session) (senderId : Int) (eventData : Option String) :
    Session × OutgoingSynchronizedMessageDto :=
  ({ s with synchronizedEventId := s.synchronizedEventId + 1 },
    ⟨s.synchronizedEventId, senderId, eventData⟩)

/-- `now` is what `getMicroTickCount` answers. -/
def reportPeerPong (s : Session) (peerId timestamp now : Int) : Session × Int :=
  if timestamp ≠ s.pingCurrentTimestamp then (s, -1)
  else
    let pingTime := now - timestamp
    if s.pingBestTime < 0 ∨ s.pingBestTime > pingTime then
      let s := { s with pingBestTime := pingTime }
      if s.pingBestPeerId ≠ peerId then
        ({ s with pingBestPeerId := peerId, pingBestPeerSinceTimestamp := timestamp }, pingTime)
      else (s, pingTime)
    else (s, pingTime)

/-! ## The handlers of `Peer.cpp`

Each is cut after its first critical section; the task says where it goes on. `none` means
that it waits for `m_peersMutex`. -/

/-- `if(peer->getPeerId() != m_peerId)`, for all peers of a loop. -/
def others (s : Session) (peerId : Int) (peers : List PeerRef) : List PeerRef :=
  peers.filter fun j => s.peerId? j != some peerId

abbrev Reaction := Option (Session × Task × List Event)

def sendErrorAsync (s : Session) (i : PeerRef) (code : ErrorCodes) (message : String) : Reaction :=
  some (s, .listening, [.error i (.outgoingError ⟨code, message⟩)])

def handlePong (s : Session) (i : PeerRef) (peerId : Int) (message : MessageDto) (now : Int) :
    Reaction :=
  match message.retrieveInt64 with
  | none => s.sendErrorAsync i .badMessage "Message MUST contain 'payload.'"
  | some timestamp =>
    let r := s.reportPeerPong peerId timestamp now
    some (r.1, .reported timestamp r.2, [.pong i timestamp r.2])

def handleBroadcast (s : Session) (peerId : Int) (message : MessageDto) : Reaction :=
  if s.peersMutex then none
  else
    some (s, .sending (s.others peerId s.getAllPeers) ⟨peerId, message.retrieveString⟩, [])

def handleDirectMessage (s : Session) (i : PeerRef) (peerId : Int) (message : MessageDto) :
    Reaction :=
  match message.retrieveDirectMessage with
  | none => s.sendErrorAsync i .badMessage "Message MUST contain 'payload.'"
  | some dm =>
    let peerIds := dm.peerIds.getD []
    if peerIds.isEmpty then
      s.sendErrorAsync i .badMessage "Payload MUST contain array of peerIds of recipients."
    else if s.peersMutex then none
    else some (s, .sending (s.others peerId (s.getPeers peerIds)) ⟨peerId, dm.data⟩, [])

/-- The loop keeps `m_peersMutex`. -/
def handleSynchronizedEvent (s : Session) (peerId : Int) (message : MessageDto) : Reaction :=
  if s.peersMutex then none
  else
    let r := s.nextSynchronizedEvent peerId message.retrieveString
    some ({ r.1 with peersMutex := true }, .broadcasting s.getAllPeers r.2,
      [.broadcast r.2 s.getAllPeers])

def handleKickMessage (s : Session) (i : PeerRef) (peerId : Int) (message : MessageDto) :
    Reaction :=
  if s.peersMutex then none
  else
    match s.getHost with
    | none => s.sendErrorAsync i .invalidState "There is no game host."
    | some h =>
      if s.peerId? h ≠ some peerId then
        s.sendErrorAsync i .operationNotPermitted "Only Host peer can kick others."
      else
        let ids := message.retrieveInt64s.getD []
        if ids.isEmpty then
          s.sendErrorAsync i .badMessage
            "Payload MUST contain array of peerIds to kick from session.'"
        else some (s, .selecting ids, [])

def handleClientMessage (s : Session) (i : PeerRef) (peerId : Int) (message : MessageDto) :
    Reaction :=
  if s.peersMutex then none
  else
    match s.getHost with
    | none =>
      s.sendErrorAsync i .invalidState
        "There is no game host. No one will receive this message."
    | some h =>
      if s.peerId? h = some peerId then
        s.sendErrorAsync i .operationNotPermitted "Host can't send message to itself."
      else some (s, .sending [h] ⟨peerId, message.retrieveString⟩, [])

def handleMessage (s : Session) (i : PeerRef) (peerId : Int) (message : MessageDto) (now : Int) :
    Reaction :=
  match message.code with
  | none => s.sendErrorAsync i .badMessage "Message MUST contain 'code' field."
  | some .incomingPong => s.handlePong i peerId message now
  | some .incomingBroadcast => s.handleBroadcast peerId message
  | some .incomingDirectMessage => s.handleDirectMessage i peerId message
  | some .incomingSynchronizedEvent => s.handleSynchronizedEvent peerId message
  | some .incomingHostKickClients => s.handleKickMessage i peerId message
  | some .incomingClientMessage => s.handleClientMessage i peerId message
  | some _ => s.sendErrorAsync i .operationNotPermitted "Invalid operation code."

/-- `handlePong` from the lock of `m_pingMutex` on. -/
def recordPong (p : Peer) (timestamp pingTime : Int) : Peer :=
  if pingTime ≥ 0 then
    { p with pingTime := pingTime, failedPings := 0, lastPingTimestamp := timestamp }
  else { p with pingTime := pingTime }

/-- `checkPingsRules` up to `invalidateSocket`. -/
def countPing (p : Peer) (currentPingSessionTimestamp : Int) : Peer :=
  if p.lastPingTimestamp ≠ currentPingSessionTimestamp then
    { p with failedPings := p.failedPings + 1 }
  else p

/-! ## Steps -/

def advance (s : Session) (i : PeerRef) (p : Peer) (c : Nat) : Option (Session × List Event) :=
  match p.task with
  | .adding =>
    if s.peersMutex then none
    else
      let r := s.addPeer i p.peerId p.isHost
      some (r.1.setTask i p .greeting, .joined i p.isHost :: r.2)
  | .greeting => some (s.setTask i p .listening, [.offer i (.hello p.peerId p.isHost)])
  | .listening => none
  | .reported timestamp pingTime =>
    match s.pinger with
    | .dropping _ _ j =>
      -- `checkPingsRules` keeps the peer's `m_pingMutex` while it invalidates the socket
      if j = i then none
      else some ((s.setTask i (recordPong p timestamp pingTime) .listening), [])
    | _ => some ((s.setTask i (recordPong p timestamp pingTime) .listening), [])
  | .sending [] _ => some (s.setTask i p .listening, [])
  | .sending recipients payload =>
    match recipients[c]? with
    | none => none
    | some j =>
      some (s.setTask i p (.sending (recipients.eraseIdx c) payload),
        [.offer j (.outgoing payload)])
  | .broadcasting [] _ => some ({ s.setTask i p .listening with peersMutex := false }, [])
  | .broadcasting recipients event =>
    match recipients[c]? with
    | none => none
    | some j =>
      some (s.setTask i p (.broadcasting (recipients.eraseIdx c) event),
        [.offer j (.synchronizedEvent event)])
  | .selecting peerIds =>
    if s.peersMutex then none
    else some (s.setTask i p (.kicking (s.others p.peerId (s.getPeers peerIds))), [])
  | .kicking [] => some (s.setTask i p .listening, [])
  | .kicking targets =>
    match targets[c]? with
    | none => none
    | some j => some (s.setTask i p (.kicking (targets.eraseIdx c)), [.kick j])
  | .clearing => some (s.setTask i p .removing, [.clearQueue i])
  | .removing =>
    if s.peersMutex then none
    else
      let r := s.removePeerById p.peerId
      some (r.1.setTask i p .removed, .left i r.2.1 :: r.2.2)
  | .removed => none

/-- The next section of the pinger's tick: `checkAllPeersPings`, then `pingAllPeers`. -/
def tick (s : Session) (c : Nat) (now : Int) : Option (Session × List Event) :=
  match s.pinger with
  | .idle => some ({ s with pinger := .checking s.pingCurrentTimestamp }, [])
  | .checking timestamp =>
    if s.peersMutex then none
    else some ({ s with peersMutex := true, pinger := .checkLoop timestamp s.getAllPeers }, [])
  | .checkLoop _ [] => some ({ s with peersMutex := false, pinger := .checked }, [])
  | .checkLoop timestamp rest =>
    match rest[c]? with
    | none => none
    | some j =>
      match s.objects[j]? with
      | none => none
      | some p =>
        let p := countPing p timestamp
        let rest := rest.eraseIdx c
        if p.failedPings ≥ s.config.maxFailedPings then
          some ({ s.setPeer j p with pinger := .dropping timestamp rest j },
            [.checked j timestamp true, .resetSocket j])
        else
          some ({ s.setPeer j p with pinger := .checkLoop timestamp rest },
            [.checked j timestamp false])
  | .dropping timestamp rest j =>
    some ({ s with pinger := .checkLoop timestamp rest }, [.clearQueue j])
  | .checked => some ({ s with pingCurrentTimestamp := now, pinger := .pinging now }, [.round now])
  | .pinging timestamp =>
    if s.peersMutex then none
    else some ({ s with peersMutex := true, pinger := .pingLoop timestamp s.getAllPeers }, [])
  | .pingLoop _ [] => some ({ s with peersMutex := false, pinger := .idle }, [])
  | .pingLoop timestamp rest =>
    match rest[c]? with
    | none => none
    | some j =>
      some ({ s with pinger := .pingLoop timestamp (rest.eraseIdx c) }, [.ping j timestamp])

inductive Op where
  /-- a client connection gets this session from `findSession` -/
  | findSession
  /-- the waiting connection `k` draws its id and constructs its `Peer` -/
  | newPeer (k : Nat)
  | advance (peer : PeerRef) (choice : Nat)
  /-- the reader of the peer calls `handleMessage` -/
  | handle (peer : PeerRef) (message : IncomingMessage) (now : Int)
  /-- `onBeforeDestroy_NonBlocking` for the socket of the peer -/
  | close (peer : PeerRef)
  | tick (choice : Nat) (now : Int)

def step (s : Session) : Op → Option (Session × List Event)
  | .findSession => some ({ s with lookups := s.lookups ++ [false] }, [])
  | .newPeer k =>
    match s.lookups[k]? with
    | none => none
    | some isHost =>
      let (peerId, s') := s.generateNewPeerId
      let peer : Peer := { peerId := peerId, isHost := isHost }
      some ({ s' with lookups := s.lookups.eraseIdx k, objects := s.objects ++ [peer] },
        [.created s.objects.length peerId isHost])
  | .advance i c =>
    match s.objects[i]? with
    | none => none
    | some p => s.advance i p c
  | .handle i message now =>
    match s.objects[i]? with
    | none => none
    | some p =>
      match p.task with
      | .listening =>
        match s.handleMessage i p.peerId message.message now with
        | none => none
        | some (s', task, es) => some (s'.setTask i p task, .handled i message.message :: es)
      | _ => none
  | .close i =>
    match s.objects[i]? with
    | none => none
    | some p =>
      match p.task with
      | .listening => some (s.setTask i p .clearing, [.resetSocket i])
      | _ => none
  | .tick c now => s.tick c now

def machine : Machine Session Op Event := ⟨step⟩

end Session
end Helicopter
