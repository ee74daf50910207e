import Helicopter.Lib.Locking

/-! The mutexes of the server and the scopes in which its functions hold them. No matter how many
threads the executor and the connection handlers have, they never lock each other out. -/
namespace Helicopter
open Interleaving Locking

inductive Mutex where
  | registry
  | gamesConfig
  | game (g : Nat)
  | sessionPing (s : Nat)
  | peers (s : Nat)
  | peerPing (s p : Nat)
  | queue (s p : Nat)
  | socket (s p : Nat)
deriving DecidableEq

@[simp] def Mutex.rank : Mutex → Nat
  | .registry => 0
  | .gamesConfig => 1
  | .game _ => 2
  | .sessionPing _ => 3
  | .peers _ => 4
  | .peerPing _ _ => 5
  | .queue _ _ => 6
  | .socket _ _ => 7

namespace Locks

/-! ## The scopes of the source -/

section GamesConfig

def putGameConfig : Code Mutex := .guard .gamesConfig .skip

def getGameConfig : Code Mutex := .guard .gamesConfig .skip

def save : Code Mutex := .guard .gamesConfig .skip

end GamesConfig

section Peer
variable (s p : Nat)

def sendMessageAsync : Code Mutex := .guard (.socket s p) .skip

def sendErrorAsync : Code Mutex := .guard (.socket s p) .skip

/-- The coroutine is started with both locks held. -/
def queueMessage : Code Mutex := .when (.guard (.queue s p) (.when (.guard (.socket s p) .skip)))

/-- `SendMessageCoroutine::act` unlocks the queue before it waits for the write lock. -/
def sendNext : Code Mutex := .guard (.queue s p) .skip

def ping : Code Mutex := .guard (.socket s p) .skip

def kick : Code Mutex := .guard (.socket s p) .skip

/-- The socket is let go before the queue is cleared. -/
def invalidateSocket : Code Mutex :=
  .seq (.guard (.socket s p) .skip) (.guard (.queue s p) .skip)

def checkPingsRules : Code Mutex := .guard (.peerPing s p) (.when (invalidateSocket s p))

end Peer

section Session
variable (s : Nat)

def addPeer (p : Nat) : Code Mutex :=
  .seq (.guard (.peers s) (.either .skip (.when (.pick (queueMessage s))))) (queueMessage s p)

def setHost : Code Mutex := .guard (.peers s) .skip

def getHost : Code Mutex := .guard (.peers s) .skip

def isHostPeer : Code Mutex := .guard (.peers s) .skip

def removePeerById : Code Mutex := .guard (.peers s) (.when (.pick (queueMessage s)))

def getAllPeers : Code Mutex := .guard (.peers s) .skip

def getPeers : Code Mutex := .when (.guard (.peers s) .skip)

def broadcastSynchronizedEvent : Code Mutex := .guard (.peers s) (.forEach (queueMessage s))

def checkAllPeersPings : Code Mutex :=
  .seq (.guard (.sessionPing s) .skip) (.guard (.peers s) (.forEach (checkPingsRules s)))

def pingAllPeers : Code Mutex :=
  .seq (.guard (.sessionPing s) .skip) (.guard (.peers s) (.forEach (ping s)))

def reportPeerPong : Code Mutex := .guard (.sessionPing s) .skip

end Session

section Handlers
variable (s p : Nat)

def handlePong : Code Mutex :=
  .either (sendErrorAsync s p) (.seq (reportPeerPong s) (.guard (.peerPing s p) .skip))

def handleBroadcast : Code Mutex :=
  .seq (getAllPeers s) (.forEach fun q => .when (queueMessage s q))

def handleDirectMessage : Code Mutex :=
  .either (sendErrorAsync s p)
    (.seq (getPeers s) (.forEach fun q => .when (queueMessage s q)))

def handleSynchronizedEvent : Code Mutex := broadcastSynchronizedEvent s

def handleKickMessage : Code Mutex :=
  .seq (getHost s) (.either (sendErrorAsync s p)
    (.seq (getPeers s) (.forEach fun q => .when (kick s q))))

def handleClientMessage : Code Mutex :=
  .seq (getHost s) (.either (sendErrorAsync s p) (.pick (queueMessage s)))

def handleMessage : Code Mutex :=
  .either (handlePong s p) <| .either (handleBroadcast s) <| .either (handleDirectMessage s p) <|
    .either (handleSynchronizedEvent s) <| .either (handleKickMessage s p) <|
    .either (handleClientMessage s p) (sendErrorAsync s p)

def readMessage : Code Mutex := .either (sendErrorAsync s p) (.when (handleMessage s p))

end Handlers

section Game
variable (g : Nat)

/-- `startPinger` hands the pinger to the executor and takes no lock. -/
def createNewSession : Code Mutex := .guard (.game g) .skip

def findSession : Code Mutex := .guard (.game g) .skip

def deleteSession : Code Mutex := .guard (.game g) .skip

/-- `Pinger::act` -/
def pinger : Code Mutex :=
  .guard (.game g) (.when (.seq (.forEach checkAllPeersPings) (.forEach pingAllPeers)))

end Game

section Registry

def getGameById : Code Mutex := .guard .registry (.when getGameConfig)

def getSessionForPeer : Code Mutex :=
  .when (.seq getGameById (.when (.pick fun g => .either (createNewSession g) (findSession g))))

def onAfterCreate : Code Mutex :=
  .seq getSessionForPeer (.when (.pick fun s => .pick (addPeer s)))

/-- For the socket of a peer; the others have no lock to take. -/
def onBeforeDestroy (s p : Nat) : Code Mutex :=
  .seq (invalidateSocket s p) (.seq (removePeerById s)
    (.when (.seq getGameById (.pick deleteSession))))

end Registry

inductive Entry where
  | onAfterCreate
  | onBeforeDestroy (s p : Nat)
  | readMessage (s p : Nat)
  | sendNext (s p : Nat)
  | pinger (g : Nat)
  | putGameConfig
  | save
  -- nothing under src/ calls these, an application may
  | setHost (s : Nat)
  | isHostPeer (s : Nat)
  | sendMessageAsync (s p : Nat)

def enter : Entry → Code Mutex
  | .onAfterCreate => onAfterCreate
  | .onBeforeDestroy s p => onBeforeDestroy s p
  | .readMessage s p => readMessage s p
  | .sendNext s p => sendNext s p
  | .pinger g => pinger g
  | .putGameConfig => putGameConfig
  | .save => save
  | .setHost s => setHost s
  | .isHostPeer s => isHostPeer s
  | .sendMessageAsync s p => sendMessageAsync s p

/-! ## The order -/

section
variable {s p g n : Nat} {c : Code Mutex}

theorem ascends_queueMessage : Ascends Mutex.rank 6 (queueMessage s p) := by
  simp [queueMessage]

theorem ascends_invalidateSocket : Ascends Mutex.rank 6 (invalidateSocket s p) := by
  simp [invalidateSocket]

theorem ascends_checkPingsRules : Ascends Mutex.rank 5 (checkPingsRules s p) :=
  ⟨Nat.le_refl _, ascends_when.mpr ascends_invalidateSocket⟩

theorem ascends_sendErrorAsync : Ascends Mutex.rank 3 (sendErrorAsync s p) := by
  simp [sendErrorAsync]

/-- What is done to the peers of a session under its lock. -/
theorem ascends_peers (h : Ascends Mutex.rank 5 c) :
    Ascends Mutex.rank 3 (.guard (.peers s) c) := ⟨by simp, h⟩

theorem ascends_addPeer : Ascends Mutex.rank 3 (addPeer s p) := by
  have hqueue := fun q => (ascends_queueMessage (s := s) (p := q)).mono (m := 5) (by omega)
  refine ⟨ascends_peers ⟨trivial, ascends_when.mpr hqueue⟩, ?_⟩
  exact ascends_queueMessage.mono (by omega)

theorem ascends_removePeerById : Ascends Mutex.rank 3 (removePeerById s) := by
  have hqueue := fun q => (ascends_queueMessage (s := s) (p := q)).mono (m := 5) (by omega)
  exact ascends_peers (ascends_when.mpr hqueue)

theorem ascends_broadcastSynchronizedEvent :
    Ascends Mutex.rank 3 (broadcastSynchronizedEvent s) := by
  have hqueue := fun q => (ascends_queueMessage (s := s) (p := q)).mono (m := 5) (by omega)
  exact ascends_peers hqueue

theorem ascends_checkAllPeersPings : Ascends Mutex.rank 3 (checkAllPeersPings s) := by
  refine ⟨by simp, ?_⟩
  exact ascends_peers fun _ => ascends_checkPingsRules

theorem ascends_pingAllPeers : Ascends Mutex.rank 3 (pingAllPeers s) := by
  simp [pingAllPeers, ping]

theorem ascends_handleMessage : Ascends Mutex.rank 3 (handleMessage s p) := by
  have hqueue := fun q => (ascends_queueMessage (s := s) (p := q)).mono (m := 3) (by omega)
  have herror := ascends_sendErrorAsync (s := s) (p := p)
  have hpeers := ascends_peers (s := s) (c := .skip) trivial
  refine ⟨⟨herror, ?_⟩, ⟨hpeers, ?_⟩, ⟨herror, ?_⟩, ?_, ⟨hpeers, herror, ?_⟩,
    ⟨hpeers, herror, hqueue⟩, herror⟩
  · simp [reportPeerPong]
  · exact fun q => ascends_when.mpr (hqueue q)
  · exact ⟨ascends_when.mpr hpeers, fun q => ascends_when.mpr (hqueue q)⟩
  · exact ascends_broadcastSynchronizedEvent
  · exact ⟨ascends_when.mpr hpeers, fun q => by simp [kick]⟩

theorem ascends_pinger : Ascends Mutex.rank 0 (pinger g) := by
  refine ⟨Nat.zero_le _, ascends_when.mpr ⟨?_, ?_⟩⟩
  · exact fun _ => ascends_checkAllPeersPings
  · exact fun _ => ascends_pingAllPeers

theorem ascends_getGameById : Ascends Mutex.rank 0 getGameById := by
  simp [getGameById, getGameConfig]

theorem ascends_onAfterCreate : Ascends Mutex.rank 0 onAfterCreate := by
  refine ⟨ascends_when.mpr ⟨ascends_getGameById, ?_⟩, ?_⟩
  · simp [createNewSession, findSession]
  · exact ascends_when.mpr fun _ _ => ascends_addPeer.mono (Nat.zero_le _)

theorem ascends_onBeforeDestroy : Ascends Mutex.rank 0 (onBeforeDestroy s p) := by
  refine ⟨ascends_invalidateSocket.mono (Nat.zero_le _), ?_, ?_⟩
  · exact ascends_removePeerById.mono (Nat.zero_le _)
  · exact ascends_when.mpr ⟨ascends_getGameById, fun _ => by simp [deleteSession]⟩

/-- Every function of the server takes its locks in the one order. -/
theorem ascends_enter (entry : Entry) : Ascends Mutex.rank 0 (enter entry) := by
  cases entry with
  | onAfterCreate => exact ascends_onAfterCreate
  | onBeforeDestroy s p => exact ascends_onBeforeDestroy
  | readMessage s p =>
    exact Ascends.mono ⟨ascends_sendErrorAsync, ascends_when.mpr ascends_handleMessage⟩
      (Nat.zero_le _)
  | sendNext s p => simp [enter, sendNext]
  | pinger g => exact ascends_pinger
  | putGameConfig => simp [enter, putGameConfig]
  | save => simp [enter, save]
  | setHost s => simp [enter, setHost]
  | isHostPeer s => simp [enter, isHostPeer]
  | sendMessageAsync s p => simp [enter, sendMessageAsync]

end

/-! ## The threads of the server -/

/-- Whatever threads have come into the server's code and however far they are, no mutex is held
twice and the threads can all be run to their ends, with no other thread started. -/
theorem threads_can_finish {w : List (Op Entry)} {t : List Empty} {ks : List (List (Item Mutex))}
    (hr : (machine enter).run w [] [] = some (t, ks)) :
    (∀ m, total (grips m) ks ≤ 1) ∧
      ∃ w' t' ks', w'.all Op.onward = true ∧ (machine enter).run w' t ks = some (t', ks') ∧
        ∀ k ∈ ks', k = [] := by
  have hnone : Disciplined Mutex.rank [] := ⟨by simp, by simp⟩
  have hks := run_disciplined ascends_enter hnone hr
  exact ⟨hks.exclusive, hks.finishes ascends_enter t⟩

/-- The pinger holds the game and the peers of a session, and waits for nothing. The connection of
a peer of the session is being destroyed. -/
def pinging : List (List (Item Mutex)) :=
  [[.run (.forEach (checkPingsRules 1)), .unlock (.peers 1), .run (.forEach checkAllPeersPings),
      .run (.forEach pingAllPeers), .unlock (.game 0)],
    [.run (removePeerById 1), .run (.when (.seq getGameById (.pick deleteSession)))]]

def untilPinging : List (Op Entry) :=
  [.start (.pinger 0), .start (.onBeforeDestroy 1 3), .next 0 .go, .next 0 .go, .next 0 .go,
    .next 0 (.object 1), .next 0 .go, .next 0 .go, .next 0 .go, .next 0 .go, .next 0 .go] ++
    List.replicate 9 (.next 1 .go)

theorem threads_can_finish_pinging :
    next (held pinging) [.run (removePeerById 1)] .go = none ∧
      (∀ m, total (grips m) pinging ≤ 1) ∧
      ∃ w' t' ks', w'.all Op.onward = true ∧ (machine enter).run w' [] pinging = some (t', ks') ∧
        ∀ k ∈ ks', k = [] :=
  ⟨rfl, threads_can_finish (w := untilPinging) rfl⟩

end Locks
end Helicopter
