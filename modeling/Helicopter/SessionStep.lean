import Helicopter.Session

/-! What one step of a session can do, said once: one case for each critical section. The
invariants are derived from this relation and never unfold the step function. -/
namespace Helicopter
namespace Session
variable {s s' : Session} {es : List Event}

inductive Reacts (s : Session) (i : PeerRef) (peerId : Int) (message : MessageDto) (now : Int) :
    Session → Task → List Event → Prop where
  | error (e : ErrorDto) :
    Reacts s i peerId message now s .listening [.error i (.outgoingError e)]
  | pong (timestamp : Int) :
    Reacts s i peerId message now (s.reportPeerPong peerId timestamp now).1
      (.reported timestamp (s.reportPeerPong peerId timestamp now).2)
      [.pong i timestamp (s.reportPeerPong peerId timestamp now).2]
  | broadcast : message.code = some .incomingBroadcast → s.peersMutex = false →
    Reacts s i peerId message now s
      (.sending (s.others peerId s.getAllPeers) ⟨peerId, message.retrieveString⟩) []
  | direct (dm : DirectMessageDto) (ids : List (Option Int)) :
    message.code = some .incomingDirectMessage → message.retrieveDirectMessage = some dm →
    dm.peerIds = some ids → s.peersMutex = false →
    Reacts s i peerId message now s
      (.sending (s.others peerId (s.getPeers ids)) ⟨peerId, dm.data⟩) []
  | event : message.code = some .incomingSynchronizedEvent → s.peersMutex = false →
    Reacts s i peerId message now
      { (s.nextSynchronizedEvent peerId message.retrieveString).1 with peersMutex := true }
      (.broadcasting s.getAllPeers (s.nextSynchronizedEvent peerId message.retrieveString).2)
      [.broadcast (s.nextSynchronizedEvent peerId message.retrieveString).2 s.getAllPeers]
  | select (h : PeerRef) (ids : List (Option Int)) :
    message.code = some .incomingHostKickClients → s.host = some h → s.peerId? h = some peerId →
    message.retrieveInt64s = some ids → s.peersMutex = false →
    Reacts s i peerId message now s (.selecting ids) []
  | toHost (h : PeerRef) : message.code = some .incomingClientMessage → s.host = some h →
    s.peerId? h ≠ some peerId → s.peersMutex = false →
    Reacts s i peerId message now s (.sending [h] ⟨peerId, message.retrieveString⟩) []

theorem handleMessage_reacts {i : PeerRef} {peerId now : Int} {message : MessageDto} {task : Task}
    (h : s.handleMessage i peerId message now = some (s', task, es)) :
    Reacts s i peerId message now s' task es := by
  unfold handleMessage at h
  split at h
  · cases h; exact .error _
  · unfold handlePong at h
    split at h
    · cases h; exact .error _
    · cases h; exact .pong _
  · next hc =>
    unfold handleBroadcast at h
    split at h
    · cases h
    · next hm => cases h; exact .broadcast hc (by simpa using hm)
  · next hc =>
    unfold handleDirectMessage at h
    split at h
    · cases h; exact .error _
    · next dm hd =>
      simp only at h
      split at h
      · cases h; exact .error _
      · next hne =>
        split at h
        · cases h
        · next hm =>
          cases h
          cases hids : dm.peerIds with
          | none => simp [hids] at hne
          | some ids => exact .direct dm ids hc hd hids (by simpa using hm)
  · next hc =>
    unfold handleSynchronizedEvent at h
    split at h
    · cases h
    · next hm => cases h; exact .event hc (by simpa using hm)
  · next hc =>
    unfold handleKickMessage at h
    split at h
    · cases h
    · next hm =>
      split at h
      · cases h; exact .error _
      · next k hk =>
        split at h
        · cases h; exact .error _
        · next hid =>
          simp only at h
          split at h
          · cases h; exact .error _
          · next hne =>
            cases h
            cases hids : message.retrieveInt64s with
            | none => simp [hids] at hne
            | some ids => exact .select k ids hc hk (by simpa using hid) hids (by simpa using hm)
  · next hc =>
    unfold handleClientMessage at h
    split at h
    · cases h
    · next hm =>
      split at h
      · cases h; exact .error _
      · next k hk =>
        split at h
        · cases h; exact .error _
        · next hid => cases h; exact .toHost k hc hk hid (by simpa using hm)
  · cases h; exact .error _

inductive Advances (s : Session) (i : PeerRef) (p : Peer) : Session → List Event → Prop where
  | add : p.task = .adding → s.peersMutex = false →
    Advances s i p ((s.addPeer i p.peerId p.isHost).1.setTask i p .greeting)
      (.joined i p.isHost :: (s.addPeer i p.peerId p.isHost).2)
  | greet : p.task = .greeting →
    Advances s i p (s.setTask i p .listening) [.offer i (.hello p.peerId p.isHost)]
  | record (timestamp pingTime : Int) : p.task = .reported timestamp pingTime →
    Advances s i p (s.setTask i (recordPong p timestamp pingTime) .listening) []
  | send (recipients : List PeerRef) (payload : OutgoingMessageDto) (c : Nat) (j : PeerRef) :
    p.task = .sending recipients payload → recipients[c]? = some j →
    Advances s i p (s.setTask i p (.sending (recipients.eraseIdx c) payload))
      [.offer j (.outgoing payload)]
  | event (recipients : List PeerRef) (event : OutgoingSynchronizedMessageDto) (c : Nat)
    (j : PeerRef) : p.task = .broadcasting recipients event → recipients[c]? = some j →
    Advances s i p (s.setTask i p (.broadcasting (recipients.eraseIdx c) event))
      [.offer j (.synchronizedEvent event)]
  | eventDone (event : OutgoingSynchronizedMessageDto) : p.task = .broadcasting [] event →
    Advances s i p { s.setTask i p .listening with peersMutex := false } []
  | select (peerIds : List (Option Int)) : p.task = .selecting peerIds → s.peersMutex = false →
    Advances s i p (s.setTask i p (.kicking (s.others p.peerId (s.getPeers peerIds)))) []
  | kick (targets : List PeerRef) (c : Nat) (j : PeerRef) : p.task = .kicking targets →
    targets[c]? = some j →
    Advances s i p (s.setTask i p (.kicking (targets.eraseIdx c))) [.kick j]
  | done : (∃ payload, p.task = .sending [] payload) ∨ p.task = .kicking [] →
    Advances s i p (s.setTask i p .listening) []
  | clear : p.task = .clearing → Advances s i p (s.setTask i p .removing) [.clearQueue i]
  | remove : p.task = .removing → s.peersMutex = false →
    Advances s i p ((s.removePeerById p.peerId).1.setTask i p .removed)
      (.left i (s.removePeerById p.peerId).2.1 :: (s.removePeerById p.peerId).2.2)

theorem advance_advances {i : PeerRef} {p : Peer} {c : Nat}
    (h : s.advance i p c = some (s', es)) : Advances s i p s' es := by
  unfold advance at h
  split at h
  · next ht =>
    split at h
    · cases h
    · next hm => cases h; exact .add ht (by simpa using hm)
  · next ht => cases h; exact .greet ht
  · cases h
  · next ht =>
    split at h
    · split at h
      · cases h
      · cases h; exact .record _ _ ht
    · cases h; exact .record _ _ ht
  · next ht => cases h; exact .done (Or.inl ⟨_, ht⟩)
  · next ht =>
    split at h
    · cases h
    · next j hj => cases h; exact .send _ _ c j ht hj
  · next ht => cases h; exact .eventDone _ ht
  · next ht =>
    split at h
    · cases h
    · next j hj => cases h; exact .event _ _ c j ht hj
  · next ht =>
    split at h
    · cases h
    · next hm => cases h; exact .select _ ht (by simpa using hm)
  · next ht => cases h; exact .done (Or.inr ht)
  · next ht =>
    split at h
    · cases h
    · next j hj => cases h; exact .kick _ c j ht hj
  · next ht => cases h; exact .clear ht
  · next ht =>
    split at h
    · cases h
    · next hm => cases h; exact .remove ht (by simpa using hm)
  · cases h

inductive Ticks (s : Session) (c : Nat) (now : Int) : Session → List Event → Prop where
  | read : s.pinger = .idle →
    Ticks s c now { s with pinger := .checking s.pingCurrentTimestamp } []
  | lockCheck (timestamp : Int) : s.pinger = .checking timestamp → s.peersMutex = false →
    Ticks s c now { s with peersMutex := true, pinger := .checkLoop timestamp s.getAllPeers } []
  | check (timestamp : Int) (rest : List PeerRef) (j : PeerRef) (p : Peer) :
    s.pinger = .checkLoop timestamp rest → rest[c]? = some j → s.objects[j]? = some p →
    (countPing p timestamp).failedPings < s.config.maxFailedPings →
    Ticks s c now
      { s.setPeer j (countPing p timestamp) with pinger := .checkLoop timestamp (rest.eraseIdx c) }
      [.checked j timestamp false]
  | drop (timestamp : Int) (rest : List PeerRef) (j : PeerRef) (p : Peer) :
    s.pinger = .checkLoop timestamp rest → rest[c]? = some j → s.objects[j]? = some p →
    (s.config.maxFailedPings : Int) ≤ (countPing p timestamp).failedPings →
    Ticks s c now
      { s.setPeer j (countPing p timestamp) with
        pinger := .dropping timestamp (rest.eraseIdx c) j }
      [.checked j timestamp true, .resetSocket j]
  | clear (timestamp : Int) (rest : List PeerRef) (j : PeerRef) :
    s.pinger = .dropping timestamp rest j →
    Ticks s c now { s with pinger := .checkLoop timestamp rest } [.clearQueue j]
  | checkDone (timestamp : Int) : s.pinger = .checkLoop timestamp [] →
    Ticks s c now { s with peersMutex := false, pinger := .checked } []
  | stamp : s.pinger = .checked →
    Ticks s c now { s with pingCurrentTimestamp := now, pinger := .pinging now } [.round now]
  | lockPing (timestamp : Int) : s.pinger = .pinging timestamp → s.peersMutex = false →
    Ticks s c now { s with peersMutex := true, pinger := .pingLoop timestamp s.getAllPeers } []
  | ping (timestamp : Int) (rest : List PeerRef) (j : PeerRef) :
    s.pinger = .pingLoop timestamp rest → rest[c]? = some j →
    Ticks s c now { s with pinger := .pingLoop timestamp (rest.eraseIdx c) } [.ping j timestamp]
  | pingDone (timestamp : Int) : s.pinger = .pingLoop timestamp [] →
    Ticks s c now { s with peersMutex := false, pinger := .idle } []

theorem tick_ticks {c : Nat} {now : Int} (h : s.tick c now = some (s', es)) :
    Ticks s c now s' es := by
  unfold tick at h
  split at h
  · next ht => cases h; exact .read ht
  · next ht =>
    split at h
    · cases h
    · next hm => cases h; exact .lockCheck _ ht (by simpa using hm)
  · next ht => cases h; exact .checkDone _ ht
  · next ht =>
    split at h
    · cases h
    · next j hj =>
      split at h
      · cases h
      · next p hp =>
        simp only at h
        split at h
        · next hf => cases h; exact .drop _ _ j p ht hj hp hf
        · next hf => cases h; exact .check _ _ j p ht hj hp (by omega)
  · next ht => cases h; exact .clear _ _ _ ht
  · next ht => cases h; exact .stamp ht
  · next ht =>
    split at h
    · cases h
    · next hm => cases h; exact .lockPing _ ht (by simpa using hm)
  · next ht => cases h; exact .pingDone _ ht
  · next ht =>
    split at h
    · cases h
    · next j hj => cases h; exact .ping _ _ j ht hj

inductive Step (s : Session) : Op → Session → List Event → Prop where
  | findSession : Step s .findSession { s with lookups := s.lookups ++ [false] } []
  | newPeer (k : Nat) (isHost : Bool) : s.lookups[k]? = some isHost →
    Step s (.newPeer k)
      { s with
        peerIdCounter := s.peerIdCounter + 1
        lookups := s.lookups.eraseIdx k
        objects := s.objects ++ [{ peerId := s.peerIdCounter, isHost := isHost }] }
      [.created s.objects.length s.peerIdCounter isHost]
  | advance (i : PeerRef) (p : Peer) (c : Nat) (s' : Session) (es : List Event) :
    s.objects[i]? = some p → Advances s i p s' es → Step s (.advance i c) s' es
  | handle (i : PeerRef) (p : Peer) (message : IncomingMessage) (now : Int) (s' : Session)
    (task : Task) (es : List Event) : s.objects[i]? = some p → p.task = .listening →
    Reacts s i p.peerId message.message now s' task es →
    Step s (.handle i message now) (s'.setTask i p task) (.handled i message.message :: es)
  | close (i : PeerRef) (p : Peer) : s.objects[i]? = some p → p.task = .listening →
    Step s (.close i) (s.setTask i p .clearing) [.resetSocket i]
  | tick (c : Nat) (now : Int) (s' : Session) (es : List Event) : Ticks s c now s' es →
    Step s (.tick c now) s' es

theorem step_cases {a : Op} (h : s.step a = some (s', es)) : Step s a s' es := by
  cases a with
  | findSession => cases h; exact .findSession
  | newPeer k =>
    simp only [step] at h
    split at h
    · cases h
    · next hk => cases h; exact .newPeer k _ hk
  | advance i c =>
    simp only [step] at h
    split at h
    · cases h
    · next p hp => exact .advance i p c s' es hp (advance_advances h)
  | handle i message now =>
    simp only [step] at h
    split at h
    · cases h
    · next p hp =>
      split at h
      · next ht =>
        split at h
        · cases h
        · next hr => cases h; exact .handle i p message now _ _ _ hp ht (handleMessage_reacts hr)
      · cases h
  | close i =>
    simp only [step] at h
    split at h
    · cases h
    · next p hp =>
      split at h
      · next ht => cases h; exact .close i p hp ht
      · cases h
  | tick c now => exact .tick c now s' es (tick_ticks h)

/-- The locked section of `addPeer`, where it is the turn of the thread. -/
theorem step_add {i : PeerRef} {p : Peer} {c : Nat} (hp : s.objects[i]? = some p)
    (ht : p.task = .adding) (hs : s.step (.advance i c) = some (s', es)) :
    s' = (s.addPeer i p.peerId p.isHost).1.setTask i p .greeting ∧
      es = .joined i p.isHost :: (s.addPeer i p.peerId p.isHost).2 := by
  simp only [step, hp, advance, ht] at hs
  split at hs
  · cases hs
  · cases hs
    exact ⟨rfl, rfl⟩

theorem step_remove {i : PeerRef} {p : Peer} {c : Nat} (hp : s.objects[i]? = some p)
    (ht : p.task = .removing) (hs : s.step (.advance i c) = some (s', es)) :
    s' = (s.removePeerById p.peerId).1.setTask i p .removed ∧
      es = .left i (s.removePeerById p.peerId).2.1 :: (s.removePeerById p.peerId).2.2 := by
  simp only [step, hp, advance, ht] at hs
  split at hs
  · cases hs
  · cases hs
    exact ⟨rfl, rfl⟩

end Session
end Helicopter
