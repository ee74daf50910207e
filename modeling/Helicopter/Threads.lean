import Helicopter.Lib.Family
import Helicopter.Membership

/-! What a step does to one peer: how its thread goes on, and what the pinger counts. Facts
about every peer of a session are derived from this. -/
namespace Helicopter

def Task.through : Task → Bool
  | .sending [] _ | .broadcasting [] _ | .kicking [] => true
  | _ => false

theorem inside_of_through {task : Task} (h : task.through = true) : task.stage = .inside := by
  cases task with
  | sending recipients payload => rfl
  | broadcasting recipients event => rfl
  | kicking targets => rfl
  | _ => cases h

namespace Session
variable {s s' : Session} {es : List Event} {a : Op}

def Event.ofPinger : Event → Bool
  | .round _ | .ping _ _ | .checked _ _ _ => true
  | _ => false

inductive NextTask (s : Session) (p : Peer) : Task → Prop where
  | add : p.task = .adding → NextTask s p .greeting
  | greet : p.task = .greeting → NextTask s p .listening
  | send (recipients : List PeerRef) (payload : OutgoingMessageDto) (c : Nat) :
    p.task = .sending recipients payload →
    NextTask s p (.sending (recipients.eraseIdx c) payload)
  | event (recipients : List PeerRef) (event : OutgoingSynchronizedMessageDto) (c : Nat) :
    p.task = .broadcasting recipients event →
    NextTask s p (.broadcasting (recipients.eraseIdx c) event)
  | select (peerIds : List (Option Int)) : p.task = .selecting peerIds →
    NextTask s p (.kicking (s.others p.peerId (s.getPeers peerIds)))
  | kick (targets : List PeerRef) (c : Nat) : p.task = .kicking targets →
    NextTask s p (.kicking (targets.eraseIdx c))
  | done : p.task.through = true → NextTask s p .listening
  | clear : p.task = .clearing → NextTask s p .removing
  | remove : p.task = .removing → NextTask s p .removed

inductive Turns (s : Session) : Op → PeerRef → Peer → Peer → Prop where
  | thread {i : PeerRef} {p : Peer} (c : Nat) (task : Task) : NextTask s p task →
    Turns s (.advance i c) i p { p with task := task }
  | record {i : PeerRef} {p : Peer} (c : Nat) (timestamp pingTime : Int) :
    p.task = .reported timestamp pingTime →
    Turns s (.advance i c) i p { recordPong p timestamp pingTime with task := .listening }
  | handle {i : PeerRef} {p : Peer} (message : IncomingMessage) (now : Int) (s₁ : Session)
    (task : Task) (es : List Event) : p.task = .listening →
    Reacts s i p.peerId message.message now s₁ task es →
    Turns s (.handle i message now) i p { p with task := task }
  | close {i : PeerRef} {p : Peer} : p.task = .listening →
    Turns s (.close i) i p { p with task := .clearing }
  | check {i : PeerRef} {p : Peer} (c : Nat) (now timestamp : Int) :
    Turns s (.tick c now) i p (countPing p timestamp)

theorem advances_turns {i : PeerRef} {p : Peer} (c : Nat) (ha : Advances s i p s' es) :
    ∃ q, Turns s (.advance i c) i p q ∧ s'.objects = (s.setPeer i q).objects := by
  cases ha with
  | add ht hm => exact ⟨_, .thread c _ (.add ht), by rw [addPeer_fst]; rfl⟩
  | greet ht => exact ⟨_, .thread c _ (.greet ht), rfl⟩
  | record timestamp pingTime ht => exact ⟨_, .record c timestamp pingTime ht, rfl⟩
  | send recipients payload b j ht hj => exact ⟨_, .thread c _ (.send _ payload b ht), rfl⟩
  | event recipients event b j ht hj => exact ⟨_, .thread c _ (.event _ event b ht), rfl⟩
  | eventDone event ht =>
    exact ⟨_, .thread c _ (.done (by rw [ht]; rfl)), rfl⟩
  | select peerIds ht hm => exact ⟨_, .thread c _ (.select peerIds ht), rfl⟩
  | kick targets b j ht hj => exact ⟨_, .thread c _ (.kick targets b ht), rfl⟩
  | done ht =>
    obtain ⟨payload, ht⟩ | ht := ht
    · exact ⟨_, .thread c _ (.done (by rw [ht]; rfl)), rfl⟩
    · exact ⟨_, .thread c _ (.done (by rw [ht]; rfl)), rfl⟩
  | clear ht => exact ⟨_, .thread c _ (.clear ht), rfl⟩
  | remove ht hm => exact ⟨_, .thread c _ (.remove ht), by rw [removePeerById_fst]; rfl⟩

theorem Turns.thread_eq {i j : PeerRef} {p q : Peer} {c : Nat}
    (h : Turns s (.advance j c) i p q) : i = j := by
  cases h <;> rfl

/-- A step leaves the objects alone, adds one, or turns one; that of a thread turns its peer. -/
theorem step_objects (hs : s.step a = some (s', es)) :
    (s'.objects = s.objects ∧ ∀ i c, a ≠ .advance i c) ∨
      (∃ k isHost, a = .newPeer k ∧ s.lookups[k]? = some isHost ∧
        s'.objects = s.objects ++ [{ peerId := s.peerIdCounter, isHost := isHost }]) ∨
      ∃ i p q, s.objects[i]? = some p ∧ Turns s a i p q ∧
        s'.objects = (s.setPeer i q).objects := by
  cases step_cases hs with
  | findSession => exact Or.inl ⟨rfl, fun i c h => by cases h⟩
  | newPeer k isHost hk => exact Or.inr (Or.inl ⟨k, isHost, rfl, hk, rfl⟩)
  | advance i p c s' es hp ha =>
    obtain ⟨q, hq, ho⟩ := advances_turns c ha
    exact Or.inr (Or.inr ⟨i, p, q, hp, hq, ho⟩)
  | handle i p message now s₁ task es hp ht hr =>
    have ho : s₁.objects = s.objects := (reacts_frame hr).1
    refine Or.inr (Or.inr ⟨i, p, _, hp, .handle message now s₁ task es ht hr, ?_⟩)
    simp only [setTask, setPeer, ho]
  | close i p hp ht => exact Or.inr (Or.inr ⟨i, p, _, hp, .close ht, rfl⟩)
  | tick c now s' es hk =>
    cases hk with
    | check timestamp rest j p hpg hc hp hf =>
      exact Or.inr (Or.inr ⟨j, p, _, hp, .check c now timestamp, rfl⟩)
    | drop timestamp rest j p hpg hc hp hf =>
      exact Or.inr (Or.inr ⟨j, p, _, hp, .check c now timestamp, rfl⟩)
    | _ => exact Or.inl ⟨rfl, fun i c h => by cases h⟩

/-- What holds of every peer, if it holds of a new one, of one that a step has turned, and of
those whose thread has not moved. -/
theorem forall_step_thread {P : PeerRef → Peer → Prop} (hs : s.step a = some (s', es))
    (hold : ∀ (j : PeerRef) (r : Peer), s.objects[j]? = some r → (∀ c, a ≠ .advance j c) → P j r)
    (hnew : ∀ isHost, P s.objects.length { peerId := s.peerIdCounter, isHost := isHost })
    (hturn : ∀ i p q, s.objects[i]? = some p → Turns s a i p q → P i q) :
    ∀ (j : PeerRef) (r : Peer), s'.objects[j]? = some r → P j r := by
  intro j r hr
  obtain ⟨ho, hno⟩ | ⟨k, isHost, rfl, -, ho⟩ | ⟨i, p, q, hp, hq, ho⟩ := step_objects hs
  · rw [ho] at hr
    exact hold j r hr (hno j)
  · rw [ho, Interleaving.getElem?_snoc] at hr
    split at hr
    · next hj =>
      cases hr
      rw [hj]
      exact hnew isHost
    · exact hold j r hr fun c h => by cases h
  · rw [ho, objects_setPeer hp] at hr
    split at hr
    · next hj =>
      cases hr
      rw [hj]
      exact hturn i p r hp hq
    · next hj =>
      refine hold j r hr fun c hc => hj ?_
      rw [hc] at hq
      exact hq.thread_eq.symm

theorem forall_step {P : PeerRef → Peer → Prop} (hs : s.step a = some (s', es))
    (hold : ∀ (j : PeerRef) (r : Peer), s.objects[j]? = some r → P j r)
    (hnew : ∀ isHost, P s.objects.length { peerId := s.peerIdCounter, isHost := isHost })
    (hturn : ∀ i p q, s.objects[i]? = some p → Turns s a i p q → P i q) :
    ∀ (j : PeerRef) (r : Peer), s'.objects[j]? = some r → P j r :=
  forall_step_thread hs (fun j r hr _ => hold j r hr) hnew hturn

/-- Rounds, pings and checks are the pinger's; the threads leave it alone. -/
theorem step_threads (hs : s.step a = some (s', es)) (ha : ∀ c now, a ≠ .tick c now) :
    s'.pinger = s.pinger ∧ s'.pingCurrentTimestamp = s.pingCurrentTimestamp ∧
      ∀ e ∈ es, e.ofPinger = false := by
  cases step_cases hs with
  | findSession => exact ⟨rfl, rfl, by simp⟩
  | newPeer k isHost hk => exact ⟨rfl, rfl, by simp [Event.ofPinger]⟩
  | advance i p c s' es hp had =>
    cases had with
    | add ht hmx =>
      refine ⟨by rw [addPeer_fst]; rfl, by rw [addPeer_fst]; rfl, ?_⟩
      intro e he
      cases List.mem_cons.mp he with
      | inl he => rw [he]; rfl
      | inr he =>
        obtain ⟨k, notice, rfl⟩ := offer_of_mem_addPeer he
        rfl
    | remove ht hmx =>
      refine ⟨by rw [removePeerById_fst]; rfl, by rw [removePeerById_fst]; rfl, ?_⟩
      intro e he
      cases List.mem_cons.mp he with
      | inl he => rw [he]; rfl
      | inr he =>
        obtain ⟨k, notice, rfl⟩ := offer_of_mem_removePeerById he
        rfl
    | _ => exact ⟨rfl, rfl, by simp [Event.ofPinger]⟩
  | handle i p message now s₁ task es hp ht hre =>
    have hpin := reacts_pinger hre
    cases hre with
    | pong timestamp =>
      obtain ⟨time, id, since, he⟩ := reportPeerPong_fst s p.peerId timestamp now
      rw [he]
      exact ⟨rfl, rfl, by simp [Event.ofPinger]⟩
    | _ => exact ⟨rfl, rfl, by simp [Event.ofPinger]⟩
  | close i p hp ht => exact ⟨rfl, rfl, by simp [Event.ofPinger]⟩
  | tick c now s' es hk => exact absurd rfl (ha c now)

end Session
end Helicopter
