import Helicopter.Lib.Effort
import Helicopter.Activations

/-! The sections that a session has still to take if nothing more comes from outside: those of its
threads, of the sender coroutines of its peers, and of a pinger that is in it. -/
namespace Helicopter
open Interleaving

/-! ## Senders -/

def Sender.sections {μ : Type*} : Sender μ → Nat
  | .acting => 1
  | .sending _ => 2

namespace Outbox
variable {μ : Type*} {max : Nat} {o o' : Outbox μ} {es : List (Event μ)}

def sections (o : Outbox μ) : Nat := 2 * o.queue.length + total Sender.sections o.senders

/-- The message is popped and written, and it may be the one that starts the coroutine. -/
theorem sections_queueMessage (max : Nat) (message : Option μ) (o : Outbox μ) :
    (o.queueMessage max message).1.sections ≤ o.sections + 3 := by
  cases message with
  | none => simp [queueMessage]
  | some m =>
    simp only [queueMessage]
    split
    · split
      · split
        · simp only [sections, List.length_cons, total_append, total_cons, total_nil,
            Sender.sections]
          omega
        · simp only [sections, List.length_cons]
          omega
      · simp only [sections, List.length_cons]
        omega
    · exact Nat.le_add_right _ _

theorem sections_act {k : Nat} (h : o.act k = some (o', es)) : o'.sections < o.sections := by
  unfold act at h
  split at h
  · next hk =>
    split at h
    · cases h
      have hpick := total_pick (f := Sender.sections) hk
      simp only [sections, Sender.sections] at hpick ⊢
      omega
    · next m hq =>
      cases h
      have hset := total_set (f := Sender.sections) (y := .sending m) hk
      have hlen : 0 < o.queue.length := by
        cases hne : o.queue with
        | nil =>
          rw [hne] at hq
          cases hq
        | cons a q => simp
      simp only [sections, Sender.sections, List.length_dropLast] at hset ⊢
      omega
  · cases h

theorem sections_send {k : Nat} {ok : Bool} (h : o.send k ok = some (o', es)) :
    o'.sections < o.sections := by
  unfold send at h
  split at h
  · next m hk =>
    cases h
    have hset := total_set (f := Sender.sections) (y := .acting) hk
    simp only [sections, Sender.sections] at hset ⊢
    omega
  · cases h

theorem sections_step {a : Op μ} (h : step max o a = some (o', es)) :
    o'.sections ≤ o.sections + 3 * a.message?.toList.length := by
  cases a with
  | queueMessage message =>
    simp only [step, Option.some.injEq] at h
    have hle := sections_queueMessage max message o
    rw [h] at hle
    cases message with
    | none => cases h; exact Nat.le_add_right _ _
    | some m => exact hle
  | act k => exact Nat.le_of_lt (Nat.lt_of_lt_of_le (sections_act h) (Nat.le_add_right _ _))
  | send k ok => exact Nat.le_of_lt (Nat.lt_of_lt_of_le (sections_send h) (Nat.le_add_right _ _))
  | resetSocket =>
    cases h
    exact Nat.le_add_right _ _
  | clearQueue =>
    cases h
    simp only [sections, List.length_nil]
    omega

end Outbox

/-! ## The threads of a session -/

def Task.sections : Task → Nat
  | .adding => 2
  | .greeting => 1
  | .listening => 0
  | .reported _ _ => 1
  | .sending recipients _ => recipients.length + 1
  | .broadcasting recipients _ => recipients.length + 1
  | .selecting peerIds => peerIds.length + 2
  | .kicking targets => targets.length + 1
  | .clearing => 3
  | .removing => 2
  | .removed => 0

namespace Session
variable {s s' : Session} {es : List Event}

def Event.isOffer : Event → Bool
  | .offer _ _ => true
  | _ => false

def Event.leavesEmpty : Event → Bool
  | .left _ true => true
  | _ => false

def offers (es : List Event) : Nat := es.countP Event.isOffer

def departing (es : List Event) : Nat := if es.any Event.leavesEmpty then 2 else 0

theorem offers_offer (j : PeerRef) (m : MessageDto) : offers [.offer j m] = 1 := rfl
theorem departing_offer (j : PeerRef) (m : MessageDto) : departing [.offer j m] = 0 := rfl

theorem offers_tellHost (s : Session) (notice : Notice) :
    offers (s.tellHost notice) ≤ 1 ∧ departing (s.tellHost notice) = 0 := by
  unfold tellHost
  cases s.host with
  | some h => exact ⟨Nat.le_refl 1, rfl⟩
  | none => exact ⟨Nat.zero_le 1, rfl⟩

theorem offers_addPeer (i : PeerRef) (peerId : Int) (isHost : Bool) :
    offers (s.addPeer i peerId isHost).2 ≤ 1 ∧ departing (s.addPeer i peerId isHost).2 = 0 := by
  unfold addPeer
  split
  · exact ⟨Nat.zero_le 1, rfl⟩
  · exact offers_tellHost _ _

theorem length_getPeers (peerIds : List (Option Int)) :
    (s.getPeers peerIds).length ≤ peerIds.length := List.length_filterMap_le ..

theorem length_others (peerId : Int) (peers : List PeerRef) :
    (s.others peerId peers).length ≤ peers.length := List.length_filter_le ..

theorem length_eraseIdx_lt {α : Type*} {xs : List α} {c : Nat} {x : α} (h : xs[c]? = some x) :
    (xs.eraseIdx c).length + 1 = xs.length := by
  have hlt := (List.getElem?_eq_some_iff.mp h).1
  rw [List.length_eraseIdx, if_pos hlt]
  omega

/-- What a section of a thread does to the load: the thread has less to do, by more than what it
queues and what it leaves to be deleted. -/
theorem advances_lowers {i : PeerRef} {p : Peer} (ha : Advances s i p s' es) :
    ∃ q, s'.objects = (s.setPeer i q).objects ∧ s'.lookups = s.lookups ∧
      4 * q.task.sections + 3 * offers es + departing es < 4 * p.task.sections := by
  cases ha with
  | add ht hm =>
    obtain ⟨hoff, hdep⟩ := offers_addPeer (s := s) i p.peerId p.isHost
    refine ⟨{ p with task := .greeting }, by rw [addPeer_fst]; rfl, by rw [addPeer_fst]; rfl, ?_⟩
    have hcons : offers (.joined i p.isHost :: (s.addPeer i p.peerId p.isHost).2) =
        offers (s.addPeer i p.peerId p.isHost).2 := rfl
    have hdcons : departing (.joined i p.isHost :: (s.addPeer i p.peerId p.isHost).2) =
        departing (s.addPeer i p.peerId p.isHost).2 := rfl
    rw [hcons, hdcons, ht]
    simp only [Task.sections]
    omega
  | greet ht =>
    refine ⟨{ p with task := .listening }, rfl, rfl, ?_⟩
    rw [ht]
    simp [Task.sections, offers, departing, Event.isOffer, Event.leavesEmpty]
  | record timestamp pingTime ht =>
    refine ⟨{ recordPong p timestamp pingTime with task := .listening }, rfl, rfl, ?_⟩
    rw [ht]
    simp [Task.sections, offers, departing]
  | send recipients payload c j ht hj =>
    have hlen := length_eraseIdx_lt hj
    refine ⟨{ p with task := .sending (recipients.eraseIdx c) payload }, rfl, rfl, ?_⟩
    rw [ht, offers_offer, departing_offer]
    simp only [Task.sections]
    omega
  | event recipients event c j ht hj =>
    have hlen := length_eraseIdx_lt hj
    refine ⟨{ p with task := .broadcasting (recipients.eraseIdx c) event }, rfl, rfl, ?_⟩
    rw [ht, offers_offer, departing_offer]
    simp only [Task.sections]
    omega
  | eventDone event ht =>
    refine ⟨{ p with task := .listening }, rfl, rfl, ?_⟩
    rw [ht]
    simp [Task.sections, offers, departing]
  | select peerIds ht hm =>
    have hlen := Nat.le_trans (length_others (s := s) p.peerId (s.getPeers peerIds))
      (length_getPeers peerIds)
    refine ⟨{ p with task := .kicking (s.others p.peerId (s.getPeers peerIds)) }, rfl, rfl, ?_⟩
    rw [ht]
    change 4 * (_ + 1) + 3 * 0 + 0 < 4 * (peerIds.length + 2)
    omega
  | kick targets c j ht hj =>
    have hlen := length_eraseIdx_lt hj
    refine ⟨{ p with task := .kicking (targets.eraseIdx c) }, rfl, rfl, ?_⟩
    rw [ht]
    change 4 * ((targets.eraseIdx c).length + 1) + 3 * 0 + 0 < 4 * (targets.length + 1)
    omega
  | done ht =>
    refine ⟨{ p with task := .listening }, rfl, rfl, ?_⟩
    obtain ⟨payload, ht⟩ | ht := ht
    · rw [ht]
      simp [Task.sections, offers, departing]
    · rw [ht]
      simp [Task.sections, offers, departing]
  | clear ht =>
    refine ⟨{ p with task := .removing }, rfl, rfl, ?_⟩
    rw [ht]
    simp [Task.sections, offers, departing, Event.isOffer, Event.leavesEmpty]
  | remove ht hm =>
    refine ⟨{ p with task := .removed }, by rw [removePeerById_fst]; rfl,
      by rw [removePeerById_fst]; rfl, ?_⟩
    have hoff : offers (s.removePeerById p.peerId).2.2 ≤ 1 := (offers_tellHost _ _).1
    have hcons : offers (.left i (s.removePeerById p.peerId).2.1 ::
        (s.removePeerById p.peerId).2.2) = offers (s.removePeerById p.peerId).2.2 := rfl
    have hdep : departing (.left i (s.removePeerById p.peerId).2.1 ::
        (s.removePeerById p.peerId).2.2) ≤ 2 := by
      unfold departing
      split
      · exact Nat.le_refl 2
      · exact Nat.zero_le 2
    rw [hcons, ht]
    simp only [Task.sections]
    omega

end Session

/-! ## The pinger in a session -/

/-- The sections of the call in which the pinger is, with at most `peers` peers to be visited.
`idle` and `checked` stand for the calls that begin there. -/
def PingerTask.sections (peers : Nat) : PingerTask → Nat
  | .idle => 2 * peers + 3
  | .checking _ => 2 * peers + 2
  | .checkLoop _ rest => 2 * rest.length + 1
  | .dropping _ rest _ => 2 * rest.length + 2
  | .checked => peers + 3
  | .pinging _ => peers + 2
  | .pingLoop _ rest => rest.length + 1

namespace Session
variable {s s' : Session} {es : List Event} {c peers : Nat} {now : Int}

theorem length_getAllPeers (h : Agrees s) : s.getAllPeers.length ≤ s.objects.length := by
  have hsub : s.getAllPeers ⊆ List.range s.objects.length := by
    intro j hj
    obtain ⟨p, hp, -⟩ := arrived_of_mem_getAllPeers h hj
    exact List.mem_range.mpr (List.getElem?_eq_some_iff.mp hp).1
  have hle := (List.subperm_of_subset (nodup_getAllPeers h) hsub).length_le
  rwa [List.length_range] at hle

theorem ticks_check_lowers (hA : Agrees s) (hlen : s.objects.length ≤ peers)
    (hk : Ticks s c now s' es) (hin : s.pinger.inCheck = true) (hne : s'.pinger ≠ .checked) :
    s'.pinger.sections peers < s.pinger.sections peers := by
  have hall := Nat.le_trans (length_getAllPeers hA) hlen
  cases hk with
  | read ht =>
    rw [ht]
    simp only [PingerTask.sections]
    omega
  | lockCheck timestamp ht hm =>
    rw [ht]
    simp only [PingerTask.sections]
    omega
  | check timestamp rest j p ht hj hp hf =>
    have hrest := length_eraseIdx_lt hj
    rw [ht]
    simp only [PingerTask.sections]
    omega
  | drop timestamp rest j p ht hj hp hf =>
    have hrest := length_eraseIdx_lt hj
    rw [ht]
    simp only [PingerTask.sections]
    omega
  | clear timestamp rest j ht =>
    rw [ht]
    simp only [PingerTask.sections]
    omega
  | checkDone timestamp ht => exact absurd rfl hne
  | stamp ht => rw [ht] at hin; cases hin
  | lockPing timestamp ht hm => rw [ht] at hin; cases hin
  | ping timestamp rest j ht hj => rw [ht] at hin; cases hin
  | pingDone timestamp ht => rw [ht] at hin; cases hin

theorem ticks_ping_lowers (hA : Agrees s) (hlen : s.objects.length ≤ peers)
    (hk : Ticks s c now s' es) (hin : s.pinger.inCheck = false) (hne : s'.pinger ≠ .idle) :
    s'.pinger.sections peers < s.pinger.sections peers := by
  have hall := Nat.le_trans (length_getAllPeers hA) hlen
  cases hk with
  | stamp ht =>
    rw [ht]
    simp only [PingerTask.sections]
    omega
  | lockPing timestamp ht hm =>
    rw [ht]
    simp only [PingerTask.sections]
    omega
  | ping timestamp rest j ht hj =>
    have hrest := length_eraseIdx_lt hj
    rw [ht]
    simp only [PingerTask.sections]
    omega
  | pingDone timestamp ht => exact absurd rfl hne
  | read ht => rw [ht] at hin; cases hin
  | lockCheck timestamp ht hm => rw [ht] at hin; cases hin
  | check timestamp rest j p ht hj hp hf => rw [ht] at hin; cases hin
  | drop timestamp rest j p ht hj hp hf => rw [ht] at hin; cases hin
  | clear timestamp rest j ht => rw [ht] at hin; cases hin
  | checkDone timestamp ht => rw [ht] at hin; cases hin

/-- The threads have as much to do after a tick as before. -/
theorem ticks_threads (hk : Ticks s c now s' es) : s'.lookups = s.lookups ∧
    s'.objects.length = s.objects.length ∧
    total (fun p => p.task.sections) s'.objects = total (fun p => p.task.sections) s.objects ∧
    offers es = 0 := by
  have hcount : ∀ (j : PeerRef) (p : Peer) (timestamp : Int), s.objects[j]? = some p →
      total (fun p => p.task.sections) (s.objects.set j (countPing p timestamp)) =
        total (fun p => p.task.sections) s.objects := by
    intro j p timestamp hp
    have hset := total_set (f := fun p : Peer => p.task.sections) (y := countPing p timestamp) hp
    rw [task_countPing] at hset
    omega
  cases hk with
  | check timestamp rest j p ht hj hp hf =>
    exact ⟨rfl, List.length_set .., hcount j p timestamp hp, rfl⟩
  | drop timestamp rest j p ht hj hp hf =>
    exact ⟨rfl, List.length_set .., hcount j p timestamp hp, rfl⟩
  | _ => exact ⟨rfl, rfl, rfl, rfl⟩

end Session

/-! ## A session with its queues -/

namespace Room
variable {r r' : Room} {es : List Event} {max : Nat} {os os' : List (Outbox MessageDto)}

def sections (r : Room) : Nat :=
  9 * r.session.lookups.length + 4 * total (fun p => p.task.sections) r.session.objects +
    total Outbox.sections r.outboxes

def crowd (r : Room) : Nat := r.session.lookups.length + r.session.objects.length

theorem sections_stepOutbox {j : PeerRef} {a : Outbox.Op MessageDto}
    (h : stepOutbox max os j a = some (os', es)) : ∃ (o o' : Outbox MessageDto)
      (fs : List (Outbox.Event MessageDto)), Outbox.step max o a = some (o', fs) ∧
        total Outbox.sections os' + o.sections = total Outbox.sections os + o'.sections := by
  obtain ⟨o, o', fs, ho, hs, rfl, -⟩ := stepOutbox_some h
  exact ⟨o, o', fs, hs, total_set ho⟩

theorem offers_outboxOp {e : Session.Event} {j : PeerRef} {a : Outbox.Op MessageDto}
    (h : outboxOp e = some (j, a)) : Session.offers [e] = a.message?.toList.length := by
  cases e with
  | offer k m => cases h; rfl
  | resetSocket k => cases h; rfl
  | clearQueue k => cases h; rfl
  | _ => cases h

theorem sections_react (max : Nat) (os : List (Outbox MessageDto)) (e : Session.Event) :
    total Outbox.sections (react max os e).1 ≤
      total Outbox.sections os + 3 * Session.offers [e] := by
  unfold react
  split
  · simp only [total_append, total_cons, total_nil, Outbox.sections, List.length_nil]
    omega
  · split
    · exact Nat.le_add_right _ _
    · next j a ho =>
      split
      · exact Nat.le_add_right _ _
      · next hs =>
        obtain ⟨o, o', fs, hst, hsum⟩ := sections_stepOutbox hs
        have hle := Outbox.sections_step hst
        rw [offers_outboxOp ho]
        simp only
        omega

theorem sections_reactAll (max : Nat) (os : List (Outbox MessageDto))
    (es : List Session.Event) :
    total Outbox.sections (reactAll max os es).1 ≤
      total Outbox.sections os + 3 * Session.offers es := by
  induction es generalizing os with
  | nil => exact Nat.le_add_right _ _
  | cons e es ih =>
    have hhead := sections_react max os e
    have htail := ih (react max os e).1
    have hsplit : Session.offers (e :: es) = Session.offers [e] + Session.offers es := by
      rw [Session.offers, Session.offers, Session.offers, ← List.countP_append]
      rfl
    simp only [reactAll]
    omega

/-- What the threads and the sender coroutines do of themselves. A message and the end of a
connection come from outside, a look-up of the session and a tick from its game. -/
def own : Op → Bool
  | .session (.newPeer _) | .session (.advance _ _) | .act _ _ | .send _ _ _ => true
  | _ => false

theorem own_lowers {a : Op} (ha : own a = true) (hs : r.step a = some (r', es)) :
    r'.sections + Session.departing (sessionPart es) < r.sections ∧ r'.crowd ≤ r.crowd ∧
      r'.session.pinger = r.session.pinger := by
  cases a with
  | session b =>
    simp only [step] at hs
    split at hs
    · cases hs
    · next s' fs hb =>
      cases hs
      have hqueues := sections_reactAll r.maxQueuedMessages r.outboxes fs
      rw [sessionPart_reactAll]
      cases Session.step_cases hb with
      | newPeer k isHost hk =>
        have hlen := Session.length_eraseIdx_lt hk
        have hnone : Session.offers
            [Session.Event.created r.session.objects.length r.session.peerIdCounter isHost] = 0 :=
          rfl
        rw [hnone] at hqueues
        refine ⟨?_, ?_, rfl⟩
        · simp only [sections, total_append, total_cons, total_nil, Task.sections,
            Session.departing, List.any_cons, List.any_nil, Session.Event.leavesEmpty]
          simp only [Bool.or_self, Bool.false_eq_true, if_false]
          omega
        · simp only [crowd, List.length_append, List.length_singleton]
          omega
      | advance i p c s' es hp hadv =>
        obtain ⟨q, hobj, hlook, hlow⟩ := Session.advances_lowers hadv
        have hset := total_set (f := fun p : Peer => p.task.sections) (y := q) hp
        have hlen : s'.objects.length = r.session.objects.length := by
          rw [hobj]
          exact List.length_set ..
        have hpin := (Session.step_threads hb (fun c now h => by cases h)).1
        refine ⟨?_, ?_, hpin⟩
        · simp only [sections, hobj, hlook, Session.setPeer]
          omega
        · simp only [crowd, hlen, hlook]
          exact Nat.le_refl _
      | _ => cases ha
  | act j k =>
    simp only [step] at hs
    split at hs
    · cases hs
    · next hst =>
      cases hs
      obtain ⟨o, o', fs, -, -, -, rfl⟩ := stepOutbox_some hst
      obtain ⟨o, o', fs', hact, hsum⟩ := sections_stepOutbox hst
      have hlow := Outbox.sections_act hact
      rw [sessionPart_outbox]
      refine ⟨?_, Nat.le_refl _, rfl⟩
      simp only [sections, Session.departing, List.any_nil, Bool.false_eq_true, if_false]
      omega
  | send j k ok =>
    simp only [step] at hs
    split at hs
    · cases hs
    · next hst =>
      cases hs
      obtain ⟨o, o', fs, -, -, -, rfl⟩ := stepOutbox_some hst
      obtain ⟨o, o', fs', hsend, hsum⟩ := sections_stepOutbox hst
      have hlow := Outbox.sections_send hsend
      rw [sessionPart_outbox]
      refine ⟨?_, Nat.le_refl _, rfl⟩
      simp only [sections, Session.departing, List.any_nil, Bool.false_eq_true, if_false]
      omega

/-- The pinger leaves the other load of the session as it is, or takes messages from it. -/
theorem tick_sections {c : Nat} {now : Int}
    (hs : r.step (.session (.tick c now)) = some (r', es)) :
    r'.sections ≤ r.sections ∧ r'.crowd = r.crowd := by
  simp only [step] at hs
  split at hs
  · cases hs
  · next s' fs hb =>
    cases hs
    have hqueues := sections_reactAll r.maxQueuedMessages r.outboxes fs
    obtain ⟨hlook, hlen, htasks, hoff⟩ := Session.ticks_threads (Session.tick_ticks hb)
    refine ⟨?_, ?_⟩
    · simp only [sections, hlook, htasks]
      omega
    · simp only [crowd, hlook, hlen]

/-- A client has got the session. -/
theorem findSession_sections (hs : r.step (.session .findSession) = some (r', es)) :
    r'.sections = r.sections + 9 ∧ r'.crowd = r.crowd + 1 ∧
      r'.session.pinger = r.session.pinger := by
  cases hs
  refine ⟨?_, ?_, rfl⟩
  · simp only [sections, reactAll, List.length_append, List.length_singleton]
    omega
  · simp only [crowd, List.length_append, List.length_singleton]
    omega

end Room

end Helicopter
