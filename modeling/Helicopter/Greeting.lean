import Helicopter.EachSession
import Helicopter.Threads

/-! The window in `addPeer` between the locked section and the HELLO: when the HELLO is the first
message the peer is offered, and is accepted. -/
namespace Helicopter
open Interleaving

def Task.awaitsHello : Task → Bool
  | .adding | .greeting => true
  | _ => false

theorem eq_greeting {task : Task} (h : task.awaitsHello = true) (hst : task.stage ≠ .coming) :
    task = .greeting := by
  cases task with
  | adding => exact absurd rfl hst
  | greeting => rfl
  | _ => cases h

theorem not_awaitsHello_of_through {task : Task} (h : task.through = true) :
    task.awaitsHello = false := by
  cases task with
  | adding => cases h
  | greeting => cases h
  | _ => rfl

namespace Session
variable {s s' : Session} {es t : List Event} {a : Op} {i j : PeerRef} {p : Peer}

/-- The next section of the thread of `p`, with the choice `c` of its loop, calls `queueMessage`
of the peer `j` for something else than its HELLO. -/
def Hits (s : Session) (p : Peer) (c : Nat) (j : PeerRef) : Prop :=
  match p.task with
  | .sending recipients _ | .broadcasting recipients _ => recipients[c]? = some j
  | .adding => p.isHost = false ∧ s.host = some j
  | .removing => s.isHostPeer p.peerId = false ∧ s.host = some j
  | _ => False

def Reaches (s : Session) (a : Op) (j : PeerRef) : Prop :=
  ∃ i c, ∃ p : Peer, a = .advance i c ∧ s.objects[i]? = some p ∧ s.Hits p c j

def Undisturbed (s : Session) (a : Op) : Prop :=
  ∀ (j : PeerRef) (p : Peer), s.objects[j]? = some p → p.task = .greeting → ¬ s.Reaches a j

inductive Offers (s : Session) (a : Op) (j : PeerRef) (es : List Event) : Prop where
  | nothing : offersTo j es = [] → ¬ s.Reaches a j →
    (∀ c p, a = .advance j c → s.objects[j]? = some p → p.task ≠ .greeting) → Offers s a j es
  | hello (c : Nat) (p : Peer) : a = .advance j c → s.objects[j]? = some p → p.task = .greeting →
    es = [.offer j (.hello p.peerId p.isHost)] → Offers s a j es
  | reached (m : MessageDto) : s.Reaches a j → offersTo j es = [m] →
    m.code ≠ some .outgoingHello → Offers s a j es

theorem offersTo_offer (j k : PeerRef) (m : MessageDto) :
    offersTo j [.offer k m] = if k = j then [m] else [] := by
  by_cases hk : k = j
  · simp [offersTo, Event.offerTo?, hk]
  · simp [offersTo, Event.offerTo?, hk]

theorem offersTo_eq_nil (h : ∀ m, .offer j m ∉ t) : offersTo j t = [] := by
  rw [List.eq_nil_iff_forall_not_mem]
  intro m hm
  exact h m (mem_offersTo.mp hm)

theorem offersTo_tellHost (s : Session) (notice : Notice) (j : PeerRef) :
    offersTo j (s.tellHost notice) = if s.host = some j then [notice.message] else [] := by
  unfold tellHost
  cases hh : s.host with
  | none => rfl
  | some h =>
    rw [offersTo_offer]
    simp only [Option.some.injEq]

theorem code_notice (notice : Notice) : notice.message.code ≠ some .outgoingHello := by
  cases notice <;> simp [Notice.message, MessageDto.clientJoined, MessageDto.clientLeft]

theorem reaches_advance {c : Nat} (hp : s.objects[i]? = some p) :
    s.Reaches (.advance i c) j ↔ s.Hits p c j := by
  constructor
  · rintro ⟨k, d, q, ha, hq, hh⟩
    cases ha
    rw [hp] at hq
    cases hq
    exact hh
  · intro hh
    exact ⟨i, c, p, rfl, hp, hh⟩

/-- A section of a thread that is not the one with the HELLO. -/
theorem offers_advance {c : Nat} (hp : s.objects[i]? = some p) (ht : p.task ≠ .greeting)
    {P : Prop} [Decidable P] {m : MessageDto} (ho : offersTo j es = if P then [m] else [])
    (hP : s.Hits p c j ↔ P) (hm : m.code ≠ some .outgoingHello) :
    Offers s (.advance i c) j es := by
  rw [← reaches_advance hp] at hP
  split at ho
  · next h => exact .reached m (hP.mpr h) ho hm
  · next h =>
    refine .nothing ho (mt hP.mp h) ?_
    intro d q ha hq
    cases ha
    rw [hp] at hq
    cases hq
    exact ht

theorem offers_silent (ho : offersTo j es = []) (ha : ∀ i c, a ≠ .advance i c) :
    Offers s a j es := by
  refine .nothing ho ?_ fun c p h => absurd h (ha j c)
  rintro ⟨i, c, p, h, -⟩
  exact ha i c h

theorem offers_quiet {c : Nat} (hp : s.objects[i]? = some p) (ht : p.task ≠ .greeting)
    (hh : ¬ s.Hits p c j) (ho : offersTo j es = []) : Offers s (.advance i c) j es :=
  offers_advance hp ht (P := False) (m := .clientLeft 0) ho (iff_false_intro hh)
    (code_notice (.left 0))

theorem offers_joined {c : Nat} (hp : s.objects[i]? = some p) (ht : p.task = .adding)
    (j : PeerRef) : Offers s (.advance i c) j
      (.joined i p.isHost :: (s.addPeer i p.peerId p.isHost).2) := by
  refine offers_advance hp (P := p.isHost = false ∧ s.host = some j)
    (m := (Notice.joined p.peerId).message) (by rw [ht]; exact nofun) ?_
    (by unfold Hits; rw [ht]) (code_notice _)
  show offersTo j (s.addPeer i p.peerId p.isHost).2 = _
  rw [addPeer_snd]
  cases p.isHost with
  | true => rfl
  | false => simpa using offersTo_tellHost s (.joined p.peerId) j

theorem offers_left {c : Nat} (hp : s.objects[i]? = some p) (ht : p.task = .removing)
    (j : PeerRef) : Offers s (.advance i c) j
      (.left i (s.removePeerById p.peerId).2.1 :: (s.removePeerById p.peerId).2.2) := by
  refine offers_advance hp (P := s.isHostPeer p.peerId = false ∧ s.host = some j)
    (m := (Notice.left p.peerId).message) (by rw [ht]; exact nofun) ?_
    (by unfold Hits; rw [ht]) (code_notice _)
  show offersTo j (s.removePeerById p.peerId).2.2 = _
  unfold removePeerById
  cases s.isHostPeer p.peerId with
  | true => rfl
  | false =>
    simpa using offersTo_tellHost { s with peers := s.peers.eraseKey p.peerId } (.left p.peerId) j

theorem offers_greet {c : Nat} (hp : s.objects[i]? = some p) (ht : p.task = .greeting)
    (j : PeerRef) : Offers s (.advance i c) j [.offer i (.hello p.peerId p.isHost)] := by
  by_cases hj : i = j
  · subst hj
    exact .hello c p rfl hp ht rfl
  · refine .nothing (by rw [offersTo_offer, if_neg hj]) ?_ ?_
    · rw [reaches_advance hp]
      unfold Hits
      rw [ht]
      exact not_false
    · intro d q ha
      cases ha
      exact absurd rfl hj

/-- A loop comes to the peer `k`. -/
theorem offers_loop {c : Nat} {recipients : List PeerRef} {k : PeerRef} {m : MessageDto}
    (hp : s.objects[i]? = some p) (ht : p.task ≠ .greeting) (hk : recipients[c]? = some k)
    (hh : s.Hits p c j ↔ recipients[c]? = some j) (hm : m.code ≠ some .outgoingHello) :
    Offers s (.advance i c) j [.offer k m] := by
  refine offers_advance hp ht (offersTo_offer j k m) ?_ hm
  rw [hh, hk, Option.some.injEq]

/-- Every section of the thread of `p`; the choice of a loop says whom it hits. -/
theorem advance_offers {c : Nat} (hp : s.objects[i]? = some p)
    (h : s.advance i p c = some (s', es)) (j : PeerRef) : Offers s (.advance i c) j es := by
  unfold advance at h
  split at h
  · next ht =>
    split at h
    · cases h
    · cases h
      exact offers_joined hp ht j
  · next ht =>
    cases h
    exact offers_greet hp ht j
  · cases h
  · next ht =>
    have hq : es = [] := by
      split at h
      · split at h
        · cases h
        · cases h; rfl
      · cases h; rfl
    subst hq
    exact offers_quiet hp (by rw [ht]; exact nofun) (by unfold Hits; rw [ht]; exact not_false) rfl
  · next ht =>
    cases h
    exact offers_quiet hp (by rw [ht]; exact nofun) (by unfold Hits; rw [ht]; exact nofun) rfl
  · next ht =>
    split at h
    · cases h
    · next k hk =>
      cases h
      exact offers_loop hp (by rw [ht]; exact nofun) hk (by unfold Hits; rw [ht])
        (by simp [MessageDto.outgoing])
  · next ht =>
    cases h
    exact offers_quiet hp (by rw [ht]; exact nofun) (by unfold Hits; rw [ht]; exact nofun) rfl
  · next ht =>
    split at h
    · cases h
    · next k hk =>
      cases h
      exact offers_loop hp (by rw [ht]; exact nofun) hk (by unfold Hits; rw [ht])
        (by simp [MessageDto.synchronizedEvent])
  · next ht =>
    split at h
    · cases h
    · cases h
      exact offers_quiet hp (by rw [ht]; exact nofun) (by unfold Hits; rw [ht]; exact not_false) rfl
  · next ht =>
    cases h
    exact offers_quiet hp (by rw [ht]; exact nofun) (by unfold Hits; rw [ht]; exact not_false) rfl
  · next ht =>
    split at h
    · cases h
    · cases h
      exact offers_quiet hp (by rw [ht]; exact nofun) (by unfold Hits; rw [ht]; exact not_false) rfl
  · next ht =>
    cases h
    exact offers_quiet hp (by rw [ht]; exact nofun) (by unfold Hits; rw [ht]; exact not_false) rfl
  · next ht =>
    split at h
    · cases h
    · cases h
      exact offers_left hp ht j
  · cases h

theorem step_offers (hs : s.step a = some (s', es)) (j : PeerRef) : Offers s a j es := by
  cases step_cases hs with
  | findSession => exact offers_silent rfl fun i c h => by cases h
  | newPeer k isHost hk => exact offers_silent rfl fun i c h => by cases h
  | advance i p c s' es hp ha =>
    simp only [step, hp] at hs
    exact advance_offers hp hs j
  | handle i p message now s₁ task es hp ht hr =>
    refine offers_silent (offersTo_eq_nil ?_) fun i c h => by cases h
    intro m hm
    cases hr <;> simp at hm
  | close i p hp ht => exact offers_silent rfl fun i c h => by cases h
  | tick c now s' es ht =>
    refine offers_silent (offersTo_eq_nil ?_) fun i c h => by cases h
    intro m hm
    cases ht <;> simp at hm

theorem arrived_of_reaches (hA : Agrees s) (hR : Routed s) (h : s.Reaches a j) :
    s.Arrived j := by
  obtain ⟨i, c, p, -, hp, hh⟩ := h
  unfold Hits at hh
  split at hh
  · next ht =>
    have hj := List.mem_of_getElem? hh
    exact hR.tasks i p hp j (by rw [ht]; exact hj)
  · next ht =>
    have hj := List.mem_of_getElem? hh
    exact hR.tasks i p hp j (by rw [ht]; exact hj)
  · exact arrived_of_host hA hh.2
  · exact arrived_of_host hA hh.2
  · exact hh.elim

/-- A turn leaves the question whether the HELLO has been queued as it was, unless it is the one
that queues it. -/
theorem Turns.awaitsHello {q : Peer} (h : Turns s a i p q)
    (ht : ∀ c, a = .advance i c → p.task ≠ .greeting) :
    q.task.awaitsHello = p.task.awaitsHello ∧ q.peerId = p.peerId ∧ q.isHost = p.isHost := by
  cases h with
  | thread c task hn =>
    refine ⟨?_, rfl, rfl⟩
    cases hn with
    | greet hg => exact absurd hg (ht c rfl)
    | done hd => exact (not_awaitsHello_of_through hd).symm
    | _ => simp [*, Task.awaitsHello]
  | record c timestamp pingTime ht =>
    refine ⟨by simp [ht, Task.awaitsHello], ?_, ?_⟩ <;> unfold recordPong <;> split <;> rfl
  | handle message now s₁ task es ht hr =>
    refine ⟨?_, rfl, rfl⟩
    cases hr <;> simp [ht, Task.awaitsHello]
  | close ht => exact ⟨by simp [ht, Task.awaitsHello], rfl, rfl⟩
  | check c now timestamp =>
    have hm := member_countPing p timestamp
    exact ⟨by rw [task_countPing], congrArg Member.peerId hm, congrArg Member.isHost hm⟩

end Session

namespace Room
variable {id : String} {config : GameConfigDto} {t es : List Event} {r r' : Room} {j : PeerRef}
  {a : Op}

def FirstAccepted (m : MessageDto) (c : List (Channel.Event MessageDto)) : Prop :=
  ∃ u v, c = u ++ .accepted m :: v ∧ Channel.offered u = []

def Greeted (c : List (Channel.Event MessageDto)) (p : Peer) : Prop :=
  if p.task.awaitsHello then Channel.offered c = []
  else FirstAccepted (.hello p.peerId p.isHost) c

def HelloFirst (t : List Event) (r : Room) : Prop :=
  ∀ (j : PeerRef) (p : Peer), r.session.objects[j]? = some p → Greeted (channel j t) p

theorem FirstAccepted.append {m : MessageDto} {c d : List (Channel.Event MessageDto)}
    (h : FirstAccepted m c) : FirstAccepted m (c ++ d) := by
  obtain ⟨u, v, rfl, hu⟩ := h
  exact ⟨u, v ++ d, by simp, hu⟩

theorem FirstAccepted.offered {m : MessageDto} {c : List (Channel.Event MessageDto)}
    (h : FirstAccepted m c) : ∃ ms, Channel.offered c = m :: ms := by
  obtain ⟨u, v, rfl, hu⟩ := h
  exact ⟨Channel.offered v, by rw [Channel.offered_append, hu]; rfl⟩

theorem Greeted.append {c d : List (Channel.Event MessageDto)} {p : Peer} (h : Greeted c p)
    (hd : p.task.awaitsHello = true → Channel.offered d = []) : Greeted (c ++ d) p := by
  unfold Greeted at h ⊢
  split at h
  · next ht => rw [if_pos ht, Channel.offered_append, h, hd ht, List.append_nil]
  · next ht =>
    rw [if_neg ht]
    exact h.append

theorem Reached.queue_nil {o : Outbox MessageDto} (h : Reached id config t r)
    (ho : r.outboxes[j]? = some o) (hc : Channel.offered (channel j t) = []) : o.queue = [] := by
  obtain ⟨o₀, w, rfl, hw⟩ := h.outboxes.reached j o ho
  have hacc : Channel.accepted (channel j t) = [] :=
    List.sublist_nil.mp (hc ▸ Channel.accepted_sublist_offered (channel j t))
  have hcons := (Outbox.run_accounted hw).conserved
  rw [← channel, hacc] at hcons
  simpa using (List.append_eq_nil_iff.mp hcons.symm).2

/-- An empty queue accepts. -/
theorem channel_offer {max : Nat} {os : List (Outbox MessageDto)} {o : Outbox MessageDto}
    (ho : os[j]? = some o) (hq : o.queue = []) (hmax : 1 ≤ max) (m : MessageDto) :
    channel j (reactAll max os [.offer j m]).2 = [.accepted m] := by
  have hlen : o.queue.length < max := by
    rw [hq]
    exact hmax
  have haccepted : Outbox.channel (o.queueMessage max (some m)).2 = [.accepted m] := by
    simp only [Outbox.queueMessage, if_pos hlen]
    split
    · split <;> rfl
    · rfl
  simp only [reactAll, react, outboxOp, stepOutbox, ho, Outbox.step]
  rw [List.append_nil, channel, outboxPart_session, outboxPart_outbox, if_pos rfl]
  exact haccepted

/-- What a step of the session does to the peer `j` whose thread does not queue its HELLO. -/
theorem greeted_step {b : Session.Op} {p : Peer} (h : Reached id config t r)
    (hs : r.step (.session b) = some (r', es))
    (hst : r.session.step b = some (r'.session, sessionPart es))
    (hc : r.session.Undisturbed b) (hp : r.session.objects[j]? = some p)
    (hg : Greeted (channel j t) p)
    (hno : ∀ c, b = .advance j c → p.task ≠ .greeting) : Greeted (channel j (t ++ es)) p := by
  rw [channel_append]
  refine hg.append ?_
  intro ht
  rw [h.step_offers hs]
  cases Session.step_offers hst j with
  | nothing ho hR hgreet => exact ho
  | hello c q ha hq hgreet he =>
    rw [hp] at hq
    cases hq
    exact absurd hgreet (hno c ha)
  | reached m hR ho hm =>
    obtain ⟨q, hq, hst⟩ := Session.arrived_of_reaches h.sound.1 h.sound.2 hR
    rw [hp] at hq
    cases hq
    exact absurd hR (hc j p hp (eq_greeting ht hst))

/-- Nobody is offered anything before it is constructed. -/
theorem offered_new (h : Reached id config t r) (hs : r.step a = some (r', es))
    {b : Session.Op} (hst : r.session.step b = some (r'.session, sessionPart es)) :
    Channel.offered (channel r.session.objects.length (t ++ es)) = [] := by
  have hsilent : outboxPart r.session.objects.length t = [] :=
    h.outboxes.silent _ (Nat.le_of_eq h.length)
  have hnone : r.session.objects[r.session.objects.length]? = none :=
    List.getElem?_eq_none (Nat.le_refl _)
  rw [channel_append, Channel.offered_append, channel, hsilent, h.step_offers hs]
  cases Session.step_offers hst r.session.objects.length with
  | nothing ho hR hgreet => exact ho
  | hello c q ha hq hgreet he =>
    rw [hnone] at hq
    cases hq
  | reached m hR ho hm =>
    obtain ⟨q, hq, -⟩ := Session.arrived_of_reaches h.sound.1 h.sound.2 hR
    rw [hnone] at hq
    cases hq

/-- The section that queues the HELLO. -/
theorem greeted_hello {c : Nat} {p q : Peer} (h : Reached id config t r)
    (hmax : 1 ≤ r.maxQueuedMessages)
    (hs : r.step (.session (.advance j c)) = some (r', es))
    (hst : r.session.step (.advance j c) = some (r'.session, sessionPart es))
    (hc : r.session.Undisturbed (.advance j c)) (hp : r.session.objects[j]? = some p)
    (ht : p.task = .greeting) (hg : Greeted (channel j t) p)
    (hq : Session.Turns r.session (.advance j c) j p q) : Greeted (channel j (t ++ es)) q := by
  have hbefore : Channel.offered (channel j t) = [] := by
    unfold Greeted at hg
    rwa [ht] at hg
  have hmessages : sessionPart es = [.offer j (.hello p.peerId p.isHost)] := by
    cases Session.step_offers hst j with
    | nothing ho hR hno => exact absurd ht (hno c p rfl hp)
    | hello d q ha hq hgreet he =>
      rw [hp] at hq
      cases hq
      exact he
    | reached m hR ho hm => exact absurd hR (hc j p hp ht)
  have hlt : j < r.outboxes.length := by
    rw [h.length]
    exact (List.getElem?_eq_some_iff.mp hp).1
  have ho := List.getElem?_eq_getElem hlt
  have hnow : channel j es = [.accepted (.hello p.peerId p.isHost)] := by
    rw [hmessages] at hst
    simp only [step, hst, Option.some.injEq, Prod.mk.injEq] at hs
    rw [← hs.2]
    exact channel_offer ho (h.queue_nil ho hbefore) hmax _
  have hfirst : FirstAccepted (.hello p.peerId p.isHost) (channel j (t ++ es)) := by
    rw [channel_append, hnow]
    exact ⟨channel j t, [], rfl, hbefore⟩
  cases hq with
  | thread d task hn =>
    cases hn with
    | greet hg => exact hfirst
    | done hd => simp [ht, Task.through] at hd
    | add hg | send _ _ _ hg | event _ _ _ hg | select _ hg | kick _ _ hg | clear hg
    | remove hg =>
      rw [ht] at hg
      cases hg
  | record d timestamp pingTime hr =>
    rw [ht] at hr
    cases hr

theorem helloFirst_step (h : Reached id config t r) (hf : HelloFirst t r)
    (hmax : 1 ≤ r.maxQueuedMessages) (hc : ∀ b, a = .session b → r.session.Undisturbed b)
    (hs : r.step a = some (r', es)) : HelloFirst (t ++ es) r' := by
  obtain ⟨b, rfl, hst⟩ | ⟨-, hsame, hnil⟩ := step_session hs
  · have hstep := fun j p => greeted_step (j := j) (p := p) h hs hst (hc b rfl)
    refine Session.forall_step_thread (P := fun j p => Greeted (channel j (t ++ es)) p) hst ?_ ?_ ?_
    · intro j p hp hno
      exact hstep j p hp (hf j p hp) fun c hb => absurd hb (hno c)
    · exact fun isHost => offered_new h hs hst
    · intro i p q hp hq
      by_cases hgreet : ∃ c, b = .advance i c ∧ p.task = .greeting
      · obtain ⟨c, rfl, ht⟩ := hgreet
        exact greeted_hello h hmax hs hst (hc _ rfl) hp ht (hf i p hp) hq
      · have hno : ∀ c, b = .advance i c → p.task ≠ .greeting :=
          fun c hb ht => hgreet ⟨c, hb, ht⟩
        have hkept := hstep i p hp (hf i p hp) hno
        obtain ⟨htask, hid, hhost⟩ := hq.awaitsHello hno
        unfold Greeted at hkept ⊢
        rw [htask, hid, hhost]
        exact hkept
  · intro j p hp
    rw [hsame] at hp
    rw [channel_append]
    refine (hf j p hp).append fun _ => ?_
    rw [h.step_offers hs, hnil]
    rfl

/-- A message that comes before the HELLO shows in what the peer is offered. -/
theorem not_helloFirst {b : Session.Op} (h : Reached id config t r) (hf : HelloFirst t r)
    (hno : ¬ r.session.Undisturbed b) (hs : r.step (.session b) = some (r', es)) :
    ¬ HelloFirst (t ++ es) r' := by
  intro hf'
  obtain ⟨c, hcb, hst⟩ | ⟨hne, -, -⟩ := step_session hs
  · cases hcb
    unfold Session.Undisturbed at hno
    push Not at hno
    obtain ⟨j, p, hp, ht, hR⟩ := hno
    have hbefore : Channel.offered (channel j t) = [] := by
      have hg := hf j p hp
      unfold Greeted at hg
      rwa [ht] at hg
    obtain ⟨m, hm, hcode⟩ : ∃ m, Channel.offered (channel j (t ++ es)) = [m] ∧
        m.code ≠ some .outgoingHello := by
      rw [channel_append, Channel.offered_append, hbefore, h.step_offers hs]
      cases Session.step_offers hst j with
      | nothing ho hR' hno => exact absurd hR hR'
      | hello c q ha hq hgreet he =>
        rw [ha, Session.reaches_advance hq] at hR
        unfold Session.Hits at hR
        rw [hgreet] at hR
        exact hR.elim
      | reached m hR ho hm => exact ⟨m, ho, hm⟩
    obtain ⟨q, hq, -⟩ := Session.step_later h.sound.1 hst hp
    have hg := hf' j q hq
    unfold Greeted at hg
    split at hg
    · rw [hm] at hg
      cases hg
    · obtain ⟨ms, hms⟩ := hg.offered
      rw [hm] at hms
      cases hms
      exact hcode rfl
  · exact absurd rfl (hne b)

def Welcomes (t : List Event) (r : Room) : Prop := 1 ≤ r.maxQueuedMessages → HelloFirst t r

def LeavesAlone (r : Room) (a : Op) : Prop :=
  1 ≤ r.maxQueuedMessages → ∀ b, a = .session b → r.session.Undisturbed b

theorem undisturbed_quiet {s : Session} {b : Session.Op}
    (hb : System.ofPeers (.session b) = false) :
    s.Undisturbed b := by
  rintro j p hp ht ⟨i, c, q, rfl, -⟩
  cases hb

end Room

namespace System

/-- In every session whose queues can hold a message, every peer's HELLO is the first message it
is offered and is accepted, if and only if no step of another thread reaches a peer that is in
`m_peers` and has not been greeted. -/
theorem hello_first_iff (gamesConfig : GamesConfig) (w : List Op) :
    machine.Throughout (EachRoom fun t r => r.Welcomes t) w [] (init gamesConfig) ↔
      machine.Along (Meets fun _ r a => r.LeavesAlone a) w [] (init gamesConfig) := by
  refine eachRoom_iff_along
    (I := fun t r => (∃ id config, Room.Reached id config t r) ∧ r.Welcomes t)
    ?_ ?_ ?_ ?_ ?_ gamesConfig w
  · intro id config
    refine ⟨⟨id, config, Room.reached_init id config⟩, ?_⟩
    intro _ j p hp
    cases hp
  · exact fun t r h => h.2
  · rintro t r a hq _ b rfl
    exact Room.undisturbed_quiet hq
  · rintro t r a r' es ⟨⟨id, config, h⟩, hw⟩ hc hs
    have h' := Room.reached_step h hs
    refine ⟨⟨id, config, h'⟩, ?_⟩
    intro hmax
    have hmax₀ : 1 ≤ r.maxQueuedMessages := by
      rwa [Room.maxQueuedMessages, h.static, ← h'.static]
    exact Room.helloFirst_step h (hw hmax₀) hmax₀ (hc hmax₀) hs
  · rintro t r a r' es ⟨⟨id, config, h⟩, hw⟩ hc hs hw'
    unfold Room.LeavesAlone at hc
    push Not at hc
    obtain ⟨hmax, b, rfl, hno⟩ := hc
    have hmax' : 1 ≤ r'.maxQueuedMessages := by
      rwa [Room.maxQueuedMessages, (Room.reached_step h hs).static, ← h.static]
    exact Room.not_helloFirst h (hw hmax) hno hs (hw' hmax')

def oneMessage : GamesConfig :=
  GamesConfig.putGameConfig {} { gameId := some "game", maxQueuedMessages := 1 }

/-- A client is added while the host waits for its HELLO, which its queue then rejects. -/
theorem hello_lost :
    ∃ t s h, machine.run (hostAndClient ++ [.room 0 (.session (.advance 0 0))]) []
        (init oneMessage) = some (t, s) ∧ s.registry.rooms[0]? = some h ∧
      Channel.offered (Room.channel 0 (roomPart 0 t)) = [.clientJoined 1, .hello 0 true] ∧
      Channel.accepted (Room.channel 0 (roomPart 0 t)) = [.clientJoined 1] ∧
      h.room.maxQueuedMessages = 1 ∧ ¬ EachRoom (fun t r => r.Welcomes t) t s := by
  have hrun : ((machine.run (hostAndClient ++ [.room 0 (.session (.advance 0 0))]) []
      (init oneMessage)).bind fun r => (r.2.registry.rooms[0]?).bind fun h =>
        (h.room.session.objects[0]?).map fun p =>
          (Channel.offered (Room.channel 0 (roomPart 0 r.1)),
            Channel.accepted (Room.channel 0 (roomPart 0 r.1)), h.room.maxQueuedMessages,
            p.task.awaitsHello)) =
      some ([.clientJoined 1, .hello 0 true], [.clientJoined 1], 1, false) := by
    decide +kernel
  obtain ⟨⟨t, s⟩, hr, hrun⟩ := Option.bind_eq_some_iff.mp hrun
  obtain ⟨h, hk, hrun⟩ := Option.bind_eq_some_iff.mp hrun
  obtain ⟨p, hp, hall⟩ := Option.map_eq_some_iff.mp hrun
  simp only [Prod.mk.injEq] at hall
  obtain ⟨hoffered, haccepted, hmax, hgreeted⟩ := hall
  refine ⟨t, s, h, hr, hk, hoffered, haccepted, hmax, ?_⟩
  intro hwelcomes
  have hg := hwelcomes 0 h hk (Nat.le_of_eq hmax.symm) 0 p hp
  unfold Room.Greeted at hg
  rw [if_neg (by rw [hgreeted]; exact Bool.false_ne_true)] at hg
  obtain ⟨ms, hms⟩ := hg.offered
  rw [hoffered] at hms
  cases hms

end System
end Helicopter
