import Helicopter.Lib.Family
import Helicopter.Outbox
import Helicopter.Routing

/-! A session together with the outgoing sides of its peers: a step of the session, with what it
queues and which sockets it invalidates, or a step of a sender coroutine. -/
namespace Helicopter
open Interleaving

/-- `outboxes` are those of the peers constructed so far, in their order. -/
structure Room where
  session : Session
  outboxes : List (Outbox MessageDto) := []

namespace Room

inductive Event where
  | session (e : Session.Event)
  | outbox (peer : PeerRef) (e : Outbox.Event MessageDto)

def outboxOp : Session.Event → Option (PeerRef × Outbox.Op MessageDto)
  | .offer j m => some (j, .queueMessage (some m))
  | .resetSocket j => some (j, .resetSocket)
  | .clearQueue j => some (j, .clearQueue)
  | _ => none

def stepOutbox (max : Nat) (os : List (Outbox MessageDto)) (j : PeerRef)
    (a : Outbox.Op MessageDto) : Option (List (Outbox MessageDto) × List Event) :=
  match os[j]? with
  | none => none
  | some o =>
    match Outbox.step max o a with
    | none => none
    | some (o', es) => some (os.set j o', es.map (.outbox j))

/-- The `Peer` constructor makes the queue; after that `outboxOp` says what happens to it. -/
def react (max : Nat) (os : List (Outbox MessageDto)) (e : Session.Event) :
    List (Outbox MessageDto) × List Event :=
  match e with
  | .created _ _ _ => (os ++ [{}], [.session e])
  | _ =>
    match outboxOp e with
    | none => (os, [.session e])
    | some (j, a) =>
      match stepOutbox max os j a with
      | none => (os, [.session e])
      | some (os', es) => (os', .session e :: es)

def reactAll (max : Nat) : List (Outbox MessageDto) → List Session.Event →
    List (Outbox MessageDto) × List Event
  | os, [] => (os, [])
  | os, e :: es =>
    let r := react max os e
    let q := reactAll max r.1 es
    (q.1, r.2 ++ q.2)

inductive Op where
  | session (a : Session.Op)
  /-- the sender coroutine `k` of the peer -/
  | act (peer : PeerRef) (k : Nat)
  | send (peer : PeerRef) (k : Nat) (ok : Bool)

def maxQueuedMessages (r : Room) : Nat := r.session.config.maxQueuedMessages

/-- `m_socket` of the peer is not null. -/
def attached (r : Room) (i : PeerRef) : Bool := (r.outboxes[i]?).any Outbox.socket

def step (r : Room) : Op → Option (Room × List Event)
  | .session a =>
    match r.session.step a with
    | none => none
    | some (s, es) =>
      let q := reactAll r.maxQueuedMessages r.outboxes es
      some (⟨s, q.1⟩, q.2)
  | .act j k =>
    match stepOutbox r.maxQueuedMessages r.outboxes j (.act k) with
    | none => none
    | some (os, es) => some (⟨r.session, os⟩, es)
  | .send j k ok =>
    match stepOutbox r.maxQueuedMessages r.outboxes j (.send k ok) with
    | none => none
    | some (os, es) => some (⟨r.session, os⟩, es)

def machine : Machine Room Op Event := ⟨step⟩

/-- A session as `createNewSession` makes it. -/
def init (id : String) (config : GameConfigDto) : Room := ⟨{ id := id, config := config }, []⟩

def Event.session? : Event → Option Session.Event
  | .session e => some e
  | .outbox _ _ => none

def Event.outbox? (j : PeerRef) : Event → Option (Outbox.Event MessageDto)
  | .session _ => none
  | .outbox i e => if i = j then some e else none

def sessionPart (t : List Event) : List Session.Event := t.filterMap Event.session?
def outboxPart (j : PeerRef) (t : List Event) : List (Outbox.Event MessageDto) :=
  t.filterMap (Event.outbox? j)

def channel (j : PeerRef) (t : List Event) : List (Channel.Event MessageDto) :=
  Outbox.channel (outboxPart j t)

section
variable (j : PeerRef) (t u : List Event) (e : Session.Event)

@[simp] theorem sessionPart_append : sessionPart (t ++ u) = sessionPart t ++ sessionPart u :=
  List.filterMap_append ..
@[simp] theorem outboxPart_append : outboxPart j (t ++ u) = outboxPart j t ++ outboxPart j u :=
  List.filterMap_append ..
@[simp] theorem channel_append : channel j (t ++ u) = channel j t ++ channel j u := by
  simp [channel]
@[simp] theorem sessionPart_nil : sessionPart [] = [] := rfl
@[simp] theorem outboxPart_nil : outboxPart j [] = [] := rfl
@[simp] theorem sessionPart_session : sessionPart (.session e :: t) = e :: sessionPart t := rfl
@[simp] theorem outboxPart_session : outboxPart j (.session e :: t) = outboxPart j t := rfl

end

@[simp] theorem sessionPart_outbox (i : PeerRef) (es : List (Outbox.Event MessageDto)) :
    sessionPart (es.map (.outbox i)) = [] := by
  induction es with
  | nil => rfl
  | cons e es ih => exact ih

theorem outboxPart_outbox (i j : PeerRef) (es : List (Outbox.Event MessageDto)) :
    outboxPart j (es.map (.outbox i)) = if j = i then es else [] := by
  by_cases hj : j = i
  · subst hj
    rw [if_pos rfl]
    induction es with
    | nil => rfl
    | cons e es ih =>
      simp only [outboxPart, List.map_cons, List.filterMap_cons, Event.outbox?, if_pos] at ih ⊢
      rw [ih]
  · rw [if_neg hj]
    induction es with
    | nil => rfl
    | cons e es ih =>
      simp only [outboxPart, List.map_cons, List.filterMap_cons, Event.outbox?,
        if_neg (Ne.symm hj)] at ih ⊢
      exact ih

/-! ## What the queues do with the events of a step -/

section
variable {max : Nat} {os os' : List (Outbox MessageDto)} {j : PeerRef}
  {a : Outbox.Op MessageDto} {es : List Event}

theorem stepOutbox_some (h : stepOutbox max os j a = some (os', es)) :
    ∃ o o' fs, os[j]? = some o ∧ Outbox.step max o a = some (o', fs) ∧ os' = os.set j o' ∧
      es = fs.map (.outbox j) := by
  unfold stepOutbox at h
  split at h
  · cases h
  · next o ho =>
    split at h
    · cases h
    · next o' fs hs => cases h; exact ⟨o, o', fs, ho, hs, rfl, rfl⟩

theorem sessionPart_react (e : Session.Event) : sessionPart (react max os e).2 = [e] := by
  unfold react
  split
  · rfl
  · split
    · rfl
    · split
      · rfl
      · next hs =>
        obtain ⟨o, o', fs, -, -, -, rfl⟩ := stepOutbox_some hs
        simp

theorem sessionPart_reactAll (es : List Session.Event) :
    sessionPart (reactAll max os es).2 = es := by
  induction es generalizing os with
  | nil => rfl
  | cons e es ih => simp [reactAll, sessionPart_react, ih]

theorem tracked_stepOutbox {t : List Event}
    (ht : Tracked (Outbox.machine MessageDto max) (· = {}) (fun j => outboxPart j t) os)
    (h : stepOutbox max os j a = some (os', es)) :
    Tracked (Outbox.machine MessageDto max) (· = {}) (fun j => outboxPart j (t ++ es)) os' := by
  obtain ⟨o, o', fs, ho, hs, rfl, rfl⟩ := stepOutbox_some h
  refine tracked_step ht ho hs ?_
  intro i
  rw [outboxPart_append, outboxPart_outbox]
  split <;> simp

theorem tracked_react {t : List Event} (e : Session.Event)
    (ht : Tracked (Outbox.machine MessageDto max) (· = {}) (fun j => outboxPart j t) os) :
    Tracked (Outbox.machine MessageDto max) (· = {})
      (fun j => outboxPart j (t ++ (react max os e).2)) (react max os e).1 := by
  have hquiet : ∀ i, outboxPart i (t ++ [.session e]) = outboxPart i t := by
    intro i
    simp
  unfold react
  split
  · exact tracked_spawn ht rfl hquiet
  · split
    · exact tracked_same ht hquiet
    · split
      · exact tracked_same ht hquiet
      · next hs =>
        refine tracked_same (tracked_stepOutbox ht hs) ?_
        intro i
        simp

theorem tracked_reactAll {t : List Event} (es : List Session.Event)
    (ht : Tracked (Outbox.machine MessageDto max) (· = {}) (fun j => outboxPart j t) os) :
    Tracked (Outbox.machine MessageDto max) (· = {})
      (fun j => outboxPart j (t ++ (reactAll max os es).2)) (reactAll max os es).1 := by
  induction es generalizing os t with
  | nil => simpa [reactAll] using ht
  | cons e es ih =>
    have h := ih (tracked_react e ht)
    simp only [List.append_assoc] at h
    exact h

theorem offersTo_outboxOp {e : Session.Event} (h : outboxOp e = some (j, a)) (i : PeerRef) :
    Session.offersTo i [e] = if i = j then a.message?.toList else [] := by
  cases e with
  | offer k m =>
    cases h
    by_cases hi : i = j
    · simp [Session.offersTo, Session.Event.offerTo?, hi, Outbox.Op.message?]
    · simp [Session.offersTo, Session.Event.offerTo?, hi, Ne.symm hi]
  | resetSocket k => cases h; simp [Session.offersTo, Session.Event.offerTo?, Outbox.Op.message?]
  | clearQueue k => cases h; simp [Session.offersTo, Session.Event.offerTo?, Outbox.Op.message?]
  | _ => cases h

theorem offersTo_quiet {e : Session.Event} (h : ∀ j m, e ≠ .offer j m) (i : PeerRef) :
    Session.offersTo i [e] = [] := by
  cases e with
  | offer j m => exact absurd rfl (h j m)
  | _ => rfl

/-- An offer to a peer that is there is answered by that peer's queue. -/
theorem offered_react (max : Nat) (os : List (Outbox MessageDto)) (e : Session.Event) (i : PeerRef)
    (hlt : ∀ j m, e = .offer j m → j < os.length) :
    Channel.offered (channel i (react max os e).2) = Session.offersTo i [e] := by
  unfold react
  split
  · rfl
  · split
    · next ho =>
      rw [offersTo_quiet]
      · rfl
      · intro j m he
        rw [he] at ho
        cases ho
    · next j a ho =>
      split
      · next hs =>
        rw [offersTo_quiet]
        · rfl
        · intro k m he
          have hk := hlt k m he
          rw [he] at ho
          cases ho
          simp [stepOutbox, List.getElem?_eq_getElem hk, Outbox.step] at hs
      · next hs =>
        obtain ⟨o, o', fs, -, hstep, rfl, rfl⟩ := stepOutbox_some hs
        rw [offersTo_outboxOp ho, channel, outboxPart_session, outboxPart_outbox]
        split
        · exact Outbox.step_offered hstep
        · rfl

theorem length_react (e : Session.Event) :
    (react max os e).1.length = os.length + [e].countP Session.Event.isCreated := by
  unfold react
  split
  · simp [Session.Event.isCreated]
  · next hne =>
    have hc : [e].countP Session.Event.isCreated = 0 := by
      cases e with
      | created i id isHost => exact absurd rfl (hne i id isHost)
      | _ => rfl
    rw [hc]
    split
    · rfl
    · split
      · rfl
      · next hs =>
        obtain ⟨o, o', fs, -, -, rfl, -⟩ := stepOutbox_some hs
        simp

theorem length_reactAll (es : List Session.Event) :
    (reactAll max os es).1.length = os.length + es.countP Session.Event.isCreated := by
  induction es generalizing os with
  | nil => rfl
  | cons e es ih =>
    have happ : (e :: es).countP Session.Event.isCreated =
        [e].countP Session.Event.isCreated + es.countP Session.Event.isCreated := by
      rw [← List.countP_append]
      rfl
    simp only [reactAll, ih, length_react, happ]
    omega

theorem offered_reactAll (os : List (Outbox MessageDto)) (es : List Session.Event) (i : PeerRef)
    (hlt : ∀ j m, .offer j m ∈ es → j < os.length) :
    Channel.offered (channel i (reactAll max os es).2) = Session.offersTo i es := by
  induction es generalizing os with
  | nil => rfl
  | cons e es ih =>
    have hhead := offered_react max os e i
      fun j m he => hlt j m (by rw [he]; exact List.mem_cons_self)
    have htail := ih (react max os e).1 fun j m hm =>
      Nat.lt_of_lt_of_le (hlt j m (List.mem_cons_of_mem e hm)) (by rw [length_react]; omega)
    simp only [reactAll, channel_append, Channel.offered_append, hhead, htail]
    unfold Session.offersTo
    rw [← List.filterMap_append]
    rfl

end
/-! ## Runs -/

structure Reached (id : String) (config : GameConfigDto) (t : List Event) (r : Room) : Prop where
  session : ∃ w, Session.machine.run w [] { id := id, config := config } =
    some (sessionPart t, r.session)
  static : r.session.config = config
  outboxes : Tracked (Outbox.machine MessageDto config.maxQueuedMessages) (· = {})
    (fun j => outboxPart j t) r.outboxes
  length : r.outboxes.length = r.session.objects.length
  offers : ∀ j, Channel.offered (channel j t) = Session.offersTo j (sessionPart t)

section
variable {id : String} {config : GameConfigDto} {t : List Event} {r r' : Room} {es : List Event}

theorem reached_init (id : String) (config : GameConfigDto) :
    Reached id config [] (init id config) :=
  ⟨⟨[], rfl⟩, rfl, tracked_nil fun _ => rfl, rfl, fun _ => rfl⟩

theorem Reached.sound (h : Reached id config t r) : r.session.Agrees ∧ r.session.Routed := by
  obtain ⟨w, hw⟩ := h.session
  exact Session.run_sound hw

theorem reached_stepOutbox {j : PeerRef} {a : Outbox.Op MessageDto}
    {os : List (Outbox MessageDto)} (h : Reached id config t r) (ha : a.message? = none)
    (hs : stepOutbox r.maxQueuedMessages r.outboxes j a = some (os, es)) :
    Reached id config (t ++ es) ⟨r.session, os⟩ := by
  rw [maxQueuedMessages, h.static] at hs
  obtain ⟨o, o', fs, ho, hst, rfl, rfl⟩ := stepOutbox_some hs
  refine ⟨?_, h.static, tracked_stepOutbox h.outboxes hs, by simpa using h.length, ?_⟩
  · simpa using h.session
  · intro i
    rw [channel_append, Channel.offered_append, h.offers, sessionPart_append, sessionPart_outbox,
      List.append_nil, channel, outboxPart_outbox]
    split
    · rw [Outbox.step_offered hst, ha]
      exact List.append_nil _
    · exact List.append_nil _

theorem reached_step {a : Op} (h : Reached id config t r) (hs : r.step a = some (r', es)) :
    Reached id config (t ++ es) r' := by
  cases a with
  | session a =>
    simp only [step] at hs
    split at hs
    · cases hs
    · next s' fs hss =>
      cases hs
      obtain ⟨w, hw⟩ := h.session
      obtain ⟨hA, hR⟩ := h.sound
      obtain ⟨-, hc, hl⟩ := Session.step_static hss
      refine ⟨⟨w ++ [a], ?_⟩, hc.trans h.static, ?_, ?_, ?_⟩
      · rw [sessionPart_append, sessionPart_reactAll]
        exact run_step_last hw hss
      · rw [maxQueuedMessages, h.static]
        exact tracked_reactAll fs h.outboxes
      · rw [length_reactAll, h.length, hl]
      · intro i
        rw [channel_append, Channel.offered_append, h.offers, sessionPart_append,
          sessionPart_reactAll, offered_reactAll]
        · exact (Session.offersTo_append i _ _).symm
        · intro j m hm
          obtain ⟨p, hp, -⟩ := Session.step_offer hA hR hss hm
          rw [h.length]
          exact (List.getElem?_eq_some_iff.mp hp).1
  | act j k =>
    simp only [step] at hs
    split at hs
    · cases hs
    · next hst => cases hs; exact reached_stepOutbox h rfl hst
  | send j k ok =>
    simp only [step] at hs
    split at hs
    · cases hs
    · next hst => cases hs; exact reached_stepOutbox h rfl hst

/-- A step of a room is a step of its session or leaves the session alone. -/
theorem step_session {a : Op} (hs : r.step a = some (r', es)) :
    (∃ b, a = .session b ∧ r.session.step b = some (r'.session, sessionPart es)) ∨
      ((∀ b, a ≠ .session b) ∧ r'.session = r.session ∧ sessionPart es = []) := by
  cases a with
  | session b =>
    simp only [step] at hs
    split at hs
    · cases hs
    · next s' fs hss =>
      cases hs
      exact Or.inl ⟨b, rfl, by rw [sessionPart_reactAll]; exact hss⟩
  | act j k =>
    simp only [step] at hs
    split at hs
    · cases hs
    · next hst =>
      cases hs
      obtain ⟨o, o', fs, -, -, -, rfl⟩ := stepOutbox_some hst
      exact Or.inr ⟨(fun b hb => by cases hb), rfl, sessionPart_outbox j fs⟩
  | send j k ok =>
    simp only [step] at hs
    split at hs
    · cases hs
    · next hst =>
      cases hs
      obtain ⟨o, o', fs, -, -, -, rfl⟩ := stepOutbox_some hst
      exact Or.inr ⟨(fun b hb => by cases hb), rfl, sessionPart_outbox j fs⟩

theorem mem_sessionPart {e : Session.Event} : e ∈ sessionPart t ↔ .session e ∈ t := by
  unfold sessionPart
  rw [List.mem_filterMap]
  constructor
  · rintro ⟨e', he', hem⟩
    cases e' with
    | session e₁ => cases hem; exact he'
    | outbox j e₁ => cases hem
  · intro he
    exact ⟨_, he, rfl⟩

theorem Reached.step_offers {a : Op} (h : Reached id config t r)
    (hs : r.step a = some (r', es)) (j : PeerRef) :
    Channel.offered (channel j es) = Session.offersTo j (sessionPart es) := by
  have hoffers := (reached_step h hs).offers j
  rw [channel_append, Channel.offered_append, h.offers, sessionPart_append,
    Session.offersTo_append] at hoffers
  exact List.append_cancel_left hoffers

theorem run_reached {w : List Op} (hr : machine.run w [] (init id config) = some (t, r)) :
    Reached id config t r :=
  run_invariant (fun _ _ _ _ _ h hs => reached_step h hs) (reached_init id config) hr

/-- The queue of every peer is a bounded channel with the room's limit. -/
theorem Reached.accounted (h : Reached id config t r) (j : PeerRef) :
    ∃ q, Channel.Accounted config.maxQueuedMessages (channel j t) q := by
  cases ho : r.outboxes[j]? with
  | none =>
    have hs : outboxPart j t = [] := h.outboxes.silent j (List.getElem?_eq_none_iff.mp ho)
    refine ⟨[], ?_⟩
    rw [channel, hs]
    exact ⟨rfl, Nat.zero_le _, fun m n hm => by cases hm⟩
  | some o =>
    obtain ⟨o₀, w, rfl, hw⟩ := h.outboxes.reached j o ho
    exact ⟨_, Outbox.run_accounted hw⟩

theorem Reached.popped_sublist (h : Reached id config t r) (j : PeerRef) :
    (Channel.popped (channel j t)).Sublist (Channel.accepted (channel j t)) := by
  obtain ⟨q, hq⟩ := h.accounted j
  rw [hq.conserved]
  exact (Channel.popped_sublist_removed _).trans (List.sublist_append_left _ q)

theorem Reached.accepted_sublist (h : Reached id config t r) (j : PeerRef) :
    (Channel.accepted (channel j t)).Sublist (Session.offersTo j (sessionPart t)) := by
  rw [← h.offers j]
  exact Channel.accepted_sublist_offered _

end

end Room
end Helicopter
