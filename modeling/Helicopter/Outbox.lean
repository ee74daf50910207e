import Helicopter.Lib.Channel

/-! The outgoing side of a `Peer`: `m_messageQueue`, `m_socket` and the sender coroutines that
`queueMessage` starts on demand. One step is one critical section of the source. -/
namespace Helicopter
open Interleaving
variable {μ : Type*}

/-- A live `SendMessageCoroutine`: before the next `act`, or with a message handed to the
socket and not yet written. -/
inductive Sender (μ : Type*) where
  | acting
  | sending (message : μ)

/-- `queue` is the `std::list`, front first; `socket` says that `m_socket` is not null. -/
structure Outbox (μ : Type*) where
  queue : List μ := []
  active : Bool := false
  socket : Bool := true
  senders : List (Sender μ) := []

namespace Outbox

inductive Event (μ : Type*) where
  | channel (e : Channel.Event μ)
  | started
  | finished
  | sent (message : μ)
  | failed (message : μ)

/-- `Peer::queueMessage`, under the queue's mutex. `accepted` is the answer `true`; a null
message is answered `false` at once. The read of `m_socket` has its own mutex, but the two
halves of `invalidateSocket` do not touch the queue in between. -/
def queueMessage (maxQueuedMessages : Nat) (message : Option μ) (o : Outbox μ) :
    Outbox μ × List (Event μ) :=
  match message with
  | none => (o, [])
  | some m =>
    if o.queue.length < maxQueuedMessages then
      let o := { o with queue := m :: o.queue }
      if !o.active then
        let o := { o with active := true }
        if o.socket then
          ({ o with senders := o.senders ++ [.acting] }, [.channel (.accepted m), .started])
        else (o, [.channel (.accepted m)])
      else (o, [.channel (.accepted m)])
    else (o, [.channel (.rejected m o.queue.length)])

/-- `SendMessageCoroutine::act` of the coroutine `k`, up to handing the message to the socket. -/
def act (k : Nat) (o : Outbox μ) : Option (Outbox μ × List (Event μ)) :=
  match o.senders[k]? with
  | some .acting =>
    match o.queue.getLast? with
    | none => some ({ o with active := false, senders := o.senders.eraseIdx k }, [.finished])
    | some m =>
      some ({ o with queue := o.queue.dropLast, senders := o.senders.set k (.sending m) },
        [.channel (.popped m)])
  | _ => none

/-- The frame is written and `.next(repeat())` runs, or it fails and `handleError` yields to
`act`. -/
def send (k : Nat) (ok : Bool) (o : Outbox μ) : Option (Outbox μ × List (Event μ)) :=
  match o.senders[k]? with
  | some (.sending m) =>
    some ({ o with senders := o.senders.set k .acting }, [if ok then .sent m else .failed m])
  | _ => none

/-- First half of `Peer::invalidateSocket`. -/
def resetSocket (o : Outbox μ) : Outbox μ := { o with socket := false }

/-- Second half of `Peer::invalidateSocket`. -/
def clearQueue (o : Outbox μ) : Outbox μ × List (Event μ) :=
  ({ o with queue := [] }, [.channel (.cleared o.queue.reverse)])

inductive Op (μ : Type*) where
  | queueMessage (message : Option μ)
  | act (k : Nat)
  | send (k : Nat) (ok : Bool)
  | resetSocket
  | clearQueue

/-- The two halves of `invalidateSocket` are steps of their own and run at any time. -/
def step (maxQueuedMessages : Nat) (o : Outbox μ) : Op μ → Option (Outbox μ × List (Event μ))
  | .queueMessage message => some (o.queueMessage maxQueuedMessages message)
  | .act k => o.act k
  | .send k ok => o.send k ok
  | .resetSocket => some (o.resetSocket, [])
  | .clearQueue => some o.clearQueue

def machine (μ : Type*) (maxQueuedMessages : Nat) : Machine (Outbox μ) (Op μ) (Event μ) :=
  ⟨step maxQueuedMessages⟩

def Event.channel? : Event μ → Option (Channel.Event μ)
  | .channel e => some e
  | _ => none

def Event.concluded? : Event μ → Option μ
  | .sent m | .failed m => some m
  | _ => none

def channel (t : List (Event μ)) : List (Channel.Event μ) := t.filterMap Event.channel?

def concluded (t : List (Event μ)) : List μ := t.filterMap Event.concluded?

def Sender.message? : Sender μ → Option μ
  | .acting => none
  | .sending m => some m

def inFlight (o : Outbox μ) : List μ := o.senders.filterMap Sender.message?

section
variable (t u : List (Event μ)) (e : Event μ)

@[simp] theorem channel_append : channel (t ++ u) = channel t ++ channel u :=
  List.filterMap_append ..
@[simp] theorem concluded_append : concluded (t ++ u) = concluded t ++ concluded u :=
  List.filterMap_append ..

@[simp] theorem channel_cons : channel (e :: t) = e.channel?.toList ++ channel t := by
  cases e <;> rfl
@[simp] theorem concluded_cons : concluded (e :: t) = e.concluded?.toList ++ concluded t := by
  cases e <;> rfl

@[simp] theorem channel_nil : channel ([] : List (Event μ)) = [] := rfl
@[simp] theorem concluded_nil : concluded ([] : List (Event μ)) = [] := rfl

end

/-! ## The sender coroutine -/

/-- The flag, the coroutine and the socket agree. A peer without a socket may have the flag
set and no coroutine. -/
structure Ready (o : Outbox μ) : Prop where
  single : o.senders.length ≤ 1
  idle : o.active = false → o.queue = [] ∧ o.senders = []
  live : o.active = true → o.socket = true → o.senders.length = 1

theorem ready_init : Ready ({} : Outbox μ) :=
  ⟨Nat.zero_le _, fun _ => ⟨rfl, rfl⟩, fun h => by cases h⟩

theorem ready_queueMessage {o : Outbox μ} (h : Ready o) (max : Nat) (message : Option μ) :
    Ready (o.queueMessage max message).1 := by
  obtain ⟨hs, hi, hl⟩ := h
  cases message with
  | none => exact ⟨hs, hi, hl⟩
  | some m =>
    simp only [queueMessage]
    split
    · cases ha : o.active with
      | true => exact ⟨hs, fun hf => by simp at hf, fun _ hk => hl ha hk⟩
      | false =>
        have he := (hi ha).2
        cases hk : o.socket with
        | true => exact ⟨by simp [he], fun hf => by simp at hf, fun _ _ => by simp [he]⟩
        | false => exact ⟨hs, fun hf => by simp at hf, fun _ hf => by simp at hf⟩
    · exact ⟨hs, hi, hl⟩

theorem ready_step {max : Nat} {o o' : Outbox μ} {a : Op μ} {es : List (Event μ)}
    (h : Ready o) (hs : step max o a = some (o', es)) : Ready o' := by
  cases a with
  | queueMessage message =>
    simp only [step, Option.some.injEq] at hs
    have hq := ready_queueMessage h max message
    rwa [hs] at hq
  | act k =>
    simp only [step, act] at hs
    split at hs
    · next hk =>
      have hlen : 0 < o.senders.length := by
        have := (List.getElem?_eq_some_iff.mp hk).1
        omega
      have hact : o.active = true := by
        by_contra hf
        have := (h.idle (by simpa using hf)).2
        simp [this] at hlen
      have hone : o.senders.length = 1 := by
        have := h.single
        omega
      split at hs
      · next hq =>
        cases hs
        have hempty : o.queue = [] := List.getLast?_eq_none_iff.mp hq
        have hz : k = 0 := by
          have := (List.getElem?_eq_some_iff.mp hk).1
          omega
        have hnone : o.senders.eraseIdx k = [] := by
          apply List.eq_nil_of_length_eq_zero
          rw [List.length_eraseIdx, if_pos (by omega)]
          omega
        exact ⟨by simp [hnone], fun _ => ⟨hempty, hnone⟩, fun hf => by cases hf⟩
      · cases hs
        exact ⟨by simp [hone], fun hf => by simp [hact] at hf, fun _ _ => by simp [hone]⟩
    · cases hs
  | send k ok =>
    simp only [step, send] at hs
    split at hs
    · next hk =>
      cases hs
      have hlen : k < o.senders.length := (List.getElem?_eq_some_iff.mp hk).1
      refine ⟨by simpa using h.single, ?_, ?_⟩
      · intro hf
        have := (h.idle hf).2
        simp [this] at hlen
      · intro ha hk
        simpa using h.live ha hk
    · cases hs
  | resetSocket =>
    cases hs
    exact ⟨h.single, h.idle, fun _ hf => by cases hf⟩
  | clearQueue =>
    cases hs
    exact ⟨h.single, fun hf => ⟨rfl, (h.idle hf).2⟩, h.live⟩

/-! ## Refinement of the bounded FIFO channel -/

theorem simulates_channel (max : Nat) :
    Simulates (machine μ max) (Channel.machine μ max) (fun o q => q = o.queue.reverse)
      Event.channel? := by
  intro o a o' es q hs hq
  subst hq
  cases a with
  | queueMessage message =>
    simp only [machine, step, Option.some.injEq] at hs
    cases message with
    | none =>
      cases hs
      exact ⟨[], _, rfl, rfl⟩
    | some m =>
      refine ⟨[.push m], o'.queue.reverse, ?_, rfl⟩
      simp only [queueMessage] at hs
      simp only [Machine.run, Channel.machine, Channel.step, List.length_reverse]
      split at hs
      · next hlt =>
        rw [if_pos hlt]
        split at hs
        · split at hs <;> cases hs <;> simp [Event.channel?]
        · cases hs
          simp [Event.channel?]
      · next hge =>
        rw [if_neg hge]
        cases hs
        simp [Event.channel?]
  | act k =>
    simp only [machine, step, act] at hs
    split at hs
    · split at hs
      · next hq =>
        cases hs
        exact ⟨[], _, rfl, rfl⟩
      · next m hq =>
        cases hs
        refine ⟨[.pop], o.queue.dropLast.reverse, ?_, rfl⟩
        have hsplit : o.queue.reverse = m :: o.queue.dropLast.reverse := by
          have hne : o.queue ≠ [] := by
            intro he
            simp [he] at hq
          have hlast : o.queue.getLast hne = m := by
            rw [List.getLast?_eq_some_getLast hne] at hq
            exact Option.some.inj hq
          conv_lhs => rw [← List.dropLast_append_getLast hne, hlast]
          simp
        simp [Machine.run, Channel.machine, Channel.step, hsplit, Event.channel?]
    · cases hs
  | send k ok =>
    simp only [machine, step, send] at hs
    split at hs
    · cases hs
      refine ⟨[], _, ?_, rfl⟩
      cases ok <;> rfl
    · cases hs
  | resetSocket =>
    cases hs
    exact ⟨[], _, rfl, rfl⟩
  | clearQueue =>
    cases hs
    exact ⟨[.clear], [], rfl, rfl⟩

/-- Every run of the queue is a run of the channel with the same acceptances, rejections, pops
and clears. -/
theorem run_channel {max : Nat} {w : List (Op μ)} {t : List (Event μ)} {o : Outbox μ}
    (hr : (machine μ max).run w [] {} = some (t, o)) :
    ∃ v, (Channel.machine μ max).run v [] [] = some (channel t, o.queue.reverse) := by
  obtain ⟨v, q, hv, hq⟩ := (simulates_channel max).run rfl hr
  exact ⟨v, by rw [← hq]; exact hv⟩

theorem run_accounted {max : Nat} {w : List (Op μ)} {t : List (Event μ)} {o : Outbox μ}
    (hr : (machine μ max).run w [] {} = some (t, o)) :
    Channel.Accounted max (channel t) o.queue.reverse := by
  obtain ⟨v, hv⟩ := run_channel hr
  exact Channel.run_accounted hv

def Op.message? : Op μ → Option μ
  | .queueMessage message => message
  | _ => none

/-- Each call answers for its message, and nothing else does. -/
theorem step_offered {max : Nat} {o o' : Outbox μ} {a : Op μ} {es : List (Event μ)}
    (hs : step max o a = some (o', es)) :
    Channel.offered (channel es) = a.message?.toList := by
  cases a with
  | queueMessage message =>
    simp only [step, Option.some.injEq] at hs
    cases message with
    | none =>
      cases hs
      rfl
    | some m =>
      simp only [queueMessage] at hs
      split at hs
      · split at hs
        · split at hs <;> cases hs <;> rfl
        · cases hs
          rfl
      · cases hs
        rfl
  | act k =>
    simp only [step, act] at hs
    split at hs
    · split at hs <;> cases hs <;> rfl
    · cases hs
  | send k ok =>
    simp only [step, send] at hs
    split at hs
    · cases hs
      cases ok <;> rfl
    · cases hs
  | resetSocket =>
    cases hs
    rfl
  | clearQueue =>
    cases hs
    rfl

theorem ready_senders {o : Outbox μ} (h : Ready o) {k : Nat} {s : Sender μ}
    (hk : o.senders[k]? = some s) : k = 0 ∧ o.senders = [s] := by
  have hlt := (List.getElem?_eq_some_iff.mp hk).1
  have hone := h.single
  match hs : o.senders with
  | [] => simp [hs] at hlt
  | [x] =>
    have hz : k = 0 := by simp [hs] at hlt; exact hlt
    simpa [hs, hz] using hk
  | x :: y :: l => simp [hs] at hone

/-- Popped messages are written or failed one after the other; one may still be in flight. -/
theorem step_concluded {max : Nat} {t : List (Event μ)} {o o' : Outbox μ} {a : Op μ}
    {es : List (Event μ)} (hr : Ready o)
    (h : Channel.popped (channel t) = concluded t ++ o.inFlight)
    (hs : step max o a = some (o', es)) :
    Channel.popped (channel (t ++ es)) = concluded (t ++ es) ++ o'.inFlight := by
  rw [channel_append, Channel.popped_append, concluded_append, h]
  cases a with
  | queueMessage message =>
    simp only [step, Option.some.injEq] at hs
    cases message with
    | none =>
      cases hs
      simp
    | some m =>
      simp only [queueMessage] at hs
      split at hs
      · split at hs
        · split at hs <;> cases hs <;>
            simp [Event.channel?, Event.concluded?, inFlight, Sender.message?,
              Channel.Event.popped?]
        · cases hs
          simp [Event.channel?, Event.concluded?, inFlight, Channel.Event.popped?]
      · cases hs
        simp [Event.channel?, Event.concluded?, Channel.Event.popped?]
  | act k =>
    simp only [step, act] at hs
    split at hs
    · next hk =>
      obtain ⟨rfl, hone⟩ := ready_senders hr hk
      split at hs <;> cases hs <;>
        simp [Event.channel?, Event.concluded?, inFlight, hone, Sender.message?,
          Channel.Event.popped?]
    · cases hs
  | send k ok =>
    simp only [step, send] at hs
    split at hs
    · next m hk =>
      obtain ⟨rfl, hone⟩ := ready_senders hr hk
      cases hs
      cases ok <;> simp [Event.channel?, Event.concluded?, inFlight, hone, Sender.message?]
    · cases hs
  | resetSocket =>
    cases hs
    simp [inFlight, resetSocket]
  | clearQueue =>
    cases hs
    simp [Event.channel?, Event.concluded?, inFlight, Channel.Event.popped?]

theorem run_ready {max : Nat} {w : List (Op μ)} {t : List (Event μ)} {o : Outbox μ}
    (hr : (machine μ max).run w [] {} = some (t, o)) :
    Ready o ∧ Channel.popped (channel t) = concluded t ++ o.inFlight := by
  refine run_invariant (I := fun t o => Ready o ∧ Channel.popped (channel t) =
    concluded t ++ o.inFlight) ?_ ⟨ready_init, rfl⟩ hr
  intro t o a o' es h hs
  exact ⟨ready_step h.1 hs, step_concluded h.1 h.2 hs⟩

/-- The queue with its on-demand sender is a bounded FIFO channel: at most one coroutine is
live, none is missing while there is work and a socket, and what was accepted is what was
popped or cleared, in order, followed by what is still queued. Of the popped messages each was
written or failed, except the one in flight. -/
theorem outbox_refines_channel (max : Nat) (w : List (Op μ)) (t : List (Event μ)) (o : Outbox μ)
    (hr : (machine μ max).run w [] {} = some (t, o)) :
    o.senders.length ≤ 1 ∧
    (o.queue ≠ [] → o.active = true ∧ (o.socket = true → o.senders.length = 1)) ∧
    o.queue.length ≤ max ∧
    (Channel.accepted (channel t) = Channel.removed (channel t) ++ o.queue.reverse ∧
      (Channel.popped (channel t)).Sublist (Channel.removed (channel t)) ∧
      (Channel.cleared (channel t)).Sublist (Channel.removed (channel t)) ∧
      (Channel.removed (channel t)).Perm
        (Channel.popped (channel t) ++ Channel.cleared (channel t)) ∧
      Channel.popped (channel t) = concluded t ++ o.inFlight) ∧
    ∃ v, (Channel.machine μ max).run v [] [] = some (channel t, o.queue.reverse) := by
  obtain ⟨hready, hconcluded⟩ := run_ready hr
  have hacc := run_accounted hr
  refine ⟨hready.single, ?_, by simpa using hacc.bounded, ?_, run_channel hr⟩
  · intro hne
    have ha : o.active = true := by
      by_contra hf
      exact hne (hready.idle (by simpa using hf)).1
    exact ⟨ha, hready.live ha⟩
  · exact ⟨hacc.conserved, Channel.popped_sublist_removed _, Channel.cleared_sublist_removed _,
      Channel.removed_perm _, hconcluded⟩

def racingSchedule : List (Op Nat) :=
  [.queueMessage (some 1), .act 0, .queueMessage (some 2), .send 0 false,
    .queueMessage (some 3), .queueMessage (some 4), .act 0, .resetSocket,
    .queueMessage (some 5), .clearQueue]

theorem outbox_refines_channel_racing :
    ∃ t o, (machine Nat 2).run racingSchedule [] {} = some (t, o) ∧
      Channel.accepted (channel t) = [1, 2, 3, 5] ∧ concluded t = [1] ∧ o.inFlight = [2] ∧
      o.senders.length ≤ 1 :=
  ⟨_, _, rfl, rfl, rfl, rfl, (outbox_refines_channel 2 racingSchedule _ _ rfl).1⟩

end Outbox
end Helicopter
