import Helicopter.Outbox
import Helicopter.WriteLock

/-! The queue of a peer in front of its socket. What the sender coroutine has popped goes out as
one frame under the write lock, among the frames of the other coroutines. -/
namespace Helicopter
open Interleaving

/-- `ofQueue` tells the writes of the sender coroutine from those of the other callers. -/
structure Outgoing (μ : Type*) where
  outbox : Outbox μ := {}
  wire : Wire := {}
  ofQueue : List Bool := []

namespace Outgoing
variable {μ : Type*}

inductive Event (μ : Type*) where
  | outbox (e : Outbox.Event μ)
  /-- what happens to the socket; where a write of the queue ends, with its message -/
  | wire (message : Option μ) (e : Wire.Event)

inductive Op (μ : Type*) where
  | queueMessage (message : Option μ)
  /-- `act` of the sender coroutine `k` -/
  | act (k : Nat)
  | resetSocket
  | clearQueue
  /-- another caller -/
  | call (call : WriteCall)
  | start (n : Nat)
  | write (n count : Nat)
  /-- the write `n` is over, and the sender coroutine `k` goes on if it is its write -/
  | finish (n k : Nat)
  | fail (n k : Nat)

def stepOutbox (max : Nat) (s : Outgoing μ) (a : Outbox.Op μ) :
    Option (Outgoing μ × List (Event μ)) :=
  match Outbox.step max s.outbox a with
  | none => none
  | some (outbox, es) => some ({ s with outbox := outbox }, es.map .outbox)

def spawn (s : Outgoing μ) (call : WriteCall) (ofQueue : Bool) : Outgoing μ :=
  { s with
    wire := { s.wire with writers := s.wire.writers ++ [⟨call.stages, none⟩] }
    ofQueue := s.ofQueue ++ [ofQueue] }

def popped? : List (Outbox.Event μ) → Option μ
  | [.channel (.popped m)] => some m
  | _ => none

def act (serialize : μ → List UInt8) (s : Outgoing μ) (k : Nat) :
    Option (Outgoing μ × List (Event μ)) :=
  match s.outbox.act k with
  | none => none
  | some (outbox, es) =>
    match popped? es with
    | none => some ({ s with outbox := outbox }, es.map .outbox)
    | some m =>
      some (spawn { s with outbox := outbox } (.queueMessage (serialize m)) true, es.map .outbox)

/-- The others start their coroutine on `m_socket`; the pong goes to the socket that was pinged. -/
def call (s : Outgoing μ) : WriteCall → Option (Outgoing μ × List (Event μ))
  | .queueMessage _ => none
  | .onPing pong => some (s.spawn (.onPing pong) false, [])
  | call => some (if s.outbox.socket then s.spawn call false else s, [])

def stepWire (s : Outgoing μ) (a : Wire.Op) : Option (Outgoing μ × List (Event μ)) :=
  match Wire.step s.wire a with
  | none => none
  | some (wire, es) => some ({ s with wire := wire }, es.map (.wire none))

def conclude (s : Outgoing μ) (a : Wire.Op) (n k : Nat) (ok : Bool) :
    Option (Outgoing μ × List (Event μ)) :=
  if s.ofQueue[n]? = some true then
    match Wire.step s.wire a, s.outbox.senders[k]?, s.outbox.send k ok with
    | some (wire, es), some (.sending m), some (outbox, fs) =>
      some ({ s with outbox := outbox, wire := wire },
        es.map (.wire (some m)) ++ fs.map .outbox)
    | _, _, _ => none
  else s.stepWire a

def step (serialize : μ → List UInt8) (max : Nat) (s : Outgoing μ) :
    Op μ → Option (Outgoing μ × List (Event μ))
  | .queueMessage message => s.stepOutbox max (.queueMessage message)
  | .act k => s.act serialize k
  | .resetSocket => s.stepOutbox max .resetSocket
  | .clearQueue => s.stepOutbox max .clearQueue
  | .call call => s.call call
  | .start n => s.stepWire (.start n)
  | .write n count => s.stepWire (.write n count)
  | .finish n k => s.conclude (.finish n) n k true
  | .fail n k => s.conclude (.fail n) n k false

def machine (serialize : μ → List UInt8) (max : Nat) :
    Machine (Outgoing μ) (Op μ) (Event μ) := ⟨step serialize max⟩

def Event.outbox? : Event μ → Option (Outbox.Event μ)
  | .outbox e => some e
  | .wire _ _ => none

def Event.wire? : Event μ → Option Wire.Event
  | .outbox _ => none
  | .wire _ e => some e

def Event.frame? : Event μ → Option (Option μ × List UInt8)
  | .wire m (.finished frame) => some (m, frame)
  | .wire m (.aborted part) => some (m, part)
  | _ => none

def outboxPart (t : List (Event μ)) : List (Outbox.Event μ) := t.filterMap Event.outbox?

def wirePart (t : List (Event μ)) : List Wire.Event := t.filterMap Event.wire?

/-- The frames on the socket, of a failed write the part that got out; those of the queue with
their messages. -/
def frames (t : List (Event μ)) : List (Option μ × List UInt8) := t.filterMap Event.frame?

def written (t : List (Event μ)) : List μ := (frames t).filterMap Prod.fst

section
variable (t u : List (Event μ)) (fs : List (Outbox.Event μ)) (m : Option μ) (es : List Wire.Event)

@[simp] theorem outboxPart_append : outboxPart (t ++ u) = outboxPart t ++ outboxPart u :=
  List.filterMap_append ..
@[simp] theorem wirePart_append : wirePart (t ++ u) = wirePart t ++ wirePart u :=
  List.filterMap_append ..
@[simp] theorem frames_append : frames (t ++ u) = frames t ++ frames u := List.filterMap_append ..

@[simp] theorem written_append : written (t ++ u) = written t ++ written u := by
  simp [written]

@[simp] theorem wirePart_nil : wirePart ([] : List (Event μ)) = [] := rfl

@[simp] theorem wirePart_cons (e : Event μ) :
    wirePart (e :: t) = e.wire?.toList ++ wirePart t := by
  cases e <;> rfl

@[simp] theorem outboxPart_outbox : outboxPart (fs.map Event.outbox) = fs := by
  induction fs with
  | nil => rfl
  | cons e fs ih => exact congrArg (e :: ·) ih

@[simp] theorem wirePart_outbox : wirePart (fs.map (Event.outbox (μ := μ))) = [] := by
  induction fs with
  | nil => rfl
  | cons e fs ih => exact ih

@[simp] theorem frames_outbox : frames (fs.map Event.outbox) = [] := by
  induction fs with
  | nil => rfl
  | cons e fs ih => exact ih

@[simp] theorem outboxPart_wire : outboxPart (es.map (Event.wire m)) = [] := by
  induction es with
  | nil => rfl
  | cons e es ih => exact ih

@[simp] theorem wirePart_wire : wirePart (es.map (Event.wire m)) = es := by
  induction es with
  | nil => rfl
  | cons e es ih => exact congrArg (e :: ·) ih

theorem written_others : written (es.map (Event.wire (μ := μ) none)) = [] := by
  induction es with
  | nil => rfl
  | cons e es ih => cases e <;> exact ih

end

/-! ## What can happen -/

def Passes (s : Outgoing μ) : Wire.Op → Prop
  | .spawn _ => False
  | .start _ | .write _ _ => True
  | .finish n | .fail n => s.ofQueue[n]? ≠ some true

def Ends (n : Nat) (b : Wire.Op) (ok : Bool) : Prop := b = if ok then .finish n else .fail n

inductive Step (serialize : μ → List UInt8) (max : Nat) (s : Outgoing μ) :
    Op μ → Outgoing μ → List (Event μ) → Prop where
  | queue (a : Op μ) (b : Outbox.Op μ) (outbox : Outbox μ) (fs : List (Outbox.Event μ)) :
    (∀ k, b ≠ .act k) → (∀ k ok, b ≠ .send k ok) →
    Outbox.step max s.outbox b = some (outbox, fs) →
    Step serialize max s a { s with outbox := outbox } (fs.map .outbox)
  | stops (k : Nat) (outbox : Outbox μ) : s.outbox.senders[k]? = some .acting →
    Outbox.step max s.outbox (.act k) = some (outbox, [.finished]) →
    Step serialize max s (.act k) { s with outbox := outbox } [.outbox .finished]
  | pops (k : Nat) (m : μ) (outbox : Outbox μ) : s.outbox.senders[k]? = some .acting →
    Outbox.step max s.outbox (.act k) = some (outbox, [.channel (.popped m)]) →
    outbox.senders = s.outbox.senders.set k (.sending m) →
    Step serialize max s (.act k)
      (spawn { s with outbox := outbox } (.queueMessage (serialize m)) true)
      [.outbox (.channel (.popped m))]
  | call (call : WriteCall) : Step serialize max s (.call call) (s.spawn call false) []
  | ignored (call : WriteCall) : Step serialize max s (.call call) s []
  | wire (a : Op μ) (b : Wire.Op) (wire : Wire) (es : List Wire.Event) : s.Passes b →
    (∀ n, b = .start n → a = .start n) → Wire.step s.wire b = some (wire, es) →
    Step serialize max s a { s with wire := wire } (es.map (.wire none))
  | concludes (a : Op μ) (b : Wire.Op) (n k : Nat) (ok : Bool) (m : μ) (wire : Wire)
    (es : List Wire.Event) (outbox : Outbox μ) (fs : List (Outbox.Event μ)) :
    s.ofQueue[n]? = some true → Ends n b ok → Wire.step s.wire b = some (wire, es) →
    s.outbox.senders[k]? = some (.sending m) →
    Outbox.step max s.outbox (.send k ok) = some (outbox, fs) →
    Step serialize max s a { s with outbox := outbox, wire := wire }
      (es.map (.wire (some m)) ++ fs.map .outbox)

variable {serialize : μ → List UInt8} {max : Nat} {s s' : Outgoing μ} {t es : List (Event μ)}
  {a : Op μ}

theorem stepOutbox_step {b : Outbox.Op μ} (hact : ∀ k, b ≠ .act k)
    (hsend : ∀ k ok, b ≠ .send k ok) (hs : s.stepOutbox max b = some (s', es)) :
    Step serialize max s a s' es := by
  unfold stepOutbox at hs
  split at hs
  · cases hs
  · next outbox fs hb =>
    cases hs
    exact .queue a b outbox fs hact hsend hb

theorem stepWire_step {b : Wire.Op} (hb : s.Passes b) (ha : ∀ n, b = .start n → a = .start n)
    (hs : s.stepWire b = some (s', es)) : Step serialize max s a s' es := by
  unfold stepWire at hs
  split at hs
  · cases hs
  · next wire fs hst =>
    cases hs
    exact .wire a b wire fs hb ha hst

theorem conclude_step {b : Wire.Op} {n k : Nat} (ok : Bool) (hb : Ends n b ok)
    (hs : s.conclude b n k ok = some (s', es)) : Step serialize max s a s' es := by
  unfold conclude at hs
  split at hs
  · next hq =>
    split at hs
    · next wire fs m outbox gs hw hk hsend =>
      cases hs
      exact .concludes a b n k ok m wire fs outbox gs hq hb hw hk hsend
    · cases hs
  · next hq =>
    refine stepWire_step ?_ ?_ hs
    · cases ok <;> rw [hb] <;> exact hq
    · intro n' hn
      cases ok <;> rw [hb] at hn <;> cases hn

theorem act_step {k : Nat} (hs : s.act serialize k = some (s', es)) :
    Step serialize max s (.act k) s' es := by
  unfold act at hs
  split at hs
  · cases hs
  · next outbox fs hact =>
    have hstep : Outbox.step max s.outbox (.act k) = some (outbox, fs) := hact
    unfold Outbox.act at hact
    split at hact
    · next hk =>
      split at hact
      · cases hact
        cases hs
        exact .stops k _ hk hstep
      · next m hm =>
        cases hact
        cases hs
        exact .pops k m _ hk hstep rfl
    · cases hact

theorem call_step {call : WriteCall} (hs : s.call call = some (s', es)) :
    Step serialize max s (.call call) s' es := by
  have hother : ∀ {c : WriteCall},
      some (if s.outbox.socket then s.spawn c false else s, []) = some (s', es) →
      Step serialize max s (.call c) s' es := by
    intro c h
    cases h
    split
    · exact .call c
    · exact .ignored c
  cases call with
  | queueMessage text => cases hs
  | onPing pong => cases hs; exact .call _
  | sendMessageAsync text => exact hother hs
  | sendErrorAsync text close fatal => exact hother hs
  | ping text => exact hother hs
  | kick text => exact hother hs

theorem step_cases (hs : s.step serialize max a = some (s', es)) :
    Step serialize max s a s' es := by
  cases a with
  | queueMessage message =>
    exact stepOutbox_step (b := .queueMessage message) (by simp) (by simp) hs
  | act k => exact act_step hs
  | resetSocket => exact stepOutbox_step (b := .resetSocket) (by simp) (by simp) hs
  | clearQueue => exact stepOutbox_step (b := .clearQueue) (by simp) (by simp) hs
  | call call => exact call_step hs
  | start n => exact stepWire_step (b := .start n) trivial (fun n' h => by cases h; rfl) hs
  | write n count =>
    exact stepWire_step (b := .write n count) trivial (fun n' h => by cases h) hs
  | finish n k => exact conclude_step (b := .finish n) true rfl hs
  | fail n k => exact conclude_step (b := .fail n) false rfl hs

theorem Passes.not_spawn {b : Wire.Op} (h : s.Passes b) (call : WriteCall) : b ≠ .spawn call := by
  intro hb
  rw [hb] at h
  exact h

theorem Ends.not_spawn {b : Wire.Op} {n : Nat} {ok : Bool} (h : Ends n b ok) (call : WriteCall) :
    b ≠ .spawn call := by
  intro hb
  rw [hb] at h
  cases ok <;> cases h

theorem Ends.unique {b : Wire.Op} {n n' : Nat} {ok ok' : Bool} (h : Ends n b ok)
    (h' : Ends n' b ok') : n = n' ∧ ok = ok' := by
  rw [h] at h'
  cases ok <;> cases ok' <;> cases h' <;> exact ⟨rfl, rfl⟩

/-! ## The queue runs as on its own -/

theorem step_outbox (hs : s.step serialize max a = some (s', es)) :
    ∃ v, (Outbox.machine μ max).run v [] s.outbox = some (outboxPart es, s'.outbox) := by
  have hone : ∀ {b : Outbox.Op μ} {outbox : Outbox μ} {fs : List (Outbox.Event μ)},
      Outbox.step max s.outbox b = some (outbox, fs) →
      ∃ v, (Outbox.machine μ max).run v [] s.outbox = some (fs, outbox) :=
    fun {b _ _} hb => ⟨[b], run_singleton (M := Outbox.machine μ max) hb⟩
  cases step_cases hs with
  | queue a b outbox fs hact hsend hb => simpa using hone hb
  | stops k outbox hk hb => exact hone hb
  | pops k m outbox hk hb hm => exact hone hb
  | call call => exact ⟨[], rfl⟩
  | ignored call => exact ⟨[], rfl⟩
  | wire a b wire fs hb ha hw => exact ⟨[], by simp [Machine.run]⟩
  | concludes a b n k ok m wire fs outbox gs hq hb hw hk hsend => simpa using hone hsend

theorem run_outbox {w : List (Op μ)} (hr : (machine serialize max).run w [] {} = some (t, s)) :
    ∃ v, (Outbox.machine μ max).run v [] {} = some (outboxPart t, s.outbox) := by
  refine run_invariant (M := machine serialize max) (I := fun t s =>
    ∃ v, (Outbox.machine μ max).run v [] {} = some (outboxPart t, s.outbox)) ?_ ⟨[], rfl⟩ hr
  intro t s a s' es h hs
  obtain ⟨u, hu⟩ := h
  obtain ⟨v, hv⟩ := step_outbox hs
  refine ⟨u ++ v, ?_⟩
  rw [run_append, hu, Option.bind_some, run_history, hv, outboxPart_append]
  rfl

/-! ## The write of the sender coroutine -/

def Whole (w : Writer) : Prop :=
  ∀ d r, w.current = some (d, r) → ∃ stage rest, w.stages = stage :: rest ∧ d ++ r = stage.frame

inductive WireStep (s s' : Wire) (es : List Wire.Event) : Wire.Op → Prop where
  | goesOn (b : Wire.Op) (n : Nat) (w w' : Writer) : (∀ n' ok, ¬ Ends n' b ok) →
    s.writers[n]? = some w → s'.writers = s.writers.set n w' → w'.stages = w.stages →
    (Whole w → Whole w') → WireStep s s' es b
  | ends (n : Nat) (ok : Bool) (b : Wire.Op) (stage : WriteStage) (rest : List WriteStage)
    (d r : List UInt8) (w' : Writer) : Ends n b ok →
    s.writers[n]? = some ⟨stage :: rest, some (d, r)⟩ → s'.writers = s.writers.set n w' →
    w'.current = none → (∀ stage' ∈ w'.stages, stage' ∈ rest) →
    es = (if ok then [.finished stage.frame] else [.aborted d]) → WireStep s s' es b

theorem wireStep {s s' : Wire} {es : List Wire.Event} {b : Wire.Op} (hb : ∀ call, b ≠ .spawn call)
    (hs : Wire.step s b = some (s', es)) : WireStep s s' es b := by
  have hstart : ∀ (stage : WriteStage) {rest : List WriteStage},
      Whole ⟨stage :: rest, some ([], stage.frame)⟩ := by
    intro stage rest d r h
    cases h
    exact ⟨stage, rest, rfl, rfl⟩
  cases b with
  | spawn call => exact absurd rfl (hb call)
  | start n =>
    have hnot : ∀ n' ok, ¬ Ends n' (.start n) ok := fun _ ok h => by cases ok <;> cases h
    simp only [Wire.step] at hs
    split at hs
    · next f rest hk =>
      split at hs
      · cases hs
        exact .goesOn _ n _ _ hnot hk rfl rfl fun _ => hstart (.synchronized f)
      · cases hs
    · next f rest hk =>
      cases hs
      exact .goesOn _ n _ _ hnot hk rfl rfl fun _ => hstart (.chained f)
    · cases hs
  | write n count =>
    have hnot : ∀ n' ok, ¬ Ends n' (.write n count) ok := fun _ ok h => by cases ok <;> cases h
    simp only [Wire.step] at hs
    split at hs
    · next stages d r hk =>
      cases hs
      refine .goesOn _ n _ _ hnot hk rfl rfl ?_
      intro hw d' r' h
      cases h
      obtain ⟨stage, rest, hst, hf⟩ := hw d r rfl
      exact ⟨stage, rest, hst, by rw [List.append_assoc, List.take_append_drop]; exact hf⟩
    · cases hs
  | finish n =>
    simp only [Wire.step] at hs
    split at hs
    · next stage rest d hk =>
      cases hs
      exact .ends n true _ stage rest d [] _ rfl hk rfl rfl (fun _ h => h) rfl
    · cases hs
  | fail n =>
    simp only [Wire.step] at hs
    split at hs
    · next stage rest d r hk =>
      cases hs
      exact .ends n false _ stage rest d r _ rfl hk rfl rfl (by simp) rfl
    · cases hs

def unfinished : List Bool → List Writer → List WriteStage
  | q :: qs, w :: ws => (if q then w.stages else []) ++ unfinished qs ws
  | _, _ => []

theorem unfinished_append {qs : List Bool} {ws : List Writer} (h : qs.length = ws.length)
    (q : Bool) (w : Writer) :
    unfinished (qs ++ [q]) (ws ++ [w]) = unfinished qs ws ++ if q then w.stages else [] := by
  induction qs generalizing ws with
  | nil =>
    cases ws with
    | nil => simp [unfinished]
    | cons x ws => cases h
  | cons p qs ih =>
    cases ws with
    | nil => cases h
    | cons x ws => simp [unfinished, ih (Nat.succ.inj h)]

theorem unfinished_set {qs : List Bool} {ws : List Writer} {n : Nat} {w w' : Writer}
    (hw : ws[n]? = some w) (h : qs[n]? = some true → w'.stages = w.stages) :
    unfinished qs (ws.set n w') = unfinished qs ws := by
  induction qs generalizing ws n with
  | nil => rfl
  | cons q qs ih =>
    cases ws with
    | nil => cases hw
    | cons x ws =>
      cases n with
      | zero =>
        cases hw
        cases q with
        | false => rfl
        | true => simp [unfinished, h rfl]
      | succ n => exact congrArg (_ ++ ·) (ih (n := n) hw h)

theorem unfinished_ends {qs : List Bool} {ws : List Writer} {n : Nat} {w w' : Writer}
    (hq : qs[n]? = some true) (hw : ws[n]? = some w) (hw' : w'.stages = []) :
    (unfinished qs ws).Perm (w.stages ++ unfinished qs (ws.set n w')) := by
  induction qs generalizing ws n with
  | nil => cases hq
  | cons q qs ih =>
    cases ws with
    | nil => cases hw
    | cons x ws =>
      cases n with
      | zero =>
        cases hw
        cases hq
        simp [unfinished, hw']
      | succ n =>
        exact ((ih (n := n) hq hw).append_left _).trans (List.perm_append_comm_assoc ..)

theorem unfinished_only {qs : List Bool} {ws : List Writer} {n : Nat} {stage last : WriteStage}
    {rest : List WriteStage} {cur : Option (List UInt8 × List UInt8)}
    (h : unfinished qs ws = [last]) (hq : qs[n]? = some true)
    (hw : ws[n]? = some ⟨stage :: rest, cur⟩) :
    stage = last ∧ rest = [] ∧
      ∀ w' : Writer, w'.stages = [] → unfinished qs (ws.set n w') = [] := by
  have hset : ∀ w' : Writer, w'.stages = [] →
      stage = last ∧ rest = [] ∧ unfinished qs (ws.set n w') = [] := by
    intro w' hw'
    have hperm := unfinished_ends hq hw hw'
    rw [h, List.cons_append] at hperm
    have heq := List.perm_singleton.mp hperm.symm
    rw [List.cons.injEq, List.append_eq_nil_iff] at heq
    exact heq
  exact ⟨(hset ⟨[], none⟩ rfl).1, (hset ⟨[], none⟩ rfl).2.1, fun w' hw' => (hset w' hw').2.2⟩

structure Linked (serialize : μ → List UInt8) (s : Outgoing μ) : Prop where
  ready : Outbox.Ready s.outbox
  owners : s.ofQueue.length = s.wire.writers.length
  whole : ∀ w ∈ s.wire.writers, Whole w
  waiting : unfinished s.ofQueue s.wire.writers =
    s.outbox.inFlight.map fun m => .synchronized (serialize m)

theorem linked_init : Linked serialize ({} : Outgoing μ) :=
  ⟨Outbox.ready_init, rfl, by simp, rfl⟩

theorem ready_outbox (h : Outbox.Ready s.outbox) (hs : s.step serialize max a = some (s', es)) :
    Outbox.Ready s'.outbox := by
  obtain ⟨v, hv⟩ := step_outbox hs
  exact run_invariant (M := Outbox.machine μ max) (I := fun _ o => Outbox.Ready o)
    (fun _ _ _ _ _ h hs => Outbox.ready_step h hs) h hv

/-- Only the sender coroutine touches what is in flight. -/
theorem inFlight_kept {o o' : Outbox μ} {b : Outbox.Op μ} {fs : List (Outbox.Event μ)}
    (hact : ∀ k, b ≠ .act k) (hsend : ∀ k ok, b ≠ .send k ok)
    (hs : Outbox.step max o b = some (o', fs)) :
    o'.inFlight = o.inFlight ∧ Outbox.concluded fs = [] := by
  cases b with
  | queueMessage message =>
    simp only [Outbox.step, Option.some.injEq] at hs
    cases message with
    | none => cases hs; exact ⟨rfl, rfl⟩
    | some m =>
      simp only [Outbox.queueMessage] at hs
      split at hs
      · split at hs
        · split at hs <;> cases hs <;>
            simp [Outbox.inFlight, Outbox.Sender.message?, Outbox.Event.concluded?]
        · cases hs
          exact ⟨rfl, rfl⟩
      · cases hs
        exact ⟨rfl, rfl⟩
  | act k => exact absurd rfl (hact k)
  | send k ok => exact absurd rfl (hsend k ok)
  | resetSocket => cases hs; exact ⟨rfl, rfl⟩
  | clearQueue => cases hs; exact ⟨rfl, rfl⟩

theorem whole_set {ws : List Writer} {n : Nat} {w' : Writer} (h : ∀ w ∈ ws, Whole w)
    (hw' : Whole w') : ∀ w ∈ ws.set n w', Whole w := by
  intro w hw
  cases List.mem_or_eq_of_mem_set hw with
  | inl hw => exact h w hw
  | inr hw => rwa [hw]

theorem whole_of_none {w : Writer} (h : w.current = none) : Whole w := by
  intro d r hc
  rw [h] at hc
  cases hc

theorem linked_spawn (h : Linked serialize s) (call : WriteCall) (q : Bool) (outbox : Outbox μ)
    (hr : Outbox.Ready outbox)
    (hin : (outbox.inFlight.map fun m => WriteStage.synchronized (serialize m)) =
      (s.outbox.inFlight.map fun m => WriteStage.synchronized (serialize m)) ++
        if q then call.stages else []) :
    Linked serialize (spawn { s with outbox := outbox } call q) := by
  refine ⟨hr, by simp [spawn, h.owners], ?_, ?_⟩
  · intro w hw
    cases List.mem_append.mp hw with
    | inl hw => exact h.whole w hw
    | inr hw =>
      rw [List.mem_singleton.mp hw]
      exact whole_of_none rfl
  · simp only [spawn]
    rw [unfinished_append h.owners, h.waiting, hin]

theorem linked_wire (h : Linked serialize s) {b : Wire.Op} {wire : Wire} {fs : List Wire.Event}
    (hb : s.Passes b) (hs : Wire.step s.wire b = some (wire, fs)) :
    Linked serialize { s with wire := wire } := by
  cases wireStep hb.not_spawn hs with
  | goesOn b n w w' hnot hw hset hst hwh =>
    refine ⟨h.ready, by simp [hset, h.owners], ?_, ?_⟩
    · rw [hset]
      exact whole_set h.whole (hwh (h.whole w (List.mem_of_getElem? hw)))
    · rw [hset, unfinished_set hw (fun _ => hst), h.waiting]
  | ends n ok b stage rest d r w' he hw hset hcur hst hes =>
    have hq : s.ofQueue[n]? ≠ some true := by
      cases ok <;> rw [he] at hb <;> exact hb
    refine ⟨h.ready, by simp [hset, h.owners], ?_, ?_⟩
    · rw [hset]
      exact whole_set h.whole (whole_of_none hcur)
    · rw [hset, unfinished_set hw (fun ht => absurd ht hq), h.waiting]

def Fits (frame : List UInt8) : Wire.Event → Prop
  | .bytes _ => False
  | .finished f => f = frame
  | .aborted part => part <+: frame

theorem written_queue {m : μ} {frame : List UInt8} {e : Wire.Event} (h : Fits frame e) :
    written [Event.wire (some m) e] = [m] := by
  cases e with
  | bytes chunk => exact h.elim
  | finished f => rfl
  | aborted part => rfl

theorem linked_concludes (h : Linked serialize s) {b : Wire.Op} {n k : Nat} {ok : Bool} {m : μ}
    {wire : Wire} {fs : List Wire.Event} {outbox : Outbox μ} {gs : List (Outbox.Event μ)}
    (hq : s.ofQueue[n]? = some true) (hb : Ends n b ok)
    (hs : Wire.step s.wire b = some (wire, fs)) (hk : s.outbox.senders[k]? = some (.sending m))
    (hsend : Outbox.step max s.outbox (.send k ok) = some (outbox, gs)) :
    Linked serialize { s with outbox := outbox, wire := wire } ∧
      (∃ e, fs = [e] ∧ Fits (serialize m) e) ∧ Outbox.concluded gs = [m] := by
  obtain ⟨rfl, hone⟩ := Outbox.ready_senders h.ready hk
  have hwait : unfinished s.ofQueue s.wire.writers = [.synchronized (serialize m)] := by
    rw [h.waiting]
    simp [Outbox.inFlight, hone, Outbox.Sender.message?]
  have hgs : outbox.inFlight = [] ∧ Outbox.concluded gs = [m] := by
    simp only [Outbox.step, Outbox.send, hk, Option.some.injEq, Prod.mk.injEq] at hsend
    obtain ⟨rfl, rfl⟩ := hsend
    cases ok <;> simp [Outbox.inFlight, hone, Outbox.Sender.message?, Outbox.Event.concluded?]
  have hready := Outbox.ready_step h.ready hsend
  cases wireStep hb.not_spawn hs with
  | goesOn b n' w w' hnot hw hset hst hwh => exact absurd hb (hnot n ok)
  | ends n' ok' b stage rest d r w' he hw hset hcur hst hes =>
    obtain ⟨rfl, rfl⟩ := hb.unique he
    obtain ⟨stage', rest', hfirst, hframe⟩ := h.whole _ (List.mem_of_getElem? hw) d r rfl
    cases hfirst
    -- the queue has one unfinished write, and it has one frame
    obtain ⟨rfl, rfl, hleft⟩ := unfinished_only hwait hq hw
    have hnone : w'.stages = [] := List.eq_nil_iff_forall_not_mem.mpr fun x hx =>
      absurd (hst x hx) List.not_mem_nil
    refine ⟨⟨hready, by simp [hset, h.owners], ?_, ?_⟩, ?_, hgs.2⟩
    · rw [hset]
      exact whole_set h.whole (whole_of_none hcur)
    · rw [hset, hleft w' hnone, hgs.1]
      rfl
    · cases ok with
      | true => exact ⟨_, hes, rfl⟩
      | false => exact ⟨_, hes, ⟨r, hframe⟩⟩

theorem linked_step (h : Linked serialize s) (hs : s.step serialize max a = some (s', es)) :
    Linked serialize s' ∧ written es = Outbox.concluded (outboxPart es) ∧
      ∀ m e, Event.wire (some m) e ∈ es → Fits (serialize m) e := by
  have hready := ready_outbox h.ready hs
  cases step_cases hs with
  | queue a b outbox fs hact hsend hb =>
    obtain ⟨hin, hcon⟩ := inFlight_kept hact hsend hb
    exact ⟨⟨hready, h.owners, h.whole, by rw [h.waiting, hin]⟩, by simp [written, hcon], by simp⟩
  | stops k outbox hk hb =>
    obtain ⟨rfl, hone⟩ := Outbox.ready_senders h.ready hk
    have hin : outbox.inFlight = s.outbox.inFlight := by
      simp only [Outbox.step, Outbox.act, hk] at hb
      split at hb <;> cases hb
      simp [Outbox.inFlight, hone, Outbox.Sender.message?]
    exact ⟨⟨hready, h.owners, h.whole, by rw [h.waiting, hin]⟩, rfl, by simp⟩
  | pops k m outbox hk hb hm =>
    obtain ⟨rfl, hone⟩ := Outbox.ready_senders h.ready hk
    refine ⟨linked_spawn h _ true outbox hready ?_, rfl, by simp⟩
    simp [Outbox.inFlight, hm, hone, Outbox.Sender.message?, WriteCall.stages]
  | call call => exact ⟨linked_spawn h call false s.outbox h.ready (by simp), rfl, by simp⟩
  | ignored call => exact ⟨h, rfl, by simp⟩
  | wire a b wire fs hb ha hw =>
    refine ⟨linked_wire h hb hw, ?_, by simp⟩
    simp [written_others]
  | concludes a b n k ok m wire fs outbox gs hq hb hw hk hsend =>
    obtain ⟨hlinked, ⟨e, rfl, hfits⟩, hcon⟩ := linked_concludes h hq hb hw hk hsend
    refine ⟨hlinked, ?_, ?_⟩
    · rw [written_append, outboxPart_append, outboxPart_wire, outboxPart_outbox, List.nil_append,
        hcon]
      simp only [List.map_cons, List.map_nil, written_queue hfits]
      simp [written]
    · simpa using hfits

/-! ## What reaches the socket -/

theorem run_linked {w : List (Op μ)} (hr : (machine serialize max).run w [] {} = some (t, s)) :
    Linked serialize s ∧ written t = Outbox.concluded (outboxPart t) ∧
      ∀ m e, Event.wire (some m) e ∈ t → Fits (serialize m) e := by
  refine run_invariant (M := machine serialize max) (I := fun t s => Linked serialize s ∧
    written t = Outbox.concluded (outboxPart t) ∧
    ∀ m e, Event.wire (some m) e ∈ t → Fits (serialize m) e) ?_ ⟨linked_init, rfl, by simp⟩ hr
  intro t s a s' es h hs
  obtain ⟨hlinked, hwritten, hfits⟩ := linked_step h.1 hs
  refine ⟨hlinked, by simp [h.2.1, hwritten], ?_⟩
  intro m e he
  exact (List.mem_append.mp he).elim (h.2.2 m e) (hfits m e)

/-- The wire carries the frames one after the other. -/
theorem ended_frames (t : List (Event μ)) :
    Wire.ended (wirePart t) = ((frames t).map Prod.snd).flatten := by
  induction t with
  | nil => rfl
  | cons e t ih =>
    have happ : ∀ (es : List Wire.Event), Wire.ended (es ++ wirePart t) =
        Wire.ended es ++ ((frames t).map Prod.snd).flatten := by
      intro es
      rw [Wire.ended_append, ih]
    cases e with
    | outbox e => exact ih
    | wire m e =>
      refine (happ [e]).trans ?_
      cases e with
      | bytes chunk => rfl
      | finished frame => simp [Wire.ended, Wire.Event.ended?, frames, Event.frame?]
      | aborted part => simp [Wire.ended, Wire.Event.ended?, frames, Event.frame?]

def ClosesAlone (t : List (Event μ)) (s : Outgoing μ) (a : Op μ) : Prop :=
  ∀ n, a = .start n → Wire.ClosesAlone (wirePart t) s.wire (.start n)

theorem exclusive_step (h : Wire.Exclusive (wirePart t) s.wire) (hc : ClosesAlone t s a)
    (hs : s.step serialize max a = some (s', es)) :
    Wire.Exclusive (wirePart (t ++ es)) s'.wire := by
  rw [wirePart_append]
  cases step_cases hs with
  | queue a b outbox fs hact hsend hb => simpa using h
  | stops k outbox hk hb => simpa [Event.wire?] using h
  | pops k m outbox hk hb hm =>
    have hw := Wire.exclusive_spawn h ⟨(WriteCall.queueMessage (serialize m)).stages, none⟩ rfl
    simpa [Event.wire?, spawn] using hw
  | call call => simpa [spawn] using Wire.exclusive_spawn h ⟨call.stages, none⟩ rfl
  | ignored call => simpa using h
  | wire a b wire fs hb ha hw =>
    rw [wirePart_wire]
    refine Wire.exclusive_step h ?_ hw
    cases b with
    | start n => exact hc n (ha n rfl)
    | _ => trivial
  | concludes a b n k ok m wire fs outbox gs hq hb hw hk hsend =>
    rw [wirePart_append, wirePart_wire, wirePart_outbox, List.append_nil]
    refine Wire.exclusive_step h ?_ hw
    cases ok <;> rw [hb] <;> trivial

theorem run_exclusive {w : List (Op μ)} (hc : (machine serialize max).Along ClosesAlone w [] {})
    (hr : (machine serialize max).run w [] {} = some (t, s)) :
    Wire.Exclusive (wirePart t) s.wire := by
  refine run_invariant_along (M := machine serialize max) (C := ClosesAlone)
    (I := fun t s => Wire.Exclusive (wirePart t) s.wire) ?_ ?_ hc hr
  · intro t s a s' es h hc hs
    exact exclusive_step h hc hs
  · exact Wire.exclusive_of_silent (by simp [Wire.Writing, Wire.current]) rfl

/-- The wire carries whole frames, and of the last one what has been sent of it. -/
theorem exclusive_frames (h : Wire.Exclusive (wirePart t) s.wire) :
    ∃ part, Wire.sent (wirePart t) = ((frames t).map Prod.snd).flatten ++ part ∧
      (∀ k d r, s.wire.current k = some (d, r) → d = part) ∧
      ((∀ k, ¬ s.wire.Writing k) → part = []) := by
  rw [← ended_frames]
  by_cases hw : ∃ k, s.wire.Writing k
  · obtain ⟨k, hk⟩ := hw
    obtain ⟨⟨d, r⟩, hcur⟩ := Option.isSome_iff_exists.mp hk
    refine ⟨d, h.inside k d r hcur, ?_, fun hn => absurd hk (hn k)⟩
    intro k' d' r' hcur'
    have hsame := h.alone k' k (by simp [Wire.Writing, hcur']) hk
    rw [hsame, hcur] at hcur'
    cases hcur'
    rfl
  · have hsilent : ∀ k, ¬ s.wire.Writing k := fun k hk => hw ⟨k, hk⟩
    refine ⟨[], ?_, ?_, fun _ => rfl⟩
    · rw [List.append_nil]
      exact h.between hsilent
    · intro k d r hcur
      exact absurd (by simp [Wire.Writing, hcur]) (hsilent k)

def Unchained (s : Outgoing μ) : Prop :=
  ∀ w ∈ s.wire.writers, ∀ f, .chained f ∉ w.stages

theorem unchained_spawn (h : Unchained s) {call : WriteCall} {q : Bool} (outbox : Outbox μ)
    (hcall : ∀ f, .chained f ∉ call.stages) :
    Unchained (spawn { s with outbox := outbox } call q) := by
  intro w hw
  cases List.mem_append.mp hw with
  | inl hw => exact h w hw
  | inr hw =>
    rw [List.mem_singleton.mp hw]
    exact hcall

theorem unchained_wire {s s' : Wire} {b : Wire.Op} {fs : List Wire.Event}
    (h : ∀ w ∈ s.writers, ∀ f, WriteStage.chained f ∉ w.stages) (hb : ∀ call, b ≠ .spawn call)
    (hs : Wire.step s b = some (s', fs)) :
    ∀ w ∈ s'.writers, ∀ f, WriteStage.chained f ∉ w.stages := by
  have hset : ∀ {n : Nat} {w w' : Writer}, s.writers[n]? = some w →
      s'.writers = s.writers.set n w' → (∀ stage ∈ w'.stages, stage ∈ w.stages) →
      ∀ w ∈ s'.writers, ∀ f, WriteStage.chained f ∉ w.stages := by
    intro n w w' hw hset hsub x hx f hf
    rw [hset] at hx
    cases List.mem_or_eq_of_mem_set hx with
    | inl hx => exact h x hx f hf
    | inr hx =>
      subst hx
      exact h w (List.mem_of_getElem? hw) f (hsub _ hf)
  cases wireStep hb hs with
  | goesOn b n w w' hnot hw hws hst hwh => exact hset hw hws fun stage h => hst ▸ h
  | ends n ok b stage rest d r w' he hw hws hcur hst hes =>
    exact hset hw hws fun stage h => List.mem_cons_of_mem _ (hst stage h)

theorem unchained_step (h : Unchained s)
    (ha : ∀ text close, a ≠ .call (.sendErrorAsync text close true))
    (hs : s.step serialize max a = some (s', es)) : Unchained s' := by
  cases step_cases hs with
  | queue a b outbox fs hact hsend hb => exact h
  | stops k outbox hk hb => exact h
  | pops k m outbox hk hb hm => exact unchained_spawn h outbox (by simp [WriteCall.stages])
  | call call =>
    refine unchained_spawn h s.outbox ?_
    cases call with
    | sendErrorAsync text close fatal =>
      cases fatal with
      | false => simp [WriteCall.stages]
      | true => exact absurd rfl (ha text close)
    | _ => simp [WriteCall.stages]
  | ignored call => exact h
  | wire a b wire fs hb ha hw => exact unchained_wire h hb.not_spawn hw
  | concludes a b n k ok m wire fs outbox gs hq hb hw hk hsend =>
    exact unchained_wire h hb.not_spawn hw

theorem closesAlone_of_unchained (h : Unchained s) : ClosesAlone t s a := by
  intro n ha
  simp only [Wire.ClosesAlone]
  split
  · next f rest hk => exact absurd List.mem_cons_self (h _ (List.mem_of_getElem? hk) f)
  · intro j hj
    obtain ⟨f, rest, cur, hk⟩ := hj
    exact h _ (List.mem_of_getElem? hk) f List.mem_cons_self
  · trivial

/-- Only the close frame of a fatal error can get between the bytes of another frame. -/
theorem along_closesAlone {w : List (Op μ)}
    (hw : ∀ a ∈ w, ∀ text close, a ≠ .call (.sendErrorAsync text close true)) (h : Unchained s) :
    (machine serialize max).Along ClosesAlone w t s := by
  induction w generalizing t s with
  | nil => trivial
  | cons a w ih =>
    intro s' es hs
    exact ⟨closesAlone_of_unchained h, ih (fun b hb => hw b (List.mem_cons_of_mem a hb))
      (unchained_step h (hw a List.mem_cons_self) hs)⟩

/-- From the queue to the bytes: the frames of the queue are its messages in the order of
acceptance, each whole or cut off by its failure, and the socket carries frame after frame. -/
theorem queue_on_wire (serialize : μ → List UInt8) (max : Nat) (w : List (Op μ))
    (t : List (Event μ)) (s : Outgoing μ)
    (hr : (machine serialize max).run w [] {} = some (t, s)) :
    (written t ++ s.outbox.inFlight).Sublist
        (Channel.accepted (Outbox.channel (outboxPart t))) ∧
      (Channel.cleared (Outbox.channel (outboxPart t)) = [] →
        Channel.accepted (Outbox.channel (outboxPart t)) =
          written t ++ s.outbox.inFlight ++ s.outbox.queue.reverse) ∧
      (∀ m e, Event.wire (some m) e ∈ t → Fits (serialize m) e) ∧
      ((machine serialize max).Along ClosesAlone w [] {} →
        ∃ part, Wire.sent (wirePart t) = ((frames t).map Prod.snd).flatten ++ part ∧
          (∀ k d r, s.wire.current k = some (d, r) → d = part) ∧
          ((∀ k, ¬ s.wire.Writing k) → part = [])) := by
  obtain ⟨-, hwritten, hfits⟩ := run_linked hr
  obtain ⟨v, hv⟩ := run_outbox hr
  have hpopped := (Outbox.run_ready hv).2
  have hacc := Outbox.run_accounted hv
  rw [← hwritten] at hpopped
  refine ⟨?_, ?_, hfits, fun hc => exclusive_frames (run_exclusive hc hr)⟩
  · rw [← hpopped, hacc.conserved]
    exact (Channel.popped_sublist_removed _).trans (List.sublist_append_left _ _)
  · intro hclear
    rw [hacc.conserved, Channel.removed_of_uncleared hclear, hpopped]

def queueThenPing : List (Op UInt8) :=
  [.queueMessage (some 7), .queueMessage (some 9), .act 0, .call (.ping [5]), .start 0, .write 0 2,
    .finish 0 0, .start 1, .act 0, .write 1 1, .finish 1 0, .start 2, .write 2 1, .fail 2 0,
    .queueMessage (some 4), .act 0, .start 3, .write 3 1]

theorem queue_on_wire_queueThenPing :
    ∃ t s, (machine (fun m => [m, 0]) 8).run queueThenPing [] {} = some (t, s) ∧
      frames t = [(some 7, [7, 0]), (none, [5]), (some 9, [9])] ∧
      Wire.sent (wirePart t) = [7, 0, 5, 9, 4] ∧ s.outbox.inFlight = [4] ∧
      ∃ part, Wire.sent (wirePart t) = ((frames t).map Prod.snd).flatten ++ part := by
  have hrun : ((machine (fun m => [m, 0]) 8).run queueThenPing [] {}).map (fun r =>
      (frames r.1, Wire.sent (wirePart r.1), r.2.outbox.inFlight)) =
        some ([(some 7, [7, 0]), (none, [5]), (some 9, [9])], [7, 0, 5, 9, 4], [4]) := by
    decide +kernel
  obtain ⟨⟨t, s⟩, hr, hts⟩ := Option.map_eq_some_iff.mp hrun
  simp only [Prod.mk.injEq] at hts
  have hc : (machine (fun m => [m, 0]) 8).Along ClosesAlone queueThenPing [] {} :=
    along_closesAlone (by simp [queueThenPing]) (by simp [Unchained])
  obtain ⟨part, hpart, -⟩ := (queue_on_wire _ 8 queueThenPing t s hr).2.2.2 hc
  exact ⟨t, s, hr, hts.1, hts.2.1, hts.2.2, part, hpart⟩

end Outgoing
end Helicopter
