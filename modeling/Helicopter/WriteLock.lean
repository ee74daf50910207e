import Helicopter.Lib.Family

/-! The coroutines that write frames to the socket of one admitted peer, and its `m_writeLock`.
`synchronize(lock, op)` holds the lock while `op` runs, `.next(...)` runs after the release, and
a frame goes out in as many scheduler steps as the transport likes. -/
namespace Helicopter
open Interleaving

/-- One write of a coroutine's pipeline: inside `synchronize(&m_writeLock, ...)`, or chained
behind it with `.next(...)`. -/
inductive WriteStage where
  | synchronized (frame : List UInt8)
  | chained (frame : List UInt8)

def WriteStage.frame : WriteStage → List UInt8
  | .synchronized frame | .chained frame => frame

/-- The callers that start a coroutine on the socket, with the frames it sends. Each `act` of
the queued-message sender counts as a call of its own: `repeat()` starts the next one. -/
inductive WriteCall where
  | sendMessageAsync (text : List UInt8)
  | sendErrorAsync (text close : List UInt8) (fatal : Bool)
  | queueMessage (text : List UInt8)
  | ping (text : List UInt8)
  | kick (text : List UInt8)
  | onPing (pong : List UInt8)

/-- The `act` of the coroutine: what it writes, in order. -/
def WriteCall.stages : WriteCall → List WriteStage
  | .sendMessageAsync text => [.synchronized text]
  | .sendErrorAsync text close fatal =>
    if fatal then [.synchronized text, .chained close] else [.synchronized text]
  | .queueMessage text => [.synchronized text]
  | .ping text => [.synchronized text]
  | .kick text => [.synchronized text]
  | .onPing pong => [.synchronized pong]

/-- `current` is the frame between its start and its end: the bytes sent and those to send. -/
structure Writer where
  stages : List WriteStage
  current : Option (List UInt8 × List UInt8) := none

structure Wire where
  lock : Option Nat := none
  writers : List Writer := []

namespace Wire

inductive Event where
  | bytes (chunk : List UInt8)
  | finished (frame : List UInt8)
  | aborted (part : List UInt8)

inductive Op where
  | spawn (call : WriteCall)
  | start (k : Nat)
  | write (k n : Nat)
  | finish (k : Nat)
  | fail (k : Nat)

/-- The `LockGuard` of `synchronize` lets go when its operation is over, failed or not. -/
def release (s : Wire) : WriteStage → Option Nat
  | .synchronized _ => none
  | .chained _ => s.lock

def step (s : Wire) : Op → Option (Wire × List Event)
  | .spawn call => some ({ s with writers := s.writers ++ [⟨call.stages, none⟩] }, [])
  | .start k =>
    match s.writers[k]? with
    | some ⟨.synchronized f :: rest, none⟩ =>
      if s.lock = none then
        some (⟨some k, s.writers.set k ⟨.synchronized f :: rest, some ([], f)⟩⟩, [])
      else none
    | some ⟨.chained f :: rest, none⟩ =>
      some ({ s with writers := s.writers.set k ⟨.chained f :: rest, some ([], f)⟩ }, [])
    | _ => none
  | .write k n =>
    match s.writers[k]? with
    | some ⟨stages, some (sent, todo)⟩ =>
      some ({ s with writers := s.writers.set k ⟨stages, some (sent ++ todo.take n, todo.drop n)⟩ },
        [.bytes (todo.take n)])
    | _ => none
  | .finish k =>
    match s.writers[k]? with
    | some ⟨stage :: rest, some (_, [])⟩ =>
      some (⟨s.release stage, s.writers.set k ⟨rest, none⟩⟩, [.finished stage.frame])
    | _ => none
  | .fail k =>
    match s.writers[k]? with
    | some ⟨stage :: _, some (sent, _)⟩ =>
      some (⟨s.release stage, s.writers.set k ⟨[], none⟩⟩, [.aborted sent])
    | _ => none

def machine : Machine Wire Op Event := ⟨step⟩

def current (s : Wire) (k : Nat) : Option (List UInt8 × List UInt8) :=
  (s.writers[k]?).bind Writer.current

def Writing (s : Wire) (k : Nat) : Prop := (s.current k).isSome = true

def WritingChained (s : Wire) (k : Nat) : Prop :=
  ∃ f rest cur, s.writers[k]? = some ⟨.chained f :: rest, some cur⟩

def Event.bytes? : Event → List UInt8
  | .bytes chunk => chunk
  | _ => []

def Event.ended? : Event → List UInt8
  | .finished frame => frame
  | .aborted part => part
  | _ => []

def sent (t : List Event) : List UInt8 := t.flatMap Event.bytes?

def ended (t : List Event) : List UInt8 := t.flatMap Event.ended?

@[simp] theorem sent_append (t u : List Event) : sent (t ++ u) = sent t ++ sent u :=
  List.flatMap_append ..
@[simp] theorem ended_append (t u : List Event) : ended (t ++ u) = ended t ++ ended u :=
  List.flatMap_append ..

structure Separate (t : List Event) (s : Wire) : Prop where
  alone : ∀ i j, s.Writing i → s.Writing j → i = j
  inside : ∀ k d r, s.current k = some (d, r) → sent t = ended t ++ d
  between : (∀ k, ¬ s.Writing k) → sent t = ended t

/-- The chained close frame of a fatal error, the one write outside the lock, starts while no
frame is being written, and no synchronized write starts while it is being written. -/
def ClosesAlone (_ : List Event) (s : Wire) : Op → Prop
  | .start k =>
    match s.writers[k]? with
    | some ⟨.chained _ :: _, none⟩ => ∀ j, ¬ s.Writing j
    | some ⟨.synchronized _ :: _, none⟩ => ∀ j, ¬ s.WritingChained j
    | _ => True
  | _ => True

/-! ## The invariant -/

structure Exclusive (t : List Event) (s : Wire) : Prop extends Separate t s where
  held : ∀ k f rest cur, s.writers[k]? = some ⟨.synchronized f :: rest, some cur⟩ →
    s.lock = some k
  whole : ∀ (k : Nat) (w : Writer) d r, s.writers[k]? = some w → w.current = some (d, r) →
    ∃ (stage : WriteStage) (rest : List WriteStage), w.stages = stage :: rest ∧ d ++ r = stage.frame

theorem current_set {s : Wire} {k : Nat} {w w' : Writer} {lock : Option Nat}
    (hk : s.writers[k]? = some w) (j : Nat) :
    (Wire.mk lock (s.writers.set k w')).current j = if j = k then w'.current else s.current j := by
  have hlt := (List.getElem?_eq_some_iff.mp hk).1
  unfold current
  by_cases hj : j = k
  · subst hj
    simp [List.getElem?_set_self hlt]
  · rw [if_neg hj, List.getElem?_set_ne (Ne.symm hj)]

theorem writing_set {s : Wire} {k : Nat} {w w' : Writer} {lock : Option Nat}
    (hk : s.writers[k]? = some w) (j : Nat) :
    (Wire.mk lock (s.writers.set k w')).Writing j ↔
      if j = k then w'.current.isSome = true else s.Writing j := by
  unfold Writing
  rw [current_set hk j]
  split <;> rfl

theorem writing_iff {s : Wire} {k : Nat} {w : Writer} (hk : s.writers[k]? = some w) :
    s.Writing k ↔ w.current.isSome = true := by
  simp [Writing, current, hk]

theorem current_append {s : Wire} {w : Writer} (hw : w.current = none) (j : Nat) :
    ({ s with writers := s.writers ++ [w] } : Wire).current j = s.current j := by
  unfold current
  obtain h | h | h := Nat.lt_trichotomy j s.writers.length
  · rw [List.getElem?_append_left h]
  · subst h
    simp [hw]
  · rw [List.getElem?_eq_none (by simp; omega), List.getElem?_eq_none (by omega)]

theorem exclusive_of_silent {t : List Event} {s : Wire} (h : ∀ k, ¬ s.Writing k)
    (hb : sent t = ended t) : Exclusive t s where
  alone i j hi _ := absurd hi (h i)
  inside k d r hk := absurd (by simp [Writing, hk]) (h k)
  between _ := hb
  held k f rest cur hk := absurd ((writing_iff hk).mpr rfl) (h k)
  whole k w d r hk hc := absurd ((writing_iff hk).mpr (by simp [hc])) (h k)

theorem exclusive_of_single {t : List Event} {s : Wire} {k : Nat} {w : Writer} {d r : List UInt8}
    (hk : s.writers[k]? = some w) (hc : w.current = some (d, r))
    (honly : ∀ j, s.Writing j → j = k) (hb : sent t = ended t ++ d)
    (hheld : ∀ f rest, w.stages = .synchronized f :: rest → s.lock = some k)
    (hwhole : ∃ (stage : WriteStage) (rest : List WriteStage),
      w.stages = stage :: rest ∧ d ++ r = stage.frame) : Exclusive t s where
  alone i j hi hj := (honly i hi).trans (honly j hj).symm
  inside j d' r' hj := by
    have he := honly j (by simp [Writing, hj])
    subst he
    simp only [current, hk, Option.bind_some, hc, Option.some.injEq, Prod.mk.injEq] at hj
    rw [hb, hj.1]
  between h := absurd ((writing_iff hk).mpr (by simp [hc])) (h k)
  held j f rest cur hj := by
    have he := honly j ((writing_iff hj).mpr rfl)
    subst he
    rw [hk] at hj
    cases hj
    exact hheld f rest rfl
  whole j w' d' r' hj hc' := by
    have he := honly j ((writing_iff hj).mpr (by simp [hc']))
    subst he
    rw [hk] at hj
    cases hj
    rw [hc] at hc'
    cases hc'
    exact hwhole

/-- The coroutine that is writing stops, with all of its frame out or with a failure. -/
theorem exclusive_stop {t es : List Event} {s : Wire} {k : Nat} {w w' : Writer} {d r : List UInt8}
    {lock : Option Nat} (h : Exclusive t s) (hk : s.writers[k]? = some w)
    (hc : w.current = some (d, r)) (hc' : w'.current = none) (hs : sent es = [])
    (he : ended es = d) : Exclusive (t ++ es) ⟨lock, s.writers.set k w'⟩ := by
  have hw : s.Writing k := (writing_iff hk).mpr (by simp [hc])
  apply exclusive_of_silent
  · intro j hj
    rw [writing_set hk j] at hj
    split at hj
    · simp [hc'] at hj
    · next hne => exact hne (h.alone j k hj hw)
  · have hin := h.inside k d r (by simp [current, hk, hc])
    simp [hs, he, hin]

/-- A coroutine begins a frame while no other is writing. -/
theorem exclusive_start {t : List Event} {s : Wire} {k : Nat} {stage : WriteStage}
    {rest : List WriteStage}
    {lock : Option Nat} (h : Exclusive t s) (hk : s.writers[k]? = some ⟨stage :: rest, none⟩)
    (hsilent : ∀ j, ¬ s.Writing j)
    (hlock : ∀ f, stage = .synchronized f → lock = some k) :
    Exclusive (t ++ []) ⟨lock, s.writers.set k ⟨stage :: rest, some ([], stage.frame)⟩⟩ := by
  have hlt := (List.getElem?_eq_some_iff.mp hk).1
  refine exclusive_of_single (k := k) (List.getElem?_set_self hlt) rfl ?_ ?_ ?_
    ⟨stage, rest, rfl, rfl⟩
  · intro j hj
    rw [writing_set hk j] at hj
    split at hj
    · assumption
    · exact absurd hj (hsilent j)
  · simpa using h.between hsilent
  · intro f rest' hst
    simp only [List.cons.injEq] at hst
    exact hlock f hst.1

theorem exclusive_write {t : List Event} {s : Wire} {k n : Nat} {stages : List WriteStage}
    {d r : List UInt8} (h : Exclusive t s) (hk : s.writers[k]? = some ⟨stages, some (d, r)⟩) :
    Exclusive (t ++ [.bytes (r.take n)])
      { s with writers := s.writers.set k ⟨stages, some (d ++ r.take n, r.drop n)⟩ } := by
  have hlt := (List.getElem?_eq_some_iff.mp hk).1
  have hw : s.Writing k := (writing_iff hk).mpr rfl
  refine exclusive_of_single (k := k) (List.getElem?_set_self hlt) rfl ?_ ?_ ?_ ?_
  · intro j hj
    rw [writing_set hk j] at hj
    split at hj
    · assumption
    · exact h.alone j k hj hw
  · have hin := h.inside k d r (by simp [current, hk])
    simp only [sent_append, ended_append]
    simp only [sent, ended, Event.bytes?, Event.ended?, List.flatMap_cons, List.flatMap_nil,
      List.append_nil] at hin ⊢
    rw [hin, List.append_assoc]
  · intro f rest hst
    subst hst
    exact h.held k f rest (d, r) hk
  · obtain ⟨stage, rest, hst, hf⟩ := h.whole k _ d r hk rfl
    exact ⟨stage, rest, hst, by rw [List.append_assoc, List.take_append_drop]; exact hf⟩

theorem exclusive_spawn {t : List Event} {s : Wire} (h : Exclusive t s) (w : Writer)
    (hw : w.current = none) : Exclusive t { s with writers := s.writers ++ [w] } := by
  have hcur : ∀ j, ({ s with writers := s.writers ++ [w] } : Wire).current j = s.current j :=
    fun j => current_append hw j
  have hold : ∀ (k : Nat) (x : Writer), x.current.isSome = true →
      (s.writers ++ [w])[k]? = some x → s.writers[k]? = some x := by
    intro k x hx hk
    rw [getElem?_snoc] at hk
    split at hk
    · cases hk
      rw [hw] at hx
      cases hx
    · exact hk
  exact
    { alone := fun i j hi hj =>
        h.alone i j (by simpa [Writing, hcur] using hi) (by simpa [Writing, hcur] using hj)
      inside := fun k d r hk => h.inside k d r (by rwa [hcur] at hk)
      between := fun hn => h.between fun k hk => hn k (by simpa [Writing, hcur] using hk)
      held := fun k f rest cur hk => h.held k f rest cur (hold k _ rfl hk)
      whole := fun k x d r hk hx => h.whole k x d r (hold k x (by simp [hx]) hk) hx }

/-- A writer would hold the lock, or be writing a close frame. -/
theorem not_writing_of_free {t : List Event} {s : Wire} (h : Exclusive t s)
    (hfree : s.lock = none) (hclose : ∀ j, ¬ s.WritingChained j) (j : Nat) : ¬ s.Writing j := by
  intro hj
  obtain ⟨w, hw, hcur⟩ : ∃ w, s.writers[j]? = some w ∧ w.current.isSome = true := by
    cases hw : s.writers[j]? with
    | none => simp [Writing, current, hw] at hj
    | some w => exact ⟨w, rfl, (writing_iff hw).mp hj⟩
  obtain ⟨stages, cur⟩ := w
  obtain ⟨⟨d, r⟩, rfl⟩ := Option.isSome_iff_exists.mp hcur
  obtain ⟨stage, rest, hst, -⟩ := h.whole j _ d r hw rfl
  simp only at hst
  subst hst
  cases stage with
  | synchronized g =>
    have := h.held j g rest (d, r) hw
    rw [hfree] at this
    cases this
  | chained g => exact hclose j ⟨g, rest, (d, r), hw⟩

theorem exclusive_step {t es : List Event} {s s' : Wire} {a : Op} (h : Exclusive t s)
    (hc : ClosesAlone t s a) (hs : step s a = some (s', es)) : Exclusive (t ++ es) s' := by
  cases a with
  | spawn call =>
    cases hs
    rw [List.append_nil]
    exact exclusive_spawn h ⟨call.stages, none⟩ rfl
  | start k =>
    simp only [step] at hs
    simp only [ClosesAlone] at hc
    split at hs
    · next f rest hk =>
      simp only [hk] at hc
      split at hs
      · next hfree =>
        cases hs
        exact exclusive_start h hk (not_writing_of_free h hfree hc) (fun _ _ => rfl)
      · cases hs
    · next f rest hk =>
      cases hs
      simp only [hk] at hc
      exact exclusive_start h hk hc (fun _ hf => by cases hf)
    · cases hs
  | write k n =>
    simp only [step] at hs
    split at hs
    · next stages d r hk =>
      cases hs
      exact exclusive_write h hk
    · cases hs
  | finish k =>
    simp only [step] at hs
    split at hs
    · next stage rest d hk =>
      cases hs
      obtain ⟨stage', rest', hst, hf⟩ := h.whole k _ d [] hk rfl
      simp only [List.cons.injEq] at hst
      obtain ⟨rfl, rfl⟩ := hst
      refine exclusive_stop h hk rfl rfl rfl ?_
      simpa [ended, Event.ended?] using hf.symm
    · cases hs
  | fail k =>
    simp only [step] at hs
    split at hs
    · next stage rest d r hk =>
      cases hs
      exact exclusive_stop h hk rfl rfl rfl (by simp [ended, Event.ended?])
    · cases hs

/-- A step without the condition puts two coroutines inside a frame. -/
theorem start_overlaps {t es : List Event} {s s' : Wire} {a : Op} (h : ¬ ClosesAlone t s a)
    (hs : step s a = some (s', es)) : ∃ i j, i ≠ j ∧ s'.Writing i ∧ s'.Writing j := by
  have hnew : ∀ {k j : Nat} {w w' : Writer} {lock : Option Nat}, s.writers[k]? = some w →
      w.current = none → w'.current.isSome = true → s.Writing j →
      ∃ i j, i ≠ j ∧ (Wire.mk lock (s.writers.set k w')).Writing i ∧
        (Wire.mk lock (s.writers.set k w')).Writing j := by
    intro k j w w' lock hk hw hw' hj
    have hne : j ≠ k := by
      intro he
      subst he
      rw [writing_iff hk, hw] at hj
      cases hj
    refine ⟨k, j, Ne.symm hne, ?_, ?_⟩
    · rw [writing_set hk, if_pos rfl]
      exact hw'
    · rw [writing_set hk, if_neg hne]
      exact hj
  cases a with
  | start k =>
    simp only [step] at hs
    simp only [ClosesAlone] at h
    split at hs
    · next f rest hk =>
      simp only [hk] at h
      push Not at h
      obtain ⟨j, g, rest', cur, hj⟩ := h
      split at hs
      · cases hs
        exact hnew hk rfl rfl ((writing_iff hj).mpr rfl)
      · cases hs
    · next f rest hk =>
      cases hs
      simp only [hk] at h
      push Not at h
      obtain ⟨j, hj⟩ := h
      exact hnew hk rfl rfl hj
    · cases hs
  | spawn call => exact absurd trivial h
  | write k n => exact absurd trivial h
  | finish k => exact absurd trivial h
  | fail k => exact absurd trivial h

/-- Frames stay apart on a schedule exactly when every close frame of a fatal error has the
wire to itself. -/
theorem frames_separate_iff (w : List Op) :
    machine.Throughout Separate w [] {} ↔ machine.Along ClosesAlone w [] {} := by
  have h0 : Exclusive [] ({} : Wire) := by
    apply exclusive_of_silent
    · intro k hk
      simp [Writing, current] at hk
    · rfl
  refine throughout_iff_along (I := Exclusive) (fun _ _ h => h.toSeparate) ?_ ?_ h0
  · intro t s a s' es h hc hs
    exact exclusive_step h hc hs
  · intro t s a s' es _ hc hs hsep
    obtain ⟨i, j, hne, hi, hj⟩ := start_overlaps hc hs
    exact hne (hsep.alone i j hi hj)

/-- An oversize message is answered by a fatal error; its text is out and the lock is free, a
ping of two bytes takes the lock, and the close frame starts between the two bytes. -/
def closeInsidePing : List Op :=
  [.spawn (.sendErrorAsync [1] [8] true), .spawn (.ping [2, 3]), .start 0, .write 0 1, .finish 0,
    .start 1, .write 1 1, .start 0, .write 0 1, .write 1 1]

theorem close_inside_ping :
    (∃ t s, machine.run closeInsidePing [] {} = some (t, s) ∧ sent t = [1, 2, 8, 3]) ∧
      ¬ machine.Throughout Separate closeInsidePing [] {} := by
  refine ⟨⟨_, _, rfl, rfl⟩, ?_⟩
  intro h
  have hs := throughout_iff_prefixes.mp h closeInsidePing (List.prefix_refl _) _ _ rfl
  have he := hs.alone 0 1 rfl rfl
  cases he

end Wire
end Helicopter
