import Helicopter.Room
import Helicopter.Threads

/-! `m_socket` of a peer: attached from the constructor to the first half of `invalidateSocket`,
and never again. -/
namespace Helicopter
open Interleaving

namespace Outbox
variable {μ : Type*}

theorem socket_queueMessage (o : Outbox μ) (max : Nat) (message : Option μ) :
    (o.queueMessage max message).1.socket = o.socket := by
  cases message with
  | none => rfl
  | some m =>
    simp only [queueMessage]
    split
    · split
      · split <;> rfl
      · rfl
    · rfl

/-- Only `resetSocket` touches the socket. -/
theorem step_socket {max : Nat} {o o' : Outbox μ} {a : Op μ} {es : List (Event μ)}
    (hs : step max o a = some (o', es)) :
    o'.socket = true ↔ o.socket = true ∧ a ≠ .resetSocket := by
  cases a with
  | queueMessage message =>
    simp only [step, Option.some.injEq] at hs
    have hsocket := socket_queueMessage o max message
    rw [hs] at hsocket
    have hsame : o'.socket = o.socket := hsocket
    simp [hsame]
  | act k =>
    simp only [step, act] at hs
    split at hs
    · split at hs <;> cases hs <;> simp
    · cases hs
  | send k ok =>
    simp only [step, send] at hs
    split at hs
    · cases hs
      simp
    · cases hs
  | resetSocket =>
    cases hs
    simp [resetSocket]
  | clearQueue =>
    cases hs
    simp

end Outbox

namespace Session
variable {s s' : Session} {es : List Event} {a : Op} {j : PeerRef}

/-- A socket is reset in `onBeforeDestroy_NonBlocking` of its own, or in `checkPingsRules`. -/
theorem step_resetSocket (hs : s.step a = some (s', es)) (hr : .resetSocket j ∈ es) :
    (∃ p, s.objects[j]? = some p) ∧ (a = .close j ∨
      ∃ c now timestamp, a = .tick c now ∧ .checked j timestamp true ∈ es) := by
  cases step_cases hs with
  | findSession => cases hr
  | newPeer k isHost hl => cases List.mem_singleton.mp hr
  | advance i p c s' es hp ha =>
    cases ha with
    | add ht hm =>
      obtain he | he := List.mem_cons.mp hr
      · cases he
      · obtain ⟨k, notice, he⟩ := offer_of_mem_addPeer he
        cases he
    | remove ht hm =>
      obtain he | he := List.mem_cons.mp hr
      · cases he
      · obtain ⟨k, notice, he⟩ := offer_of_mem_removePeerById he
        cases he
    | _ => simp at hr
  | handle i p message now s₁ task es hp ht hre => cases hre <;> simp at hr
  | close i p hp ht =>
    cases List.mem_singleton.mp hr
    exact ⟨⟨p, hp⟩, Or.inl rfl⟩
  | tick c now s' es ht =>
    cases ht with
    | drop timestamp rest k p hpg hc hp hf =>
      simp only [List.mem_cons, Event.resetSocket.injEq, reduceCtorEq, List.not_mem_nil, or_false,
        false_or] at hr
      subst hr
      exact ⟨⟨p, hp⟩, Or.inr ⟨c, now, timestamp, rfl, List.mem_cons_self⟩⟩
    | _ => simp at hr

end Session

namespace Room
variable {id : String} {config : GameConfigDto} {t es : List Event} {r r' : Room} {a : Op}
  {os os' : List (Outbox MessageDto)} {max : Nat} {i j : PeerRef}

def attachedIn (os : List (Outbox MessageDto)) (j : PeerRef) : Bool := (os[j]?).any Outbox.socket

theorem attachedIn_stepOutbox {b : Outbox.Op MessageDto}
    (h : stepOutbox max os i b = some (os', es)) :
    attachedIn os' j = true ↔ attachedIn os j = true ∧ ¬ (i = j ∧ b = .resetSocket) := by
  obtain ⟨o, o', fs, ho, hs, rfl, -⟩ := stepOutbox_some h
  have hlt := (List.getElem?_eq_some_iff.mp ho).1
  unfold attachedIn
  by_cases hj : i = j
  · subst hj
    rw [List.getElem?_set_self hlt, ho]
    simp [Outbox.step_socket hs]
  · rw [List.getElem?_set_ne hj]
    simp [hj]

theorem outboxOp_resetSocket {e : Session.Event} {b : Outbox.Op MessageDto}
    (h : outboxOp e = some (i, b)) : i = j ∧ b = .resetSocket ↔ e = .resetSocket j := by
  cases e with
  | resetSocket k =>
    cases h
    simp
  | offer k m =>
    cases h
    simp
  | clearQueue k =>
    cases h
    simp
  | _ => cases h

/-- An event of the session takes the socket away only by name. -/
theorem attachedIn_react (e : Session.Event) (hj : j < os.length) :
    attachedIn (react max os e).1 j = true ↔ attachedIn os j = true ∧ e ≠ .resetSocket j := by
  unfold react
  split
  · simp [attachedIn, List.getElem?_append_left hj]
  · split
    · next hnone =>
      have hne : e ≠ .resetSocket j := by
        rintro rfl
        cases hnone
      exact (and_iff_left hne).symm
    · next i b hb =>
      split
      · next hnone =>
        have hne : e ≠ .resetSocket j := by
          rintro rfl
          cases hb
          simp [stepOutbox, List.getElem?_eq_getElem hj, Outbox.step] at hnone
        exact (and_iff_left hne).symm
      · next hs => rw [attachedIn_stepOutbox hs, outboxOp_resetSocket hb]

theorem attachedIn_reactAll (es : List Session.Event) (hj : j < os.length) :
    attachedIn (reactAll max os es).1 j = true ↔
      attachedIn os j = true ∧ .resetSocket j ∉ es := by
  induction es generalizing os with
  | nil => simp [reactAll]
  | cons e es ih =>
    have hlt : j < (react max os e).1.length := by
      rw [length_react]
      exact Nat.lt_add_right _ hj
    simp only [reactAll, ih hlt, attachedIn_react e hj, List.mem_cons, not_or, ne_comm, and_assoc,
      ne_eq]

theorem attached_quiet {b : Outbox.Op MessageDto} (h : stepOutbox max os i b = some (os', es))
    (hb : b ≠ .resetSocket) :
    attachedIn os' j = true ↔ attachedIn os j = true ∧ .resetSocket j ∉ sessionPart es := by
  obtain ⟨o, o', fs, -, -, -, rfl⟩ := stepOutbox_some h
  rw [attachedIn_stepOutbox h, sessionPart_outbox]
  simp [hb]

/-- What a step does to the socket of a peer that is there. -/
theorem attached_step (hs : r.step a = some (r', es)) (hj : j < r.outboxes.length) :
    r'.attached j = true ↔ r.attached j = true ∧ .resetSocket j ∉ sessionPart es := by
  cases a with
  | session b =>
    simp only [step] at hs
    split at hs
    · cases hs
    · cases hs
      rw [sessionPart_reactAll]
      exact attachedIn_reactAll _ hj
  | act k l =>
    simp only [step] at hs
    split at hs
    · cases hs
    · next hst =>
      cases hs
      exact attached_quiet hst fun hb => by cases hb
  | send k l ok =>
    simp only [step] at hs
    split at hs
    · cases hs
    · next hst =>
      cases hs
      exact attached_quiet hst fun hb => by cases hb

structure Sockets (t : List Event) (r : Room) : Prop where
  attached : ∀ j, j < r.session.objects.length →
    (r.attached j = true ↔ .resetSocket j ∉ sessionPart t)
  named : ∀ j, .resetSocket j ∈ sessionPart t → j < r.session.objects.length

theorem sockets_init (id : String) (config : GameConfigDto) : Sockets [] (init id config) := by
  constructor
  · intro j hj
    cases hj
  · intro j hj
    cases hj

theorem attached_new {k : Nat} (hs : r.step (.session (.newPeer k)) = some (r', es)) :
    r'.attached r.outboxes.length = true := by
  simp only [step, Session.step] at hs
  split at hs
  · cases hs
  · next hs' =>
    split at hs'
    · cases hs'
    · cases hs'
      cases hs
      simp [attached, reactAll, react]

theorem sockets_step (h : Reached id config t r) (hk : Sockets t r)
    (hs : r.step a = some (r', es)) : Sockets (t ++ es) r' := by
  have hold : ∀ j, j < r.session.objects.length →
      (r'.attached j = true ↔ .resetSocket j ∉ sessionPart (t ++ es)) := by
    intro j hj
    rw [attached_step hs (h.length ▸ hj), hk.attached j hj, sessionPart_append, List.mem_append,
      not_or]
  obtain ⟨b, rfl, hst⟩ | ⟨-, hsame, hnil⟩ := step_session hs
  · have hnamed : ∀ j, .resetSocket j ∈ sessionPart (t ++ es) → j < r.session.objects.length := by
      intro j hj
      rw [sessionPart_append] at hj
      obtain hj | hj := List.mem_append.mp hj
      · exact hk.named j hj
      · obtain ⟨⟨p, hp⟩, -⟩ := Session.step_resetSocket hst hj
        exact (List.getElem?_eq_some_iff.mp hp).1
    have hlen := (Session.step_static hst).2.2
    refine ⟨?_, fun j hj => Nat.lt_of_lt_of_le (hnamed j hj) (by omega)⟩
    intro j hj
    by_cases hlt : j < r.session.objects.length
    · exact hold j hlt
    · -- a new peer
      have hnew : j = r.outboxes.length ∧ ∃ k, b = .newPeer k := by
        obtain ⟨ho, -⟩ | ⟨k, isHost, hb, -, ho⟩ | ⟨i, p, q, -, -, ho⟩ := Session.step_objects hst
        · rw [ho] at hj
          exact absurd hj hlt
        · rw [ho, List.length_append, List.length_singleton] at hj
          exact ⟨by rw [h.length]; omega, k, hb⟩
        · rw [ho, Session.setPeer, List.length_set] at hj
          exact absurd hj hlt
      obtain ⟨rfl, k, rfl⟩ := hnew
      exact iff_of_true (attached_new hs) fun hmem => hlt (hnamed _ hmem)
  · constructor
    · intro j hj
      rw [hsame] at hj
      exact hold j hj
    · intro j hj
      rw [sessionPart_append, hnil, List.append_nil] at hj
      rw [hsame]
      exact hk.named j hj

end Room
end Helicopter
