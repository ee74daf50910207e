import Helicopter.Identity

/-! What `handleMessage` refuses, and what a refusal leaves behind: one error for the sender. -/
namespace Helicopter
open Interleaving

namespace Session
variable {s s' : Session} {es : List Event} {i : PeerRef} {p : Peer} {message : MessageDto}
  {peerId now : Int} {task : Task}

/-- The message breaks a rule of the operation it asks for. A sender who is not the host includes
the case that there is none. -/
def Refused (s : Session) (i : PeerRef) (message : MessageDto) : Prop :=
  match message.code with
  | none => True
  | some .incomingPong => message.payload = none
  | some .incomingBroadcast | some .incomingSynchronizedEvent => False
  | some .incomingDirectMessage =>
    message.payload = none ∨
      ∃ dm, message.payload = some (.directMessage dm) ∧
        (dm.peerIds = none ∨ dm.peerIds = some [])
  | some .incomingHostKickClients =>
    s.host ≠ some i ∨ message.payload = none ∨ message.payload = some (.int64s [])
  | some .incomingClientMessage => s.host = none ∨ s.host = some i
  | some _ => True

/-- The errors `sendErrorAsync` of the peer `i` is called with. -/
def Event.errorTo? (i : PeerRef) : Event → Option MessageDto
  | .error k m => if k = i then some m else none
  | _ => none

def errorsTo (i : PeerRef) (t : List Event) : List MessageDto := t.filterMap (Event.errorTo? i)

@[simp] theorem errorsTo_append (i : PeerRef) (t u : List Event) :
    errorsTo i (t ++ u) = errorsTo i t ++ errorsTo i u := List.filterMap_append ..

theorem errorsTo_eq_nil {t : List Event} (h : ∀ m, .error i m ∉ t) : errorsTo i t = [] := by
  rw [errorsTo, List.filterMap_eq_nil_iff]
  intro e he
  cases e with
  | error k m =>
    by_cases hk : k = i
    · subst hk
      exact absurd he (h m)
    · exact if_neg hk
  | _ => rfl

theorem errorsTo_error (i : PeerRef) (message m : MessageDto) :
    errorsTo i [.handled i message, .error i m] = [m] := by
  have hm : (Event.error i m).errorTo? i = some m := if_pos rfl
  unfold errorsTo
  rw [List.filterMap_cons_none rfl, List.filterMap_cons_some hm]
  rfl

/-! ## The handlers -/

inductive Verdict (s : Session) (i : PeerRef) (message : MessageDto) :
    Session → Task → List Event → Prop where
  | refused (e : ErrorDto) : s.Refused i message →
    Verdict s i message s .listening [.error i (.outgoingError e)]
  | taken (s' : Session) (task : Task) (es : List Event) : ¬ s.Refused i message →
    (∀ m, .error i m ∉ es) → Verdict s i message s' task es

theorem verdict_silent (h : ¬ s.Refused i message) : Verdict s i message s' task [] :=
  .taken s' task [] h fun _ hm => by cases hm

theorem payload_eq_none_or (hw : message.WellTyped) {code : MessageCodes}
    (hc : message.code = some code) :
    message.payload = none ∨ ∃ x, message.payload = some x ∧ code.payloadType = some x.type := by
  cases hp : message.payload with
  | none => exact Or.inl rfl
  | some x =>
    have hx := hw x hp
    rw [hc] at hx
    exact Or.inr ⟨x, rfl, hx⟩

theorem retrieveInt64_eq_none (hw : message.WellTyped) (hc : message.code = some .incomingPong) :
    message.retrieveInt64 = none ↔ message.payload = none := by
  unfold MessageDto.retrieveInt64
  obtain hp | ⟨x, hp, hx⟩ := payload_eq_none_or hw hc
  · simp [hp]
  · cases x with
    | int64 v => simp [hp]
    | _ => cases hx

theorem retrieveDirectMessage_eq_none (hw : message.WellTyped)
    (hc : message.code = some .incomingDirectMessage) :
    message.retrieveDirectMessage = none ↔ message.payload = none := by
  unfold MessageDto.retrieveDirectMessage
  obtain hp | ⟨x, hp, hx⟩ := payload_eq_none_or hw hc
  · simp [hp]
  · cases x with
    | directMessage dm => simp [hp]
    | _ => cases hx

theorem retrieveDirectMessage_eq_some {dm : DirectMessageDto} :
    message.retrieveDirectMessage = some dm ↔ message.payload = some (.directMessage dm) := by
  unfold MessageDto.retrieveDirectMessage
  split
  · next hp => simp [hp]
  · next hne =>
    constructor
    · intro h
      cases h
    · intro hp
      exact absurd hp (hne dm)

/-- `!ids || ids->empty()` -/
theorem retrieveInt64s_isEmpty (hw : message.WellTyped)
    (hc : message.code = some .incomingHostKickClients) :
    (message.retrieveInt64s.getD []).isEmpty = true ↔
      message.payload = none ∨ message.payload = some (.int64s []) := by
  unfold MessageDto.retrieveInt64s
  obtain hp | ⟨x, hp, hx⟩ := payload_eq_none_or hw hc
  · simp [hp]
  · cases x with
    | int64s ids => simp [hp]
    | _ => cases hx

theorem handlePong_verdict (hw : message.WellTyped) (hc : message.code = some .incomingPong)
    (h : s.handlePong i peerId message now = some (s', task, es)) :
    Verdict s i message s' task es := by
  have hiff : s.Refused i message ↔ message.payload = none := by
    unfold Refused
    rw [hc]
  rw [← retrieveInt64_eq_none hw hc] at hiff
  unfold handlePong at h
  split at h
  · next hn =>
    cases h
    exact .refused _ (hiff.mpr hn)
  · next v hv =>
    cases h
    refine .taken _ _ _ ?_ fun m hm => by cases List.mem_singleton.mp hm
    rw [hiff, hv]
    exact Option.some_ne_none v

theorem handleDirectMessage_verdict (hw : message.WellTyped)
    (hc : message.code = some .incomingDirectMessage)
    (h : s.handleDirectMessage i peerId message = some (s', task, es)) :
    Verdict s i message s' task es := by
  have hiff : s.Refused i message ↔ message.retrieveDirectMessage = none ∨
      ∃ dm, message.retrieveDirectMessage = some dm ∧
        (dm.peerIds = none ∨ dm.peerIds = some []) := by
    simp only [retrieveDirectMessage_eq_none hw hc, retrieveDirectMessage_eq_some]
    unfold Refused
    rw [hc]
  unfold handleDirectMessage at h
  split at h
  · next hn =>
    cases h
    exact .refused _ (hiff.mpr (Or.inl hn))
  · next dm hd =>
    have hempty : s.Refused i message ↔ (dm.peerIds.getD []).isEmpty = true := by
      rw [hiff, hd]
      cases hids : dm.peerIds <;> simp [hids]
    simp only at h
    split at h
    · next he =>
      cases h
      exact .refused _ (hempty.mpr he)
    · next he =>
      split at h
      · cases h
      · cases h
        exact verdict_silent (mt hempty.mp he)

theorem handleKickMessage_verdict (hw : message.WellTyped)
    (hc : message.code = some .incomingHostKickClients)
    (hrole : ∀ k, s.host = some k → s.peerId? k = some peerId → k = i)
    (hid : s.peerId? i = some peerId)
    (h : s.handleKickMessage i peerId message = some (s', task, es)) :
    Verdict s i message s' task es := by
  have hiff : s.Refused i message ↔
      s.host ≠ some i ∨ (message.retrieveInt64s.getD []).isEmpty = true := by
    rw [retrieveInt64s_isEmpty hw hc]
    unfold Refused
    rw [hc]
  unfold handleKickMessage at h
  split at h
  · cases h
  · unfold getHost at h
    split at h
    · next hh =>
      cases h
      exact .refused _ (hiff.mpr (Or.inl (by rw [hh]; exact Option.some_ne_none i ∘ Eq.symm)))
    · next k hh =>
      split at h
      · next hk =>
        cases h
        refine .refused _ (hiff.mpr (Or.inl ?_))
        rw [hh]
        rintro ⟨⟩
        exact hk hid
      · next hk =>
        have hki : k = i := hrole k hh (not_ne_iff.mp hk)
        simp only at h
        split at h
        · next he =>
          cases h
          exact .refused _ (hiff.mpr (Or.inr he))
        · next he =>
          cases h
          refine verdict_silent ?_
          rw [hiff, hh, hki]
          rintro (hne | hempty)
          · exact hne rfl
          · exact he hempty

theorem handleClientMessage_verdict (hc : message.code = some .incomingClientMessage)
    (hrole : ∀ k, s.host = some k → s.peerId? k = some peerId → k = i)
    (hid : s.peerId? i = some peerId)
    (h : s.handleClientMessage i peerId message = some (s', task, es)) :
    Verdict s i message s' task es := by
  have hiff : s.Refused i message ↔ s.host = none ∨ s.host = some i := by
    unfold Refused
    rw [hc]
  unfold handleClientMessage at h
  split at h
  · cases h
  · unfold getHost at h
    split at h
    · next hh =>
      cases h
      exact .refused _ (hiff.mpr (Or.inl hh))
    · next k hh =>
      split at h
      · next hk =>
        cases h
        exact .refused _ (hiff.mpr (Or.inr (by rw [hh, hrole k hh hk])))
      · next hk =>
        cases h
        refine verdict_silent ?_
        rw [hiff, hh]
        rintro (hn | ⟨⟨⟩⟩)
        · cases hn
        · exact hk hid

theorem handleMessage_verdict (hw : message.WellTyped)
    (hrole : ∀ k, s.host = some k → s.peerId? k = some peerId → k = i)
    (hid : s.peerId? i = some peerId)
    (h : s.handleMessage i peerId message now = some (s', task, es)) :
    Verdict s i message s' task es := by
  unfold handleMessage at h
  split at h
  · next hc =>
    cases h
    exact .refused _ (by unfold Refused; rw [hc]; trivial)
  · next hc => exact handlePong_verdict hw hc h
  · next hc =>
    unfold handleBroadcast at h
    split at h
    · cases h
    · cases h
      exact verdict_silent (by unfold Refused; rw [hc]; exact not_false)
  · next hc => exact handleDirectMessage_verdict hw hc h
  · next hc =>
    unfold handleSynchronizedEvent at h
    split at h
    · cases h
    · cases h
      exact .taken _ _ _ (by unfold Refused; rw [hc]; exact not_false)
        fun m hm => by cases List.mem_singleton.mp hm
  · next hc => exact handleKickMessage_verdict hw hc hrole hid h
  · next hc => exact handleClientMessage_verdict hc hrole hid h
  · next c h₁ h₂ h₃ h₄ h₅ h₆ hc =>
    cases h
    refine .refused _ ?_
    unfold Refused
    rw [hc]
    cases c <;> first | exact trivial | contradiction

/-- No other section of any thread answers with an error. -/
theorem step_error {a : Op} {k : PeerRef} {m : MessageDto} (hs : s.step a = some (s', es))
    (he : .error k m ∈ es) : ∃ message now, a = .handle k message now := by
  cases step_cases hs with
  | findSession => cases he
  | newPeer l isHost hl => cases List.mem_singleton.mp he
  | advance j q c s' es hq ha =>
    cases ha with
    | add ht hm =>
      obtain hj | he := List.mem_cons.mp he
      · cases hj
      · obtain ⟨k, notice, hk⟩ := offer_of_mem_addPeer he
        cases hk
    | remove ht hm =>
      obtain hj | he := List.mem_cons.mp he
      · cases hj
      · obtain ⟨k, notice, hk⟩ := offer_of_mem_removePeerById he
        cases hk
    | greet ht => cases List.mem_singleton.mp he
    | send recipients payload c j ht hj => cases List.mem_singleton.mp he
    | event recipients event c j ht hj => cases List.mem_singleton.mp he
    | kick targets c j ht hj => cases List.mem_singleton.mp he
    | clear ht => cases List.mem_singleton.mp he
    | _ => cases he
  | handle j q message now s₁ task es hq ht hr =>
    obtain hj | he := List.mem_cons.mp he
    · cases hj
    · cases hr with
      | error e => cases List.mem_singleton.mp he; exact ⟨message, now, rfl⟩
      | pong timestamp => cases List.mem_singleton.mp he
      | event hc hm => cases List.mem_singleton.mp he
      | _ => cases he
  | close j q hq ht => cases List.mem_singleton.mp he
  | tick c now s' es hk =>
    cases hk with
    | check timestamp rest j q hpg hc hq hf => cases List.mem_singleton.mp he
    | drop timestamp rest j q hpg hc hq hf =>
      obtain hj | he := List.mem_cons.mp he
      · cases hj
      · cases List.mem_singleton.mp he
    | clear timestamp rest j hpg => cases List.mem_singleton.mp he
    | stamp hpg => cases List.mem_singleton.mp he
    | ping timestamp rest j hpg hc => cases List.mem_singleton.mp he
    | _ => cases he

theorem setTask_same (hp : s.objects[i]? = some p) : s.setTask i p p.task = s := by
  obtain ⟨hlt, rfl⟩ := List.getElem?_eq_some_iff.mp hp
  unfold setTask setPeer
  rw [List.set_getElem_self]

theorem peer_of_handle {message : IncomingMessage} {now : Int}
    (hs : s.step (.handle i message now) = some (s', es)) :
    ∃ p : Peer, s.objects[i]? = some p := by
  cases step_cases hs with
  | handle i p message now s₁ task es hp ht hr => exact ⟨p, hp⟩

/-- The first section of `handleMessage`, as the session sees it. -/
theorem step_handle_verdict {message : IncomingMessage} {now : Int} (hA : Agrees s)
    (hp : s.objects[i]? = some p)
    (hs : s.step (.handle i message now) = some (s', es)) :
    (s.Refused i message.message ∧ s' = s ∧ ∃ e, es =
      [.handled i message.message, .error i (.outgoingError e)]) ∨
    ¬ s.Refused i message.message ∧ errorsTo i es = [] := by
  have hid := (peerId?_eq_iff hA hp).mpr rfl
  have hrole : ∀ k, s.host = some k → s.peerId? k = some p.peerId → k = i :=
    fun k _ hk => (peerId?_eq_iff hA hp).mp hk
  simp only [step, hp] at hs
  split at hs
  · next ht =>
    split at hs
    · cases hs
    · next s₁ task fs hm =>
      cases hs
      cases handleMessage_verdict message.typed hrole hid hm with
      | refused e hR =>
        refine Or.inl ⟨hR, ?_, e, rfl⟩
        rw [← ht]
        exact setTask_same hp
      | taken s₁ task fs hR hno =>
        refine Or.inr ⟨hR, errorsTo_eq_nil ?_⟩
        intro m hm
        obtain he | hm := List.mem_cons.mp hm
        · cases he
        · exact hno m hm
  · cases hs

/-- Only the mutex can make a handler wait. -/
theorem handleMessage_isSome (s : Session) (i : PeerRef) (peerId : Int) (message : MessageDto)
    (now : Int) (hm : s.peersMutex = false) :
    (s.handleMessage i peerId message now).isSome = true := by
  unfold handleMessage
  split
  · rfl
  · unfold handlePong
    split <;> rfl
  · rw [handleBroadcast, hm]
    rfl
  · unfold handleDirectMessage
    split
    · rfl
    · simp only [hm]
      split <;> rfl
  · rw [handleSynchronizedEvent, hm]
    rfl
  · unfold handleKickMessage
    simp only [hm, Bool.false_eq_true, if_false]
    split
    · rfl
    · split
      · rfl
      · split <;> rfl
  · unfold handleClientMessage
    simp only [hm, Bool.false_eq_true, if_false]
    split
    · rfl
    · split <;> rfl
  · rfl

end Session

namespace Room
variable {id : String} {config : GameConfigDto} {w : List Op} {t t' : List Event} {r r' : Room}
  {i : PeerRef} {p : Peer}

/-- What `sendErrorAsync` sends to the peer `i` in a step taken in the state `r`. -/
def answers (r : Room) (i : PeerRef) (es : List Event) : List MessageDto :=
  if r.attached i then Session.errorsTo i (sessionPart es) else []

def handles (i : PeerRef) : Op → Bool
  | .session (.handle k _ _) => k == i
  | _ => false

theorem run_errors (hr : machine.run w t r = some (t', r')) (hw : ∀ a ∈ w, handles i a = false) :
    Session.errorsTo i (sessionPart t') = Session.errorsTo i (sessionPart t) := by
  refine run_invariant_along (M := machine) (C := fun _ _ a => handles i a = false)
    (I := fun t' _ => Session.errorsTo i (sessionPart t') = Session.errorsTo i (sessionPart t))
    ?_ rfl (along_of_forall fun a ha _ _ => hw a ha) hr
  intro u r a r' es h ha hs
  rw [sessionPart_append, Session.errorsTo_append, h]
  obtain ⟨b, rfl, hb⟩ | ⟨-, -, hnil⟩ := step_session hs
  · have hquiet : Session.errorsTo i (sessionPart es) = [] := by
      apply Session.errorsTo_eq_nil
      intro m hm
      obtain ⟨message, now, rfl⟩ := Session.step_error hb hm
      simp [handles] at ha
    rw [hquiet, List.append_nil]
  · rw [hnil]
    exact List.append_nil _

/-- An error leaves the queues and the sockets alone. -/
theorem step_refused {message : IncomingMessage} {now : Int} {e : ErrorDto} {es : List Event}
    (hs : r.session.step (.handle i message now) =
      some (r.session, [.handled i message.message, .error i (.outgoingError e)]))
    (hr : r.step (.session (.handle i message now)) = some (r', es)) : r' = r := by
  simp only [step, hs] at hr
  cases hr
  rfl

/-- A refusal is reported once and has no other effect, and every rule that is broken is
reported. The messages a rule allows are not answered, however long their handling takes. -/
theorem refusals_atomic (id : String) (config : GameConfigDto) (w : List Op) (t : List Event)
    (r : Room) (hr : machine.run w [] (init id config) = some (t, r)) (i : PeerRef) (p : Peer)
    (hp : r.session.objects[i]? = some p) (ht : p.task = .listening)
    (hsocket : r.attached i = true) (message : IncomingMessage) (now : Int) :
    (r.session.peersMutex = false →
      ∃ r₁ es, r.step (.session (.handle i message now)) = some (r₁, es)) ∧
    ∀ r₁ es, r.step (.session (.handle i message now)) = some (r₁, es) →
      (r.session.Refused i message.message →
        (∃ e, r.answers i es = [.outgoingError e]) ∧ r₁ = r) ∧
      (¬ r.session.Refused i message.message → r.answers i es = []) ∧
      ∀ v t₁ r₂, machine.run v [] r₁ = some (t₁, r₂) → (∀ a ∈ v, handles i a = false) →
        Session.errorsTo i (sessionPart t₁) = [] := by
  have hA := (run_reached hr).sound.1
  constructor
  · intro hm
    obtain ⟨x, hx⟩ := Option.isSome_iff_exists.mp
      (Session.handleMessage_isSome r.session i p.peerId message.message now hm)
    simp [step, Session.step, hp, ht, hx]
  · intro r₁ es hs
    obtain ⟨b, hb, hst⟩ | ⟨hno, -, -⟩ := step_session hs
    · cases hb
      have hanswers : r.answers i es = Session.errorsTo i (sessionPart es) := if_pos hsocket
      refine ⟨?_, ?_, fun v t₁ r₂ hv hw => run_errors hv hw⟩
      · intro hR
        obtain ⟨-, hsame, e, he⟩ | ⟨hno, -⟩ := Session.step_handle_verdict hA hp hst
        · refine ⟨⟨e, by rw [hanswers, he, Session.errorsTo_error]⟩, ?_⟩
          rw [hsame, he] at hst
          exact step_refused hst hs
        · exact absurd hR hno
      · intro hno
        obtain ⟨hR, -⟩ | ⟨-, hnil⟩ := Session.step_handle_verdict hA hp hst
        · exact absurd hR hno
        · rw [hanswers, hnil]
    · exact absurd rfl (hno _)

def hostAndClient : List Op :=
  [.session (.newPeer 0), .session (.advance 0 0), .session (.advance 0 0),
    .session .findSession, .session (.newPeer 0), .session (.advance 1 0),
    .session (.advance 1 0)]

def kickMessage (peerIds : List (Option Int)) : IncomingMessage :=
  ⟨⟨some .incomingHostKickClients, some (.int64s peerIds), none⟩, fun p hp => by cases hp; rfl⟩

/-- The client's attempt to kick the host. -/
theorem refusals_atomic_kick :
    ∃ t r r₁ es e, machine.run hostAndClient [] (init "lobby" {}) = some (t, r) ∧
      r.step (.session (.handle 1 (kickMessage [some 0]) 0)) = some (r₁, es) ∧
      r.answers 1 es = [.outgoingError e] ∧ r₁ = r := by
  obtain ⟨t, r, hr, p, hp, ht, ho, hm, hh⟩ : ∃ t r, machine.run hostAndClient []
      (init "lobby" {}) = some (t, r) ∧ ∃ p : Peer, r.session.objects[1]? = some p ∧
        p.task = .listening ∧ r.attached 1 = true ∧ r.session.peersMutex = false ∧
        r.session.host = some 0 :=
    ⟨_, _, rfl, _, rfl, rfl, rfl, rfl, rfl⟩
  obtain ⟨henabled, hverdict⟩ := refusals_atomic "lobby" {} hostAndClient t r hr 1 p hp ht ho
    (kickMessage [some 0]) 0
  obtain ⟨r₁, es, hs⟩ := henabled hm
  have hR : r.session.Refused 1 (kickMessage [some 0]).message :=
    Or.inl (by rw [hh]; decide)
  obtain ⟨⟨e, he⟩, hsame⟩ := (hverdict r₁ es hs).1 hR
  exact ⟨t, r, r₁, es, e, hr, hs, he, hsame⟩

/-! ## The `ocid` of a refused operation -/

/-- The errors that handling the message sends to its sender, in the first section and in the
later ones, carry the `ocid` of the message exactly if there is none of them. -/
theorem errors_correlated_iff (id : String) (config : GameConfigDto) (w : List Op) (t : List Event)
    (r : Room) (hr : machine.run w [] (init id config) = some (t, r)) (i : PeerRef)
    (message : IncomingMessage) (hocid : message.message.ocid ≠ none) (now : Int) (r₁ : Room)
    (es : List Event) (hs : r.step (.session (.handle i message now)) = some (r₁, es)) :
    (∀ v t₁ r₂, machine.run v [] r₁ = some (t₁, r₂) → (∀ a ∈ v, handles i a = false) →
      ∀ e ∈ r.answers i es ++ Session.errorsTo i (sessionPart t₁),
        e.ocid = message.message.ocid) ↔
    ¬ (r.session.Refused i message.message ∧ r.attached i = true) := by
  have hA := (run_reached hr).sound.1
  obtain ⟨b, hb, hst⟩ | ⟨hno, -, -⟩ := step_session hs
  · cases hb
    obtain ⟨p, hp⟩ := Session.peer_of_handle hst
    have hverdict := Session.step_handle_verdict hA hp hst
    constructor
    · intro h hbad
      obtain ⟨hR, hsocket⟩ := hbad
      obtain ⟨-, -, e, he⟩ | ⟨hnot, -⟩ := hverdict
      · -- `sendErrorAsync` makes the message anew, from the error alone
        have hanswers : r.answers i es = [.outgoingError e] := by
          rw [answers, if_pos hsocket, he, Session.errorsTo_error]
        have hmem : MessageDto.outgoingError e ∈
            r.answers i es ++ Session.errorsTo i (sessionPart []) := by
          rw [hanswers]
          exact List.mem_append_left _ (List.mem_singleton.mpr rfl)
        exact hocid (h [] [] r₁ rfl (by simp) _ hmem).symm
      · exact hnot hR
    · intro hcond v t₁ r₂ hv hw e he
      rw [run_errors hv hw] at he
      have hnone : r.answers i es = [] := by
        unfold answers
        split
        · next hsocket =>
          obtain ⟨hR, -⟩ | ⟨-, hnil⟩ := hverdict
          · exact absurd ⟨hR, hsocket⟩ hcond
          · exact hnil
        · rfl
      rw [hnone] at he
      cases he
  · exact absurd rfl (hno _)

def markedKick : IncomingMessage :=
  ⟨⟨some .incomingHostKickClients, some (.int64s [some 0]), some "kick"⟩,
    fun p hp => by cases hp; rfl⟩

/-- The error it gets has no mark. -/
theorem error_without_ocid :
    ∃ t r r₁ es e, machine.run hostAndClient [] (init "lobby" {}) = some (t, r) ∧
      r.step (.session (.handle 1 markedKick 0)) = some (r₁, es) ∧ r.answers 1 es = [e] ∧
      e.code = some .outgoingError ∧ markedKick.message.ocid = some "kick" ∧ e.ocid = none :=
  ⟨_, _, _, _, _, rfl, rfl, rfl, rfl, rfl, rfl⟩

def markedBroadcast : IncomingMessage :=
  ⟨⟨some .incomingBroadcast, some (.string "hello"), some "cheer"⟩, fun p hp => by cases hp; rfl⟩

theorem errors_correlated_iff_broadcast :
    ∃ t r r₁ es, machine.run hostAndClient [] (init "lobby" {}) = some (t, r) ∧
      r.step (.session (.handle 1 markedBroadcast 0)) = some (r₁, es) ∧
      ∀ v t₁ r₂, machine.run v [] r₁ = some (t₁, r₂) → (∀ a ∈ v, handles 1 a = false) →
        ∀ e ∈ r.answers 1 es ++ Session.errorsTo 1 (sessionPart t₁), e.ocid = some "cheer" := by
  obtain ⟨t, r, r₁, es, hr, hs⟩ : ∃ t r r₁ es, machine.run hostAndClient []
      (init "lobby" {}) = some (t, r) ∧
      r.step (.session (.handle 1 markedBroadcast 0)) = some (r₁, es) :=
    ⟨_, _, _, _, rfl, rfl⟩
  have hallowed : ¬ (r.session.Refused 1 markedBroadcast.message ∧ r.attached 1 = true) :=
    fun h => h.1
  exact ⟨t, r, r₁, es, hr, hs, (errors_correlated_iff "lobby" {} hostAndClient t r hr 1
    markedBroadcast (by decide) 0 r₁ es hs).mpr hallowed⟩

end Room
end Helicopter
