import Helicopter.EachSession
import Helicopter.Identity
import Helicopter.SenderOrder
import Helicopter.Sockets

/-! `staticHost`: what becomes of a session whose host has left. No code reads the flag. -/
namespace Helicopter
open Interleaving

namespace Roster
variable {r r' : Roster} {t es : List Event} {i j : Nat} {m : Member} {stage : Stage}

structure Chronicled (t : List Event) (r : Roster) : Prop where
  joined : ∀ i b, .joined i b ∈ t ↔
    ∃ m, r.members[i]? = some m ∧ m.isHost = b ∧ m.stage ≠ .coming
  left : ∀ i, (∃ e, .left i e ∈ t) ↔ ∃ m, r.members[i]? = some m ∧ m.stage = .gone

theorem chronicled_init : Chronicled [] {} := by
  constructor <;> simp

theorem mem_tell {notice : Notice} {e : Event} (h : e ∈ r.tell notice) :
    ∃ k, e = .told k notice := by
  unfold tell at h
  split at h
  · next k _ => exact ⟨k, List.mem_singleton.mp h⟩
  · cases h

theorem chronicled_setStage (h : Chronicled t r) (hm : r.members[i]? = some m)
    (hst : stage ≠ .coming) (hgone : m.stage ≠ .gone)
    (hjoined : ∀ j b, .joined j b ∈ es ↔ j = i ∧ b = m.isHost ∧ m.stage = .coming)
    (hleft : ∀ j, (∃ e, .left j e ∈ es) ↔ j = i ∧ stage = .gone) :
    Chronicled (t ++ es) (r.setStage i m stage) := by
  constructor
  · intro j b
    rw [List.mem_append, h.joined, hjoined, getElem?_setStage hm]
    by_cases hj : j = i
    · subst hj
      rw [hm]
      by_cases hc : m.stage = .coming
      · simp [hc, hst, eq_comm]
      · simp [hc, hst]
    · simp [hj]
  · intro j
    simp only [List.mem_append, exists_or]
    rw [h.left, hleft, getElem?_setStage hm]
    by_cases hj : j = i
    · subst hj
      simp [hm, hgone]
    · simp [hj]

theorem chronicled_newPeer {k : Nat} {isHost : Bool} (h : Chronicled t r) :
    Chronicled (t ++ [.created r.members.length r.counter isHost])
      ⟨r.counter + 1, r.lookups.eraseIdx k,
        r.members ++ [{ peerId := r.counter, isHost := isHost }]⟩ := by
  have hnone : r.members[r.members.length]? = none := List.getElem?_eq_none (Nat.le_refl _)
  constructor
  · intro i b
    have hi := h.joined i b
    rw [List.mem_append, or_iff_left (by simp), hi, getElem?_snoc]
    by_cases hlast : i = r.members.length
    · rw [if_pos hlast, hlast, hnone]
      simp
    · rw [if_neg hlast]
  · intro i
    have hi := h.left i
    simp only [List.mem_append, List.mem_singleton, reduceCtorEq, or_false]
    rw [hi, getElem?_snoc]
    by_cases hlast : i = r.members.length
    · rw [if_pos hlast, hlast, hnone]
      simp
    · rw [if_neg hlast]

theorem chronicled_add (h : Chronicled t r) (hm : r.members[i]? = some m)
    (hst : m.stage = .coming) {rest : List Event}
    (hrest : ∀ e ∈ rest, ∃ k notice, e = .told k notice) :
    Chronicled (t ++ .joined i m.isHost :: rest) (r.setStage i m .inside) := by
  refine chronicled_setStage h hm (by decide) (by rw [hst]; decide) ?_ ?_
  · intro j b
    rw [List.mem_cons]
    constructor
    · rintro (he | he)
      · cases he
        exact ⟨rfl, rfl, hst⟩
      · obtain ⟨k, notice, he⟩ := hrest _ he
        cases he
    · rintro ⟨rfl, rfl, -⟩
      exact Or.inl rfl
  · intro j
    constructor
    · rintro ⟨e, he⟩
      obtain he | he := List.mem_cons.mp he
      · cases he
      · obtain ⟨k, notice, he⟩ := hrest _ he
        cases he
    · rintro ⟨-, hf⟩
      cases hf

theorem chronicled_remove (h : Chronicled t r) (hm : r.members[i]? = some m)
    (hst : m.stage = .inside) {isEmpty : Bool} {rest : List Event}
    (hrest : ∀ e ∈ rest, ∃ k notice, e = .told k notice) :
    Chronicled (t ++ .left i isEmpty :: rest) (r.setStage i m .gone) := by
  refine chronicled_setStage h hm (by decide) (by rw [hst]; decide) ?_ ?_
  · intro j b
    constructor
    · intro he
      obtain he | he := List.mem_cons.mp he
      · cases he
      · obtain ⟨k, notice, he⟩ := hrest _ he
        cases he
    · rintro ⟨-, -, hc⟩
      rw [hst] at hc
      cases hc
  · intro j
    constructor
    · rintro ⟨e, he⟩
      obtain he | he := List.mem_cons.mp he
      · cases he
        exact ⟨rfl, rfl⟩
      · obtain ⟨k, notice, he⟩ := hrest _ he
        cases he
    · rintro ⟨rfl, -⟩
      exact ⟨_, List.mem_cons_self⟩

theorem chronicled_step {a : Op} (h : Chronicled t r) (hs : r.step a = some (r', es)) :
    Chronicled (t ++ es) r' := by
  cases a with
  | findSession =>
    cases hs
    rw [List.append_nil]
    exact ⟨h.joined, h.left⟩
  | newPeer k =>
    simp only [step] at hs
    split at hs
    · cases hs
    · cases hs
      exact chronicled_newPeer h
  | add i =>
    simp only [step] at hs
    split at hs
    · cases hs
    · next m hm =>
      split at hs
      · next hst =>
        cases hs
        refine chronicled_add h hm hst fun e he => ?_
        split at he
        · cases he
        · obtain ⟨k, hk⟩ := mem_tell he
          exact ⟨k, _, hk⟩
      · cases hs
  | remove i =>
    simp only [step] at hs
    split at hs
    · cases hs
    · next m hm =>
      split at hs
      · next hst =>
        cases hs
        refine chronicled_remove h hm hst fun e he => ?_
        obtain ⟨k, hk⟩ := mem_tell he
        exact ⟨k, _, hk⟩
      · cases hs

end Roster

namespace Session
variable {s s' : Session} {t es : List Event} {a : Op} {i j : PeerRef} {p : Peer}

def HostGone (s : Session) : Prop :=
  ∃ (i : PeerRef) (p : Peer), s.objects[i]? = some p ∧ p.isHost = true ∧ p.task = .removed

def Chronicled (t : List Event) (s : Session) : Prop :=
  Roster.Chronicled (t.filterMap Event.roster?) s.roster

theorem chronicled_init (id : String) (config : GameConfigDto) :
    Chronicled [] { id := id, config := config } :=
  Roster.chronicled_init

theorem chronicled_step (hA : Agrees s) (h : Chronicled t s) (hs : s.step a = some (s', es)) :
    Chronicled (t ++ es) s' := by
  unfold Chronicled
  rw [List.filterMap_append]
  have hrun := (step_roster hA hs).2
  refine run_invariant (M := Roster.machine) (I := fun t r => r.Chronicled t)
    (fun _ _ _ _ _ h hs => Roster.chronicled_step h hs) h (w := (s.rosterOp a).toList) ?_
  rw [run_history, hrun]
  rfl

theorem mem_roster_joined {b : Bool} :
    .joined i b ∈ t.filterMap Event.roster? ↔ .joined i b ∈ t := by
  rw [List.mem_filterMap]
  constructor
  · rintro ⟨e, he, hem⟩
    cases e with
    | joined k b' => cases hem; exact he
    | offer k m =>
      simp only [Event.roster?] at hem
      cases hm : m.notice? <;> rw [hm] at hem <;> cases hem
    | _ => cases hem
  · intro he
    exact ⟨_, he, rfl⟩

theorem mem_roster_left {b : Bool} :
    .left i b ∈ t.filterMap Event.roster? ↔ .left i b ∈ t := by
  rw [List.mem_filterMap]
  constructor
  · rintro ⟨e, he, hem⟩
    cases e with
    | left k b' => cases hem; exact he
    | offer k m =>
      simp only [Event.roster?] at hem
      cases hm : m.notice? <;> rw [hm] at hem <;> cases hem
    | _ => cases hem
  · intro he
    exact ⟨_, he, rfl⟩

theorem removed_of_gone (h : p.task.stage = .gone) : p.task = .removed := by
  cases ht : p.task <;> rw [ht] at h <;> first | rfl | cases h

/-- The host has gone when one that joined as host has left. -/
theorem hostGone_iff (h : Chronicled t s) :
    s.HostGone ↔ ∃ i b, .joined i true ∈ t ∧ .left i b ∈ t := by
  constructor
  · rintro ⟨i, p, hp, hh, ht⟩
    have hm := member_of_object hp
    have hgone : p.member.stage = .gone := congrArg Task.stage ht
    obtain ⟨b, hb⟩ := (h.left i).mpr ⟨_, hm, hgone⟩
    have hj := (h.joined i true).mpr ⟨_, hm, hh, by rw [hgone]; decide⟩
    exact ⟨i, b, mem_roster_joined.mp hj, mem_roster_left.mp hb⟩
  · rintro ⟨i, b, hj, hl⟩
    obtain ⟨m, hm, hh, -⟩ := (h.joined i true).mp (mem_roster_joined.mpr hj)
    obtain ⟨n, hn, hgone⟩ := (h.left i).mp ⟨b, mem_roster_left.mpr hl⟩
    rw [hm] at hn
    cases hn
    obtain ⟨p, hp, rfl⟩ := object_of_member hm
    exact ⟨i, p, hp, hh, removed_of_gone hgone⟩

inductive StageMoves (a : Op) (j : PeerRef) (task : Task) : Stage → Prop where
  | stays : (∀ c, a = .advance j c → task ≠ .removing) → StageMoves a j task task.stage
  | enters (c : Nat) : a = .advance j c → task = .adding → StageMoves a j task .inside
  | leaves (c : Nat) : a = .advance j c → task = .removing → StageMoves a j task .gone

theorem turns_stage {q : Peer} (h : Turns s a i p q) : StageMoves a i p.task q.task.stage := by
  have hstays : p.task ≠ .removing → q.task.stage = p.task.stage →
      StageMoves a i p.task q.task.stage := by
    intro hne hst
    rw [hst]
    exact .stays fun _ _ => hne
  cases h with
  | thread c task hn =>
    cases hn with
    | add ht => exact .enters c rfl ht
    | remove ht => exact .leaves c rfl ht
    | done ht =>
      refine hstays ?_ (inside_of_through ht).symm
      intro hne
      rw [hne] at ht
      cases ht
    | _ => exact hstays (by simp [*]) (by simp [*, Task.stage])
  | record c timestamp pingTime ht => exact hstays (by simp [ht]) (by simp [ht, Task.stage])
  | handle message now s₁ task es ht hr =>
    have hst := (reacts_frame hr).2.2.2.2.1
    exact hstays (by simp [ht]) (by rw [hst, ht]; rfl)
  | close ht => exact hstays (by simp [ht]) (by simp [ht, Task.stage])
  | check c now timestamp =>
    rw [task_countPing]
    exact .stays fun d hd => by cases hd

theorem turns_isHost {q : Peer} (h : Turns s a i p q) : q.isHost = p.isHost := by
  cases h with
  | record c timestamp pingTime ht =>
    unfold recordPong
    split <;> rfl
  | check c now timestamp => exact congrArg Member.isHost (member_countPing p timestamp)
  | _ => rfl

/-- Nobody's role changes, and a stage only in two sections of the peer's own thread. -/
theorem stage_step {q : Peer} (hs : s.step a = some (s', es)) (hq : s'.objects[j]? = some q) :
    q.task.stage = .coming ∨ ∃ p, s.objects[j]? = some p ∧ q.isHost = p.isHost ∧
      StageMoves a j p.task q.task.stage := by
  refine forall_step_thread (P := fun j q => q.task.stage = .coming ∨
    ∃ p, s.objects[j]? = some p ∧ q.isHost = p.isHost ∧ StageMoves a j p.task q.task.stage)
    hs ?_ ?_ ?_ j q hq
  · exact fun j r hr hno => Or.inr ⟨r, hr, rfl, .stays fun c hc => absurd hc (hno c)⟩
  · exact fun isHost => Or.inl rfl
  · exact fun i p q hp hq => Or.inr ⟨p, hp, turns_isHost hq, turns_stage hq⟩

theorem find_iff_inside (hA : Agrees s) {id : Int} :
    s.peers.find id = some j ↔ ∃ p, s.objects[j]? = some p ∧ p.peerId = id ∧
      p.task.stage = .inside := by
  rw [hA.peers]
  constructor
  · rintro ⟨m, hm, hid, hst⟩
    obtain ⟨p, hp, rfl⟩ := object_of_member hm
    exact ⟨p, hp, hid, hst⟩
  · rintro ⟨p, hp, hid, hst⟩
    exact ⟨_, member_of_object hp, hid, hst⟩

/-- The host has gone before, or the step takes it out. -/
theorem hostGone_step (hs : s.step a = some (s', es)) (h : s'.HostGone) :
    s.HostGone ∨ ∃ i c p, a = .advance i c ∧ s.objects[i]? = some p ∧ p.isHost = true ∧
      p.task = .removing := by
  obtain ⟨i, q, hq, hh, ht⟩ := h
  have hgone : q.task.stage = .gone := congrArg Task.stage ht
  obtain hcoming | ⟨p, hp, hhost, hmoves⟩ := stage_step hs hq
  · rw [hgone] at hcoming
    cases hcoming
  · rw [hh] at hhost
    rw [hgone] at hmoves
    generalize hst : Stage.gone = stage at hmoves
    cases hmoves with
    | stays hno => exact Or.inl ⟨i, p, hp, hhost.symm, removed_of_gone hst.symm⟩
    | enters c ha ht => cases hst
    | leaves c ha ht => exact Or.inr ⟨i, c, p, ha, hp, hhost.symm, ht⟩

/-- Who is inside was so before and is not leaving, or the step adds him. -/
theorem inside_step {peerId : Int} (hA : Agrees s) (hs : s.step a = some (s', es))
    (hf : s'.peers.find peerId = some j) :
    ∃ p, s.objects[j]? = some p ∧
      (s.peers.find p.peerId = some j ∧ (∀ c, a = .advance j c → p.task ≠ .removing) ∨
        ∃ c, a = .advance j c ∧ p.task = .adding) := by
  obtain ⟨q, hq, -, hin⟩ := (find_iff_inside (step_roster hA hs).1).mp hf
  obtain hcoming | ⟨p, hp, -, hmoves⟩ := stage_step hs hq
  · rw [hin] at hcoming
    cases hcoming
  · refine ⟨p, hp, ?_⟩
    rw [hin] at hmoves
    generalize hst : Stage.inside = stage at hmoves
    cases hmoves with
    | stays hno => exact Or.inl ⟨find_inside hA hp hst.symm, hno⟩
    | enters c ha ht => exact Or.inr ⟨c, ha, ht⟩
    | leaves c ha ht => cases hst

theorem step_adds {c : Nat} (hp : s.objects[i]? = some p) (ht : p.task = .adding)
    (hs : s.step (.advance i c) = some (s', es)) : ∃ rest, es = .joined i p.isHost :: rest :=
  ⟨_, (step_add hp ht hs).2⟩

theorem step_removes {c : Nat} (hp : s.objects[i]? = some p) (ht : p.task = .removing)
    (hs : s.step (.advance i c) = some (s', es)) :
    s' = (s.removePeerById p.peerId).1.setTask i p .removed ∧
      ∀ e ∈ es, (∃ b, e = .left i b) ∨ ∃ k notice, e = .offer k (Notice.message notice) := by
  obtain ⟨hsession, hes⟩ := step_remove hp ht hs
  refine ⟨hsession, ?_⟩
  intro e he
  rw [hes] at he
  obtain he | he := List.mem_cons.mp he
  · exact Or.inl ⟨_, he⟩
  · exact Or.inr (offer_of_mem_removePeerById he)

/-- Where a `joined` stands among the events of a step. -/
theorem joined_step {b : Bool} {u v : List Event} (hs : s.step a = some (s', es))
    (he : es = u ++ .joined j b :: v) :
    u = [] ∧ ∃ c p, a = .advance j c ∧ s.objects[j]? = some p ∧ p.task = .adding := by
  have hmem : .joined j b ∈ es := by
    rw [he]
    exact List.mem_append_right u List.mem_cons_self
  cases step_cases hs with
  | findSession => cases hmem
  | newPeer k isHost hk => cases List.mem_singleton.mp hmem
  | advance i p c s' es hp ha =>
    cases ha with
    | add ht hm =>
      cases u with
      | nil =>
        cases he
        exact ⟨rfl, c, p, rfl, hp, ht⟩
      | cons e u =>
        have htail : (s.addPeer i p.peerId p.isHost).2 = u ++ .joined j b :: v :=
          (List.cons.inj he).2
        have hlate : .joined j b ∈ (s.addPeer i p.peerId p.isHost).2 := by
          rw [htail]
          exact List.mem_append_right u List.mem_cons_self
        obtain ⟨k, notice, hoffer⟩ := offer_of_mem_addPeer hlate
        cases hoffer
    | remove ht hm =>
      obtain hl | hl := List.mem_cons.mp hmem
      · cases hl
      · obtain ⟨k, notice, hoffer⟩ := offer_of_mem_removePeerById hl
        cases hoffer
    | _ => simp at hmem
  | handle i p message now s₁ task es hp ht hr => cases hr <;> simp at hmem
  | close i p hp ht => cases List.mem_singleton.mp hmem
  | tick c now s' es hk => cases hk <;> simp at hmem

end Session

namespace Room
variable {id : String} {config : GameConfigDto} {t es : List Event} {r r' : Room} {a : Op}
  {i j : PeerRef}

def Dropped (t : List Event) (r : Room) (j : PeerRef) : Prop :=
  r.attached j = false ∨ .kick j ∈ sessionPart t

structure GameOver (t : List Event) (r : Room) : Prop where
  dropped : r.session.HostGone → ∀ peerId j, r.session.peers.find peerId = some j → Dropped t r j
  closed : ∀ u j b v, sessionPart t = u ++ .joined j b :: v →
    ¬ ∃ i e, .joined i true ∈ u ∧ .left i e ∈ u

/-- The step takes the host out only when everybody else has been dropped, and adds nobody when
it is out. -/
def EndsGame (t : List Event) (r : Room) (a : Op) : Prop :=
  ∀ i c p, a = .session (.advance i c) → r.session.objects[i]? = some p →
    (p.task = .adding → ¬ r.session.HostGone) ∧
    (p.task = .removing → p.isHost = true →
      ∀ peerId j, r.session.peers.find peerId = some j → j ≠ i → Dropped t r j)

structure Known (t : List Event) (r : Room) : Prop where
  reached : ∃ id config, Reached id config t r
  sockets : Sockets t r
  chronicled : r.session.Chronicled (sessionPart t)

theorem known_step (h : Known t r) (hs : r.step a = some (r', es)) : Known (t ++ es) r' := by
  obtain ⟨id, config, hR⟩ := h.reached
  refine ⟨⟨id, config, reached_step hR hs⟩, sockets_step hR h.sockets hs, ?_⟩
  rw [sessionPart_append]
  obtain ⟨b, -, hst⟩ | ⟨-, hsame, hnil⟩ := step_session hs
  · exact Session.chronicled_step hR.sound.1 h.chronicled hst
  · rw [hnil, hsame, List.append_nil]
    exact h.chronicled

theorem Dropped.step (h : Dropped t r j) (hs : r.step a = some (r', es))
    (hj : j < r.outboxes.length) : Dropped (t ++ es) r' j := by
  obtain h | h := h
  · refine Or.inl (Bool.eq_false_iff.mpr fun ha => ?_)
    rw [((attached_step hs hj).mp ha).1] at h
    cases h
  · exact Or.inr (by rw [sessionPart_append]; exact List.mem_append_left _ h)

theorem lt_of_find (h : Known t r) {peerId : Int} (hf : r.session.peers.find peerId = some j) :
    j < r.outboxes.length := by
  obtain ⟨id, config, hR⟩ := h.reached
  obtain ⟨p, hp, -⟩ := Session.peerId_of_find hR.sound.1 hf
  rw [hR.length]
  exact (List.getElem?_eq_some_iff.mp hp).1

theorem dropped_step (h : Known t r) (hg : GameOver t r) (hc : EndsGame t r a)
    (hs : r.step a = some (r', es)) (hgone : r'.session.HostGone) {peerId : Int}
    (hf : r'.session.peers.find peerId = some j) : Dropped (t ++ es) r' j := by
  obtain ⟨id, config, hR⟩ := h.reached
  obtain ⟨b, rfl, hst⟩ | ⟨-, hsame, -⟩ := step_session hs
  · obtain ⟨p, hp, ⟨hin, hstays⟩ | ⟨c, rfl, ht⟩⟩ := Session.inside_step hR.sound.1 hst hf
    · refine Dropped.step ?_ hs (lt_of_find h hin)
      obtain hgone | ⟨i, c, q, rfl, hq, hh, ht⟩ := Session.hostGone_step hst hgone
      · exact hg.dropped hgone _ j hin
      · refine (hc i c q rfl hq).2 ht hh _ j hin ?_
        rintro rfl
        rw [hp] at hq
        cases hq
        exact hstays c rfl ht
    · -- the host is out, so nobody is added
      obtain hgone | ⟨i, d, q, ha, hq, -, htq⟩ := Session.hostGone_step hst hgone
      · exact absurd hgone ((hc j c p rfl hp).1 ht)
      · cases ha
        rw [hp] at hq
        cases hq
        rw [ht] at htq
        cases htq
  · rw [hsame] at hgone hf
    exact (hg.dropped hgone _ j hf).step hs (lt_of_find h hf)

theorem gameOver_step (h : Known t r) (hg : GameOver t r) (hc : EndsGame t r a)
    (hs : r.step a = some (r', es)) : GameOver (t ++ es) r' := by
  refine ⟨fun hgone peerId j hf => dropped_step h hg hc hs hgone hf, ?_⟩
  intro u j b v hsplit
  rw [sessionPart_append] at hsplit
  obtain ⟨v', ht⟩ | ⟨u', rfl, hes⟩ := split_append hsplit
  · exact hg.closed u j b v' ht
  · obtain ⟨b', rfl, hst⟩ | ⟨-, -, hnil⟩ := step_session hs
    · obtain ⟨rfl, c, p, rfl, hp, ht⟩ := Session.joined_step hst hes
      rw [List.append_nil]
      rintro ⟨i, e, hj, hl⟩
      exact (hc j c p rfl hp).1 ht ((Session.hostGone_iff h.chronicled).mpr ⟨i, e, hj, hl⟩)
    · rw [hnil] at hes
      exact absurd hes (by simp)

theorem not_gameOver (h : Known t r) (hc : ¬ EndsGame t r a) (hs : r.step a = some (r', es)) :
    ¬ GameOver (t ++ es) r' := by
  intro hg
  obtain ⟨id, config, hR⟩ := h.reached
  unfold EndsGame at hc
  simp only [not_forall] at hc
  obtain ⟨i, c, p, rfl, hp, hcase⟩ := hc
  obtain ⟨b, hb, hst⟩ | ⟨hno, -, -⟩ := step_session hs
  · cases hb
    refine hcase ⟨?_, ?_⟩
    · intro ht hgone
      obtain ⟨rest, hes⟩ := Session.step_adds hp ht hst
      obtain ⟨j, e, hj, hl⟩ := (Session.hostGone_iff h.chronicled).mp hgone
      refine hg.closed (sessionPart t) i p.isHost rest ?_ ⟨j, e, hj, hl⟩
      rw [sessionPart_append, hes]
    · intro ht hh peerId j hf hj
      obtain ⟨hsession, hevents⟩ := Session.step_removes hp ht hst
      have hin : r.session.peers.find p.peerId = some i :=
        Session.find_inside hR.sound.1 hp (by rw [ht]; rfl)
      have hgone : r'.session.HostGone := by
        refine ⟨i, { p with task := .removed }, ?_, hh, rfl⟩
        rw [hsession, Session.removePeerById_fst]
        exact (Session.objects_setPeer hp _ i).trans (if_pos rfl)
      have hf' : r'.session.peers.find peerId = some j := by
        rw [hsession]
        exact (Session.find_removePeerById hR.sound.1 hp hin peerId j).mpr ⟨hf, hj⟩
      obtain hd | hd := hg.dropped hgone peerId j hf'
      · refine Or.inl (Bool.eq_false_iff.mpr fun ha => ?_)
        have hreset : .resetSocket j ∉ sessionPart es := by
          intro hmem
          rcases hevents _ hmem with ⟨b, he⟩ | ⟨k, notice, he⟩ <;> cases he
        rw [(attached_step hs (lt_of_find h hf)).mpr ⟨ha, hreset⟩] at hd
        cases hd
      · rw [sessionPart_append] at hd
        obtain hd | hd := List.mem_append.mp hd
        · exact Or.inr hd
        · rcases hevents _ hd with ⟨b, he⟩ | ⟨k, notice, he⟩ <;> cases he
  · exact absurd rfl (hno _)

theorem known_init (id : String) (config : GameConfigDto) : Known [] (init id config) :=
  ⟨⟨id, config, reached_init id config⟩, sockets_init id config,
    Session.chronicled_init id config⟩

theorem gameOver_init (id : String) (config : GameConfigDto) : GameOver [] (init id config) := by
  constructor
  · rintro ⟨i, p, hp, -⟩
    cases hp
  · intro u j b v hsplit
    simp at hsplit

theorem config_step (h : Known t r) (hs : r.step a = some (r', es)) :
    r'.session.config = r.session.config := by
  obtain ⟨id, config, hR⟩ := h.reached
  rw [(reached_step hR hs).static, hR.static]

end Room

namespace System

/-- In the sessions of games with a static host the game ends with the host, if and only if the
host's `removePeerById` always comes after everybody else in `m_peers` has been dropped, and no
`addPeer` comes after it. -/
theorem static_host_iff (gamesConfig : GamesConfig) (w : List Op) :
    machine.Throughout (EachRoom fun t r => r.session.config.staticHost = true → r.GameOver t)
        w [] (init gamesConfig) ↔
      machine.Along (Meets fun t r a => r.session.config.staticHost = true → r.EndsGame t a)
        w [] (init gamesConfig) := by
  refine eachRoom_iff_along (I := fun t r => r.Known t ∧
    (r.session.config.staticHost = true → r.GameOver t)) ?_ ?_ ?_ ?_ ?_ gamesConfig w
  · exact fun id config => ⟨Room.known_init id config, fun _ => Room.gameOver_init id config⟩
  · exact fun t r h => h.2
  · rintro t r a hq _ i c p rfl
    cases hq
  · rintro t r a r' es ⟨h, hg⟩ hc hs
    refine ⟨Room.known_step h hs, ?_⟩
    rw [Room.config_step h hs]
    exact fun hst => Room.gameOver_step h (hg hst) (hc hst) hs
  · rintro t r a r' es ⟨h, -⟩ hc hs
    rw [Room.config_step h hs]
    obtain ⟨hst, hno⟩ := Classical.not_imp.mp hc
    exact fun hall => Room.not_gameOver h hno hs (hall hst)

/-- All of `onAfterCreate_NonBlocking` for a connection that becomes the peer `i`. -/
def connects (peerType : String) (i : PeerRef) : List Op :=
  [.connect (parameters "game" "lobby" peerType), .getSession 0, .room 0 (.session (.newPeer 0)),
    .room 0 (.session (.advance i 0)), .room 0 (.session (.advance i 0))]

/-- The host leaves a client behind, and another client comes. -/
def headless : List Op :=
  connects "host" 0 ++ connects "client" 1 ++
    [.room 0 (.session (.close 0)), .room 0 (.session (.advance 0 0)),
      .room 0 (.session (.advance 0 0))] ++ connects "client" 2

theorem headless_session :
    ∃ t s h, machine.run headless [] (init oneGame) = some (t, s) ∧
      s.registry.rooms[0]? = some h ∧ h.room.session.config.staticHost = true ∧
      h.room.session.HostGone ∧ h.room.session.peers.find 1 = some 1 ∧
      h.room.session.peers.find 2 = some 2 ∧ ¬ h.room.Dropped (roomPart 0 t) 1 ∧
      ¬ EachRoom (fun t r => r.session.config.staticHost = true → r.GameOver t) t s := by
  have hrun : ((machine.run headless [] (init oneGame)).bind fun r =>
      (r.2.registry.rooms[0]?).bind fun h => (h.room.session.objects[0]?).map fun p =>
        (p.task.stage, [h.room.session.peers.find 1, h.room.session.peers.find 2],
          [h.room.session.config.staticHost, p.isHost, h.room.attached 1,
            decide (.kick 1 ∈ Room.sessionPart (roomPart 0 r.1))])) =
      some (.gone, [some 1, some 2], [true, true, true, false]) := by
    decide +kernel
  obtain ⟨⟨t, s⟩, hr, hrun⟩ := Option.bind_eq_some_iff.mp hrun
  obtain ⟨h, hk, hrun⟩ := Option.bind_eq_some_iff.mp hrun
  obtain ⟨p, hp, hall⟩ := Option.map_eq_some_iff.mp hrun
  simp only [Prod.mk.injEq, List.cons.injEq, and_true, decide_eq_false_iff_not] at hall
  obtain ⟨hgone, ⟨h₁, h₂⟩, hst, hh, hattached, hkick⟩ := hall
  have hout : h.room.session.HostGone := ⟨0, p, hp, hh, Session.removed_of_gone hgone⟩
  have hleft : ¬ h.room.Dropped (roomPart 0 t) 1 := by
    rintro (hd | hd)
    · rw [hattached] at hd
      cases hd
    · exact hkick hd
  exact ⟨t, s, h, hr, hk, hst, hout, h₁, h₂, hleft,
    fun hall => hleft ((hall 0 h hk hst).dropped hout 1 1 h₁)⟩

end System
end Helicopter
