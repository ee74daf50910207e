import Helicopter.Lib.Ledger
import Helicopter.Room
import Helicopter.Threads

/-! What a peer says and in which order it is passed on: the messages that its handlers address
to another peer, against those that are queued for and handed to that peer. -/
namespace Helicopter
open Interleaving

def MessageDto.sender? (m : MessageDto) : Option Int :=
  (m.outgoing?.map OutgoingMessageDto.peerId).or
    (m.event?.map OutgoingSynchronizedMessageDto.peerId)

section
variable (id : Int) (isHost : Bool) (m : OutgoingMessageDto) (e : OutgoingSynchronizedMessageDto)

@[simp] theorem sender?_hello : (MessageDto.hello id isHost).sender? = none := rfl
@[simp] theorem sender?_outgoing : (MessageDto.outgoing m).sender? = some m.peerId := rfl
@[simp] theorem sender?_synchronizedEvent :
    (MessageDto.synchronizedEvent e).sender? = some e.peerId := rfl
@[simp] theorem sender?_notice (n : Notice) : n.message.sender? = none := by cases n <;> rfl

end

def Task.pending (j : PeerRef) : Task → List MessageDto
  | .sending recipients payload => List.replicate (recipients.count j) (.outgoing payload)
  | .broadcasting recipients event =>
    List.replicate (recipients.count j) (.synchronizedEvent event)
  | _ => []

def Task.signedBy (peerId : Int) : Task → Prop
  | .sending _ payload => payload.peerId = peerId
  | .broadcasting _ event => event.peerId = peerId
  | _ => True

def sentBy (peerId : Int) (ms : List MessageDto) : List MessageDto :=
  ms.filter fun m => m.sender? = some peerId

@[simp] theorem sentBy_append (peerId : Int) (ms ns : List MessageDto) :
    sentBy peerId (ms ++ ns) = sentBy peerId ms ++ sentBy peerId ns :=
  List.filter_append ..

theorem replicate_count_eraseIdx {α β : Type*} [DecidableEq α] {l : List α} {c : Nat} {k : α}
    (hc : l[c]? = some k) (j : α) (b : β) :
    List.replicate (l.count j) b =
      (if k = j then [b] else []) ++ List.replicate ((l.eraseIdx c).count j) b := by
  have hperm := pick_perm hc
  rw [← hperm.count_eq j, List.count_cons]
  by_cases hk : k = j
  · simp [hk, List.replicate_succ]
  · simp [hk]

theorem split_append {α : Type*} {x y u v : List α} {m : α} (h : x ++ y = u ++ m :: v) :
    (∃ v', x = u ++ m :: v') ∨ ∃ u', u = x ++ u' ∧ y = u' ++ m :: v := by
  obtain ⟨u', hu, hy⟩ | ⟨x', hx, hv⟩ := List.append_eq_append_iff.mp h
  · exact Or.inr ⟨u', hu, hy⟩
  · obtain ⟨rfl, hy⟩ | ⟨v', rfl, -⟩ := List.cons_eq_append_iff.mp hv
    · exact Or.inr ⟨[], by simpa using hx.symm, hy⟩
    · exact Or.inl ⟨v', hx⟩

namespace Session
variable {s s' : Session} {t es : List Event} {a : Op} {i j : PeerRef} {p : Peer}

structure Signed (s : Session) : Prop where
  placed : s.roster.Placed
  tasks : ∀ (i : PeerRef) (p : Peer), s.objects[i]? = some p → p.task.signedBy p.peerId

theorem Signed.peerId (h : Signed s) (hp : s.objects[i]? = some p) : p.peerId = i :=
  h.placed.ids i p.member (by rw [getElem?_roster, hp]; rfl)

theorem reacts_signed {message : MessageDto} {peerId now : Int} {task : Task}
    (hr : Reacts s i peerId message now s' task es) : task.signedBy peerId := by
  cases hr <;> first | rfl | trivial

theorem step_signed (hA : Agrees s) (h : Signed s) (hs : s.step a = some (s', es)) :
    Signed s' := by
  refine ⟨?_, ?_⟩
  · exact run_invariant (M := Roster.machine) (I := fun _ r => r.Placed)
      (fun _ _ _ _ _ h hs => Roster.placed_step h hs) h.placed (step_roster hA hs).2
  · refine forall_step (P := fun _ p => p.task.signedBy p.peerId) hs h.tasks
      (fun isHost => trivial) ?_
    intro i p q hp hq
    have hsign := h.tasks i p hp
    cases hq with
    | thread c task hnext =>
      cases hnext with
      | send recipients payload c ht => rwa [ht] at hsign
      | event recipients event c ht => rwa [ht] at hsign
      | _ => trivial
    | record c timestamp pingTime ht => trivial
    | handle message now s₁ task es ht hr => exact reacts_signed hr
    | close ht => trivial
    | check c now timestamp =>
      have hsame : (countPing p timestamp).peerId = p.peerId :=
        congrArg Member.peerId (member_countPing p timestamp)
      rwa [task_countPing, hsame]

def pending (i j : PeerRef) (s : Session) : List MessageDto :=
  s.objects[i]?.elim [] fun p => p.task.pending j

def begun (i j : PeerRef) (_ : Session) : Op → Session → List MessageDto
  | .handle k _ _, s' => if k = i then s'.pending i j else []
  | _, _ => []

def sent (i j : PeerRef) (t : List Event) : List MessageDto := sentBy i (offersTo j t)

theorem sent_append (i j : PeerRef) (t u : List Event) :
    sent i j (t ++ u) = sent i j t ++ sent i j u := by
  simp [sent, offersTo]

theorem sent_unsigned (h : ∀ k m, .offer k m ∈ es → m.sender? = none) : sent i j es = [] := by
  unfold sent sentBy
  rw [List.filter_eq_nil_iff]
  intro m hm
  simp [h j m (mem_offersTo.mp hm)]

theorem sent_offer (i j k : PeerRef) (m : MessageDto) :
    sent i j [.offer k m] = if k = j ∧ m.sender? = some (i : Int) then [m] else [] := by
  by_cases hk : k = j
  · by_cases hm : m.sender? = some (i : Int) <;>
      simp [sent, sentBy, offersTo, Event.offerTo?, hk, hm]
  · simp [sent, sentBy, offersTo, Event.offerTo?, hk]

theorem pending_setPeer {k : PeerRef} {q : Peer} (hp : s.objects[k]? = some p)
    (ho : s'.objects = (s.setPeer k q).objects) (i j : PeerRef) :
    s'.pending i j = if i = k then q.task.pending j else s.pending i j := by
  unfold pending
  rw [ho, objects_setPeer hp]
  by_cases hi : i = k
  · rw [if_pos hi, if_pos hi]
    rfl
  · rw [if_neg hi, if_neg hi]

theorem pending_of_task (hp : s.objects[i]? = some p) (j : PeerRef) :
    s.pending i j = p.task.pending j := by
  rw [pending, hp]
  rfl

/-- One of the messages that the peer `k` has in hand goes out. -/
theorem conserved_offer {k l : PeerRef} {q : Peer} {m : MessageDto} {rest : List PeerRef}
    {recipients : List PeerRef} {c : Nat} (hSig : Signed s) (hp : s.objects[k]? = some p)
    (hm : m.sender? = some p.peerId) (hc : recipients[c]? = some l)
    (hrest : rest = recipients.eraseIdx c)
    (hold : ∀ j, p.task.pending j = List.replicate (recipients.count j) m)
    (hnew : ∀ j, q.task.pending j = List.replicate (rest.count j) m)
    (ho : s'.objects = (s.setPeer k q).objects) :
    s.pending i j = sent i j [.offer l m] ++ s'.pending i j := by
  rw [pending_setPeer hp ho, sent_offer, hm, hSig.peerId hp]
  by_cases hik : i = k
  · subst hik
    rw [if_pos rfl, pending_of_task hp, hold, hnew, hrest, replicate_count_eraseIdx hc]
    simp
  · have hne : ¬ (l = j ∧ some (k : Int) = some (i : Int)) := by
      intro h
      have hki : (k : Int) = (i : Int) := Option.some.inj h.2
      exact hik (Int.ofNat.inj hki).symm
    rw [if_neg hik, if_neg hne]
    rfl

/-- The peer `k` neither takes anything up nor puts anything out. -/
theorem conserved_quiet {k : PeerRef} {q : Peer} (hp : s.objects[k]? = some p)
    (he : ∀ l m, .offer l m ∈ es → m.sender? = none) (hq : q.task.pending j = p.task.pending j)
    (ho : s'.objects = (s.setPeer k q).objects) :
    s.pending i j = sent i j es ++ s'.pending i j := by
  rw [sent_unsigned he, pending_setPeer hp ho, hq]
  split
  · next hik => rw [hik, pending_of_task hp]; rfl
  · rfl

theorem conserved_same (ho : s'.objects = s.objects)
    (he : ∀ l m, .offer l m ∈ es → m.sender? = none) :
    s.pending i j = sent i j es ++ s'.pending i j := by
  rw [sent_unsigned he]
  simp only [pending, ho, List.nil_append]

theorem conserved_advance {k : PeerRef} (hSig : Signed s) (hp : s.objects[k]? = some p)
    (ha : Advances s k p s' es) : s.pending i j = sent i j es ++ s'.pending i j := by
  have hsign := hSig.tasks k p hp
  cases ha with
  | add ht hm =>
    refine conserved_quiet (q := { p with task := .greeting }) hp ?_ (by rw [ht]; rfl)
      (by rw [addPeer_fst]; rfl)
    intro l m hm
    obtain ⟨h, notice, he⟩ := offer_of_mem_addPeer ((List.mem_cons.mp hm).resolve_left (by simp))
    cases he
    exact sender?_notice _
  | remove ht hm =>
    refine conserved_quiet (q := { p with task := .removed }) hp ?_ (by rw [ht]; rfl)
      (by rw [removePeerById_fst]; rfl)
    intro l m hm
    obtain ⟨h, notice, he⟩ :=
      offer_of_mem_removePeerById ((List.mem_cons.mp hm).resolve_left (by simp))
    cases he
    exact sender?_notice _
  | greet ht =>
    refine conserved_quiet (q := { p with task := .listening }) hp ?_ (by rw [ht]; rfl) rfl
    intro l m hm
    obtain ⟨-, rfl⟩ : l = k ∧ m = .hello p.peerId p.isHost := by simpa using hm
    rfl
  | send recipients payload c l ht hl =>
    rw [ht] at hsign
    exact conserved_offer hSig hp (congrArg some hsign) hl rfl (fun j => by rw [ht]; rfl)
      (fun j => rfl) rfl
  | event recipients event c l ht hl =>
    rw [ht] at hsign
    exact conserved_offer hSig hp (congrArg some hsign) hl rfl (fun j => by rw [ht]; rfl)
      (fun j => rfl) rfl
  | record timestamp pingTime ht => exact conserved_quiet hp (by simp) (by rw [ht]; rfl) rfl
  | eventDone event ht =>
    exact conserved_quiet (q := { p with task := .listening }) hp (by simp) (by rw [ht]; rfl) rfl
  | select peerIds ht hm => exact conserved_quiet hp (by simp) (by rw [ht]; rfl) rfl
  | kick targets c l ht hl => exact conserved_quiet hp (by simp) (by rw [ht]; rfl) rfl
  | done ht =>
    refine conserved_quiet (q := { p with task := .listening }) hp (by simp) ?_ rfl
    obtain ⟨payload, ht⟩ | ht := ht <;> rw [ht] <;> rfl
  | clear ht => exact conserved_quiet hp (by simp) (by rw [ht]; rfl) rfl

theorem conserved_tick {c : Nat} {now : Int} (hk : Ticks s c now s' es) :
    s.pending i j = sent i j es ++ s'.pending i j := by
  cases hk with
  | check timestamp rest l p hpg hc hp hf =>
    exact conserved_quiet hp (by simp) (by rw [task_countPing]) rfl
  | drop timestamp rest l p hpg hc hp hf =>
    exact conserved_quiet hp (by simp) (by rw [task_countPing]) rfl
  | _ => exact conserved_same rfl (by simp)

theorem step_conserves (hSig : Signed s) (hs : s.step a = some (s', es)) :
    s.pending i j ++ begun i j s a s' = sent i j es ++ s'.pending i j := by
  cases step_cases hs with
  | findSession => exact (List.append_nil _).trans (conserved_same rfl (by simp))
  | newPeer k isHost hk =>
    rw [sent_unsigned (by simp)]
    simp only [begun, pending, List.append_nil, List.nil_append, getElem?_snoc]
    by_cases hi : i = s.objects.length
    · rw [if_pos hi, hi, List.getElem?_eq_none (Nat.le_refl _)]
      rfl
    · rw [if_neg hi]
  | advance k p c s' es hp ha => exact (List.append_nil _).trans (conserved_advance hSig hp ha)
  | handle k p message now s₁ task es hp ht hr =>
    have ho : (s₁.setTask k p task).objects = (s.setPeer k { p with task := task }).objects := by
      simp only [setTask, setPeer, (reacts_frame hr).1]
    have he : ∀ l m, .offer l m ∈ Event.handled k message.message :: es → m.sender? = none := by
      intro l m hm
      cases hr <;> simp at hm
    rw [sent_unsigned he, List.nil_append]
    by_cases hki : k = i
    · subst hki
      rw [begun, if_pos rfl, pending_of_task hp, ht]
      rfl
    · rw [begun, if_neg hki, List.append_nil, pending_setPeer hp ho, if_neg (Ne.symm hki)]
  | close k p hp ht =>
    exact (List.append_nil _).trans (conserved_quiet hp (by simp) (by rw [ht]; rfl) rfl)
  | tick c now s' es hk => exact (List.append_nil _).trans (conserved_tick hk)

theorem conserves (i j : PeerRef) : Conserves machine (fun s => Agrees s ∧ Signed s)
    (pending i j) (begun i j) (sent i j) :=
  ⟨fun _ _ _ _ h hs => step_conserves h.2 hs, sent_append i j⟩

theorem step_agrees_signed (h : Agrees s ∧ Signed s) (hs : s.step a = some (s', es)) :
    Agrees s' ∧ Signed s' :=
  ⟨(step_roster h.1 hs).1, step_signed h.1 h.2 hs⟩

theorem signed_init (id : String) (config : GameConfigDto) :
    Signed { id := id, config := config } :=
  ⟨Roster.placed_init, fun i p hp => by simp at hp⟩

theorem run_signed {id : String} {config : GameConfigDto} {w : List Op}
    (hr : machine.run w [] { id := id, config := config } = some (t, s)) : Agrees s ∧ Signed s :=
  run_invariant (I := fun _ s => Agrees s ∧ Signed s)
    (fun _ _ _ _ _ h hs => step_agrees_signed h hs)
    ⟨agrees_init id config, signed_init id config⟩ hr

/-! ## Between the announcement and the withdrawal of a client -/

def Waiting (i : PeerRef) (s : Session) : Prop :=
  ∀ p, s.objects[i]? = some p → p.task = .adding

def Gone (i : PeerRef) (s : Session) : Prop :=
  ∃ p, s.objects[i]? = some p ∧ p.task = .removed

theorem pending_of_waiting (h : Waiting i s) (j : PeerRef) : s.pending i j = [] := by
  unfold pending
  cases hp : s.objects[i]? with
  | none => rfl
  | some p =>
    rw [Option.elim_some, h p hp]
    rfl

theorem pending_of_gone (h : Gone i s) (j : PeerRef) : s.pending i j = [] := by
  obtain ⟨p, hp, ht⟩ := h
  rw [pending_of_task hp, ht]
  rfl

theorem waiting_before (hA : Agrees s) (hs : s.step a = some (s', es)) (h : Waiting i s') :
    Waiting i s := by
  intro p hp
  obtain ⟨p', hp', hl⟩ := step_later hA hs hp
  by_contra hne
  have hst : p.task.stage ≠ .coming := by
    cases ht : p.task with
    | adding => exact absurd ht hne
    | _ => simp [Task.stage]
  apply hl.entered hst
  simp [Peer.member, h p' hp', Task.stage]

theorem gone_after (hA : Agrees s) (hs : s.step a = some (s', es)) (h : Gone i s) : Gone i s' := by
  obtain ⟨p, hp, ht⟩ := h
  obtain ⟨p', hp', hl⟩ := step_later hA hs hp
  refine ⟨p', hp', ?_⟩
  have hgone := hl.left (by simp [Peer.member, ht, Task.stage])
  cases ht' : p'.task with
  | removed => rfl
  | _ => simp [Peer.member, ht', Task.stage] at hgone

/-- A peer with nothing in hand before and after a step has put nothing out. -/
theorem sent_of_idle (hSig : Signed s) (hs : s.step a = some (s', es))
    (hold : s.pending i j = []) (hnew : s'.pending i j = []) : sent i j es = [] := by
  have hb : begun i j s a s' = [] := by
    unfold begun
    split
    · split
      · exact hnew
      · rfl
    · rfl
  have h := step_conserves (i := i) (j := j) hSig hs
  rw [hold, hb, hnew] at h
  exact (List.append_nil _).symm.trans h.symm

theorem run_waiting {id : String} {config : GameConfigDto} {w : List Op}
    (hr : machine.run w [] { id := id, config := config } = some (t, s)) (h : Waiting i s)
    (j : PeerRef) : sent i j t = [] := by
  have hI : (Agrees s ∧ Signed s) ∧ (Waiting i s → sent i j t = []) := by
    refine run_invariant
      (I := fun t s => (Agrees s ∧ Signed s) ∧ (Waiting i s → sent i j t = [])) ?_
      ⟨⟨agrees_init id config, signed_init id config⟩, fun _ => rfl⟩ hr
    intro t s a s' es h hs
    refine ⟨step_agrees_signed h.1 hs, ?_⟩
    intro hwait
    have hbefore := waiting_before h.1.1 hs hwait
    rw [sent_append, h.2 hbefore,
      sent_of_idle h.1.2 hs (pending_of_waiting hbefore j) (pending_of_waiting hwait j)]
    rfl
  exact hI.2 h

/-- The host is told that a client has left at the client's own `removePeerById`. -/
theorem left_offered {k : PeerRef} {peerId : Int} (hs : s.step a = some (s', es))
    (he : .offer k (Notice.left peerId).message ∈ es) :
    ∃ l p, s.objects[l]? = some p ∧ p.peerId = peerId ∧ p.task = .removing ∧ Gone l s' := by
  have hno : ∀ {m : MessageDto}, m.notice? = none → Notice.message (.left peerId) ≠ m := by
    rintro m hm rfl
    cases hm
  cases step_cases hs with
  | findSession => cases he
  | newPeer k isHost hk => simp at he
  | advance l p c s' es hp ha =>
    cases ha with
    | add ht hm =>
      rw [addPeer_snd] at he
      split at he
      · simp at he
      · obtain ⟨h, -, he⟩ := mem_tellHost.mp (by simpa using he)
        cases he
    | remove ht hm =>
      obtain ⟨-, h, -, he⟩ := mem_removePeerById.mp (by simpa using he)
      cases he
      refine ⟨l, p, hp, rfl, ht, { p with task := .removed }, ?_, rfl⟩
      rw [removePeerById_fst]
      exact (objects_setPeer hp _ l).trans (if_pos rfl)
    | greet ht =>
      simp only [List.mem_singleton, Event.offer.injEq] at he
      exact absurd he.2 (hno rfl)
    | send recipients payload c k ht hk =>
      simp only [List.mem_singleton, Event.offer.injEq] at he
      exact absurd he.2 (hno rfl)
    | event recipients event c k ht hk =>
      simp only [List.mem_singleton, Event.offer.injEq] at he
      exact absurd he.2 (hno rfl)
    | _ => simp at he
  | handle i p message now s₁ task es hp ht hre => cases hre <;> simp at he
  | close i p hp ht => simp at he
  | tick c now s' es hk => cases hk <;> simp at he

def ComesAfter (notice : Notice) (peerId : Int) (ms : List MessageDto) : Prop :=
  ∀ u m v, ms = u ++ m :: v → m.sender? = some peerId → notice.message ∈ u

def NeverAfter (notice : Notice) (peerId : Int) (ms : List MessageDto) : Prop :=
  ∀ u m v, ms = u ++ m :: v → m.sender? = some peerId → notice.message ∉ u

theorem not_signed_of_sentBy {peerId : Int} {ms : List MessageDto} {m : MessageDto}
    (h : sentBy peerId ms = []) (hm : m ∈ ms) : m.sender? ≠ some peerId := by
  unfold sentBy at h
  simpa using List.filter_eq_nil_iff.mp h m hm

theorem comesAfter_append {notice : Notice} {peerId : Int} {ms ns : List MessageDto}
    (h : ComesAfter notice peerId ms) (hn : notice.message ∈ ms ∨ sentBy peerId ns = []) :
    ComesAfter notice peerId (ms ++ ns) := by
  intro u m v hsplit hm
  obtain ⟨v', rfl⟩ | ⟨u', rfl, rfl⟩ := split_append hsplit
  · exact h u m v' rfl hm
  · obtain hn | hn := hn
    · exact List.mem_append_left _ hn
    · exact absurd hm (not_signed_of_sentBy hn (by simp))

theorem neverAfter_append {notice : Notice} {peerId : Int} {ms ns : List MessageDto}
    (h : NeverAfter notice peerId ms)
    (hn : sentBy peerId ns = [] ∨ (notice.message ∉ ms ∧ notice.message ∉ ns)) :
    NeverAfter notice peerId (ms ++ ns) := by
  intro u m v hsplit hm
  obtain ⟨v', rfl⟩ | ⟨u', rfl, rfl⟩ := split_append hsplit
  · exact h u m v' rfl hm
  · obtain hn | ⟨hms, hns⟩ := hn
    · exact absurd hm (not_signed_of_sentBy hn (by simp))
    · intro hu
      obtain hu | hu := List.mem_append.mp hu
      · exact hms hu
      · exact hns (List.mem_append_left _ hu)

theorem run_neverAfter {id : String} {config : GameConfigDto} {w : List Op}
    (hr : machine.run w [] { id := id, config := config } = some (t, s)) (i j : PeerRef) :
    NeverAfter (.left i) i (offersTo j t) := by
  have hI : (Agrees s ∧ Signed s) ∧ NeverAfter (.left i) i (offersTo j t) ∧
      ((Notice.left i).message ∈ offersTo j t → Gone i s) := by
    refine run_invariant (I := fun t s => (Agrees s ∧ Signed s) ∧
      NeverAfter (.left i) i (offersTo j t) ∧
        ((Notice.left i).message ∈ offersTo j t → Gone i s)) ?_
      ⟨⟨agrees_init id config, signed_init id config⟩, ?_, fun h => by cases h⟩ hr
    · intro t s a s' es h hs
      obtain ⟨hI, hnever, hgone⟩ := h
      have happ := offersTo_append j t es
      -- the client's own last step
      have hleft : (Notice.left i).message ∈ offersTo j es → Gone i s' ∧ sent i j es = [] := by
        intro hm
        obtain ⟨l, p, hp, hid, ht, hg⟩ := left_offered hs (mem_offersTo.mp hm)
        rw [hI.2.peerId hp] at hid
        obtain rfl : l = i := Int.ofNat.inj hid
        refine ⟨hg, sent_of_idle hI.2 hs ?_ (pending_of_gone hg j)⟩
        rw [pending_of_task hp, ht]
        rfl
      refine ⟨step_agrees_signed hI hs, ?_, ?_⟩
      · rw [happ]
        apply neverAfter_append hnever
        by_cases hold : (Notice.left i).message ∈ offersTo j t
        · exact Or.inl (sent_of_idle hI.2 hs (pending_of_gone (hgone hold) j)
            (pending_of_gone (gone_after hI.1 hs (hgone hold)) j))
        · by_cases hnew : (Notice.left i).message ∈ offersTo j es
          · exact Or.inl (hleft hnew).2
          · exact Or.inr ⟨hold, hnew⟩
      · rw [happ]
        intro hm
        obtain hm | hm := List.mem_append.mp hm
        · exact gone_after hI.1 hs (hgone hm)
        · exact (hleft hm).1
    · intro u m v hsplit
      simp [offersTo] at hsplit
  exact hI.2.1

end Session

namespace Room
variable {id : String} {config : GameConfigDto} {r r' : Room} {t es : List Event} {i j : PeerRef}

def begun (i j : PeerRef) (r : Room) : Op → Room → List MessageDto
  | .session a, r' => Session.begun i j r.session a r'.session
  | _, _ => []

def handed (i j : PeerRef) (t : List Event) : List MessageDto :=
  sentBy i (Channel.popped (channel j t))

theorem conserves (i j : PeerRef) :
    Conserves machine (fun r => r.session.Agrees ∧ r.session.Signed)
      (fun r => r.session.pending i j) (begun i j) (fun t => Session.sent i j (sessionPart t)) where
  step r a r' es h hs := by
    obtain ⟨b, rfl, hb⟩ | ⟨hno, hsame, hnil⟩ := step_session hs
    · exact Session.step_conserves h.2 hb
    · have hbegun : begun i j r a r' = [] := by
        cases a with
        | session b => exact absurd rfl (hno b)
        | _ => rfl
      rw [hbegun, hnil, hsame]
      exact List.append_nil _
  append t u := by
    rw [sessionPart_append]
    exact Session.sent_append i j _ _

theorem step_agrees_signed {a : Op} (h : r.session.Agrees ∧ r.session.Signed)
    (hs : r.step a = some (r', es)) : r'.session.Agrees ∧ r'.session.Signed := by
  obtain ⟨b, -, hb⟩ | ⟨-, hsame, -⟩ := step_session hs
  · exact Session.step_agrees_signed h hb
  · rw [hsame]
    exact h

/-- What has been queued of what a peer's handlers have taken up so far. -/
theorem run_sent {w : List Op} (hr : machine.run w [] (init id config) = some (t, r))
    (i j : PeerRef) : machine.takenUp (begun i j) w (init id config) =
      Session.sent i j (sessionPart t) ++ r.session.pending i j :=
  (conserves i j).run (fun _ _ _ _ h hs => step_agrees_signed h hs)
    ⟨Session.agrees_init id config, Session.signed_init id config⟩ hr

theorem handed_sublist (h : Reached id config t r) (i j : PeerRef) :
    (handed i j t).Sublist (Session.sent i j (sessionPart t)) :=
  ((h.popped_sublist j).trans (h.accepted_sublist j)).filter _

/-- The client `i` is added while `j` is the host. -/
theorem run_comesAfter {u v : List Op} {c : Nat} {t₁ : List Event} {r₁ : Room} {p : Peer}
    (hr : machine.run (u ++ .session (.advance i c) :: v) [] (init id config) = some (t, r))
    (hu : machine.run u [] (init id config) = some (t₁, r₁))
    (hp : r₁.session.objects[i]? = some p) (ht : p.task = .adding) (hc : p.isHost = false)
    (hh : r₁.session.host = some j) :
    Session.ComesAfter (.joined i) i (Session.offersTo j (sessionPart t)) := by
  rw [run_append, hu] at hr
  obtain ⟨r₂, es, hs, hv⟩ := run_cons_some hr
  have hs : r₁.step (.session (.advance i c)) = some (r₂, es) := hs
  obtain ⟨x, hx⟩ := (run_reached hu).session
  have hquiet := Session.run_waiting hx (i := i)
    (fun q hq => by rw [hp] at hq; cases hq; exact ht) j
  have hid : p.peerId = i := (Session.run_signed hx).2.peerId hp
  have hoffer : Session.offersTo j (sessionPart es) = [(Notice.joined i).message] := by
    obtain ⟨b, hb, hstep⟩ | ⟨hno, -, -⟩ := step_session hs
    · cases hb
      rw [(Session.step_add hp ht hstep).2, Session.addPeer_snd, hc, if_neg (by simp), hid]
      simp [Session.tellHost, hh, Session.offersTo, List.filterMap_cons, Session.Event.offerTo?]
    · exact absurd rfl (hno _)
  have happ : ∀ t u : List Event, Session.offersTo j (sessionPart (t ++ u)) =
      Session.offersTo j (sessionPart t) ++ Session.offersTo j (sessionPart u) := by
    intro t u
    rw [sessionPart_append, Session.offersTo_append]
  have hI : Session.ComesAfter (.joined i) i (Session.offersTo j (sessionPart t)) ∧
      (Notice.joined i).message ∈ Session.offersTo j (sessionPart t) := by
    refine run_invariant (M := machine) (I := fun t _ =>
      Session.ComesAfter (.joined i) i (Session.offersTo j (sessionPart t)) ∧
        (Notice.joined i).message ∈ Session.offersTo j (sessionPart t)) ?_ ?_ hv
    · intro t r a r' es h hs
      rw [happ]
      exact ⟨Session.comesAfter_append h.1 (Or.inl h.2), List.mem_append_left _ h.2⟩
    · rw [happ, hoffer]
      refine ⟨?_, by simp⟩
      apply Session.comesAfter_append
      · intro a m b hsplit hm
        exact absurd hm (Session.not_signed_of_sentBy hquiet (by rw [hsplit]; simp))
      · exact Or.inr (by simp [sentBy])
  exact hI.1

/-- Every socket is handed the messages of a sender in the order in which the sender's reader
handled what caused them, whatever kinds they are of. The host's queue accepts those of a client
that was added under its eyes between the two notices about that client. -/
theorem sender_order (id : String) (config : GameConfigDto) (w : List Op) (t : List Event)
    (r : Room) (hr : machine.run w [] (init id config) = some (t, r)) :
    (∀ i j, (handed i j t).Sublist (machine.takenUp (begun i j) w (init id config))) ∧
    ∀ u i c v t₁ r₁ p j, w = u ++ .session (.advance i c) :: v →
      machine.run u [] (init id config) = some (t₁, r₁) → r₁.session.objects[i]? = some p →
      p.task = .adding → p.isHost = false → r₁.session.host = some j →
      ∀ x m y, channel j t = x ++ .accepted m :: y → m.sender? = some p.peerId →
        (Notice.joined p.peerId).message ∈ Channel.offered x ∧
          (Notice.left p.peerId).message ∉ Channel.offered x := by
  have h := run_reached hr
  obtain ⟨z, hz⟩ := h.session
  constructor
  · intro i j
    rw [run_sent hr i j]
    exact (handed_sublist h i j).trans (List.sublist_append_left _ _)
  · intro u i c v t₁ r₁ p j hw hu hp ht hc hh x m y hsplit hm
    obtain ⟨z₁, hz₁⟩ := (run_reached hu).session
    rw [(Session.run_signed hz₁).2.peerId hp] at hm ⊢
    have hoffers : Session.offersTo j (sessionPart t) =
        Channel.offered x ++ m :: Channel.offered y := by
      rw [← h.offers j, hsplit]
      simp [Channel.offered, Channel.Event.offered?]
    rw [hw] at hr
    exact ⟨run_comesAfter hr hu hp ht hc hh _ m _ hoffers hm,
      Session.run_neverAfter hz i j _ m _ hoffers hm⟩

def hostInside : List Op :=
  [.session (.newPeer 0), .session (.advance 0 0), .session (.advance 0 0),
    .session .findSession, .session (.newPeer 0)]

def clientSpeaks : List Op :=
  let toHost : IncomingMessage :=
    ⟨⟨some .incomingClientMessage, some (.string "first"), none⟩, fun p hp => by cases hp; rfl⟩
  let broadcast : IncomingMessage :=
    ⟨⟨some .incomingBroadcast, some (.string "second"), none⟩, fun p hp => by cases hp; rfl⟩
  [.session (.advance 1 0), .session (.handle 1 toHost 0), .session (.advance 1 0),
    .session (.advance 1 0), .session (.handle 1 broadcast 0), .session (.advance 1 0),
    .session (.advance 1 0), .session (.close 1), .session (.advance 1 0),
    .session (.advance 1 0), .act 0 0, .send 0 0 true, .act 0 0, .send 0 0 true, .act 0 0,
    .send 0 0 false, .act 0 0]

theorem sender_order_client :
    ∃ t r, machine.run (hostInside ++ .session (.advance 1 0) :: clientSpeaks) []
        (init "lobby" {}) = some (t, r) ∧
      handed 1 0 t = [.outgoing ⟨1, some "first"⟩, .outgoing ⟨1, some "second"⟩] ∧
      (handed 1 0 t).Sublist (machine.takenUp (begun 1 0)
        (hostInside ++ .session (.advance 1 0) :: clientSpeaks) (init "lobby" {})) ∧
      ∀ x m y, channel 0 t = x ++ .accepted m :: y → m.sender? = some 1 →
        (Notice.joined 1).message ∈ Channel.offered x ∧
          (Notice.left 1).message ∉ Channel.offered x :=
  ⟨_, _, rfl, rfl, (sender_order "lobby" {} _ _ _ rfl).1 1 0,
    (sender_order "lobby" {} _ _ _ rfl).2 hostInside 1 0 clientSpeaks _ _ _ 0 rfl rfl rfl rfl rfl
      rfl⟩

end Room
end Helicopter
