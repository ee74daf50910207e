import Helicopter.PeersMutex

/-! The ping rules. The counter `m_failedPings` of a peer against the history of the rounds:
as long as a peer is only charged for rounds that pinged it, the counter counts pings that were
really sent, and of these at most the one whose accepted pong waits to be recorded was answered. -/
namespace Helicopter
open Interleaving

def Task.pong? : Task → Option Int
  | .reported _ pingTime => some pingTime
  | _ => none

/-- The round whose accepted pong waits to be recorded. -/
def Task.accepted? : Task → Option Int
  | .reported timestamp pingTime => if 0 ≤ pingTime then some timestamp else none
  | _ => none

def PingerTask.timestamp? : PingerTask → Option Int
  | .checking timestamp | .checkLoop timestamp _ | .dropping timestamp _ _ => some timestamp
  | _ => none

def PingerTask.unchecked : PingerTask → List PeerRef
  | .checkLoop _ rest | .dropping _ rest _ => rest
  | _ => []

def PingerTask.atCheck : PingerTask → List PeerRef
  | .checkLoop _ rest => rest
  | _ => []

def PingerTask.isChecked : PingerTask → Bool
  | .checked => true
  | _ => false

def PingerTask.owes (j : PeerRef) : PingerTask → Bool
  | .checkLoop _ rest | .dropping _ rest _ => decide (j ∈ rest)
  | .checked => false
  | _ => true

namespace Session
variable {s s' : Session} {t es : List Event}

def Event.round? : Event → Option Int
  | .round timestamp => some timestamp
  | _ => none

/-- The timestamps of the ping rounds, latest first. -/
def rounds (t : List Event) : List Int := (t.filterMap Event.round?).reverse

def Unanswered (t : List Event) (j : PeerRef) (timestamp : Int) : Prop :=
  .ping j timestamp ∈ t ∧ ∀ pingTime, 0 ≤ pingTime → .pong j timestamp pingTime ∉ t

def Event.accepts (j : PeerRef) (timestamp : Int) : Event → Bool
  | .pong i ρ pingTime => decide (i = j ∧ ρ = timestamp ∧ 0 ≤ pingTime)
  | _ => false

theorem unanswered_iff {j : PeerRef} {timestamp : Int} : Unanswered t j timestamp ↔
    .ping j timestamp ∈ t ∧ ∀ e ∈ t, e.accepts j timestamp = false := by
  refine and_congr_right fun _ => ?_
  constructor
  · intro h e he
    cases e with
    | pong i ρ pingTime =>
      refine decide_eq_false ?_
      rintro ⟨rfl, rfl, hpt⟩
      exact h pingTime hpt he
    | _ => rfl
  · intro h pingTime hpt hm
    have := of_decide_eq_false (h _ hm)
    exact this ⟨rfl, rfl, hpt⟩

instance (t : List Event) (j : PeerRef) (timestamp : Int) : Decidable (Unanswered t j timestamp) :=
  decidable_of_iff _ unanswered_iff.symm

def due (t : List Event) (pinger : PingerTask) (j : PeerRef) : List Int :=
  if pinger.owes j then (rounds t).tail else rounds t

def DropsDeserved (maxFailedPings : Nat) (t : List Event) : Prop :=
  ∀ u j timestamp, u ++ [.checked j timestamp true] <+: t →
    maxFailedPings ≤ (rounds u).length ∧ ∀ ρ ∈ (rounds u).take maxFailedPings, Unanswered u j ρ

/-- Whoever is dropped left the last `maxFailedPings` rounds unanswered, and nobody is charged
with the ping of a round that did not ping it. -/
structure Deserved (t : List Event) (s : Session) : Prop where
  dropped : DropsDeserved s.config.maxFailedPings t
  charged : ∀ (j : PeerRef) (p : Peer), s.objects[j]? = some p → p.task.stage = .inside →
    ∀ ρ ∈ (due t s.pinger j).take p.failedPings.toNat, .ping j ρ ∈ t

def Clock (t : List Event) (s : Session) : Op → Prop
  | .tick _ now => s.pinger.isChecked = true → 0 < now ∧ ∀ ρ ∈ rounds t, ρ < now
  | _ => True

/-- A check charges a peer only with the ping of a round that pinged it. If it may drop the peer,
no accepted pong for one of the last `maxFailedPings` rounds waits to be recorded. -/
def FairCheck (t : List Event) (s : Session) : Op → Prop
  | .tick c _ => ∀ j ∈ s.pinger.atCheck[c]?, ∀ p ∈ s.objects[j]?,
    p.lastPingTimestamp ≠ s.pingCurrentTimestamp →
    (∀ ρ ∈ (rounds t).head?, .ping j ρ ∈ t) ∧
    ((s.config.maxFailedPings : Int) ≤ p.failedPings + 1 → ∀ ρ ∈ p.task.accepted?,
      ρ ∉ (rounds t).take s.config.maxFailedPings)
  | _ => True

instance (t : List Event) (s : Session) : ∀ a, Decidable (Clock t s a)
  | .tick _ now => inferInstanceAs
    (Decidable (s.pinger.isChecked = true → 0 < now ∧ ∀ ρ ∈ rounds t, ρ < now))
  | .findSession | .newPeer _ | .advance _ _ | .handle _ _ _ | .close _ => isTrue trivial

instance (t : List Event) (s : Session) : ∀ a, Decidable (FairCheck t s a)
  | .tick c _ => inferInstanceAs (Decidable (∀ j ∈ s.pinger.atCheck[c]?, ∀ p ∈ s.objects[j]?,
    p.lastPingTimestamp ≠ s.pingCurrentTimestamp →
    (∀ ρ ∈ (rounds t).head?, .ping j ρ ∈ t) ∧
    ((s.config.maxFailedPings : Int) ≤ p.failedPings + 1 → ∀ ρ ∈ p.task.accepted?,
      ρ ∉ (rounds t).take s.config.maxFailedPings)))
  | .findSession | .newPeer _ | .advance _ _ | .handle _ _ _ | .close _ => isTrue trivial

/-! ## The ledger of one peer -/

def Missed (t : List Event) (j : PeerRef) (p : Peer) (ρ : Int) : Prop :=
  .ping j ρ ∈ t ∧ (Unanswered t j ρ ∨ p.task.accepted? = some ρ)

structure Ledger (t : List Event) (current : Int) (due : List Int) (j : PeerRef) (p : Peer) :
    Prop where
  last : p.lastPingTimestamp = -1 ∨ p.lastPingTimestamp ∈ rounds t
  fresh : p.lastPingTimestamp = current → p.failedPings = 0
  coming : p.task.stage = .coming → p.failedPings = 0
  reported : ∀ ρ pingTime, p.task = .reported ρ pingTime → 0 ≤ pingTime →
    (ρ = -1 ∨ ρ ∈ rounds t) ∧ p.lastPingTimestamp ≤ ρ ∧ .pong j ρ pingTime ∈ t
  answered : ∀ ρ pingTime, .pong j ρ pingTime ∈ t → 0 ≤ pingTime →
    p.task = .reported ρ pingTime ∨ ρ ≤ p.lastPingTimestamp
  failed : p.task.stage = .inside → ∃ k : Nat, p.failedPings = k ∧
    k ≤ due.length ∧ ∀ ρ ∈ due.take k, Missed t j p ρ

theorem rounds_append (t es : List Event) : rounds (t ++ es) = rounds es ++ rounds t := by
  simp [rounds]

section
variable {current : Int} {due : List Int} {j : PeerRef} {p q : Peer}

theorem accepted_of_pong {task : Task} (h : task.pong? = none) : task.accepted? = none := by
  cases task with
  | reported timestamp pingTime => cases h
  | _ => rfl

theorem accepted_some {task : Task} {ρ : Int} :
    task.accepted? = some ρ ↔ ∃ pingTime, 0 ≤ pingTime ∧ task = .reported ρ pingTime := by
  cases task with
  | reported timestamp pingTime =>
    rw [Task.accepted?]
    by_cases h : 0 ≤ pingTime
    · simp only [if_pos h, Option.some.injEq, Task.reported.injEq]
      constructor
      · intro hρ
        exact ⟨pingTime, h, hρ, rfl⟩
      · intro ⟨_, _, hρ, _⟩
        exact hρ
    · simp only [if_neg h, Task.reported.injEq]
      constructor
      · intro hf
        cases hf
      · intro ⟨pt, hpt, _, he⟩
        exact absurd (he ▸ hpt) h
  | _ => simp [Task.accepted?]

theorem missed_append {ρ : Int} (h : Missed t j p ρ)
    (hno : ∀ pingTime, 0 ≤ pingTime → .pong j ρ pingTime ∉ es) : Missed (t ++ es) j p ρ := by
  refine ⟨List.mem_append_left _ h.1, h.2.imp_left ?_⟩
  intro hun
  refine ⟨List.mem_append_left _ hun.1, ?_⟩
  intro pt hpt hm
  exact (List.mem_append.mp hm).elim (hun.2 pt hpt) (hno pt hpt)

/-- Where no pong waits to be recorded, the task of the peer does not matter. -/
theorem missed_of_unanswered {ρ : Int} (h : Missed t j p ρ) (hp : p.task.accepted? = none) :
    Missed t j q ρ := by
  refine ⟨h.1, Or.inl (h.2.resolve_right ?_)⟩
  rw [hp]
  simp

/-- No round starts and no pong of the peer comes. -/
theorem ledger_append (h : Ledger t current due j p) (hes : rounds es = [])
    (hno : ∀ ρ pingTime, 0 ≤ pingTime → .pong j ρ pingTime ∉ es) :
    Ledger (t ++ es) current due j p := by
  have hrounds : rounds (t ++ es) = rounds t := by
    rw [rounds_append, hes, List.nil_append]
  have hpong : ∀ ρ pingTime, 0 ≤ pingTime → Event.pong j ρ pingTime ∈ t ++ es →
      .pong j ρ pingTime ∈ t := by
    intro ρ pt hpt hm
    exact (List.mem_append.mp hm).resolve_right (hno ρ pt hpt)
  refine ⟨by rw [hrounds]; exact h.last, h.fresh, h.coming,
    ?_, ?_, ?_⟩
  · intro ρ pt hr hpt
    obtain ⟨hρ, hle, hm⟩ := h.reported ρ pt hr hpt
    exact ⟨by rw [hrounds]; exact hρ, hle, List.mem_append_left _ hm⟩
  · intro ρ pt hm hpt
    exact h.answered ρ pt (hpong ρ pt hpt hm) hpt
  · intro hin
    obtain ⟨k, hk, hle, hun⟩ := h.failed hin
    exact ⟨k, hk, hle, fun ρ hρ => missed_append (hun ρ hρ) (hno ρ)⟩

/-- The rounds that are due matter only to a peer inside. -/
theorem ledger_due {due' : List Int} (h : Ledger t current due j p)
    (hd : p.task.stage = .inside → due' = due) : Ledger t current due' j p := by
  refine ⟨h.last, h.fresh, h.coming, h.reported, h.answered, ?_⟩
  intro hin
  rw [hd hin]
  exact h.failed hin

/-- The peer moves between tasks other than `reported`. -/
theorem ledger_move {task : Task} (h : Ledger t current due j p)
    (hp : p.task.pong? = none) (ht : task.pong? = none) (hco : task.stage ≠ .coming)
    (hgone : task.stage = .inside → p.task.stage ≠ .gone) :
    Ledger t current due j { p with task := task } := by
  have hno : ∀ {task : Task} {ρ pt : Int}, task.pong? = none → task ≠ .reported ρ pt := by
    intro task ρ pt hf he
    rw [he] at hf
    cases hf
  refine ⟨h.last, h.fresh, fun hc => absurd hc hco, fun ρ pt hr => absurd hr (hno ht), ?_, ?_⟩
  · intro ρ pt hm hpt
    exact Or.inr ((h.answered ρ pt hm hpt).resolve_left (hno hp))
  · intro hin
    cases hst : p.task.stage with
    | coming => exact ⟨0, h.coming hst, Nat.zero_le _, by simp⟩
    | inside =>
      obtain ⟨k, hk, hle, hun⟩ := h.failed hst
      exact ⟨k, hk, hle, fun ρ hρ => missed_of_unanswered (hun ρ hρ) (accepted_of_pong hp)⟩
    | gone => exact absurd hst (hgone hin)

theorem ledger_record {ρ pingTime : Int} (h : Ledger t current due j p)
    (ht : p.task = .reported ρ pingTime) :
    Ledger t current due j { recordPong p ρ pingTime with task := .listening } := by
  have hno : ∀ ρ' pt', (Task.listening : Task) ≠ .reported ρ' pt' := fun ρ' pt' hf => by cases hf
  unfold recordPong
  by_cases hpt : pingTime ≥ 0
  · rw [if_pos hpt]
    obtain ⟨hρ, hle, -⟩ := h.reported ρ pingTime ht hpt
    refine ⟨hρ, fun _ => rfl, fun hc => by (cases hc), fun ρ' pt' hr => absurd hr (hno ρ' pt'),
      ?_, fun _ => ⟨0, rfl, Nat.zero_le _, by simp⟩⟩
    intro ρ' pt' hm hpt'
    right
    simp only
    obtain hr | hr := h.answered ρ' pt' hm hpt'
    · rw [ht] at hr
      cases hr
      exact Int.le_refl ρ
    · omega
  · rw [if_neg hpt]
    refine ⟨h.last, h.fresh, fun hc => by (cases hc), fun ρ' pt' hr => absurd hr (hno ρ' pt'),
      ?_, ?_⟩
    · intro ρ' pt' hm hpt'
      right
      obtain hr | hr := h.answered ρ' pt' hm hpt'
      · rw [ht] at hr
        cases hr
        exact absurd hpt' hpt
      · exact hr
    · intro _
      obtain ⟨k, hk, hle, hun⟩ := h.failed (by rw [ht]; rfl)
      have hnone : p.task.accepted? = none := by rw [ht, Task.accepted?, if_neg hpt]
      exact ⟨k, hk, hle, fun ρ' hρ' => missed_of_unanswered (hun ρ' hρ') hnone⟩

structure Rounds (t : List Event) (current : Int) : Prop where
  head : current = (rounds t).head?.getD (-1)
  positive : ∀ ρ ∈ rounds t, 0 < ρ
  sorted : (rounds t).Pairwise (· > ·)

theorem Rounds.le_current (h : Rounds t current) {ρ : Int} (hρ : ρ = -1 ∨ ρ ∈ rounds t) :
    ρ ≤ current := by
  obtain ⟨hhead, hpos, hsort⟩ := h
  cases hr : rounds t with
  | nil =>
    rw [hr] at hρ hhead
    simp only [List.not_mem_nil, or_false] at hρ
    rw [hρ, hhead]
    exact Int.le_refl _
  | cons x xs =>
    rw [hr] at hρ hhead hpos hsort
    simp only [List.head?_cons, Option.getD_some] at hhead
    have hx := hpos x List.mem_cons_self
    obtain hρ | hρ := hρ
    · omega
    · obtain hρ | hρ := List.mem_cons.mp hρ
      · omega
      · have := (List.pairwise_cons.mp hsort).1 ρ hρ
        omega

theorem Rounds.current_mem (h : Rounds t current) : current = -1 ∨ current ∈ rounds t := by
  have hhead := h.head
  cases hr : rounds t with
  | nil =>
    rw [hr] at hhead
    exact Or.inl hhead
  | cons x xs =>
    rw [hr] at hhead
    simp only [List.head?_cons, Option.getD_some] at hhead
    exact Or.inr (by rw [hhead]; exact List.mem_cons_self)

/-- `reportPeerPong` has answered; only the pong of the latest round is accepted. -/
theorem ledger_report {ρ pingTime : Int} (h : Ledger t current due j p) (hc : Rounds t current)
    (ht : p.task = .listening) (hes : rounds es = []) (hacc : 0 ≤ pingTime → ρ = current)
    (hpong : .pong j ρ pingTime ∈ es)
    (honly : ∀ ρ' pt', .pong j ρ' pt' ∈ es → ρ' = ρ ∧ pt' = pingTime) :
    Ledger (t ++ es) current due j { p with task := .reported ρ pingTime } := by
  have hrounds : rounds (t ++ es) = rounds t := by
    rw [rounds_append, hes, List.nil_append]
  refine ⟨by rw [hrounds]; exact h.last, h.fresh, fun hco => by (cases hco), ?_, ?_, ?_⟩
  · intro ρ' pt' hr hpt
    cases hr
    refine ⟨?_, ?_, List.mem_append_right _ hpong⟩
    · rw [hacc hpt, hrounds]
      exact hc.current_mem
    · rw [hacc hpt]
      exact hc.le_current h.last
  · intro ρ' pt' hm hpt
    obtain hm | hm := List.mem_append.mp hm
    · refine Or.inr ((h.answered ρ' pt' hm hpt).resolve_left ?_)
      rw [ht]
      intro hf
      cases hf
    · obtain ⟨rfl, rfl⟩ := honly ρ' pt' hm
      exact Or.inl rfl
  · intro _
    obtain ⟨k, hk, hle, hun⟩ := h.failed (by rw [ht]; rfl)
    refine ⟨k, hk, hle, ?_⟩
    intro ρ' hρ'
    -- a pong for the missed round is the one that now waits
    by_cases hsame : 0 ≤ pingTime ∧ ρ' = ρ
    · refine ⟨List.mem_append_left _ (hun ρ' hρ').1, Or.inr ?_⟩
      rw [hsame.2]
      exact accepted_some.mpr ⟨pingTime, hsame.1, rfl⟩
    · have hnone : p.task.accepted? = none := by rw [ht]; rfl
      refine missed_append (missed_of_unanswered (hun ρ' hρ') hnone) ?_
      intro pt hpt hm
      obtain ⟨hρ, hpp⟩ := honly ρ' pt hm
      exact hsame ⟨hpp ▸ hpt, hρ⟩

theorem task_accepted (p : Peer) (timestamp : Int) :
    (countPing p timestamp).task.accepted? = p.task.accepted? := by
  rw [task_countPing]

/-- What the check of a peer counts: rounds that it missed, latest first. -/
theorem countPing_counts (h : Ledger t current (rounds t).tail j p) (hc : Rounds t current)
    (hin : p.task.stage = .inside)
    (hfair : p.lastPingTimestamp ≠ current → ∀ ρ, (rounds t).head? = some ρ → .ping j ρ ∈ t) :
    ∃ k : Nat, (countPing p current).failedPings = k ∧
      k ≤ (rounds t).length ∧ ∀ ρ ∈ (rounds t).take k, Missed t j (countPing p current) ρ := by
  simp only [Missed, task_accepted]
  unfold countPing
  by_cases hl : p.lastPingTimestamp = current
  · rw [if_neg (by simpa using hl), h.fresh hl]
    exact ⟨0, rfl, Nat.zero_le _, by simp⟩
  · rw [if_pos hl]
    obtain ⟨k, hk, hle, hun⟩ := h.failed hin
    cases hr : rounds t with
    | nil =>
      exfalso
      apply hl
      have hhead := hc.head
      have hlast := h.last
      rw [hr] at hhead hlast
      simp only [List.not_mem_nil, or_false] at hlast
      rw [hlast, hhead]
      rfl
    | cons ρ R =>
      have hhead := hc.head
      have hping := hfair hl ρ (by rw [hr]; rfl)
      rw [hr] at hle hun hhead
      simp only [List.head?_cons, Option.getD_some] at hhead
      have hlatest : Missed t j p ρ := by
        refine ⟨hping, ?_⟩
        by_cases hacc : p.task.accepted? = some ρ
        · exact Or.inr hacc
        · refine Or.inl ⟨hping, ?_⟩
          intro pt hpt hm
          obtain hrep | hrep := h.answered ρ pt hm hpt
          · exact hacc (accepted_some.mpr ⟨pt, hpt, hrep⟩)
          · have := hc.le_current h.last
            omega
      refine ⟨k + 1, by simp only; omega, by simpa using hle, ?_⟩
      intro ρ' hρ'
      rw [List.take_succ_cons] at hρ'
      obtain rfl | hρ' := List.mem_cons.mp hρ'
      · exact hlatest
      · exact hun ρ' hρ'

theorem ledger_check (h : Ledger t current (rounds t).tail j p) (hc : Rounds t current)
    (hin : p.task.stage = .inside)
    (hfair : p.lastPingTimestamp ≠ current → ∀ ρ, (rounds t).head? = some ρ → .ping j ρ ∈ t) :
    Ledger t current (rounds t) j (countPing p current) := by
  have hfresh : (countPing p current).lastPingTimestamp = current →
      (countPing p current).failedPings = 0 := by
    unfold countPing
    split
    · next hl => exact fun hf => absurd hf hl
    · exact h.fresh
  have hsame : (countPing p current).lastPingTimestamp = p.lastPingTimestamp := by
    unfold countPing
    split <;> rfl
  refine ⟨by rw [hsame]; exact h.last, hfresh, ?_, ?_, ?_, fun _ =>
    countPing_counts h hc hin hfair⟩
  · rw [task_countPing, hin]
    intro hf
    cases hf
  · rw [task_countPing, hsame]
    exact h.reported
  · rw [task_countPing, hsame]
    exact h.answered

theorem rounds_round (t : List Event) (now : Int) :
    rounds (t ++ [.round now]) = now :: rounds t := by
  rw [rounds_append]
  rfl

theorem rounds_stamp {now : Int} (hc : Rounds t current) (hpos : 0 < now)
    (hnow : ∀ ρ ∈ rounds t, ρ < now) : Rounds (t ++ [.round now]) now := by
  have hr := rounds_round t now
  refine ⟨by rw [hr]; rfl, ?_, ?_⟩
  · intro ρ hρ
    rw [hr] at hρ
    obtain rfl | hρ := List.mem_cons.mp hρ
    · exact hpos
    · exact hc.positive ρ hρ
  · rw [hr]
    exact List.pairwise_cons.mpr ⟨fun ρ hρ => hnow ρ hρ, hc.sorted⟩

theorem ledger_stamp {now : Int} (h : Ledger t current (rounds t) j p) (hpos : 0 < now)
    (hnow : ∀ ρ ∈ rounds t, ρ < now) :
    Ledger (t ++ [.round now]) now (rounds (t ++ [.round now])).tail j p := by
  have hmem : ∀ ρ, ρ = -1 ∨ ρ ∈ rounds t → ρ = -1 ∨ ρ ∈ rounds (t ++ [.round now]) := by
    intro ρ hρ
    rw [rounds_round]
    exact hρ.imp_right (List.mem_cons_of_mem now)
  refine ⟨hmem _ h.last, ?_, h.coming, ?_, ?_, ?_⟩
  · intro he
    exfalso
    obtain hl | hl := h.last
    · omega
    · have := hnow _ hl
      omega
  · intro ρ pt hr hpt
    obtain ⟨hρ, hle, hm⟩ := h.reported ρ pt hr hpt
    exact ⟨hmem ρ hρ, hle, List.mem_append_left _ hm⟩
  · intro ρ pt hm hpt
    exact h.answered ρ pt (by simpa using hm) hpt
  · intro hin
    obtain ⟨k, hk, hle, hun⟩ := h.failed hin
    rw [rounds_round]
    exact ⟨k, hk, hle, fun ρ hρ => missed_append (hun ρ hρ) (by simp)⟩

theorem ledger_new (peerId : Int) (isHost : Bool)
    (hno : ∀ ρ pingTime, .pong j ρ pingTime ∉ t) :
    Ledger t current due j { peerId := peerId, isHost := isHost } where
  last := Or.inl rfl
  fresh _ := rfl
  coming _ := rfl
  reported ρ pt hr := by cases hr
  answered ρ pt hm := absurd hm (hno ρ pt)
  failed hin := by cases hin

end

/-! ## All peers -/

structure PingLedger (t : List Event) (s : Session) : Prop where
  clock : Rounds t s.pingCurrentTimestamp
  stamp : ∀ timestamp, s.pinger.timestamp? = some timestamp → timestamp = s.pingCurrentTimestamp
  nodup : s.pinger.unchecked.Nodup
  inside : ∀ j ∈ s.pinger.unchecked,
    ∃ p : Peer, s.objects[j]? = some p ∧ p.task.stage = .inside
  pongs : ∀ j ρ pingTime, .pong j ρ pingTime ∈ t → j < s.objects.length
  peers : ∀ (j : PeerRef) (p : Peer), s.objects[j]? = some p →
    Ledger t s.pingCurrentTimestamp (due t s.pinger j) j p

theorem pingLedger_init (id : String) (config : GameConfigDto) :
    PingLedger [] { id := id, config := config } where
  clock := ⟨rfl, by simp [rounds], List.Pairwise.nil⟩
  stamp ts hts := by cases hts
  nodup := List.nodup_nil
  inside j hj := by cases hj
  pongs j ρ pt hm := by cases hm
  peers j p hp := by simp at hp

theorem unchecked_of_free (h : Locked s) (hm : s.peersMutex = false) :
    s.pinger.unchecked = [] := by
  have hf := (h.free hm).1
  cases hp : s.pinger with
  | checkLoop ts rest => rw [hp] at hf; cases hf
  | dropping ts rest j => rw [hp] at hf; cases hf
  | _ => rfl

theorem clock_append (h : Rounds t s.pingCurrentTimestamp) (hes : rounds es = []) :
    Rounds (t ++ es) s.pingCurrentTimestamp := by
  have hr : rounds (t ++ es) = rounds t := by rw [rounds_append, hes, List.nil_append]
  exact ⟨by rw [hr]; exact h.head, by rw [hr]; exact h.positive, by rw [hr]; exact h.sorted⟩

theorem due_append (hes : rounds es = []) (pinger : PingerTask) (j : PeerRef) :
    due (t ++ es) pinger j = due t pinger j := by
  rw [due, due, rounds_append, hes, List.nil_append]

/-- A step of the thread of the peer `i`, from `p` to `q`. -/
theorem pingLedger_setPeer {i : Nat} {p q : Peer} (h : PingLedger t s)
    (hp : s.objects[i]? = some p) (ho : s'.objects = (s.setPeer i q).objects)
    (hpin : s'.pinger = s.pinger) (hcur : s'.pingCurrentTimestamp = s.pingCurrentTimestamp)
    (hes : rounds es = []) (honly : ∀ j ρ pingTime, .pong j ρ pingTime ∈ es → j = i)
    (hq : Ledger (t ++ es) s.pingCurrentTimestamp (due t s.pinger i) i q)
    (hin : i ∈ s.pinger.unchecked → q.task.stage = .inside) : PingLedger (t ++ es) s' := by
  have hlt := (List.getElem?_eq_some_iff.mp hp).1
  refine ⟨by rw [hcur]; exact clock_append h.clock hes, by rw [hpin, hcur]; exact h.stamp,
    by rw [hpin]; exact h.nodup, ?_, ?_, ?_⟩
  · rw [hpin, ho]
    intro j hj
    rw [objects_setPeer hp]
    split
    · next hji =>
      rw [hji] at hj
      exact ⟨q, rfl, hin hj⟩
    · exact h.inside j hj
  · intro j ρ pt hm
    rw [ho, setPeer, List.length_set]
    obtain hm | hm := List.mem_append.mp hm
    · exact h.pongs j ρ pt hm
    · rw [honly j ρ pt hm]
      exact hlt
  · rw [ho, hcur, hpin]
    intro j r hr
    rw [objects_setPeer hp] at hr
    rw [due_append hes]
    split at hr
    · next hji =>
      cases hr
      rw [hji]
      exact hq
    · next hji =>
      refine ledger_append (h.peers j r hr) hes ?_
      intro ρ pt _ hm
      exact hji (honly j ρ pt hm)

/-- A step of a thread between tasks that have nothing to do with pongs. -/
theorem pingLedger_move {i : Nat} {p : Peer} {task : Task} (h : PingLedger t s)
    (hp : s.objects[i]? = some p) (hpt : p.task.pong? = none)
    (ht : task.pong? = none) (hco : task.stage ≠ .coming)
    (hgone : task.stage = .inside → p.task.stage ≠ .gone)
    (hin : i ∈ s.pinger.unchecked → task.stage = .inside)
    (ho : s'.objects = (s.setTask i p task).objects) (hpin : s'.pinger = s.pinger)
    (hcur : s'.pingCurrentTimestamp = s.pingCurrentTimestamp) (hes : rounds es = [])
    (hno : ∀ j ρ pingTime, .pong j ρ pingTime ∉ es) : PingLedger (t ++ es) s' := by
  refine pingLedger_setPeer h hp ho hpin hcur hes (fun j ρ pt hm => absurd hm (hno j ρ pt)) ?_ hin
  exact ledger_move (ledger_append (h.peers i p hp) hes fun ρ pt _ => hno i ρ pt) hpt ht hco hgone

/-- The thread stays inside. -/
theorem pingLedger_stay {i : Nat} {p : Peer} {task : Task} (h : PingLedger t s)
    (hp : s.objects[i]? = some p) (hpt : p.task.pong? = none) (hpi : p.task.stage = .inside)
    (ht : task.pong? = none) (hti : task.stage = .inside)
    (ho : s'.objects = (s.setTask i p task).objects) (hpin : s'.pinger = s.pinger)
    (hcur : s'.pingCurrentTimestamp = s.pingCurrentTimestamp) (hes : rounds es = [])
    (hno : ∀ j ρ pingTime, .pong j ρ pingTime ∉ es) : PingLedger (t ++ es) s' :=
  pingLedger_move h hp hpt ht (by rw [hti]; decide) (fun _ => by rw [hpi]; decide) (fun _ => hti)
    ho hpin hcur hes hno

theorem rounds_tellHost (s : Session) (notice : Notice) : rounds (s.tellHost notice) = [] := by
  unfold tellHost
  cases s.host <;> rfl

theorem pingLedger_advance {i : PeerRef} {p : Peer} (hl : Locked s) (h : PingLedger t s)
    (hp : s.objects[i]? = some p) (ha : Advances s i p s' es) : PingLedger (t ++ es) s' := by
  cases ha with
  | add ht hm =>
    have hfree := unchecked_of_free hl hm
    have hco : Task.greeting.stage ≠ .coming := by decide
    refine pingLedger_move h hp (by rw [ht]; rfl) rfl hco
      (fun _ => by rw [ht]; decide) (fun hj => by rw [hfree] at hj; cases hj)
      (by rw [addPeer_fst]; rfl) (by rw [addPeer_fst]; rfl) (by rw [addPeer_fst]; rfl) ?_ ?_
    · rw [addPeer_snd]
      split
      · rfl
      · exact rounds_tellHost s _
    · intro j ρ pt hm
      rw [addPeer_snd] at hm
      split at hm
      · simp at hm
      · obtain ⟨k, -, hk⟩ := mem_tellHost.mp (by simpa using hm)
        cases hk
  | remove ht hm =>
    have hfree := unchecked_of_free hl hm
    have hco : Task.removed.stage ≠ .coming := by decide
    refine pingLedger_move h hp (by rw [ht]; rfl) rfl hco
      (fun hf => by cases hf) (fun hj => by rw [hfree] at hj; cases hj)
      (by rw [removePeerById_fst]; rfl) (by rw [removePeerById_fst]; rfl)
      (by rw [removePeerById_fst]; rfl) (rounds_tellHost (s.removePeerById p.peerId).1 _) ?_
    intro j ρ pt hm
    obtain ⟨-, k, -, hk⟩ := mem_removePeerById.mp (by simpa using hm)
    cases hk
  | record timestamp pingTime ht =>
    refine pingLedger_setPeer (q := { recordPong p timestamp pingTime with task := .listening })
      h hp rfl rfl rfl rfl (by simp) ?_ fun _ => rfl
    rw [List.append_nil]
    exact ledger_record (h.peers i p hp) ht
  | greet ht =>
    exact pingLedger_stay h hp (by rw [ht]; rfl) (by rw [ht]; rfl) rfl rfl rfl rfl rfl rfl (by simp)
  | send recipients payload c j ht hj =>
    exact pingLedger_stay h hp (by rw [ht]; rfl) (by rw [ht]; rfl) rfl rfl rfl rfl rfl rfl (by simp)
  | event recipients event c j ht hj =>
    exact pingLedger_stay h hp (by rw [ht]; rfl) (by rw [ht]; rfl) rfl rfl rfl rfl rfl rfl (by simp)
  | eventDone event ht =>
    exact pingLedger_stay h hp (by rw [ht]; rfl) (by rw [ht]; rfl) rfl rfl rfl rfl rfl rfl (by simp)
  | select peerIds ht hm =>
    exact pingLedger_stay h hp (by rw [ht]; rfl) (by rw [ht]; rfl) rfl rfl rfl rfl rfl rfl (by simp)
  | kick targets c j ht hj =>
    exact pingLedger_stay h hp (by rw [ht]; rfl) (by rw [ht]; rfl) rfl rfl rfl rfl rfl rfl (by simp)
  | done ht =>
    obtain ⟨payload, ht⟩ | ht := ht
    · exact pingLedger_stay h hp (by rw [ht]; rfl) (by rw [ht]; rfl) rfl rfl rfl rfl rfl rfl
        (by simp)
    · exact pingLedger_stay h hp (by rw [ht]; rfl) (by rw [ht]; rfl) rfl rfl rfl rfl rfl rfl
        (by simp)
  | clear ht =>
    exact pingLedger_stay h hp (by rw [ht]; rfl) (by rw [ht]; rfl) rfl rfl rfl rfl rfl rfl (by simp)

/-- Only the pong of the latest round is answered with a time. -/
theorem reportPeerPong_accepted {peerId timestamp now : Int}
    (h : 0 ≤ (s.reportPeerPong peerId timestamp now).2) : timestamp = s.pingCurrentTimestamp := by
  by_contra hne
  rw [reportPeerPong, if_pos hne] at h
  simp at h

theorem pingLedger_handle {i : PeerRef} {p : Peer} {message : IncomingMessage} {now : Int}
    {task : Task} (h : PingLedger t s) (hp : s.objects[i]? = some p) (ht : p.task = .listening)
    (hre : Reacts s i p.peerId message.message now s' task es) :
    PingLedger (t ++ .handled i message.message :: es) (s'.setTask i p task) := by
  have hob : (s'.setTask i p task).objects = (s.setTask i p task).objects := by
    simp only [setTask, setPeer, (reacts_frame hre).1]
  have hpin : (s'.setTask i p task).pinger = s.pinger := by
    have := reacts_pinger hre
    exact this
  have hpt : p.task.pong? = none := by rw [ht]; rfl
  have hpi : p.task.stage = .inside := by rw [ht]; rfl
  -- the thread goes on to something other than recording a pong
  have hmove : ∀ {q : Session}, (q.setTask i p task).objects = (s.setTask i p task).objects →
      (q.setTask i p task).pinger = s.pinger → q.pingCurrentTimestamp = s.pingCurrentTimestamp →
      task.pong? = none → task.stage = .inside → rounds es = [] →
      (∀ j ρ pt, .pong j ρ pt ∉ es) →
      PingLedger (t ++ .handled i message.message :: es) (q.setTask i p task) := by
    intro q ho hpg hcur htr hti hes hno
    refine pingLedger_stay h hp hpt hpi htr hti ho hpg hcur ?_ ?_
    · rw [← List.singleton_append, rounds_append, hes]
      rfl
    · intro j ρ pt hm
      exact hno j ρ pt (by simpa using hm)
  cases hre with
  | pong timestamp =>
    have hcur : (((s.reportPeerPong p.peerId timestamp now).1.setTask i p
        (.reported timestamp (s.reportPeerPong p.peerId timestamp now).2))).pingCurrentTimestamp =
        s.pingCurrentTimestamp := by
      obtain ⟨time, id, since, he⟩ := reportPeerPong_fst s p.peerId timestamp now
      rw [he]
      rfl
    have honly : ∀ j ρ pt, Event.pong j ρ pt ∈ [Event.handled i message.message,
        .pong i timestamp (s.reportPeerPong p.peerId timestamp now).2] →
        j = i ∧ ρ = timestamp ∧ pt = (s.reportPeerPong p.peerId timestamp now).2 := by
      intro j ρ pt hm
      simpa using hm
    refine pingLedger_setPeer (q := { p with task := .reported timestamp _ }) h hp hob hpin hcur rfl
      (fun j ρ pt hm => (honly j ρ pt hm).1) ?_ fun _ => rfl
    exact ledger_report (h.peers i p hp) h.clock ht rfl reportPeerPong_accepted (by simp)
      fun ρ pt hm => (honly i ρ pt hm).2
  | error e => exact hmove hob hpin rfl rfl rfl rfl (by simp)
  | broadcast hc hm => exact hmove hob hpin rfl rfl rfl rfl (by simp)
  | direct dm ids hc hd hids hm => exact hmove hob hpin rfl rfl rfl rfl (by simp)
  | event hc hm => exact hmove hob hpin rfl rfl rfl rfl (by simp)
  | select k ids hc hk hid hids hm => exact hmove hob hpin rfl rfl rfl rfl (by simp)
  | toHost k hc hk hid hm => exact hmove hob hpin rfl rfl rfl rfl (by simp)

/-! ## The pinger -/

/-- The pinger moves; the peers are as they were and owe what they owed, if they are inside. -/
theorem pingLedger_pinger (h : PingLedger t s) (ho : s'.objects = s.objects)
    (hcur : s'.pingCurrentTimestamp = s.pingCurrentTimestamp) (hes : rounds es = [])
    (hno : ∀ j ρ pingTime, .pong j ρ pingTime ∉ es)
    (hstamp : ∀ timestamp, s'.pinger.timestamp? = some timestamp →
      timestamp = s.pingCurrentTimestamp)
    (hnodup : s'.pinger.unchecked.Nodup)
    (hin : ∀ j ∈ s'.pinger.unchecked, ∃ p : Peer, s.objects[j]? = some p ∧ p.task.stage = .inside)
    (howes : ∀ (j : PeerRef) (p : Peer), s.objects[j]? = some p → p.task.stage = .inside →
      s'.pinger.owes j = s.pinger.owes j) : PingLedger (t ++ es) s' := by
  refine ⟨by rw [hcur]; exact clock_append h.clock hes, by rw [hcur]; exact hstamp, hnodup,
    by rw [ho]; exact hin, ?_, ?_⟩
  · intro j ρ pt hm
    rw [ho]
    exact h.pongs j ρ pt ((List.mem_append.mp hm).resolve_right (hno j ρ pt))
  · rw [ho, hcur]
    intro j p hp
    rw [due_append hes]
    refine ledger_due (ledger_append (h.peers j p hp) hes fun ρ pt _ => hno j ρ pt) ?_
    intro hst
    rw [due, due, howes j p hp hst]

/-- The peer whose check comes next, which has not had it yet. -/
theorem ledger_checked {timestamp : Int} {rest : List PeerRef} {c : Nat} {j : PeerRef} {p : Peer}
    (h : PingLedger t s) (ht : s.pinger = .checkLoop timestamp rest) (hc : rest[c]? = some j)
    (hp : s.objects[j]? = some p) : timestamp = s.pingCurrentTimestamp ∧ p.task.stage = .inside ∧
      Ledger t s.pingCurrentTimestamp (rounds t).tail j p ∧ j ∉ rest.eraseIdx c := by
  have hmem : j ∈ rest := List.mem_of_getElem? hc
  have hin := h.inside
  have hnodup := h.nodup
  have hold := h.peers j p hp
  rw [ht] at hin hnodup
  rw [due, ht, PingerTask.owes, if_pos (by simpa using hmem)] at hold
  refine ⟨h.stamp timestamp (by rw [ht]; rfl), ?_, hold, ?_⟩
  · obtain ⟨p', hp', hst⟩ := hin j hmem
    rw [hp] at hp'
    cases hp'
    exact hst
  · exact (List.nodup_cons.mp ((pick_perm hc).nodup_iff.mpr hnodup)).1

/-- The check of the peer `j`, whether it is dropped or not. -/
theorem pingLedger_check {timestamp : Int} {rest : List PeerRef} {c : Nat} {j : PeerRef} {p : Peer}
    {pinger : PingerTask} (h : PingLedger t s) (ht : s.pinger = .checkLoop timestamp rest)
    (hc : rest[c]? = some j) (hp : s.objects[j]? = some p)
    (hfair : p.lastPingTimestamp ≠ s.pingCurrentTimestamp →
      ∀ ρ, (rounds t).head? = some ρ → .ping j ρ ∈ t)
    (hpin : s'.pinger = pinger) (hts : pinger.timestamp? = some timestamp)
    (hun : pinger.unchecked = rest.eraseIdx c)
    (howes : ∀ i, pinger.owes i = decide (i ∈ rest.eraseIdx c))
    (ho : s'.objects = (s.setPeer j (countPing p timestamp)).objects)
    (hcur : s'.pingCurrentTimestamp = s.pingCurrentTimestamp) (hes : rounds es = [])
    (hno : ∀ j ρ pingTime, .pong j ρ pingTime ∉ es) : PingLedger (t ++ es) s' := by
  obtain ⟨hstamp, hst, hold, hnot⟩ := ledger_checked h ht hc hp
  have hnodup : rest.Nodup := by
    have := h.nodup
    rw [ht] at this
    exact this
  have hmem : ∀ i, i ∈ rest ↔ i = j ∨ i ∈ rest.eraseIdx c := by
    intro i
    rw [← (pick_perm hc).mem_iff, List.mem_cons]
  have hin : ∀ i ∈ rest, ∃ p : Peer, s.objects[i]? = some p ∧ p.task.stage = .inside := by
    have := h.inside
    rw [ht] at this
    exact this
  refine ⟨by rw [hcur]; exact clock_append h.clock hes, ?_, ?_, ?_, ?_, ?_⟩
  · intro ts hts'
    rw [hpin, hts] at hts'
    cases hts'
    rw [hcur, hstamp]
  · rw [hpin, hun]
    exact hnodup.sublist (List.eraseIdx_sublist rest c)
  · rw [hpin, hun, ho]
    intro i hi
    rw [objects_setPeer hp, if_neg]
    · exact hin i ((hmem i).mpr (Or.inr hi))
    · intro hij
      rw [hij] at hi
      exact hnot hi
  · intro i ρ pt hm
    rw [ho, setPeer, List.length_set]
    exact h.pongs i ρ pt ((List.mem_append.mp hm).resolve_right (hno i ρ pt))
  · rw [ho, hcur, hpin]
    intro i q hq
    rw [objects_setPeer hp] at hq
    rw [due_append hes]
    by_cases hij : i = j
    · rw [if_pos hij] at hq
      cases hq
      subst hij
      rw [due, howes, if_neg (by simpa using hnot), hstamp]
      exact ledger_append (ledger_check hold h.clock hst hfair) hes
        fun ρ pt _ => hno i ρ pt
    · rw [if_neg hij] at hq
      have hold := h.peers i q hq
      have hsame : due t pinger i = due t s.pinger i := by
        rw [due, due, howes, ht, PingerTask.owes]
        simp [hmem, hij]
      rw [hsame]
      exact ledger_append hold hes fun ρ pt _ => hno i ρ pt

theorem inside_of_mem_getAllPeers {j : PeerRef} (h : Agrees s) (hj : j ∈ s.getAllPeers) :
    ∃ p : Peer, s.objects[j]? = some p ∧ p.task.stage = .inside := by
  obtain ⟨k, hk⟩ := UnorderedMap.mem_values.mp hj
  obtain ⟨m, hm, -, hin⟩ := (h.peers k j).mp hk
  rw [getElem?_roster] at hm
  obtain ⟨p, hp, rfl⟩ := Option.map_eq_some_iff.mp hm
  exact ⟨p, hp, hin⟩

theorem mem_getAllPeers_of_inside {j : PeerRef} {p : Peer} (h : Agrees s)
    (hp : s.objects[j]? = some p) (hst : p.task.stage = .inside) : j ∈ s.getAllPeers := by
  refine UnorderedMap.mem_values.mpr ⟨p.peerId, (h.peers p.peerId j).mpr ⟨p.member, ?_, rfl, hst⟩⟩
  rw [getElem?_roster, hp]
  rfl

structure PingerMoves (s s' : Session) : Prop where
  objects : s'.objects = s.objects
  config : s'.config = s.config
  current : s'.pingCurrentTimestamp = s.pingCurrentTimestamp
  stamp : ∀ timestamp, s'.pinger.timestamp? = some timestamp →
    s.pinger.timestamp? = some timestamp ∨ timestamp = s.pingCurrentTimestamp
  unchecked : s'.pinger.unchecked = s.pinger.unchecked ∨ s'.pinger.unchecked = s.getAllPeers ∨
    s'.pinger.unchecked = []
  owes : ∀ (j : PeerRef) (p : Peer), s.objects[j]? = some p → p.task.stage = .inside →
    s'.pinger.owes j = s.pinger.owes j

theorem ticks_moves {c : Nat} {now : Int} (hA : Agrees s) (hk : Ticks s c now s' es)
    (hround : rounds es = []) (hchecked : ∀ j timestamp dropped,
      .checked j timestamp dropped ∉ es) : PingerMoves s s' := by
  cases hk with
  | read ht =>
    refine ⟨rfl, rfl, rfl, fun ts hts => ?_, Or.inr (Or.inr rfl), fun j p _ _ => by rw [ht]; rfl⟩
    cases hts
    exact Or.inr rfl
  | lockCheck timestamp ht hm =>
    refine ⟨rfl, rfl, rfl, fun ts hts => Or.inl (by rw [ht]; exact hts), Or.inr (Or.inl rfl), ?_⟩
    intro j p hp hst
    rw [ht]
    exact decide_eq_true (mem_getAllPeers_of_inside hA hp hst)
  | check timestamp rest j p ht hc hp hf => exact absurd List.mem_cons_self (hchecked j _ _)
  | drop timestamp rest j p ht hc hp hf => exact absurd List.mem_cons_self (hchecked j _ _)
  | clear timestamp rest j ht =>
    exact ⟨rfl, rfl, rfl, fun ts hts => Or.inl (by rw [ht]; exact hts), Or.inl (by rw [ht]; rfl),
      fun j p _ _ => by rw [ht]; rfl⟩
  | stamp ht => cases hround
  | checkDone timestamp ht =>
    exact ⟨rfl, rfl, rfl, fun ts hts => by (cases hts), Or.inr (Or.inr rfl),
      fun j p _ _ => by rw [ht]; rfl⟩
  | lockPing timestamp ht hm =>
    exact ⟨rfl, rfl, rfl, fun ts hts => by (cases hts), Or.inr (Or.inr rfl),
      fun j p _ _ => by rw [ht]; rfl⟩
  | ping timestamp rest j ht hc =>
    exact ⟨rfl, rfl, rfl, fun ts hts => by (cases hts), Or.inr (Or.inr rfl),
      fun j p _ _ => by rw [ht]; rfl⟩
  | pingDone timestamp ht =>
    exact ⟨rfl, rfl, rfl, fun ts hts => by (cases hts), Or.inr (Or.inr rfl),
      fun j p _ _ => by rw [ht]; rfl⟩

theorem pingLedger_moves (hA : Agrees s) (h : PingLedger t s) (hm : PingerMoves s s')
    (hes : rounds es = []) (hno : ∀ j ρ pingTime, .pong j ρ pingTime ∉ es) :
    PingLedger (t ++ es) s' := by
  refine pingLedger_pinger h hm.objects hm.current hes hno ?_ ?_ ?_ hm.owes
  · intro ts hts
    exact (hm.stamp ts hts).elim (h.stamp ts) fun hcur => hcur
  · obtain hun | hun | hun := hm.unchecked
    · rw [hun]
      exact h.nodup
    · rw [hun]
      exact nodup_getAllPeers hA
    · rw [hun]
      exact List.nodup_nil
  · obtain hun | hun | hun := hm.unchecked
    · rw [hun]
      exact h.inside
    · rw [hun]
      exact fun j hj => inside_of_mem_getAllPeers hA hj
    · rw [hun]
      exact fun j hj => by cases hj

theorem pingLedger_tick {c : Nat} {now : Int} (hA : Agrees s) (h : PingLedger t s)
    (hclock : s.pinger = .checked → 0 < now ∧ ∀ ρ ∈ rounds t, ρ < now)
    (hfair : ∀ timestamp rest j p, s.pinger = .checkLoop timestamp rest → rest[c]? = some j →
      s.objects[j]? = some p → p.lastPingTimestamp ≠ s.pingCurrentTimestamp →
      ∀ ρ, (rounds t).head? = some ρ → .ping j ρ ∈ t)
    (hk : Ticks s c now s' es) : PingLedger (t ++ es) s' := by
  have hmoves := ticks_moves hA hk
  cases hk with
  | check timestamp rest j p ht hc hp hf =>
    exact pingLedger_check h ht hc hp (hfair timestamp rest j p ht hc hp)
      rfl rfl rfl (fun i => rfl) rfl rfl rfl (by simp)
  | drop timestamp rest j p ht hc hp hf =>
    exact pingLedger_check h ht hc hp (hfair timestamp rest j p ht hc hp)
      rfl rfl rfl (fun i => rfl) rfl rfl rfl (by simp)
  | stamp ht =>
    obtain ⟨hpos, hnow⟩ := hclock ht
    refine ⟨rounds_stamp h.clock hpos hnow, fun ts hts => by (cases hts), List.nodup_nil,
      fun j hj => by (cases hj), ?_, ?_⟩
    · intro j ρ pt hm
      exact h.pongs j ρ pt (by simpa using hm)
    · intro j p hp
      have hold := h.peers j p hp
      rw [due, ht] at hold
      exact ledger_stamp hold hpos hnow
  | _ => exact pingLedger_moves hA h (hmoves rfl (by simp)) rfl (by simp)

theorem pingLedger_step {a : Op} (hA : Agrees s) (hl : Locked s) (h : PingLedger t s)
    (hclock : Clock t s a) (hfair : FairCheck t s a) (hs : s.step a = some (s', es)) :
    PingLedger (t ++ es) s' := by
  cases step_cases hs with
  | findSession =>
    rw [List.append_nil]
    exact ⟨h.clock, h.stamp, h.nodup, h.inside, h.pongs, h.peers⟩
  | newPeer k isHost hk =>
    have hes : rounds [Event.created s.objects.length s.peerIdCounter isHost] = [] := rfl
    have hno : ∀ j ρ pt, Event.pong j ρ pt ∉
        [Event.created s.objects.length s.peerIdCounter isHost] := by simp
    have hold : ∀ {j : Nat} {q : Peer}, s.objects[j]? = some q →
        (s.objects ++ [{ peerId := s.peerIdCounter, isHost := isHost }])[j]? = some q := by
      intro j q hq
      have hlt := (List.getElem?_eq_some_iff.mp hq).1
      rw [List.getElem?_append_left hlt, hq]
    refine ⟨clock_append h.clock hes, h.stamp, h.nodup, ?_, ?_, ?_⟩
    · intro j hj
      obtain ⟨q, hq, hin⟩ := h.inside j hj
      exact ⟨q, hold hq, hin⟩
    · intro j ρ pt hm
      have := h.pongs j ρ pt ((List.mem_append.mp hm).resolve_right (hno j ρ pt))
      rw [List.length_append]
      omega
    · intro j q hq
      rw [due_append hes]
      refine ledger_append ?_ hes fun ρ pt _ => hno j ρ pt
      rw [List.getElem?_append] at hq
      split at hq
      · exact h.peers j q hq
      · next hj =>
        have hqn := List.mem_of_getElem? hq
        simp only [List.mem_singleton] at hqn
        subst hqn
        refine ledger_new s.peerIdCounter isHost ?_
        intro ρ pt hm
        exact hj (h.pongs j ρ pt hm)
  | advance i p c s' es hp ha => exact pingLedger_advance hl h hp ha
  | handle i p message now s₁ task es hp ht hre => exact pingLedger_handle h hp ht hre
  | close i p hp ht =>
    exact pingLedger_move h hp (by rw [ht]; rfl) rfl (by decide) (fun _ => by rw [ht]; decide)
      (fun _ => rfl) rfl rfl rfl rfl (by simp)
  | tick c now s' es hk =>
    refine pingLedger_tick hA h ?_ ?_ hk
    · intro ht
      exact hclock (by rw [ht]; rfl)
    · intro timestamp rest j p ht hc hp
      exact fun hne => (hfair j (by rw [ht]; exact hc) p hp hne).1

/-! ## Drops -/

theorem prefix_append_cases {α : Type*} {u t es : List α} {e : α} (h : u ++ [e] <+: t ++ es) :
    u ++ [e] <+: t ∨ ∃ v v', es = v ++ e :: v' ∧ u = t ++ v := by
  obtain ⟨x, hx⟩ := h
  rw [List.append_assoc, List.singleton_append] at hx
  obtain ⟨v, hu, hes⟩ | ⟨v, ht, hv⟩ := List.append_eq_append_iff.mp hx.symm
  · exact Or.inr ⟨v, x, hes, hu⟩
  · cases v with
    | nil =>
      rw [List.append_nil] at ht
      exact Or.inr ⟨[], x, by simpa using hv.symm, by rw [ht, List.append_nil]⟩
    | cons y v =>
      rw [List.cons_append, List.cons.injEq] at hv
      rw [← hv.1] at ht
      exact Or.inl ⟨v, by rw [ht, List.append_assoc, List.singleton_append]⟩

/-- A step that drops nobody. -/
theorem drops_append {max : Nat} (h : DropsDeserved max t)
    (hno : ∀ j timestamp, .checked j timestamp true ∉ es) : DropsDeserved max (t ++ es) := by
  intro u j ts hu
  obtain hu | ⟨v, v', hes, -⟩ := prefix_append_cases hu
  · exact h u j ts hu
  · exact absurd (by rw [hes]; simp) (hno j ts)

theorem drops_drop {timestamp : Int} {rest : List PeerRef} {c : Nat} {j : PeerRef} {p : Peer}
    {rules : List Event} (hd : DropsDeserved s.config.maxFailedPings t) (h : PingLedger t s)
    (ht : s.pinger = .checkLoop timestamp rest) (hc : rest[c]? = some j)
    (hp : s.objects[j]? = some p)
    (hfair : p.lastPingTimestamp ≠ s.pingCurrentTimestamp →
      (∀ ρ ∈ (rounds t).head?, .ping j ρ ∈ t) ∧
      ((s.config.maxFailedPings : Int) ≤ p.failedPings + 1 → ∀ ρ ∈ p.task.accepted?,
        ρ ∉ (rounds t).take s.config.maxFailedPings))
    (hf : (s.config.maxFailedPings : Int) ≤ (countPing p timestamp).failedPings)
    (hno : ∀ i ts, .checked i ts true ∉ rules) :
    DropsDeserved s.config.maxFailedPings (t ++ .checked j timestamp true :: rules) := by
  obtain ⟨hstamp, hst, hold, -⟩ := ledger_checked h ht hc hp
  obtain ⟨k, hk, hle, hun⟩ := countPing_counts hold h.clock hst fun hne => (hfair hne).1
  rw [hstamp] at hf
  have hMk : s.config.maxFailedPings ≤ k := by omega
  have hnow : ∀ ρ ∈ (rounds t).take s.config.maxFailedPings, Unanswered t j ρ := by
    intro ρ hρ
    refine (hun ρ ((List.take_sublist_take_left hMk).subset hρ)).2.resolve_right ?_
    rw [task_accepted]
    intro hacc
    by_cases hne : p.lastPingTimestamp ≠ s.pingCurrentTimestamp
    · rw [countPing, if_pos hne] at hf
      exact (hfair hne).2 hf ρ hacc hρ
    · -- a peer that is not charged has no failed ping
      rw [countPing, if_neg hne, hold.fresh (not_not.mp hne)] at hf
      have hzero : s.config.maxFailedPings = 0 := by omega
      rw [hzero] at hρ
      simp at hρ
  intro u i ts hu
  obtain hu | ⟨v, v', hes, rfl⟩ := prefix_append_cases hu
  · exact hd u i ts hu
  · cases v with
    | nil =>
      simp only [List.nil_append, List.cons.injEq, Event.checked.injEq] at hes
      obtain ⟨⟨rfl, -, -⟩, -⟩ := hes
      rw [List.append_nil]
      exact ⟨Nat.le_trans hMk hle, hnow⟩
    | cons y v =>
      simp only [List.cons_append, List.cons.injEq] at hes
      exact absurd (by rw [hes.2]; simp) (hno i ts)

theorem drops_step {a : Op} (hd : DropsDeserved s.config.maxFailedPings t) (h : PingLedger t s)
    (hfair : FairCheck t s a) (hs : s.step a = some (s', es)) :
    DropsDeserved s.config.maxFailedPings (t ++ es) := by
  cases a with
  | tick c now =>
    cases step_cases hs with
    | tick _ _ _ _ hk =>
      cases hk with
      | drop timestamp rest j p ht hc hp hf =>
        exact drops_drop hd h ht hc hp (hfair j (by rw [ht]; exact hc) p hp) hf (by simp)
      | _ => exact drops_append hd (by simp)
  | _ =>
    refine drops_append hd fun j timestamp hm => ?_
    have := (step_threads hs (by simp)).2.2 _ hm
    cases this

theorem deserved_of_ledger (hd : DropsDeserved s.config.maxFailedPings t) (h : PingLedger t s) :
    Deserved t s := by
  refine ⟨hd, ?_⟩
  intro j p hp hin ρ hρ
  obtain ⟨k, hk, -, hmissed⟩ := (h.peers j p hp).failed hin
  rw [hk, Int.toNat_natCast] at hρ
  exact (hmissed ρ hρ).1

/-- The check charges the peer with the ping of a round that did not ping it. -/
theorem not_deserved_charged {timestamp ρ : Int} {rest : List PeerRef} {c : Nat} {j : PeerRef}
    {p : Peer} (h : PingLedger t s) (ht : s.pinger = .checkLoop timestamp rest)
    (hc : rest[c]? = some j) (hp : s.objects[j]? = some p)
    (hne : p.lastPingTimestamp ≠ s.pingCurrentTimestamp) (hρ : (rounds t).head? = some ρ)
    (hno : .ping j ρ ∉ t) (ho : s'.objects = (s.setPeer j (countPing p timestamp)).objects)
    (howes : s'.pinger.owes j = decide (j ∈ rest.eraseIdx c)) (hes : rounds es = [])
    (hping : .ping j ρ ∉ es) : ¬ Deserved (t ++ es) s' := by
  intro hd
  obtain ⟨rfl, hst, hold, hnot⟩ := ledger_checked h ht hc hp
  obtain ⟨k, hk, -, -⟩ := hold.failed hst
  have hq : s'.objects[j]? = some (countPing p s.pingCurrentTimestamp) := by
    rw [ho, objects_setPeer hp, if_pos rfl]
  have hcharged := hd.charged j _ hq (by rw [task_countPing]; exact hst)
  rw [due_append hes, due, howes, if_neg (by simpa using hnot), countPing, if_pos hne, hk]
    at hcharged
  have hmem : ρ ∈ (rounds t).take ((k : Int) + 1).toNat := by
    cases hr : rounds t with
    | nil =>
      rw [hr] at hρ
      cases hρ
    | cons x xs =>
      rw [hr] at hρ
      cases hρ
      have hsucc : ((k : Int) + 1).toNat = k + 1 := by omega
      rw [hsucc, List.take_succ_cons]
      exact List.mem_cons_self
  exact (List.mem_append.mp (hcharged ρ hmem)).elim hno hping

/-- The check drops the peer although an accepted pong of it waits to be recorded. -/
theorem not_deserved_dropped {timestamp ρ : Int} {j : PeerRef} {p : Peer} {rules : List Event}
    (h : PingLedger t s) (hp : s.objects[j]? = some p) (hacc : p.task.accepted? = some ρ)
    (hρ : ρ ∈ (rounds t).take s.config.maxFailedPings) (hconfig : s'.config = s.config) :
    ¬ Deserved (t ++ .checked j timestamp true :: rules) s' := by
  intro hd
  obtain ⟨pt, hpt, hrep⟩ := accepted_some.mp hacc
  have hprefix : t ++ [.checked j timestamp true] <+: t ++ .checked j timestamp true :: rules :=
    (List.prefix_append_right_inj t).mpr (List.prefix_append [_] rules)
  have hdropped := hd.dropped t j timestamp hprefix
  rw [hconfig] at hdropped
  exact (hdropped.2 ρ hρ).2 pt hpt ((h.peers j p hp).reported ρ pt hrep hpt).2.2

/-- What the check of the peer `j` does. -/
theorem ticks_check {timestamp : Int} {rest : List PeerRef} {c : Nat} {now : Int} {j : PeerRef}
    {p : Peer} (hk : Ticks s c now s' es) (ht : s.pinger = .checkLoop timestamp rest)
    (hc : rest[c]? = some j) (hp : s.objects[j]? = some p) :
    s'.objects = (s.setPeer j (countPing p timestamp)).objects ∧
      s'.pinger.owes j = decide (j ∈ rest.eraseIdx c) ∧ rounds es = [] ∧
      (∀ ρ, .ping j ρ ∉ es) ∧
      ((s.config.maxFailedPings : Int) ≤ (countPing p timestamp).failedPings →
        ∃ rules, es = .checked j timestamp true :: rules) := by
  cases hk with
  | check timestamp' rest' j' p' ht' hc' hp' hf =>
    rw [ht] at ht'
    cases ht'
    rw [hc] at hc'
    cases hc'
    rw [hp] at hp'
    cases hp'
    exact ⟨rfl, rfl, rfl, by simp, fun hM => absurd hM (Int.not_le.mpr hf)⟩
  | drop timestamp' rest' j' p' ht' hc' hp' hf =>
    rw [ht] at ht'
    cases ht'
    rw [hc] at hc'
    cases hc'
    rw [hp] at hp'
    cases hp'
    exact ⟨rfl, rfl, rfl, by simp, fun _ => ⟨_, rfl⟩⟩
  | checkDone timestamp' ht' =>
    rw [ht] at ht'
    cases ht'
    cases hc
  | read ht' => rw [ht] at ht'; cases ht'
  | lockCheck timestamp' ht' hm => rw [ht] at ht'; cases ht'
  | clear timestamp' rest' j' ht' => rw [ht] at ht'; cases ht'
  | stamp ht' => rw [ht] at ht'; cases ht'
  | lockPing timestamp' ht' hm => rw [ht] at ht'; cases ht'
  | ping timestamp' rest' j' ht' hc' => rw [ht] at ht'; cases ht'
  | pingDone timestamp' ht' => rw [ht] at ht'; cases ht'

theorem atCheck_some {pinger : PingerTask} {c : Nat} {j : PeerRef}
    (h : pinger.atCheck[c]? = some j) :
    ∃ timestamp rest, pinger = .checkLoop timestamp rest ∧ rest[c]? = some j := by
  cases pinger with
  | checkLoop timestamp rest => exact ⟨timestamp, rest, rfl, h⟩
  | _ => cases h

theorem not_deserved {a : Op} (h : PingLedger t s) (hfair : ¬ FairCheck t s a)
    (hs : s.step a = some (s', es)) : ¬ Deserved (t ++ es) s' := by
  cases a with
  | tick c now =>
    simp only [FairCheck] at hfair
    push Not at hfair
    obtain ⟨j, hj, p, hp, hne, hbad⟩ := hfair
    obtain ⟨timestamp, rest, ht, hc⟩ := atCheck_some hj
    cases step_cases hs with
    | tick _ _ _ _ hk =>
      obtain ⟨ho, howes, hes, hping, hdrop⟩ := ticks_check hk ht hc hp
      by_cases hpinged : ∀ ρ ∈ (rounds t).head?, .ping j ρ ∈ t
      · obtain ⟨hM, ρ, hacc, hρ⟩ := hbad hpinged
        obtain ⟨hstamp, -⟩ := ledger_checked h ht hc hp
        obtain ⟨rules, rfl⟩ := hdrop (by rw [hstamp, countPing, if_pos hne]; exact hM)
        exact not_deserved_dropped h hp hacc hρ (step_static hs).2.1
      · push Not at hpinged
        obtain ⟨ρ, hρ, hno⟩ := hpinged
        exact not_deserved_charged h ht hc hp hne hρ hno ho howes hes (hping ρ)
  | _ => exact absurd trivial hfair

/-- Whoever is dropped was pinged in each of the last `maxFailedPings` rounds and answered none
of these pings before the check, and nobody is charged with a ping it was not sent, if and only
if each check is fair. -/
theorem none_dropped_early (id : String) (config : GameConfigDto) (w : List Op)
    (hclock : machine.Along Clock w [] { id := id, config := config }) :
    machine.Throughout Deserved w [] { id := id, config := config } ↔
      machine.Along FairCheck w [] { id := id, config := config } := by
  refine throughout_iff_along_under (D := Clock)
    (I := fun t s => Agrees s ∧ Locked s ∧ PingLedger t s ∧ DropsDeserved s.config.maxFailedPings t)
    ?_ ?_ ?_ ?_ hclock
  · intro t s h
    exact deserved_of_ledger h.2.2.2 h.2.2.1
  · intro t s a s' es h hclock hfair hs
    obtain ⟨hA, hl, hp, hd⟩ := h
    refine ⟨(step_roster hA hs).1, step_locked hl hs, pingLedger_step hA hl hp hclock hfair hs, ?_⟩
    rw [(step_static hs).2.1]
    exact drops_step hd hp hfair hs
  · intro t s a s' es h hfair hs
    exact not_deserved h.2.2.1 hfair hs
  · refine ⟨agrees_init id config, locked_init id config, pingLedger_init id config, ?_⟩
    intro u j ts hu
    simp at hu

def silentHost : List Op :=
  [.newPeer 0, .advance 0 0, .advance 0 0, .tick 0 0, .tick 0 0, .tick 0 0, .tick 0 0,
    .tick 0 5, .tick 0 0, .tick 0 0, .tick 0 0, .tick 0 0, .tick 0 0, .tick 0 0]

theorem none_dropped_early_silent :
    (∃ t s, machine.run silentHost [] { id := "lobby", config := { maxFailedPings := 1 } } =
      some (t, s) ∧ .checked 0 5 true ∈ t) ∧
    machine.Throughout Deserved silentHost []
      { id := "lobby", config := { maxFailedPings := 1 } } :=
  ⟨⟨_, _, rfl, by decide⟩, (none_dropped_early "lobby" { maxFailedPings := 1 } silentHost
    (by decide)).mpr (by decide)⟩

def joinsAfterRound : List Op :=
  [.newPeer 0, .advance 0 0, .advance 0 0, .tick 0 0, .tick 0 0, .tick 0 0, .tick 0 0,
    .tick 0 5, .tick 0 0, .tick 0 0, .tick 0 0, .findSession, .newPeer 0, .advance 1 0,
    .advance 1 0, .tick 0 0, .tick 0 0]

/-- Its check drops it, although no ping was ever sent to it. -/
theorem dropped_unpinged :
    ∃ t s, machine.Along Clock (joinsAfterRound ++ [.tick 0 0]) []
        { id := "lobby", config := { maxFailedPings := 1 } } ∧
      machine.run (joinsAfterRound ++ [.tick 0 0]) []
        { id := "lobby", config := { maxFailedPings := 1 } } = some (t, s) ∧ ¬ Deserved t s := by
  refine ⟨_, _, by decide, rfl, ?_⟩
  intro h
  let u := ((machine.run joinsAfterRound []
    { id := "lobby", config := { maxFailedPings := 1 } }).map Prod.fst).getD []
  obtain ⟨-, hun⟩ := h.dropped u 1 5 (by decide)
  have hping : Event.ping 1 5 ∈ u := (hun 5 (by decide)).1
  exact absurd hping (by decide)

end Session
end Helicopter
