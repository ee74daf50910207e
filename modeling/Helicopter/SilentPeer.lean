import Helicopter.PingRules
import Helicopter.Sockets

/-! A silent peer is dropped on time. The ping rules from below: where ticks and `handlePong` run
to their end without a break, the counter `m_failedPings` of a peer never falls behind the rounds
in a row that pinged it and got no accepted pong. -/
namespace Helicopter
open Interleaving

/-- `m_socket` was reset by the thread of the peer. -/
def Task.closing : Task → Bool
  | .clearing | .removing | .removed => true
  | _ => false

def PingerTask.isIdle : PingerTask → Bool
  | .idle => true
  | _ => false

def PingerTask.round? : PingerTask → Option Int
  | .pinging timestamp | .pingLoop timestamp _ => some timestamp
  | _ => none

namespace Session
variable {s s' s₁ : Session} {t es : List Event} {a : Op}

def Op.isTick : Op → Bool
  | .tick _ _ => true
  | _ => false

def Op.thread? : Op → Option PeerRef
  | .advance i _ => some i
  | _ => none

/-- The peers in `handlePong`, between `reportPeerPong` and the section under `m_pingMutex`. -/
def ponging (s : Session) : List PeerRef :=
  (List.range s.objects.length).filter fun j =>
    (s.objects[j]?).any fun p => p.task.pong?.isSome

/-- A tick or a call of `handlePong` that has begun goes on to its end before anything else
happens in the session. -/
def Atomic (s : Session) (a : Op) : Prop :=
  (s.pinger.isIdle = false → a.isTick = true) ∧ ∀ j ∈ s.ponging, a.thread? = some j

instance (s : Session) (a : Op) : Decidable (Atomic s a) :=
  inferInstanceAs (Decidable (_ ∧ _))

/-- The round pinged the peer, and no pong for it was accepted from the peer before the check
that follows. -/
def Silent (t : List Event) (j : PeerRef) (timestamp : Int) : Prop :=
  .ping j timestamp ∈ t ∧ ∀ u dropped pingTime, u ++ [.checked j timestamp dropped] <+: t →
    0 ≤ pingTime → .pong j timestamp pingTime ∉ u

def checkedRounds (t : List Event) (pinger : PingerTask) : List Int :=
  if pinger.isChecked then rounds t else (rounds t).tail

def Punctual (t : List Event) (s : Session) : Prop :=
  ∀ j l, l <:+: checkedRounds t s.pinger → l.length = s.config.maxFailedPings →
    (∀ ρ ∈ l, Silent t j ρ) → .resetSocket j ∈ t

/-! ## The counter from below -/

def Counts (t : List Event) (due : List Int) (j : PeerRef) (p : Peer) : Prop :=
  ∀ l, l <+: due → (∀ ρ ∈ l, Silent t j ρ) → (l.length : Int) ≤ p.failedPings

section
variable {ρs : List Int} {j : PeerRef} {p q : Peer}

/-- A round that is never answered is not answered in time. -/
theorem silent_of_unanswered {ρ : Int} (h : Unanswered t j ρ) : Silent t j ρ := by
  refine ⟨h.1, ?_⟩
  intro u dropped pt hu hpt hm
  exact h.2 pt hpt (hu.subset (List.mem_append_left _ hm))

theorem silent_of_append {ρ : Int} (h : Silent (t ++ es) j ρ) (hno : .ping j ρ ∉ es) :
    Silent t j ρ := by
  refine ⟨(List.mem_append.mp h.1).resolve_right hno, ?_⟩
  intro u dropped pt hu
  exact h.2 u dropped pt (hu.trans (List.prefix_append t es))

theorem counts_append (h : Counts t ρs j p) (hno : ∀ ρ ∈ ρs, .ping j ρ ∉ es) :
    Counts (t ++ es) ρs j p := by
  intro l hl hsilent
  refine h l hl fun ρ hρ => ?_
  exact silent_of_append (hsilent ρ hρ) (hno ρ (hl.subset hρ))

theorem counts_le (h : Counts t ρs j p) (hle : p.failedPings ≤ q.failedPings) :
    Counts t ρs j q :=
  fun l hl hsilent => Int.le_trans (h l hl hsilent) hle

theorem counts_nil (h : 0 ≤ p.failedPings) : Counts t [] j p := by
  intro l hl _
  rw [List.prefix_nil.mp hl]
  exact h

/-- The latest round was answered, or did not ping the peer. -/
theorem counts_answered {ρ : Int} (h : 0 ≤ p.failedPings) (hρ : ¬ Silent t j ρ) :
    Counts t (ρ :: ρs) j p := by
  intro l hl hsilent
  obtain rfl | ⟨l, rfl, -⟩ := List.prefix_cons_iff.mp hl
  · exact h
  · exact absurd (hsilent ρ List.mem_cons_self) hρ

/-- One more round was checked, and counted. -/
theorem counts_missed {ρ : Int} (h : Counts t ρs j p)
    (hq : q.failedPings = p.failedPings + 1) (h0 : 0 ≤ p.failedPings) :
    Counts t (ρ :: ρs) j q := by
  intro l hl hsilent
  rw [hq]
  obtain rfl | ⟨l, rfl, hl'⟩ := List.prefix_cons_iff.mp hl
  · simp only [List.length_nil]
    omega
  · have := h l hl' fun ρ' hρ' => hsilent ρ' (List.mem_cons_of_mem ρ hρ')
    simp only [List.length_cons]
    omega

theorem counts_unpinged (h : 0 ≤ p.failedPings) (hno : ∀ ρ, .ping j ρ ∉ t) :
    Counts t ρs j p := by
  cases ρs with
  | nil => exact counts_nil h
  | cons ρ ρs => exact counts_answered h fun hsilent => hno ρ hsilent.1

structure Tally (t : List Event) (s : Session) (j : PeerRef) (p : Peer) : Prop where
  nonneg : 0 ≤ p.failedPings
  dropped : (s.config.maxFailedPings : Int) ≤ p.failedPings → .resetSocket j ∈ t
  closed : p.task.closing = true → .resetSocket j ∈ t
  unpinged : p.task.stage = .coming → ∀ ρ, .ping j ρ ∉ t
  past : p.lastPingTimestamp ≤ s.pingCurrentTimestamp
  last : s.pingCurrentTimestamp ∈ rounds t → p.lastPingTimestamp = s.pingCurrentTimestamp →
    ∃ pingTime, 0 ≤ pingTime ∧ .pong j s.pingCurrentTimestamp pingTime ∈ t
  reported : ∀ ρ pingTime, p.task = .reported ρ pingTime → s.pinger = .idle ∧
    (0 ≤ pingTime → ρ = s.pingCurrentTimestamp ∧ .pong j ρ pingTime ∈ t)
  counted : p.task.stage = .inside →
    (s.pinger.owes j = true ∧ p.lastPingTimestamp = s.pingCurrentTimestamp) ∨
      Counts t (due t s.pinger j) j p

theorem due_of_owes {pinger : PingerTask} (h : pinger.owes j = true) :
    due t pinger j = (rounds t).tail := by
  rw [due, if_pos h]

/-- The pinger may move, but neither starts a round nor checks the peer. -/
theorem tally_append (h : Tally t s j p) (hcfg : s'.config = s.config)
    (hcur : s'.pingCurrentTimestamp = s.pingCurrentTimestamp) (hes : rounds es = [])
    (hidle : ∀ ρ pingTime, p.task = .reported ρ pingTime → s'.pinger = s.pinger)
    (howes : p.task.stage = .inside → s'.pinger.owes j = s.pinger.owes j)
    (hping : ∀ ρ, .ping j ρ ∈ es → p.task.stage ≠ .coming ∧ ρ ∉ due t s.pinger j) :
    Tally (t ++ es) s' j p := by
  have hrounds : rounds (t ++ es) = rounds t := by
    rw [rounds_append, hes, List.nil_append]
  refine ⟨h.nonneg, ?_, ?_, ?_, by rw [hcur]; exact h.past, ?_, ?_, ?_⟩
  · rw [hcfg]
    exact fun hM => List.mem_append_left es (h.dropped hM)
  · exact fun hc => List.mem_append_left es (h.closed hc)
  · intro hc ρ hm
    obtain hm | hm := List.mem_append.mp hm
    · exact h.unpinged hc ρ hm
    · exact (hping ρ hm).1 hc
  · rw [hcur, hrounds]
    intro hmem hl
    obtain ⟨pt, hpt, hm⟩ := h.last hmem hl
    exact ⟨pt, hpt, List.mem_append_left es hm⟩
  · intro ρ pt hr
    obtain ⟨hi, hacc⟩ := h.reported ρ pt hr
    rw [hidle ρ pt hr, hcur]
    exact ⟨hi, fun hpt => ⟨(hacc hpt).1, List.mem_append_left es (hacc hpt).2⟩⟩
  · intro hin
    rw [howes hin, hcur, due_append hes]
    have hsame : due t s'.pinger j = due t s.pinger j := by rw [due, due, howes hin]
    rw [hsame]
    exact (h.counted hin).imp_right fun hc =>
      counts_append hc fun ρ hρ hm => (hping ρ hm).2 hρ

theorem tally_new (peerId : Int) (isHost : Bool) (hM : 0 < s.config.maxFailedPings)
    (hc : Rounds t s.pingCurrentTimestamp) (hno : ∀ ρ, .ping j ρ ∉ t) :
    Tally t s j { peerId := peerId, isHost := isHost } where
  nonneg := Int.le_refl 0
  dropped hle := by
    simp only at hle
    omega
  closed hcl := by cases hcl
  unpinged _ := hno
  past := by
    simp only
    obtain hcur | hcur := hc.current_mem
    · omega
    · have := hc.positive _ hcur
      omega
  last hmem hl := by
    have := hc.positive _ hmem
    rw [← hl] at this
    simp at this
  reported ρ pt hr := by cases hr
  counted hin := by cases hin

/-- The thread goes on to another task; the ping fields stay. -/
theorem tally_move {task : Task} (h : Tally t s j p)
    (hclosing : task.closing = true → p.task.closing = true ∨ .resetSocket j ∈ t)
    (hcoming : task.stage ≠ .coming) (hgone : task.stage = .inside → p.task.stage ≠ .gone)
    (hreported : ∀ ρ pingTime, task = .reported ρ pingTime → s.pinger = .idle ∧
      (0 ≤ pingTime → ρ = s.pingCurrentTimestamp ∧ .pong j ρ pingTime ∈ t)) :
    Tally t s j { p with task := task } := by
  refine ⟨h.nonneg, h.dropped, ?_, fun hc => absurd hc hcoming, h.past, h.last, hreported,
    ?_⟩
  · intro hc
    exact (hclosing hc).elim h.closed fun hr => hr
  · intro hin
    cases hst : p.task.stage with
    | coming => exact Or.inr (counts_unpinged h.nonneg (h.unpinged hst))
    | inside => exact h.counted hst
    | gone => exact absurd hst (hgone hin)

theorem tally_record {ρ pingTime : Int} (h : Tally t s j p) (hM : 0 < s.config.maxFailedPings)
    (ht : p.task = .reported ρ pingTime) :
    Tally t s j { recordPong p ρ pingTime with task := .listening } := by
  obtain ⟨hidle, hacc⟩ := h.reported ρ pingTime ht
  unfold recordPong
  by_cases hpt : pingTime ≥ 0
  · -- the counter starts again, and the check of this round will not count
    rw [if_pos hpt]
    obtain ⟨rfl, hm⟩ := hacc hpt
    refine ⟨Int.le_refl 0, ?_, fun hc => by (cases hc), fun hc => by (cases hc), Int.le_refl _,
      fun _ _ => ⟨pingTime, hpt, hm⟩, fun ρ' pt' hr => by (cases hr), fun _ => Or.inl ⟨?_, rfl⟩⟩
    · intro hle
      simp only at hle
      omega
    · rw [hidle]
      rfl
  · rw [if_neg hpt]
    exact ⟨h.nonneg, h.dropped, fun hc => by (cases hc), fun hc => by (cases hc), h.past, h.last,
      fun ρ' pt' hr => by (cases hr), fun _ => h.counted (by rw [ht]; rfl)⟩

theorem failedPings_le_countPing (p : Peer) (timestamp : Int) :
    p.failedPings ≤ (countPing p timestamp).failedPings := by
  unfold countPing
  split
  · simp only
    omega
  · exact Int.le_refl _

theorem lastPingTimestamp_countPing (p : Peer) (timestamp : Int) :
    (countPing p timestamp).lastPingTimestamp = p.lastPingTimestamp := by
  unfold countPing
  split <;> rfl

/-- The check counts, unless an accepted pong for the latest round came before. -/
theorem counts_check {timestamp : Int} {dropped : Bool} {rest : List Event} (h : Tally t s j p)
    (hc : Rounds t s.pingCurrentTimestamp) (hts : timestamp = s.pingCurrentTimestamp)
    (hping : ∀ ρ, .ping j ρ ∉ Event.checked j timestamp dropped :: rest)
    (hcounts : p.lastPingTimestamp ≠ s.pingCurrentTimestamp → Counts t (rounds t).tail j p) :
    Counts (t ++ .checked j timestamp dropped :: rest) (rounds t) j (countPing p timestamp) := by
  have h0 := Int.le_trans h.nonneg (failedPings_le_countPing p timestamp)
  cases hr : rounds t with
  | nil => exact counts_nil h0
  | cons ρ ρs =>
    have hρ : s.pingCurrentTimestamp = ρ := by
      rw [hc.head, hr]
      rfl
    by_cases hl : p.lastPingTimestamp = s.pingCurrentTimestamp
    · refine counts_answered h0 fun hsilent => ?_
      obtain ⟨pt, hpt, hm⟩ := h.last (by rw [hr, hρ]; exact List.mem_cons_self) hl
      rw [hρ] at hm
      refine hsilent.2 t dropped pt ⟨rest, ?_⟩ hpt hm
      rw [hts, hρ, List.append_assoc, List.singleton_append]
    · have hold := hcounts hl
      rw [hr] at hold
      refine counts_missed (counts_append hold fun ρ' _ => hping ρ') ?_ h.nonneg
      rw [countPing, if_pos (by rw [hts]; exact hl)]

/-- `checkPingsRules` of the peer, whether it is dropped or not. -/
theorem tally_check {timestamp : Int} {dropped : Bool} {rest : List Event} (h : Tally t s j p)
    (hc : Rounds t s.pingCurrentTimestamp) (hts : timestamp = s.pingCurrentTimestamp)
    (howes : s.pinger.owes j = true) (hfree : p.task.pong? = none)
    (hcfg : s'.config = s.config) (hcur : s'.pingCurrentTimestamp = s.pingCurrentTimestamp)
    (hes : rounds rest = []) (hping : ∀ ρ, .ping j ρ ∉ Event.checked j timestamp dropped :: rest)
    (hdrop : (s.config.maxFailedPings : Int) ≤ (countPing p timestamp).failedPings →
      .resetSocket j ∈ rest) :
    Tally (t ++ .checked j timestamp dropped :: rest) s' j (countPing p timestamp) := by
  have hrounds : rounds (t ++ .checked j timestamp dropped :: rest) = rounds t := by
    rw [rounds_append, ← List.singleton_append, rounds_append, hes]
    rfl
  have hkeep : ∀ {e : Event}, e ∈ t → e ∈ t ++ .checked j timestamp dropped :: rest :=
    fun hm => List.mem_append_left _ hm
  have hle := failedPings_le_countPing p timestamp
  have hlast := lastPingTimestamp_countPing p timestamp
  have htask := task_countPing p timestamp
  refine ⟨Int.le_trans h.nonneg hle, ?_, ?_, ?_, by rw [hcur, hlast]; exact h.past, ?_, ?_, ?_⟩
  · rw [hcfg]
    intro hM
    exact List.mem_append_right t (List.mem_cons_of_mem _ (hdrop hM))
  · rw [htask]
    exact fun hcl => hkeep (h.closed hcl)
  · rw [htask]
    intro hco ρ hm
    exact h.unpinged hco ρ ((List.mem_append.mp hm).resolve_right (hping ρ))
  · rw [hcur, hrounds, hlast]
    intro hmem hl
    obtain ⟨pt, hpt, hm⟩ := h.last hmem hl
    exact ⟨pt, hpt, hkeep hm⟩
  · intro ρ pt hr
    rw [htask] at hr
    rw [hr] at hfree
    cases hfree
  · rw [htask, hcur, hlast]
    intro hin
    have hold := h.counted hin
    rw [due_of_owes howes] at hold
    cases hnow : s'.pinger.owes j with
    | true =>
      rw [due_of_owes hnow, hrounds]
      exact hold.imp (fun hl => ⟨rfl, hl.2⟩)
        fun hcounts => counts_append (counts_le hcounts hle) fun ρ _ => hping ρ
    | false =>
      right
      rw [due, if_neg (by simp [hnow]), hrounds]
      exact counts_check h hc hts hping fun hl => hold.resolve_left fun hf => hl hf.2

/-- A round starts; the round before it has been checked. -/
theorem tally_stamp {now : Int} (h : Tally t s j p) (hpin : s.pinger = .checked)
    (hcfg : s'.config = s.config) (hcur : s'.pingCurrentTimestamp = now)
    (hpin' : s'.pinger = .pinging now) (hfree : p.task.pong? = none)
    (hnow : s.pingCurrentTimestamp < now) : Tally (t ++ [.round now]) s' j p := by
  have hlast := Int.lt_of_le_of_lt h.past hnow
  have hno : ∀ ρ, Event.ping j ρ ∉ [Event.round now] := fun ρ hm => by simp at hm
  refine ⟨h.nonneg, ?_, ?_, ?_, by rw [hcur]; omega, ?_, ?_, ?_⟩
  · rw [hcfg]
    exact fun hM => List.mem_append_left _ (h.dropped hM)
  · exact fun hcl => List.mem_append_left _ (h.closed hcl)
  · intro hco ρ hm
    exact h.unpinged hco ρ ((List.mem_append.mp hm).resolve_right (hno ρ))
  · rw [hcur]
    intro _ hl
    omega
  · intro ρ pt hr
    rw [hr] at hfree
    cases hfree
  · intro hin
    right
    have hold := (h.counted hin).resolve_left fun hf => by
      rw [hpin] at hf
      cases hf.1
    rw [due, hpin] at hold
    rw [due_of_owes (by rw [hpin']; rfl), rounds_round]
    exact counts_append hold fun ρ _ => hno ρ

end

/-! ## All peers -/

theorem Rounds.current_not_mem_tail {current : Int} (h : Rounds t current) :
    current ∉ (rounds t).tail := by
  obtain ⟨hhead, -, hsort⟩ := h
  cases hr : rounds t with
  | nil => exact List.not_mem_nil
  | cons ρ ρs =>
    rw [hr] at hhead hsort
    simp only [List.head?_cons, Option.getD_some] at hhead
    intro hm
    have := (List.pairwise_cons.mp hsort).1 current hm
    omega

structure Tallied (t : List Event) (s : Session) : Prop where
  clock : Rounds t s.pingCurrentTimestamp
  stamp : ∀ timestamp, s.pinger.timestamp? = some timestamp → timestamp = s.pingCurrentTimestamp
  round : ∀ timestamp, s.pinger.round? = some timestamp → timestamp = s.pingCurrentTimestamp
  pinged : ∀ j ρ, .ping j ρ ∈ t → j < s.objects.length
  peers : ∀ (j : PeerRef) (p : Peer), s.objects[j]? = some p → Tally t s j p

theorem tallied_init (id : String) (config : GameConfigDto) :
    Tallied [] { id := id, config := config } where
  clock := ⟨rfl, by simp [rounds], List.Pairwise.nil⟩
  stamp ts hts := by cases hts
  round ts hts := by cases hts
  pinged j ρ hm := by cases hm
  peers j p hp := by simp at hp

theorem thread_of_atomic {j : PeerRef} {p : Peer} (h : Atomic s a) (hp : s.objects[j]? = some p)
    (ht : p.task.pong? ≠ none) : a.thread? = some j := by
  refine h.2 j (List.mem_filter.mpr ⟨?_, ?_⟩)
  · exact List.mem_range.mpr (List.getElem?_eq_some_iff.mp hp).1
  · rw [hp]
    exact Option.isSome_iff_ne_none.mpr ht

theorem rounds_of_threads (h : ∀ e ∈ es, e.ofPinger = false) : rounds es = [] := by
  rw [rounds, List.reverse_eq_nil_iff, List.filterMap_eq_nil_iff]
  intro e he
  cases e with
  | round timestamp =>
    have := h _ he
    cases this
  | _ => rfl

/-- A step of a thread that leaves the peer alone. -/
theorem tally_thread {j : PeerRef} {p : Peer} (h : Tally t s j p)
    (hs : s.step a = some (s', es)) (ha : ∀ c now, a ≠ .tick c now) : Tally (t ++ es) s' j p := by
  obtain ⟨hpin, hcur, hes⟩ := step_threads hs ha
  refine tally_append h (step_static hs).2.1 hcur (rounds_of_threads hes) (fun _ _ _ => hpin)
    (fun _ => by rw [hpin]) ?_
  intro ρ hm
  have := hes _ hm
  cases this

/-- A section of the thread of the peer, other than `handlePong`. -/
theorem tally_next {j : PeerRef} {p : Peer} {task : Task} (h : Tally t s j p)
    (ht : NextTask s₁ p task) : Tally t s j { p with task := task } := by
  have hno : ∀ {u v : Prop} {ρ pt : Int}, task.pong? = none → task = .reported ρ pt → u ∧ v := by
    intro u v ρ pt hn he
    rw [he] at hn
    cases hn
  have hinside : task.closing = false → task.pong? = none → task.stage = .inside →
      p.task.stage ≠ .gone → Tally t s j { p with task := task } := by
    intro hcl hn hst hgone
    refine tally_move h ?_ (by rw [hst]; decide) (fun _ => hgone) fun ρ pt => hno hn
    intro hc
    rw [hcl] at hc
    cases hc
  cases ht with
  | add ht => exact hinside rfl rfl rfl (by simp [ht, Task.stage])
  | greet ht => exact hinside rfl rfl rfl (by simp [ht, Task.stage])
  | send recipients payload c ht => exact hinside rfl rfl rfl (by simp [ht, Task.stage])
  | event recipients event c ht => exact hinside rfl rfl rfl (by simp [ht, Task.stage])
  | select peerIds ht => exact hinside rfl rfl rfl (by simp [ht, Task.stage])
  | kick targets c ht => exact hinside rfl rfl rfl (by simp [ht, Task.stage])
  | done ht =>
    exact hinside rfl rfl rfl (by rw [inside_of_through ht]; decide)
  | clear ht =>
    exact tally_move h (fun _ => Or.inl (by rw [ht]; rfl)) (by decide)
      (fun _ => by rw [ht]; decide) fun ρ pt => hno rfl
  | remove ht =>
    exact tally_move h (fun _ => Or.inl (by rw [ht]; rfl)) (by decide)
      (fun hf => by cases hf) fun ρ pt => hno rfl

/-- The first section of a handler. Only the pong of the latest round is accepted. -/
theorem tally_react {i : PeerRef} {p : Peer} {message : MessageDto} {now : Int} {task : Task}
    {rest : List Event} (h : Tally (t ++ es) s' i p) (ht : p.task = .listening)
    (hidle : s'.pinger = .idle) (hcur : s'.pingCurrentTimestamp = s.pingCurrentTimestamp)
    (hrest : ∀ e ∈ rest, e ∈ es) (hre : Reacts s i p.peerId message now s₁ task rest) :
    Tally (t ++ es) s' i { p with task := task } := by
  have hst : task.stage = .inside := (reacts_frame hre).2.2.2.2.1
  refine tally_move h ?_ (by rw [hst]; decide) (fun _ => by rw [ht]; decide) ?_
  · intro hcl
    cases hre with
    | _ => cases hcl
  · intro ρ pt he
    cases hre with
    | pong timestamp =>
      cases he
      refine ⟨hidle, fun hpt => ⟨?_, ?_⟩⟩
      · rw [hcur]
        exact reportPeerPong_accepted hpt
      · exact List.mem_append_right t (hrest _ List.mem_cons_self)
    | _ => cases he

theorem idle_of_atomic (h : Atomic s a) (ha : ∀ c now, a ≠ .tick c now) : s.pinger = .idle := by
  cases hp : s.pinger with
  | idle => rfl
  | _ =>
    exfalso
    have ht := h.1 (by rw [hp]; rfl)
    cases a with
    | tick c now => exact ha c now rfl
    | _ => cases ht

/-- A step of a connection. -/
theorem tallied_thread (h : Tallied t s) (hM : 0 < s.config.maxFailedPings)
    (hatomic : Atomic s a) (hs : s.step a = some (s', es)) (ha : ∀ c now, a ≠ .tick c now) :
    Tallied (t ++ es) s' := by
  obtain ⟨hpin, hcur, hes⟩ := step_threads hs ha
  obtain ⟨-, hcfg, hlen⟩ := step_static hs
  have hrounds := rounds_of_threads hes
  have hidle : s'.pinger = .idle := by rw [hpin, idle_of_atomic hatomic ha]
  have hold : ∀ (j : PeerRef) (p : Peer), s.objects[j]? = some p → Tally (t ++ es) s' j p :=
    fun j p hp => tally_thread (h.peers j p hp) hs ha
  have hpinged : ∀ j ρ, .ping j ρ ∈ t ++ es → j < s.objects.length := by
    intro j ρ hm
    obtain hm | hm := List.mem_append.mp hm
    · exact h.pinged j ρ hm
    · have := hes _ hm
      cases this
  have hclock : Rounds (t ++ es) s'.pingCurrentTimestamp := by
    rw [hcur]
    exact clock_append h.clock hrounds
  refine ⟨hclock, by rw [hpin, hcur]; exact h.stamp, by rw [hpin, hcur]; exact h.round,
    fun j ρ hm => Nat.lt_of_lt_of_le (hpinged j ρ hm) (by omega), ?_⟩
  cases step_cases hs with
  | findSession => exact hold
  | newPeer k isHost hk =>
    intro j p hp
    rw [getElem?_snoc] at hp
    split at hp
    · next hj =>
      cases hp
      refine tally_new s.peerIdCounter isHost hM hclock fun ρ hm => ?_
      have := hpinged j ρ hm
      omega
    · exact hold j p hp
  | advance i p c s' es hp had =>
    obtain ⟨q, hq, ho⟩ := advances_turns c had
    rw [ho]
    refine forall_setPeer hp hold ?_
    cases hq with
    | thread c task ht => exact tally_next (hold i p hp) ht
    | record c timestamp pingTime ht =>
      exact tally_record (hold i p hp) (by rw [hcfg]; exact hM) ht
  | handle i p message now s₁ task es hp ht hre =>
    have ho : (s₁.setTask i p task).objects = (s.setTask i p task).objects := by
      simp only [setTask, setPeer, (reacts_frame hre).1]
    rw [ho]
    refine forall_setPeer hp hold ?_
    exact tally_react (hold i p hp) ht hidle hcur (fun e he => List.mem_cons_of_mem _ he) hre
  | close i p hp ht =>
    refine forall_setPeer hp hold ?_
    exact tally_move (hold i p hp) (fun _ => Or.inr (by simp)) (by decide)
      (fun _ => by rw [ht]; decide) fun ρ pt he => by cases he
  | tick c now s' es hk => exact absurd rfl (ha c now)

/-! ## The pinger -/

theorem tallied_moves (h : Tallied t s) (hm : PingerMoves s s')
    (hfree : ∀ p ∈ s.objects, p.task.pong? = none) (hes : rounds es = [])
    (hround : ∀ timestamp, s'.pinger.round? = some timestamp →
      s.pinger.round? = some timestamp)
    (hping : ∀ j ρ, .ping j ρ ∈ es → s.Arrived j ∧ ρ ∉ due t s.pinger j) :
    Tallied (t ++ es) s' := by
  have hstamp : ∀ ts, s'.pinger.timestamp? = some ts → ts = s.pingCurrentTimestamp :=
    fun ts hts => (hm.stamp ts hts).elim (h.stamp ts) fun hcur => hcur
  refine ⟨by rw [hm.current]; exact clock_append h.clock hes, by rw [hm.current]; exact hstamp,
    ?_, ?_, ?_⟩
  · rw [hm.current]
    exact fun ts hts => h.round ts (hround ts hts)
  · rw [hm.objects]
    intro j ρ hm
    obtain hm | hm := List.mem_append.mp hm
    · exact h.pinged j ρ hm
    · obtain ⟨p, hp, -⟩ := (hping j ρ hm).1
      exact (List.getElem?_eq_some_iff.mp hp).1
  · rw [hm.objects]
    intro j p hp
    refine tally_append (h.peers j p hp) hm.config hm.current hes ?_ (hm.owes j p hp) ?_
    · intro ρ pt hr
      have hf := hfree p (List.mem_of_getElem? hp)
      rw [hr] at hf
      cases hf
    · intro ρ hm
      obtain ⟨⟨q, hq, hst⟩, hdue⟩ := hping j ρ hm
      rw [hp] at hq
      cases hq
      exact ⟨hst, hdue⟩

/-- The check of the peer `j`, whether it is dropped or not. -/
theorem tallied_check {timestamp : Int} {rest : List PeerRef} {c : Nat} {j : PeerRef} {p : Peer}
    {dropped : Bool} {reset : List Event} (h : Tallied t s)
    (ht : s.pinger = .checkLoop timestamp rest) (hc : rest[c]? = some j)
    (hp : s.objects[j]? = some p) (hfree : ∀ p ∈ s.objects, p.task.pong? = none)
    (hts : s'.pinger.timestamp? = some timestamp) (hround : s'.pinger.round? = none)
    (howes : ∀ i, s'.pinger.owes i = decide (i ∈ rest.eraseIdx c))
    (ho : s'.objects = (s.setPeer j (countPing p timestamp)).objects)
    (hcfg : s'.config = s.config) (hcur : s'.pingCurrentTimestamp = s.pingCurrentTimestamp)
    (hreset : ∀ e ∈ reset, e = .resetSocket j)
    (hdrop : (s.config.maxFailedPings : Int) ≤ (countPing p timestamp).failedPings →
      .resetSocket j ∈ reset) : Tallied (t ++ .checked j timestamp dropped :: reset) s' := by
  have hstamp : timestamp = s.pingCurrentTimestamp := h.stamp timestamp (by rw [ht]; rfl)
  have hno : ∀ i ρ, Event.ping i ρ ∉ Event.checked j timestamp dropped :: reset := by
    intro i ρ hm
    cases List.mem_cons.mp hm with
    | inl hm => cases hm
    | inr hm => cases hreset _ hm
  have hnil : rounds reset = [] := by
    rw [rounds, List.reverse_eq_nil_iff, List.filterMap_eq_nil_iff]
    intro e he
    rw [hreset e he]
    rfl
  have hes : rounds (.checked j timestamp dropped :: reset) = [] := by
    rw [← List.singleton_append, rounds_append, hnil]
    rfl
  refine ⟨by rw [hcur]; exact clock_append h.clock hes, ?_, ?_, ?_, ?_⟩
  · intro ts hts'
    rw [hts] at hts'
    cases hts'
    rw [hcur, hstamp]
  · intro ts hts'
    rw [hround] at hts'
    cases hts'
  · intro i ρ hm
    rw [ho, setPeer, List.length_set]
    exact h.pinged i ρ ((List.mem_append.mp hm).resolve_right (hno i ρ))
  · rw [ho]
    intro i q hq
    rw [objects_setPeer hp] at hq
    by_cases hij : i = j
    · rw [if_pos hij] at hq
      cases hq
      subst hij
      have howed : s.pinger.owes i = true := by
        rw [ht]
        exact decide_eq_true (List.mem_of_getElem? hc)
      exact tally_check (h.peers i p hp) h.clock hstamp howed
        (hfree p (List.mem_of_getElem? hp)) hcfg hcur hnil (hno i) hdrop
    · rw [if_neg hij] at hq
      refine tally_append (h.peers i q hq) hcfg hcur hes ?_ ?_ fun ρ hm => absurd hm (hno i ρ)
      · intro ρ pt hr
        have hf := hfree q (List.mem_of_getElem? hq)
        rw [hr] at hf
        cases hf
      · intro _
        rw [howes, ht, PingerTask.owes]
        simp [mem_pick hc hij]

theorem tallied_stamp {now : Int} (h : Tallied t s) (ht : s.pinger = .checked)
    (hfree : ∀ p ∈ s.objects, p.task.pong? = none) (hpos : 0 < now)
    (hnow : ∀ ρ ∈ rounds t, ρ < now) :
    Tallied (t ++ [.round now]) { s with pingCurrentTimestamp := now, pinger := .pinging now } := by
  have hlt : s.pingCurrentTimestamp < now := by
    obtain hcur | hcur := h.clock.current_mem
    · omega
    · exact hnow _ hcur
  refine ⟨rounds_stamp h.clock hpos hnow, fun ts hts => by (cases hts), ?_, ?_, ?_⟩
  · intro ts hts
    cases hts
    rfl
  · intro j ρ hm
    exact h.pinged j ρ (by simpa using hm)
  · intro j p hp
    exact tally_stamp (h.peers j p hp) ht rfl rfl rfl (hfree p (List.mem_of_getElem? hp)) hlt

theorem tallied_tick {c : Nat} {now : Int} (hA : Agrees s) (hr : Routed s) (h : Tallied t s)
    (hfree : ∀ p ∈ s.objects, p.task.pong? = none) (hclock : Clock t s (.tick c now))
    (hk : Ticks s c now s' es) : Tallied (t ++ es) s' := by
  have hmoves := ticks_moves hA hk
  cases hk with
  | check timestamp rest j p ht hc hp hf =>
    exact tallied_check h ht hc hp hfree rfl rfl (fun i => rfl) rfl rfl rfl (by simp)
      fun hM => by omega
  | drop timestamp rest j p ht hc hp hf =>
    exact tallied_check h ht hc hp hfree rfl rfl (fun i => rfl) rfl rfl rfl (by simp)
      fun _ => List.mem_singleton.mpr rfl
  | stamp ht =>
    obtain ⟨hpos, hnow⟩ := hclock (by rw [ht]; rfl)
    exact tallied_stamp h ht hfree hpos hnow
  | lockPing timestamp ht hm =>
    exact tallied_moves h (hmoves rfl (by simp)) hfree rfl (fun ts hts => by rw [ht]; exact hts)
      (by simp)
  | ping timestamp rest j ht hc =>
    refine tallied_moves h (hmoves rfl (by simp)) hfree rfl
      (fun ts hts => by rw [ht]; exact hts) ?_
    intro i ρ hm
    cases List.mem_singleton.mp hm
    refine ⟨hr.pinger j (by rw [ht]; exact List.mem_of_getElem? hc), ?_⟩
    rw [due_of_owes (by rw [ht]; rfl), h.round timestamp (by rw [ht]; rfl)]
    exact h.clock.current_not_mem_tail
  | _ =>
    exact tallied_moves h (hmoves rfl (by simp)) hfree rfl (fun ts hts => by cases hts) (by simp)

theorem tallied_step (hA : Agrees s) (hr : Routed s) (h : Tallied t s)
    (hM : 0 < s.config.maxFailedPings) (hclock : Clock t s a) (hatomic : Atomic s a)
    (hs : s.step a = some (s', es)) : Tallied (t ++ es) s' := by
  cases a with
  | tick c now =>
    have hfree : ∀ p ∈ s.objects, p.task.pong? = none := by
      intro p hp
      by_contra hne
      obtain ⟨j, hj⟩ := List.getElem?_of_mem hp
      cases thread_of_atomic hatomic hj hne
    cases step_cases hs with
    | tick _ _ _ _ hk => exact tallied_tick hA hr h hfree hclock hk
  | _ => exact tallied_thread h hM hatomic hs (by simp)

/-! ## Drops -/

theorem punctual_init (id : String) (config : GameConfigDto) (hM : 0 < config.maxFailedPings) :
    Punctual [] { id := id, config := config } := by
  intro j l hl hlen
  rw [List.infix_nil.mp hl] at hlen
  simp only [List.length_nil] at hlen
  omega

/-- A check is over with a step of the pinger that no event goes with. -/
theorem step_checkedRounds (hs : s.step a = some (s', es)) :
    checkedRounds (t ++ es) s'.pinger = checkedRounds t s.pinger ∨
      (s'.pinger = .checked ∧ s.pinger.isChecked = false ∧ es = []) := by
  cases a with
  | tick c now =>
    cases step_cases hs with
    | tick _ _ _ _ hk =>
      cases hk with
      | checkDone timestamp ht => exact Or.inr ⟨rfl, by rw [ht]; rfl, rfl⟩
      | stamp ht =>
        left
        rw [ht, checkedRounds, rounds_round]
        rfl
      | read ht | lockCheck timestamp ht _ | clear timestamp rest j ht | lockPing timestamp ht _
      | ping timestamp rest j ht _ | pingDone timestamp ht | check timestamp rest j p ht _ _ _
      | drop timestamp rest j p ht _ _ _ =>
        left
        rw [ht, checkedRounds, checkedRounds, rounds_append]
        rfl
  | _ =>
    obtain ⟨hpin, -, hes⟩ := step_threads hs (by simp)
    left
    rw [hpin, checkedRounds, checkedRounds, rounds_append, rounds_of_threads hes, List.nil_append]

/-- Pings go out for the latest round only, before its check. -/
theorem ping_not_mem {j : PeerRef} {ρ : Int} (h : Tallied t s) (hs : s.step a = some (s', es))
    (hρ : ρ ∈ checkedRounds t s.pinger) : .ping j ρ ∉ es := by
  intro hm
  cases a with
  | tick c now =>
    cases step_cases hs with
    | tick _ _ _ _ hk =>
      cases hk with
      | ping timestamp rest i ht hc =>
        cases List.mem_singleton.mp hm
        rw [ht] at hρ
        rw [h.round ρ (by rw [ht]; rfl)] at hρ
        exact h.clock.current_not_mem_tail hρ
      | _ => simp at hm
  | _ =>
    have := (step_threads hs (by simp)).2.2 _ hm
    cases this

/-- After the check of the latest round, the counter of a peer that was silent long enough has
reached the limit, unless the peer has left by itself. -/
theorem reset_of_silent {j : PeerRef} {l : List Int} (h : Tallied t s)
    (hM : 0 < s.config.maxFailedPings) (hpin : s.pinger = .checked) (hl : l <+: rounds t)
    (hlen : l.length = s.config.maxFailedPings) (hsilent : ∀ ρ ∈ l, Silent t j ρ) :
    .resetSocket j ∈ t := by
  obtain ⟨ρ, hρ⟩ := List.exists_mem_of_length_pos (l := l) (by omega)
  have hping := (hsilent ρ hρ).1
  obtain ⟨p, hp⟩ : ∃ p, s.objects[j]? = some p :=
    ⟨_, List.getElem?_eq_getElem (h.pinged j ρ hping)⟩
  have hj := h.peers j p hp
  cases hst : p.task.stage with
  | coming => exact absurd hping (hj.unpinged hst ρ)
  | gone =>
    refine hj.closed ?_
    cases ht : p.task with
    | removed => rfl
    | _ => rw [ht] at hst; cases hst
  | inside =>
    have hcounts := (hj.counted hst).resolve_left fun hf => by
      rw [hpin] at hf
      cases hf.1
    rw [hpin] at hcounts
    refine hj.dropped ?_
    rw [← hlen]
    exact hcounts l hl hsilent

theorem punctual_step (h : Tallied t s) (h' : Tallied (t ++ es) s') (hpun : Punctual t s)
    (hM : 0 < s.config.maxFailedPings) (hs : s.step a = some (s', es)) :
    Punctual (t ++ es) s' := by
  have hcfg : s'.config = s.config := (step_static hs).2.1
  intro j l hl hlen hsilent
  have hold : l <:+: checkedRounds t s.pinger → .resetSocket j ∈ t ++ es := by
    intro hl
    refine List.mem_append_left es (hpun j l hl (by rw [hlen, hcfg]) fun ρ hρ => ?_)
    exact silent_of_append (hsilent ρ hρ) (ping_not_mem h hs (hl.subset hρ))
  cases step_checkedRounds hs (t := t) with
  | inl hsame =>
    rw [hsame] at hl
    exact hold hl
  | inr hover =>
    -- the rounds that are checked by now are one more
    obtain ⟨hpin, hbefore, rfl⟩ := hover
    rw [List.append_nil] at hl hsilent h' hold ⊢
    rw [hpin] at hl
    change l <:+: rounds t at hl
    have htail : checkedRounds t s.pinger = (rounds t).tail := by
      rw [checkedRounds, if_neg (by simp [hbefore])]
    have hnew : l <+: rounds t → .resetSocket j ∈ t :=
      fun hl => reset_of_silent h' (by rw [hcfg]; exact hM) hpin hl hlen hsilent
    rw [htail] at hold
    cases hr : rounds t with
    | nil =>
      rw [hr] at hl
      exact hnew (by rw [List.infix_nil.mp hl]; exact List.nil_prefix)
    | cons ρ ρs =>
      rw [hr] at hl hold hnew
      exact (List.infix_cons_iff.mp hl).elim hnew hold

end Session

namespace Room
variable {id : String} {config : GameConfigDto} {t es : List Event} {r r' : Room}

def OfSession (C : List Session.Event → Session → Session.Op → Prop) (t : List Event) (r : Room) :
    Op → Prop
  | .session a => C (sessionPart t) r.session a
  | .act _ _ | .send _ _ _ => True

instance (C : List Session.Event → Session → Session.Op → Prop) [∀ t s a, Decidable (C t s a)]
    (t : List Event) (r : Room) : ∀ a, Decidable (OfSession C t r a)
  | .session a => inferInstanceAs (Decidable (C (sessionPart t) r.session a))
  | .act _ _ | .send _ _ _ => isTrue trivial

structure Watched (id : String) (config : GameConfigDto) (t : List Event) (r : Room) : Prop where
  reached : Reached id config t r
  sockets : Sockets t r
  tallied : r.session.Tallied (sessionPart t)
  punctual : r.session.Punctual (sessionPart t)

theorem watched_init (id : String) (config : GameConfigDto) (hM : 0 < config.maxFailedPings) :
    Watched id config [] (init id config) :=
  ⟨reached_init id config, sockets_init id config, Session.tallied_init id config,
    Session.punctual_init id config hM⟩

theorem watched_step {a : Op} (hM : 0 < config.maxFailedPings) (h : Watched id config t r)
    (hclock : OfSession Session.Clock t r a)
    (hatomic : OfSession (fun _ s a => s.Atomic a) t r a) (hs : r.step a = some (r', es)) :
    Watched id config (t ++ es) r' := by
  have hM' : 0 < r.session.config.maxFailedPings := by
    rw [h.reached.static]
    exact hM
  obtain ⟨hA, hr⟩ := h.reached.sound
  cases step_session hs with
  | inl hsession =>
    obtain ⟨b, rfl, hst⟩ := hsession
    have htallied := Session.tallied_step hA hr h.tallied hM' hclock hatomic hst
    refine ⟨reached_step h.reached hs, sockets_step h.reached h.sockets hs, ?_, ?_⟩
    · rw [sessionPart_append]
      exact htallied
    · rw [sessionPart_append]
      exact Session.punctual_step h.tallied htallied h.punctual hM' hst
  | inr hquiet =>
    obtain ⟨-, hsame, hnil⟩ := hquiet
    refine ⟨reached_step h.reached hs, sockets_step h.reached h.sockets hs, ?_, ?_⟩
    · rw [sessionPart_append, hnil, List.append_nil, hsame]
      exact h.tallied
    · rw [sessionPart_append, hnil, List.append_nil, hsame]
      exact h.punctual

theorem run_watched {w : List Op} (hM : 0 < config.maxFailedPings)
    (hclock : machine.Along (OfSession Session.Clock) w [] (init id config))
    (hatomic : machine.Along (OfSession fun _ s a => s.Atomic a) w [] (init id config))
    (hr : machine.run w [] (init id config) = some (t, r)) : Watched id config t r :=
  run_invariant_along (M := machine) (I := Watched id config)
    (fun _ _ _ _ _ h hc hs => watched_step hM h hc.1 hc.2 hs) (watched_init id config hM)
    (along_and hclock hatomic) hr

/-- If ticks and `handlePong` are atomic and the clock of the rounds runs, then a peer that was
pinged in each of `maxFailedPings` rounds in a row, and got no pong accepted for any of them
before the check that follows it, has no socket once the last of these checks is over. -/
theorem silent_detached {w : List Op} (hM : 0 < config.maxFailedPings)
    (hclock : machine.Along (OfSession Session.Clock) w [] (init id config))
    (hatomic : machine.Along (OfSession fun _ s a => s.Atomic a) w [] (init id config))
    (hr : machine.run w [] (init id config) = some (t, r)) (j : PeerRef) (l : List Int)
    (hl : l <:+: Session.checkedRounds (sessionPart t) r.session.pinger)
    (hlen : l.length = config.maxFailedPings)
    (hsilent : ∀ ρ ∈ l, Session.Silent (sessionPart t) j ρ) : r.attached j = false := by
  have h := run_watched hM hclock hatomic hr
  have hreset := h.punctual j l hl (by rw [hlen, h.reached.static]) hsilent
  rw [← Bool.not_eq_true, h.sockets.attached j (h.sockets.named j hreset)]
  exact not_not_intro hreset

def pongMessage (timestamp : Int) : IncomingMessage where
  message := { code := some .incomingPong, payload := some (.int64 timestamp) }
  typed := by
    intro p hp
    cases hp
    rfl

def tickAt (now : Int) : List Session.Op :=
  [.tick 0 0, .tick 0 0, .tick 0 0, .tick 0 0, .tick 0 now, .tick 0 0, .tick 0 0, .tick 0 0]

def answersBeside : List Session.Op :=
  [.newPeer 0, .advance 0 0, .advance 0 0] ++ tickAt 5 ++ tickAt 9 ++
    [.handle 0 (pongMessage 5) 11, .advance 0 0, .handle 0 (pongMessage 20) 12, .advance 0 0,
      .tick 0 0, .tick 0 0, .tick 0 0, .tick 0 0, .tick 0 0]

theorem silent_detached_beside : ∃ t r,
    machine.run (answersBeside.map .session) [] (init "lobby" { maxFailedPings := 2 }) =
      some (t, r) ∧ r.attached 0 = false := by
  have hrun : (machine.run (answersBeside.map .session) []
      (init "lobby" { maxFailedPings := 2 })).isSome = true := by decide +kernel
  have hrounds : ∀ x ∈ machine.run (answersBeside.map .session) []
      (init "lobby" { maxFailedPings := 2 }),
      [9, 5] <:+: Session.checkedRounds (sessionPart x.1) x.2.session.pinger ∧
        ∀ ρ ∈ [9, 5], Session.Unanswered (sessionPart x.1) 0 ρ := by decide +kernel
  obtain ⟨⟨t, r⟩, hr⟩ := Option.isSome_iff_exists.mp hrun
  obtain ⟨hl, hsilent⟩ := hrounds (t, r) hr
  refine ⟨t, r, hr, silent_detached (by decide) (by decide +kernel)
    (by decide +kernel) hr 0 [9, 5] hl rfl ?_⟩
  exact fun ρ hρ => Session.silent_of_unanswered (hsilent ρ hρ)

end Room
end Helicopter
