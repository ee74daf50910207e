import Mathlib
import Helicopter.Lib.Champion
import Helicopter.AcceptedPongs

/-! The best ping of a session. `reportPeerPong` keeps the first least time it has ever answered
with, whose it is, and the timestamp with which that peer became the best one. -/
namespace Helicopter
open Interleaving

namespace Session
variable {s s' : Session} {t es : List Event}

structure Pong where
  peerId : Int
  timestamp : Int
  pingTime : Int
  deriving DecidableEq

def Pong.accepted (x : Pong) : Bool := decide (0 ≤ x.pingTime)

/-- The calls that write under `m_pingMutex`; `now` is what `getMicroTickCount` answers. -/
inductive PingCall where
  | pingAllPeers (now : Int)
  | reportPeerPong (peerId timestamp now : Int)

def PingCall.now : PingCall → Int
  | .pingAllPeers now => now
  | .reportPeerPong _ _ now => now

/-- `pingAllPeers` up to the lock of `m_peersMutex`. Its loop leaves the session alone. -/
def pingAllPeers (s : Session) (timestamp : Int) : Session :=
  { s with pingCurrentTimestamp := timestamp }

def stepCall (s : Session) : PingCall → Option (Session × List Pong)
  | .pingAllPeers now => some (s.pingAllPeers now, [])
  | .reportPeerPong peerId timestamp now =>
    let r := s.reportPeerPong peerId timestamp now
    some (r.1, [⟨peerId, timestamp, r.2⟩])

def calls : Machine Session PingCall Pong := ⟨stepCall⟩

structure BestPing (l : List Pong) (s : Session) : Prop where
  unset : l = [] → s.pingBestTime = -1 ∧ s.pingBestPeerId = -1 ∧ s.pingBestPeerSinceTimestamp = -1
  best : ∀ x ∈ l.argmin Pong.pingTime, s.pingBestTime = x.pingTime ∧ s.pingBestPeerId = x.peerId
  begun : l ≠ [] → ∃ y, Champion.Begins Pong.pingTime Pong.peerId l y
  since : ∀ y, Champion.Begins Pong.pingTime Pong.peerId l y →
    s.pingBestPeerSinceTimestamp = y.timestamp

section
variable {l : List Pong} {x y : Pong} {peerId timestamp now : Int}

theorem bestPing_init (id : String) (config : GameConfigDto) :
    BestPing [] { id := id, config := config } where
  unset _ := ⟨rfl, rfl, rfl⟩
  best x hx := by cases hx
  begun h := absurd rfl h
  since y hy := by
    obtain ⟨u, v, hl, -⟩ := hy
    simp at hl

theorem bestPing_of_begins (hx : l.argmin Pong.pingTime = some x)
    (htime : s.pingBestTime = x.pingTime) (hid : s.pingBestPeerId = x.peerId)
    (hy : Champion.Begins Pong.pingTime Pong.peerId l y)
    (hsince : s.pingBestPeerSinceTimestamp = y.timestamp) : BestPing l s where
  unset hl := by
    rw [hl] at hx
    cases hx
  best z hz := by
    rw [hx] at hz
    cases hz
    exact ⟨htime, hid⟩
  begun _ := ⟨y, hy⟩
  since z hz := by rw [hz.unique hy, hsince]

/-- The fields do not depend on the rest of the session. -/
theorem bestPing_congr (h : BestPing l s) (htime : s'.pingBestTime = s.pingBestTime)
    (hid : s'.pingBestPeerId = s.pingBestPeerId)
    (hsince : s'.pingBestPeerSinceTimestamp = s.pingBestPeerSinceTimestamp) : BestPing l s' := by
  refine ⟨?_, ?_, h.begun, ?_⟩
  · rw [htime, hid, hsince]
    exact h.unset
  · rw [htime, hid]
    exact h.best
  · rw [hsince]
    exact h.since

theorem reportPeerPong_stale (h : timestamp ≠ s.pingCurrentTimestamp) :
    s.reportPeerPong peerId timestamp now = (s, -1) := if_pos h

theorem reportPeerPong_snd (h : timestamp = s.pingCurrentTimestamp) :
    (s.reportPeerPong peerId timestamp now).2 = now - timestamp := by
  rw [reportPeerPong, if_neg (not_not_intro h)]
  simp only
  split
  · split <;> rfl
  · rfl

theorem reportPeerPong_slower (h : timestamp = s.pingCurrentTimestamp) (hset : 0 ≤ s.pingBestTime)
    (hle : s.pingBestTime ≤ now - timestamp) :
    (s.reportPeerPong peerId timestamp now).1 = s := by
  rw [reportPeerPong, if_neg (not_not_intro h)]
  simp only
  rw [if_neg (by omega)]

theorem reportPeerPong_faster (h : timestamp = s.pingCurrentTimestamp)
    (hlt : s.pingBestTime < 0 ∨ now - timestamp < s.pingBestTime) :
    (s.reportPeerPong peerId timestamp now).1 =
      { s with
        pingBestTime := now - timestamp
        pingBestPeerId := peerId
        pingBestPeerSinceTimestamp := if s.pingBestPeerId = peerId
          then s.pingBestPeerSinceTimestamp else timestamp } := by
  rw [reportPeerPong, if_neg (not_not_intro h)]
  simp only
  rw [if_pos (by omega)]
  by_cases hid : s.pingBestPeerId = peerId
  · rw [if_neg (not_not_intro hid), if_pos hid]
    cases hid
    rfl
  · rw [if_pos hid, if_neg hid]

/-- A new holder, or a holder that improves on itself. -/
theorem bestPing_faster (h : BestPing l s) (hid : 0 ≤ peerId)
    (hcur : timestamp = s.pingCurrentTimestamp)
    (hlt : ∀ x ∈ l.argmin Pong.pingTime, now - timestamp < x.pingTime) :
    BestPing (l ++ [⟨peerId, timestamp, now - timestamp⟩])
      (s.reportPeerPong peerId timestamp now).1 := by
  cases hc : l.argmin Pong.pingTime with
  | none =>
    have hmin := Champion.argmin_snoc_none hc ⟨peerId, timestamp, now - timestamp⟩
    obtain ⟨htime, hno, -⟩ := h.unset (List.argmin_eq_none.mp hc)
    rw [reportPeerPong_faster hcur (by omega), if_neg (by omega)]
    refine bestPing_of_begins hmin rfl rfl (Champion.begins_snoc ?_ ?_) rfl
    · rw [Champion.holder, hc]
      exact Option.some_ne_none _ ∘ Eq.symm
    · exact Champion.holder_of_argmin hmin
  | some x =>
    obtain ⟨htime, hholds⟩ := h.best x hc
    have hfaster := hlt x hc
    have hmin := Champion.argmin_snoc_lt (a := ⟨peerId, timestamp, now - timestamp⟩) hc hfaster
    rw [reportPeerPong_faster hcur (by omega)]
    by_cases hsame : s.pingBestPeerId = peerId
    · obtain ⟨y, hy⟩ := h.begun (fun hl => by rw [hl] at hc; cases hc)
      rw [if_pos hsame]
      refine bestPing_of_begins hmin rfl rfl (hy.snoc ?_) (h.since y hy)
      have hxy := hy.holder_eq
      rw [Champion.holder_of_argmin hc, ← hholds, hsame] at hxy
      rw [← hxy]
      exact Champion.holder_of_argmin hmin
    · rw [if_neg hsame]
      refine bestPing_of_begins hmin rfl rfl (Champion.begins_snoc ?_ ?_) rfl
      · rw [Champion.holder_of_argmin hc, ← hholds]
        exact fun he => hsame (Option.some.inj he)
      · exact Champion.holder_of_argmin hmin

theorem bestPing_slower (h : BestPing l s) (hcur : timestamp = s.pingCurrentTimestamp)
    (hx : l.argmin Pong.pingTime = some x) (hpos : 0 ≤ x.pingTime)
    (hle : x.pingTime ≤ now - timestamp) :
    BestPing (l ++ [⟨peerId, timestamp, now - timestamp⟩])
      (s.reportPeerPong peerId timestamp now).1 := by
  obtain ⟨htime, hholds⟩ := h.best x hx
  obtain ⟨y, hy⟩ := h.begun (fun hl => by rw [hl] at hx; cases hx)
  have hmin := Champion.argmin_snoc_le (a := ⟨peerId, timestamp, now - timestamp⟩) hx hle
  rw [reportPeerPong_slower hcur (by omega) (by omega)]
  refine bestPing_of_begins hmin htime hholds (hy.snoc ?_) (h.since y hy)
  rw [← hy.holder_eq, Champion.holder_of_argmin hx]
  exact Champion.holder_of_argmin hmin

/-- What one pong does to the fields, whether it is accepted or not. -/
theorem bestPing_report (h : BestPing l s) (hl : ∀ x ∈ l, x.accepted = true) (hid : 0 ≤ peerId)
    (hnow : s.pingCurrentTimestamp ≤ now) :
    BestPing (l ++ List.filter Pong.accepted
        [⟨peerId, timestamp, (s.reportPeerPong peerId timestamp now).2⟩])
      (s.reportPeerPong peerId timestamp now).1 := by
  by_cases hcur : timestamp = s.pingCurrentTimestamp
  · have htime : 0 ≤ now - timestamp := by omega
    have haccepted : Pong.accepted ⟨peerId, timestamp, now - timestamp⟩ = true :=
      decide_eq_true htime
    rw [reportPeerPong_snd hcur, List.filter_cons_of_pos haccepted, List.filter_nil]
    by_cases hlt : ∀ x ∈ l.argmin Pong.pingTime, now - timestamp < x.pingTime
    · exact bestPing_faster h hid hcur hlt
    · push Not at hlt
      obtain ⟨x, hx, hle⟩ := hlt
      exact bestPing_slower h hcur hx (of_decide_eq_true (hl x (List.argmin_mem hx))) hle
  · rw [reportPeerPong_stale hcur, List.filter_cons_of_neg (by simp [Pong.accepted]),
      List.filter_nil, List.append_nil]
    exact h

end

theorem mem_filter_accepted {t : List Pong} : ∀ x ∈ t.filter Pong.accepted, x.accepted = true :=
  fun _ hx => (List.mem_filter.mp hx).2

/-- After any sequence of rounds and pongs under a clock that starts at 0 and never goes back. -/
theorem calls_bestPing (id : String) (config : GameConfigDto) (w : List PingCall)
    (hids : ∀ peerId timestamp now, .reportPeerPong peerId timestamp now ∈ w → 0 ≤ peerId)
    (hclock : (0 :: w.map PingCall.now).Pairwise (· ≤ ·)) :
    ∃ t s, calls.run w [] { id := id, config := config } = some (t, s) ∧
      BestPing (t.filter Pong.accepted) s := by
  suffices h : ∃ t s, calls.run w [] { id := id, config := config } = some (t, s) ∧
      BestPing (t.filter Pong.accepted) s ∧
      (s.pingCurrentTimestamp = -1 ∨ s.pingCurrentTimestamp ∈ w.map PingCall.now) by
    obtain ⟨t, s, hr, hbest, -⟩ := h
    exact ⟨t, s, hr, hbest⟩
  induction w using List.reverseRecOn with
  | nil => exact ⟨[], _, rfl, bestPing_init id config, Or.inl rfl⟩
  | append_singleton w a ih =>
    rw [List.map_append, ← List.cons_append, List.pairwise_append] at hclock
    obtain ⟨hpast, -, hlast⟩ := hclock
    have hnow : ∀ ρ ∈ 0 :: w.map PingCall.now, ρ ≤ a.now :=
      fun ρ hρ => hlast ρ hρ a.now (List.mem_singleton.mpr rfl)
    obtain ⟨t, s, hr, hbest, hcur⟩ := ih
      (fun peerId timestamp now hm => hids peerId timestamp now (List.mem_append_left _ hm)) hpast
    cases a with
    | pingAllPeers now =>
      have hstep : calls.step s (.pingAllPeers now) = some (s.pingAllPeers now, []) := rfl
      refine ⟨_, _, run_step_last hr hstep, ?_, Or.inr ?_⟩
      · rw [List.append_nil]
        exact bestPing_congr hbest rfl rfl rfl
      · rw [List.map_append]
        exact List.mem_append_right _ (List.mem_singleton.mpr rfl)
    | reportPeerPong peerId timestamp now =>
      have hstep : calls.step s (.reportPeerPong peerId timestamp now) =
          some ((s.reportPeerPong peerId timestamp now).1,
            [⟨peerId, timestamp, (s.reportPeerPong peerId timestamp now).2⟩]) := rfl
      have hle : s.pingCurrentTimestamp ≤ now := by
        have hzero : 0 ≤ now := hnow 0 List.mem_cons_self
        obtain hcur | hcur := hcur
        · omega
        · exact hnow _ (List.mem_cons_of_mem 0 hcur)
      refine ⟨_, _, run_step_last hr hstep, ?_, ?_⟩
      · rw [List.filter_append]
        exact bestPing_report hbest mem_filter_accepted
          (hids peerId timestamp now (by simp)) hle
      · obtain ⟨time, holder, since, he⟩ := reportPeerPong_fst s peerId timestamp now
        rw [he, List.map_append]
        exact hcur.imp_right (List.mem_append_left _)

/-! ## The calls of a session's threads -/

def pongs (t : List Event) (s : Session) : List Pong :=
  t.filterMap fun e =>
    match e with
    | .pong j timestamp pingTime => (s.peerId? j).map fun id => ⟨id, timestamp, pingTime⟩
    | _ => none

def PongClock (t : List Event) (_ : Session) : Op → Prop
  | .handle _ _ now => 0 ≤ now ∧ ∀ ρ ∈ rounds t, ρ ≤ now
  | _ => True

instance (t : List Event) (s : Session) : ∀ a, Decidable (PongClock t s a)
  | .handle _ _ now => inferInstanceAs (Decidable (0 ≤ now ∧ ∀ ρ ∈ rounds t, ρ ≤ now))
  | .findSession | .newPeer _ | .advance _ _ | .close _ | .tick _ _ => isTrue trivial

theorem step_peerIdCounter {a : Op} (hs : s.step a = some (s', es)) :
    s.peerIdCounter ≤ s'.peerIdCounter := by
  cases step_cases hs with
  | findSession => exact Int.le_refl _
  | newPeer k isHost hk => simp only; omega
  | advance i p c s' es hp ha =>
    cases ha with
    | add ht hm => rw [addPeer_fst]; exact Int.le_refl _
    | remove ht hm => rw [removePeerById_fst]; exact Int.le_refl _
    | _ => exact Int.le_refl _
  | handle i p message now s₁ task es hp ht hr =>
    cases hr with
    | pong timestamp =>
      obtain ⟨time, id, since, he⟩ := reportPeerPong_fst s p.peerId timestamp now
      rw [he]
      exact Int.le_refl _
    | _ => exact Int.le_refl _
  | close i p hp ht => exact Int.le_refl _
  | tick c now s' es hk =>
    cases hk with
    | _ => exact Int.le_refl _

theorem peerId_turns {a : Op} {i : PeerRef} {p q : Peer} (h : Turns s a i p q) :
    q.peerId = p.peerId := by
  cases h with
  | record c timestamp pingTime ht => unfold recordPong; split <;> rfl
  | check c now timestamp => unfold countPing; split <;> rfl
  | _ => rfl

structure Reporting (t : List Event) (s : Session) : Prop where
  agrees : Agrees s
  covering : Covering t s
  counter : 0 ≤ s.peerIdCounter
  ids : ∀ (i : PeerRef) (p : Peer), s.objects[i]? = some p → 0 ≤ p.peerId
  senders : ∀ j timestamp pingTime, .pong j timestamp pingTime ∈ t → ∃ p : Peer,
    s.objects[j]? = some p
  best : BestPing ((pongs t s).filter Pong.accepted) s

theorem reporting_init (id : String) (config : GameConfigDto) :
    Reporting [] { id := id, config := config } where
  agrees := agrees_init id config
  covering := covering_init id config
  counter := Int.le_refl 0
  ids i p hp := by simp at hp
  senders j ρ pt hm := by cases hm
  best := bestPing_init id config

theorem pongs_later {a : Op} (h : Reporting t s) (hs : s.step a = some (s', es)) :
    pongs t s' = pongs t s := by
  refine List.filterMap_congr ?_
  intro e he
  cases e with
  | pong j timestamp pingTime =>
    obtain ⟨p, hp⟩ := h.senders j timestamp pingTime he
    obtain ⟨q, hq, hl⟩ := step_later h.agrees hs hp
    have hid : q.peerId = p.peerId := hl.peerId
    simp only [peerId?, hp, hq, Option.map_some, hid]
  | _ => rfl

theorem pongs_append (t es : List Event) (s : Session) :
    pongs (t ++ es) s = pongs t s ++ pongs es s := List.filterMap_append

theorem bestPing_step {a : Op} (h : Reporting t s) (hclock : PongClock t s a)
    (hs : s.step a = some (s', es)) : BestPing ((pongs (t ++ es) s').filter Pong.accepted) s' := by
  rw [pongs_append, pongs_later h hs, List.filter_append]
  cases step_pongs hs with
  | other a s' es hno htime hid hsince =>
    have hnone : pongs es s' = [] := by
      rw [pongs, List.filterMap_eq_nil_iff]
      intro e he
      cases e with
      | pong j timestamp pingTime => exact absurd he (hno j timestamp pingTime)
      | _ => rfl
    rw [hnone, List.filter_nil, List.append_nil]
    exact bestPing_congr h.best htime hid hsince
  | report i p message now timestamp hp ht =>
    obtain ⟨hzero, hnow⟩ := hclock
    have hle : s.pingCurrentTimestamp ≤ now := by
      rw [h.covering.latest]
      cases hr : rounds t with
      | nil => simp only [List.head?_nil, Option.getD_none]; omega
      | cons ρ ρs => exact hnow ρ (by rw [hr]; exact List.mem_cons_self)
    obtain ⟨q, hq, hl⟩ := step_later h.agrees hs hp
    have hid : q.peerId = p.peerId := hl.peerId
    have hone : pongs [.handled i message.message,
        .pong i timestamp (s.reportPeerPong p.peerId timestamp now).2]
        ((s.reportPeerPong p.peerId timestamp now).1.setTask i p
          (.reported timestamp (s.reportPeerPong p.peerId timestamp now).2)) =
        [⟨p.peerId, timestamp, (s.reportPeerPong p.peerId timestamp now).2⟩] := by
      simp only [pongs, peerId?, hq, Option.map_some, hid, List.filterMap_cons, List.filterMap_nil]
    rw [hone]
    exact bestPing_congr (bestPing_report h.best mem_filter_accepted (h.ids i p hp) hle)
      rfl rfl rfl

theorem reporting_step {a : Op} (h : Reporting t s) (hclock : PongClock t s a)
    (hs : s.step a = some (s', es)) : Reporting (t ++ es) s' where
  agrees := (step_roster h.agrees hs).1
  covering := covering_step h.agrees h.covering hs
  counter := Int.le_trans h.counter (step_peerIdCounter hs)
  ids := by
    refine forall_step (P := fun _ p => 0 ≤ p.peerId) hs h.ids (fun _ => h.counter) ?_
    intro i p q hp hq
    rw [peerId_turns hq]
    exact h.ids i p hp
  senders j timestamp pingTime hm := by
    obtain ⟨p, hp⟩ : ∃ p : Peer, s.objects[j]? = some p := by
      obtain hm | hm := List.mem_append.mp hm
      · exact h.senders j timestamp pingTime hm
      · cases step_pongs hs with
        | other a s' es hno => exact absurd hm (hno j timestamp pingTime)
        | report i p message now ρ hp ht =>
          obtain ⟨rfl, -⟩ : j = i ∧ _ := by simpa using hm
          exact ⟨p, hp⟩
    obtain ⟨q, hq, -⟩ := step_later h.agrees hs hp
    exact ⟨q, hq⟩
  best := bestPing_step h hclock hs

theorem run_bestPing {id : String} {config : GameConfigDto} {w : List Op}
    (hclock : machine.Along PongClock w [] { id := id, config := config })
    (hr : machine.run w [] { id := id, config := config } = some (t, s)) :
    BestPing ((pongs t s).filter Pong.accepted) s :=
  (run_invariant_along (I := Reporting) (fun _ _ _ _ _ h hc hs => reporting_step h hc hs)
    (reporting_init id config) hclock hr).best

/-- The fields say this of the pongs accepted so far, after any sequence of calls and in every run
of a session. -/
theorem best_ping (id : String) (config : GameConfigDto) :
    (∀ w : List PingCall,
      (∀ peerId timestamp now, .reportPeerPong peerId timestamp now ∈ w → 0 ≤ peerId) →
      (0 :: w.map PingCall.now).Pairwise (· ≤ ·) →
      ∃ t s, calls.run w [] { id := id, config := config } = some (t, s) ∧
        BestPing (t.filter Pong.accepted) s) ∧
    ∀ (w : List Op) (t : List Event) (s : Session),
      machine.Along PongClock w [] { id := id, config := config } →
      machine.run w [] { id := id, config := config } = some (t, s) →
      BestPing ((pongs t s).filter Pong.accepted) s :=
  ⟨calls_bestPing id config, fun _ _ _ hclock hr => run_bestPing hclock hr⟩

def twoPeers : List PingCall :=
  [.pingAllPeers 5, .reportPeerPong 0 5 9, .pingAllPeers 10, .reportPeerPong 1 10 12,
    .reportPeerPong 0 5 13, .pingAllPeers 20, .reportPeerPong 1 20 21]

def hostAnswers : List Op :=
  hostInside ++ Room.tickAt 5 ++ [.handle 0 (Room.pongMessage 5) 7]

/-- The second peer took over with its first pong and improved on itself with its second. In the
run of a session the host that has answered is the best peer. -/
theorem best_ping_two_peers :
    (∃ t s, calls.run twoPeers [] { id := "lobby", config := {} } = some (t, s) ∧
      BestPing (t.filter Pong.accepted) s ∧ s.pingBestTime = 1 ∧ s.pingBestPeerId = 1 ∧
      s.pingBestPeerSinceTimestamp = 10) ∧
    ∃ t s, machine.run hostAnswers [] { id := "lobby", config := {} } = some (t, s) ∧
      (pongs t s).filter Pong.accepted = [⟨0, 5, 2⟩] ∧
      BestPing ((pongs t s).filter Pong.accepted) s := by
  have hids : ∀ peerId timestamp now, .reportPeerPong peerId timestamp now ∈ twoPeers →
      0 ≤ peerId := by
    intro peerId timestamp now hm
    simp [twoPeers] at hm
    omega
  obtain ⟨t, s, hr, hbest⟩ := (best_ping "lobby" {}).1 twoPeers hids (by decide)
  have hfields : ∀ x ∈ calls.run twoPeers [] { id := "lobby", config := {} },
      x.2.pingBestTime = 1 ∧ x.2.pingBestPeerId = 1 ∧ x.2.pingBestPeerSinceTimestamp = 10 := by
    decide
  obtain ⟨t', s', hr', hpongs⟩ : ∃ t s,
      machine.run hostAnswers [] { id := "lobby", config := {} } = some (t, s) ∧
        (pongs t s).filter Pong.accepted = [⟨0, 5, 2⟩] := ⟨_, _, rfl, by decide⟩
  refine ⟨⟨t, s, hr, hbest, hfields (t, s) hr⟩, t', s', hr', hpongs, ?_⟩
  exact (best_ping "lobby" {}).2 hostAnswers t' s' (by decide) hr'

end Session
end Helicopter
