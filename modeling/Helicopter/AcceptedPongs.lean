import Mathlib.Data.List.DropRight
import Helicopter.SilentPeer

/-! Which pongs `reportPeerPong` accepts: those for the latest round, whose peers were pinged in
it, unless they joined after it had begun or its loop has not come to them yet. -/
namespace Helicopter
open Interleaving

def PingerTask.toPing (j : PeerRef) : PingerTask → Bool
  | .pinging _ => true
  | .pingLoop _ rest => decide (j ∈ rest)
  | _ => false

theorem toPing_pingLoop {j : PeerRef} {timestamp : Int} {rest : List PeerRef} :
    (PingerTask.pingLoop timestamp rest).toPing j = true ↔ j ∈ rest := decide_eq_true_iff

namespace Session
variable {s s' : Session} {t es : List Event} {a : Op}

def Event.isRound : Event → Bool
  | .round _ => true
  | _ => false

def sinceRound (t : List Event) : List Event := t.rtakeWhile fun e => !e.isRound

theorem sinceRound_append (h : rounds es = []) : sinceRound (t ++ es) = sinceRound t ++ es := by
  induction es using List.reverseRecOn with
  | nil => simp
  | append_singleton es e ih =>
    rw [rounds_append, List.append_eq_nil_iff] at h
    obtain ⟨he, hes⟩ := h
    have hquiet : (!e.isRound) = true := by
      cases e with
      | round timestamp => cases he
      | _ => rfl
    have hlast := List.rtakeWhile_concat_pos (fun e : Event => !e.isRound) (t ++ es) e hquiet
    rw [← List.append_assoc, sinceRound, hlast, ← List.append_assoc, ← ih hes, sinceRound]

/-- The one step with a pong is the first section of `handlePong`; no other step touches what
`reportPeerPong` keeps. -/
inductive Pongs (s : Session) : Op → Session → List Event → Prop where
  | report (i : PeerRef) (p : Peer) (message : IncomingMessage) (now timestamp : Int) :
    s.objects[i]? = some p → p.task = .listening →
    Pongs s (.handle i message now)
      ((s.reportPeerPong p.peerId timestamp now).1.setTask i p
        (.reported timestamp (s.reportPeerPong p.peerId timestamp now).2))
      [.handled i message.message, .pong i timestamp (s.reportPeerPong p.peerId timestamp now).2]
  | other (a : Op) (s' : Session) (es : List Event) :
    (∀ j timestamp pingTime, .pong j timestamp pingTime ∉ es) →
    s'.pingBestTime = s.pingBestTime → s'.pingBestPeerId = s.pingBestPeerId →
    s'.pingBestPeerSinceTimestamp = s.pingBestPeerSinceTimestamp → Pongs s a s' es

theorem step_pongs (hs : s.step a = some (s', es)) : Pongs s a s' es := by
  cases step_cases hs with
  | findSession => exact .other _ _ _ (by simp) rfl rfl rfl
  | newPeer k isHost hk => exact .other _ _ _ (by simp) rfl rfl rfl
  | advance i p c s' es hp ha =>
    cases ha with
    | add ht hm =>
      rw [addPeer_fst]
      refine .other _ _ _ ?_ rfl rfl rfl
      intro j ρ pt hm
      obtain ⟨k, notice, hk⟩ := offer_of_mem_addPeer ((List.mem_cons.mp hm).resolve_left (by simp))
      cases hk
    | remove ht hm =>
      rw [removePeerById_fst]
      refine .other _ _ _ ?_ rfl rfl rfl
      intro j ρ pt hm
      obtain ⟨k, notice, hk⟩ :=
        offer_of_mem_removePeerById ((List.mem_cons.mp hm).resolve_left (by simp))
      cases hk
    | _ => exact .other _ _ _ (by simp) rfl rfl rfl
  | handle i p message now s₁ task es hp ht hr =>
    cases hr with
    | pong timestamp => exact .report i p message now timestamp hp ht
    | _ => exact .other _ _ _ (by simp) rfl rfl rfl
  | close i p hp ht => exact .other _ _ _ (by simp) rfl rfl rfl
  | tick c now s' es hk =>
    cases hk with
    | _ => exact .other _ _ _ (by simp) rfl rfl rfl

/-! ## Whom the latest round has reached -/

def Covered (t : List Event) (s : Session) (j : PeerRef) : Prop :=
  .ping j s.pingCurrentTimestamp ∈ sinceRound t ∨ (∃ isHost, .joined j isHost ∈ sinceRound t) ∨
    s.pinger.toPing j = true

structure Covering (t : List Event) (s : Session) : Prop where
  latest : s.pingCurrentTimestamp = (rounds t).head?.getD (-1)
  round : ∀ timestamp, s.pinger.round? = some timestamp → timestamp = s.pingCurrentTimestamp
  peers : ∀ (j : PeerRef) (p : Peer), s.objects[j]? = some p → p.task.stage = .inside →
    Covered t s j

theorem covering_init (id : String) (config : GameConfigDto) :
    Covering [] { id := id, config := config } where
  latest := rfl
  round ts hts := by cases hts
  peers j p hp := by simp at hp

/-- A round goes on. -/
theorem covered_append {j : PeerRef} (h : Covered t s j) (hes : rounds es = [])
    (hcur : s'.pingCurrentTimestamp = s.pingCurrentTimestamp)
    (hping : s.pinger.toPing j = true →
      s'.pinger.toPing j = true ∨ .ping j s.pingCurrentTimestamp ∈ es) :
    Covered (t ++ es) s' j := by
  rw [Covered, hcur, sinceRound_append hes]
  obtain h | ⟨isHost, h⟩ | h := h
  · exact Or.inl (List.mem_append_left es h)
  · exact Or.inr (Or.inl ⟨isHost, List.mem_append_left es h⟩)
  · obtain h | h := hping h
    · exact Or.inr (Or.inr h)
    · exact Or.inl (List.mem_append_right _ h)

theorem covered_quiet {j : PeerRef} (h : Covered t s j) (hno : s.pinger.toPing j = false)
    (hes : rounds es = []) (hcur : s'.pingCurrentTimestamp = s.pingCurrentTimestamp) :
    Covered (t ++ es) s' j := by
  refine covered_append h hes hcur ?_
  rw [hno]
  intro hj
  cases hj

theorem covered_tick {c : Nat} {now : Int} {j : PeerRef} {p : Peer} (hA : Agrees s)
    (hround : ∀ timestamp, s.pinger.round? = some timestamp → timestamp = s.pingCurrentTimestamp)
    (hp : s.objects[j]? = some p) (hin : p.task.stage = .inside) (h : Covered t s j)
    (hk : Ticks s c now s' es) : Covered (t ++ es) s' j := by
  cases hk with
  | stamp ht => exact Or.inr (Or.inr rfl)
  | lockPing timestamp ht hm =>
    refine covered_append h rfl rfl fun _ => Or.inl ?_
    exact toPing_pingLoop.mpr (mem_getAllPeers_of_inside hA hp hin)
  | ping timestamp rest i ht hc =>
    refine covered_append h rfl rfl ?_
    rw [ht, toPing_pingLoop, toPing_pingLoop]
    intro hj
    by_cases hji : j = i
    · rw [hji, hround timestamp (by rw [ht]; rfl)]
      exact Or.inr (List.mem_singleton.mpr rfl)
    · exact Or.inl ((mem_pick hc hji).mpr hj)
  | pingDone timestamp ht => exact covered_quiet h (by rw [ht]; rfl) rfl rfl
  | read ht => exact covered_quiet h (by rw [ht]; rfl) rfl rfl
  | lockCheck timestamp ht hm => exact covered_quiet h (by rw [ht]; rfl) rfl rfl
  | check timestamp rest i q ht hc hq hf => exact covered_quiet h (by rw [ht]; rfl) rfl rfl
  | drop timestamp rest i q ht hc hq hf => exact covered_quiet h (by rw [ht]; rfl) rfl rfl
  | clear timestamp rest i ht => exact covered_quiet h (by rw [ht]; rfl) rfl rfl
  | checkDone timestamp ht => exact covered_quiet h (by rw [ht]; rfl) rfl rfl

/-- What a step leaves of the peers that were inside. -/
theorem covered_step {j : PeerRef} {p : Peer} (hA : Agrees s) (h : Covering t s)
    (hp : s.objects[j]? = some p) (hin : p.task.stage = .inside)
    (hs : s.step a = some (s', es)) : Covered (t ++ es) s' j := by
  have hj := h.peers j p hp hin
  cases a with
  | tick c now =>
    cases step_cases hs with
    | tick _ _ _ _ hk => exact covered_tick hA h.round hp hin hj hk
  | _ =>
    obtain ⟨hpin, hcur, hes⟩ := step_threads hs (by simp)
    exact covered_append hj (rounds_of_threads hes) hcur fun hto => Or.inl (by rw [hpin]; exact hto)

/-- A peer gets inside by joining. -/
theorem inside_of_turns {i : PeerRef} {p q : Peer} (hp : s.objects[i]? = some p)
    (hq : Turns s a i p q) (hin : q.task.stage = .inside) (hs : s.step a = some (s', es)) :
    p.task.stage = .inside ∨ (.joined i p.isHost ∈ es ∧ rounds es = []) := by
  cases hq with
  | thread c task ht =>
    cases ht with
    | add ht =>
      obtain ⟨-, -, hes⟩ := step_threads hs (by simp)
      refine Or.inr ⟨?_, rounds_of_threads hes⟩
      rw [(step_add hp ht hs).2]
      exact List.mem_cons_self
    | done ht => exact Or.inl (inside_of_through ht)
    | clear ht => exact Or.inl (by rw [ht]; rfl)
    | remove ht => cases hin
    | greet ht => exact Or.inl (by rw [ht]; rfl)
    | send recipients payload c ht => exact Or.inl (by rw [ht]; rfl)
    | event recipients event c ht => exact Or.inl (by rw [ht]; rfl)
    | select peerIds ht => exact Or.inl (by rw [ht]; rfl)
    | kick targets c ht => exact Or.inl (by rw [ht]; rfl)
  | record c timestamp pingTime ht => exact Or.inl (by rw [ht]; rfl)
  | handle message now s₁ task es ht hr => exact Or.inl (by rw [ht]; rfl)
  | close ht => exact Or.inl (by rw [ht]; rfl)
  | check c now timestamp =>
    rw [task_countPing] at hin
    exact Or.inl hin

theorem round_tick {c : Nat} {now : Int} (hk : Ticks s c now s' es)
    (h : s.pingCurrentTimestamp = (rounds t).head?.getD (-1))
    (hround : ∀ timestamp, s.pinger.round? = some timestamp → timestamp = s.pingCurrentTimestamp) :
    s'.pingCurrentTimestamp = (rounds (t ++ es)).head?.getD (-1) ∧
      ∀ timestamp, s'.pinger.round? = some timestamp → timestamp = s'.pingCurrentTimestamp := by
  rw [rounds_append]
  cases hk with
  | stamp ht => exact ⟨rfl, fun ts hts => by cases hts; rfl⟩
  | lockPing timestamp ht hm => exact ⟨h, fun ts hts => hround ts (by rw [ht]; exact hts)⟩
  | ping timestamp rest j ht hc => exact ⟨h, fun ts hts => hround ts (by rw [ht]; exact hts)⟩
  | _ => exact ⟨h, fun ts hts => by cases hts⟩

theorem covering_step (hA : Agrees s) (h : Covering t s) (hs : s.step a = some (s', es)) :
    Covering (t ++ es) s' := by
  have hrounds : s'.pingCurrentTimestamp = (rounds (t ++ es)).head?.getD (-1) ∧
      ∀ timestamp, s'.pinger.round? = some timestamp → timestamp = s'.pingCurrentTimestamp := by
    cases a with
    | tick c now =>
      cases step_cases hs with
      | tick _ _ _ _ hk => exact round_tick hk h.latest h.round
    | _ =>
      obtain ⟨hpin, hcur, hes⟩ := step_threads hs (by simp)
      rw [rounds_append, rounds_of_threads hes, hpin, hcur]
      exact ⟨h.latest, h.round⟩
  refine ⟨hrounds.1, hrounds.2, ?_⟩
  refine forall_step (P := fun j q => q.task.stage = .inside → Covered (t ++ es) s' j) hs ?_ ?_ ?_
  · exact fun j r hr hin => covered_step hA h hr hin hs
  · intro isHost hin
    cases hin
  · intro i p q hp hq hin
    obtain hin | ⟨hjoined, hes⟩ := inside_of_turns hp hq hin hs
    · exact covered_step hA h hp hin hs
    · refine Or.inr (Or.inl ⟨p.isHost, ?_⟩)
      rw [sinceRound_append hes]
      exact List.mem_append_right _ hjoined

theorem run_covering {id : String} {config : GameConfigDto} {w : List Op}
    (hr : machine.run w [] { id := id, config := config } = some (t, s)) :
    Agrees s ∧ Covering t s := by
  refine run_invariant (I := fun t s => Agrees s ∧ Covering t s) ?_
    ⟨agrees_init id config, covering_init id config⟩ hr
  intro t s a s' es h hs
  exact ⟨(step_roster h.1 hs).1, covering_step h.1 h.2 hs⟩

section
variable {id : String} {config : GameConfigDto} {w : List Op} {i : PeerRef}
  {timestamp pingTime : Int}

/-- The sender of an accepted pong is inside, and its payload is the current timestamp. -/
theorem sender_inside (h : Covering t s) (hs : s.step a = some (s', es))
    (hpong : .pong i timestamp pingTime ∈ es) (haccepted : 0 ≤ pingTime) :
    timestamp = s.pingCurrentTimestamp ∧ Covered t s i := by
  cases step_pongs hs with
  | other a s' es hno => exact absurd hpong (hno i timestamp pingTime)
  | report j p message now ρ hp ht =>
    obtain ⟨rfl, rfl, rfl⟩ : i = j ∧ timestamp = ρ ∧ pingTime = _ := by simpa using hpong
    exact ⟨reportPeerPong_accepted haccepted, h.peers i p hp (by rw [ht]; rfl)⟩

/-- Before the first round the current timestamp is the -1 of the constructor. -/
theorem pong_before_rounds (hr : machine.run w [] { id := id, config := config } = some (t, s))
    (hnone : rounds t = []) (hs : s.step a = some (s', es))
    (hpong : .pong i timestamp pingTime ∈ es) (haccepted : 0 ≤ pingTime) : timestamp = -1 := by
  obtain ⟨-, h⟩ := run_covering hr
  rw [(sender_inside h hs hpong haccepted).1, h.latest, hnone]
  rfl

/-- Before the first round only a pong of -1 is accepted. Once there has been a round, a pong is
accepted only with the timestamp of the latest one, and from a peer that this round has pinged,
unless the peer joined after the round had begun or its ping is still to come. -/
theorem pong_accepted (hr : machine.run w [] { id := id, config := config } = some (t, s))
    (hs : s.step a = some (s', es)) (hpong : .pong i timestamp pingTime ∈ es)
    (haccepted : 0 ≤ pingTime) :
    (rounds t = [] → timestamp = -1) ∧
    (rounds t ≠ [] → (rounds t).head? = some timestamp ∧
      (.ping i timestamp ∈ sinceRound t ∨ (∃ isHost, .joined i isHost ∈ sinceRound t) ∨
        s.pinger.toPing i = true)) := by
  refine ⟨fun hnone => pong_before_rounds hr hnone hs hpong haccepted, fun hround => ?_⟩
  obtain ⟨-, h⟩ := run_covering hr
  obtain ⟨hcur, hcovered⟩ := sender_inside h hs hpong haccepted
  rw [Covered, ← hcur] at hcovered
  refine ⟨?_, hcovered⟩
  have hlatest := h.latest
  cases hrounds : rounds t with
  | nil => exact absurd hrounds hround
  | cons ρ ρs =>
    rw [hcur, hlatest, hrounds]
    rfl

end

def hostInside : List Op := [.newPeer 0, .advance 0 0, .advance 0 0]

/-- A host answers the ping of the first round. Before that round it could have had only a pong of
-1 accepted, and that one is. -/
theorem pong_accepted_answer :
    (∃ t s s' es, machine.run (hostInside ++ Room.tickAt 5) [] { id := "lobby", config := {} } =
        some (t, s) ∧
      s.step (.handle 0 (Room.pongMessage 5) 7) = some (s', es) ∧ .pong 0 5 2 ∈ es ∧
      (rounds t).head? = some 5 ∧
      (.ping 0 5 ∈ sinceRound t ∨ (∃ isHost, .joined 0 isHost ∈ sinceRound t) ∨
        s.pinger.toPing 0 = true)) ∧
    ∃ t s, machine.run hostInside [] { id := "lobby", config := {} } = some (t, s) ∧
      (∃ s' es, s.step (.handle 0 (Room.pongMessage (-1)) 7) = some (s', es) ∧
        .pong 0 (-1) 8 ∈ es) ∧
      ∀ a s' es timestamp pingTime, s.step a = some (s', es) →
        .pong 0 timestamp pingTime ∈ es → 0 ≤ pingTime → timestamp = -1 := by
  obtain ⟨t, s, s', es, hr, hround, hs, hpong⟩ : ∃ t s s' es,
      machine.run (hostInside ++ Room.tickAt 5) [] { id := "lobby", config := {} } =
        some (t, s) ∧ rounds t ≠ [] ∧
      s.step (.handle 0 (Room.pongMessage 5) 7) = some (s', es) ∧ .pong 0 5 2 ∈ es :=
    ⟨_, _, _, _, rfl, by decide, rfl, by decide⟩
  obtain ⟨t₀, s₀, hr₀, hnone, haccepted⟩ : ∃ t s,
      machine.run hostInside [] { id := "lobby", config := {} } = some (t, s) ∧ rounds t = [] ∧
      ∃ s' es, s.step (.handle 0 (Room.pongMessage (-1)) 7) = some (s', es) ∧
        .pong 0 (-1) 8 ∈ es :=
    ⟨_, _, rfl, by decide, _, _, rfl, by decide⟩
  refine ⟨⟨t, s, s', es, hr, hs, hpong, (pong_accepted hr hs hpong (by decide)).2 hround⟩, ?_⟩
  refine ⟨t₀, s₀, hr₀, haccepted, ?_⟩
  intro a s₁ es₁ timestamp pingTime hs₁ hpong₁ hpos
  exact (pong_accepted hr₀ hs₁ hpong₁ hpos).1 hnone

/-- A client that joined after the round gives its timestamp back, and so does a host to whom the
round has not come yet. Neither has been pinged, and both pongs are accepted. -/
theorem accepted_unpinged :
    (∃ t s, machine.Along Clock (joinsAfterRound ++ [.handle 1 (Room.pongMessage 5) 6]) []
        { id := "lobby", config := {} } ∧
      machine.run (joinsAfterRound ++ [.handle 1 (Room.pongMessage 5) 6]) []
        { id := "lobby", config := {} } = some (t, s) ∧ .pong 1 5 1 ∈ t ∧ .ping 1 5 ∉ t) ∧
    ∃ t s, machine.Along Clock (hostInside ++ (Room.tickAt 5).take 5 ++
        [.handle 0 (Room.pongMessage 5) 6]) [] { id := "lobby", config := {} } ∧
      machine.run (hostInside ++ (Room.tickAt 5).take 5 ++ [.handle 0 (Room.pongMessage 5) 6]) []
        { id := "lobby", config := {} } = some (t, s) ∧ .pong 0 5 1 ∈ t ∧ .ping 0 5 ∉ t :=
  ⟨⟨_, _, by decide, rfl, by decide, by decide⟩, ⟨_, _, by decide, rfl, by decide, by decide⟩⟩

end Session
end Helicopter
