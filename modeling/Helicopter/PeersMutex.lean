import Helicopter.Routing

/-! `m_peersMutex` across steps: the loop of one broadcast, or one of the loops of the pinger,
and while it lasts nobody enters or leaves `m_peers`. -/
namespace Helicopter
open Interleaving

def Task.holds : Task → Bool
  | .broadcasting _ _ => true
  | _ => false

def PingerTask.holds : PingerTask → Bool
  | .checkLoop _ _ | .dropping _ _ _ | .pingLoop _ _ => true
  | _ => false

namespace Session
variable {s s' : Session} {es : List Event}

structure Locked (s : Session) : Prop where
  free : s.peersMutex = false → s.pinger.holds = false ∧
    ∀ (i : Nat) (p : Peer), s.objects[i]? = some p → p.task.holds = false
  single : ∀ (i j : Nat) (p q : Peer), s.objects[i]? = some p → s.objects[j]? = some q →
    p.task.holds = true → q.task.holds = true → i = j
  pinger : s.pinger.holds = true → ∀ (i : Nat) (p : Peer), s.objects[i]? = some p →
    p.task.holds = false

theorem locked_init (id : String) (config : GameConfigDto) :
    Locked { id := id, config := config } :=
  ⟨fun _ => ⟨rfl, fun i p hp => by simp at hp⟩, fun i j p q hp => by simp at hp,
    fun h => by cases h⟩

/-- A step in which nobody takes or releases the mutex. -/
theorem locked_quiet (h : Locked s) (hm : s'.peersMutex = s.peersMutex)
    (hp : s'.pinger.holds = s.pinger.holds)
    (ho : ∀ (i : Nat) (p : Peer), s'.objects[i]? = some p → p.task.holds = true →
      ∃ q, s.objects[i]? = some q ∧ q.task.holds = true) : Locked s' := by
  constructor
  · intro hf
    rw [hm] at hf
    obtain ⟨hpg, hob⟩ := h.free hf
    refine ⟨by rw [hp, hpg], ?_⟩
    intro i p hi
    by_contra hh
    obtain ⟨q, hq, hqh⟩ := ho i p hi (by simpa using hh)
    rw [hob i q hq] at hqh
    cases hqh
  · intro i j p q hi hj hph hqh
    obtain ⟨p', hp', hph'⟩ := ho i p hi hph
    obtain ⟨q', hq', hqh'⟩ := ho j q hj hqh
    exact h.single i j p' q' hp' hq' hph' hqh'
  · intro hpg i p hi
    rw [hp] at hpg
    by_contra hh
    obtain ⟨q, hq, hqh⟩ := ho i p hi (by simpa using hh)
    rw [h.pinger hpg i q hq] at hqh
    cases hqh

/-- The peer `i` moves, and holds the mutex after only if it did before. -/
theorem locked_setPeer {i : Nat} {p q : Peer} (h : Locked s) (hi : s.objects[i]? = some p)
    (hq : q.task.holds = true → p.task.holds = true) (ho : s'.objects = (s.setPeer i q).objects)
    (hm : s'.peersMutex = s.peersMutex) (hp : s'.pinger.holds = s.pinger.holds) : Locked s' := by
  refine locked_quiet h hm hp ?_
  rw [ho]
  refine forall_setPeer (P := fun i p => p.task.holds = true → _) hi ?_ ?_
  · intro j r hr hh
    exact ⟨r, hr, hh⟩
  · intro hh
    exact ⟨p, hi, hq hh⟩

theorem locked_none (hp : s.pinger.holds = false)
    (ho : ∀ (i : Nat) (p : Peer), s.objects[i]? = some p → p.task.holds = false) : Locked s := by
  refine ⟨fun _ => ⟨hp, ho⟩, ?_, fun _ => ho⟩
  intro i j p q hi hj hh
  rw [ho i p hi] at hh
  cases hh

theorem locked_peer {i : PeerRef} (hm : s.peersMutex = true) (hp : s.pinger.holds = false)
    (ho : ∀ (j : Nat) (p : Peer), s.objects[j]? = some p → p.task.holds = true → j = i) :
    Locked s := by
  refine ⟨fun hf => ?_, ?_, fun hf => ?_⟩
  · rw [hm] at hf
    cases hf
  · intro j k p q hj hk hph hqh
    rw [ho j p hj hph, ho k q hk hqh]
  · rw [hp] at hf
    cases hf

theorem locked_pinger (hm : s.peersMutex = true)
    (ho : ∀ (i : Nat) (p : Peer), s.objects[i]? = some p → p.task.holds = false) : Locked s := by
  refine ⟨fun hf => ?_, ?_, fun _ => ho⟩
  · rw [hm] at hf
    cases hf
  · intro i j p q hi hj hh
    rw [ho i p hi] at hh
    cases hh

/-- Only the handler of a synchronized event keeps the mutex. -/
theorem reacts_holds {i : PeerRef} {peerId now : Int} {message : MessageDto} {task : Task}
    (h : Reacts s i peerId message now s' task es) :
    (task.holds = false ∧ s'.peersMutex = s.peersMutex) ∨
      (s.peersMutex = false ∧ s'.peersMutex = true) := by
  cases h with
  | pong timestamp =>
    obtain ⟨time, id, since, he⟩ := reportPeerPong_fst s peerId timestamp now
    rw [he]
    exact Or.inl ⟨rfl, rfl⟩
  | event hc hm => exact Or.inr ⟨hm, rfl⟩
  | _ => exact Or.inl ⟨rfl, rfl⟩

/-- The broadcast loop of the peer `i` is through. -/
theorem locked_release {i : PeerRef} {p q : Peer} (h : Locked s) (hp : s.objects[i]? = some p)
    (hh : p.task.holds = true) (hq : q.task.holds = false)
    (ho : s'.objects = (s.setPeer i q).objects) (hpin : s'.pinger = s.pinger) : Locked s' := by
  have hpg : s.pinger.holds = false := by
    by_contra hf
    rw [h.pinger (by simpa using hf) i p hp] at hh
    cases hh
  refine locked_none (by rw [hpin, hpg]) ?_
  rw [ho]
  intro j r hr
  rw [objects_setPeer hp] at hr
  split at hr
  · cases hr
    exact hq
  · next hj =>
    by_contra hrh
    exact hj (h.single j i r p hr hp (by simpa using hrh) hh)

theorem locked_advance {i : PeerRef} {p : Peer} (h : Locked s) (hp : s.objects[i]? = some p)
    (ha : Advances s i p s' es) : Locked s' := by
  have hno : ∀ {task : Task}, Task.holds .listening = true → task.holds = true :=
    fun hf => by cases hf
  cases ha with
  | add ht hm =>
    rw [addPeer_fst]
    exact locked_setPeer (q := { p with task := .greeting }) h hp (fun hf => by cases hf)
      rfl rfl rfl
  | remove ht hm =>
    rw [removePeerById_fst]
    exact locked_setPeer (q := { p with task := .removed }) h hp (fun hf => by cases hf)
      rfl rfl rfl
  | record timestamp pingTime ht => exact locked_setPeer h hp hno rfl rfl rfl
  | done ht => exact locked_setPeer h hp hno rfl rfl rfl
  | greet ht => exact locked_setPeer h hp hno rfl rfl rfl
  | send recipients payload c j ht hj =>
    exact locked_setPeer h hp (fun hf => by cases hf) rfl rfl rfl
  | event recipients event c j ht hj =>
    exact locked_setPeer h hp (fun _ => by rw [ht]; rfl) rfl rfl rfl
  | eventDone event ht =>
    exact locked_release (q := { p with task := .listening }) h hp (by rw [ht]; rfl) rfl rfl rfl
  | select peerIds ht hm => exact locked_setPeer h hp (fun hf => by cases hf) rfl rfl rfl
  | kick targets c j ht hj => exact locked_setPeer h hp (fun hf => by cases hf) rfl rfl rfl
  | clear ht => exact locked_setPeer h hp (fun hf => by cases hf) rfl rfl rfl

theorem locked_handle {i : PeerRef} {p : Peer} {message : MessageDto} {now : Int} {task : Task}
    (h : Locked s) (hp : s.objects[i]? = some p)
    (hre : Reacts s i p.peerId message now s' task es) : Locked (s'.setTask i p task) := by
  have hpg := reacts_pinger hre
  have hob : (s'.setTask i p task).objects = (s.setTask i p task).objects := by
    simp only [setTask, setPeer, (reacts_frame hre).1]
  obtain ⟨hth, hm⟩ | ⟨hm, hm'⟩ := reacts_holds hre
  · exact locked_setPeer (q := { p with task := task }) h hp
      (fun hf => by rw [hth] at hf; cases hf) hob hm (congrArg PingerTask.holds hpg)
  · -- the mutex was free, and the broadcast loop of the peer has it now
    obtain ⟨hfp, hfo⟩ := h.free hm
    refine locked_peer (i := i) hm' ((congrArg PingerTask.holds hpg).trans hfp) ?_
    rw [hob]
    refine forall_setPeer (P := fun j p => p.task.holds = true → j = i) hp ?_ fun _ => rfl
    intro j q hq hh
    rw [hfo j q hq] at hh
    cases hh

theorem locked_tick {c : Nat} {now : Int} (h : Locked s) (hk : Ticks s c now s' es) :
    Locked s' := by
  cases hk with
  | read ht => exact locked_quiet h rfl (by rw [ht]; rfl) fun i p hp hh => ⟨p, hp, hh⟩
  | lockCheck timestamp ht hm => exact locked_pinger rfl (h.free hm).2
  | check timestamp rest j p ht hc hp hf =>
    exact locked_setPeer h hp (fun hh => by rwa [task_countPing] at hh) rfl rfl (by rw [ht]; rfl)
  | drop timestamp rest j p ht hc hp hf =>
    exact locked_setPeer h hp (fun hh => by rwa [task_countPing] at hh) rfl rfl (by rw [ht]; rfl)
  | clear timestamp rest j ht =>
    exact locked_quiet h rfl (by rw [ht]; rfl) fun i p hp hh => ⟨p, hp, hh⟩
  | checkDone timestamp ht => exact locked_none rfl (h.pinger (by rw [ht]; rfl))
  | stamp ht => exact locked_quiet h rfl (by rw [ht]; rfl) fun i p hp hh => ⟨p, hp, hh⟩
  | lockPing timestamp ht hm => exact locked_pinger rfl (h.free hm).2
  | ping timestamp rest j ht hc =>
    exact locked_quiet h rfl (by rw [ht]; rfl) fun i p hp hh => ⟨p, hp, hh⟩
  | pingDone timestamp ht => exact locked_none rfl (h.pinger (by rw [ht]; rfl))

theorem step_locked {a : Op} (h : Locked s) (hs : s.step a = some (s', es)) : Locked s' := by
  cases step_cases hs with
  | findSession => exact locked_quiet h rfl rfl fun i p hp hh => ⟨p, hp, hh⟩
  | newPeer k isHost hk =>
    refine locked_quiet h rfl rfl ?_
    intro i p hp hh
    rw [getElem?_snoc] at hp
    split at hp
    · cases hp
      cases hh
    · exact ⟨p, hp, hh⟩
  | advance i p c s' es hp ha => exact locked_advance h hp ha
  | handle i p message now s₁ task es hp ht hre => exact locked_handle h hp hre
  | close i p hp ht => exact locked_setPeer h hp (fun hf => by cases hf) rfl rfl rfl
  | tick c now s' es hk => exact locked_tick h hk

/-! ## A held mutex has a holder -/

def Owned (s : Session) : Prop :=
  s.peersMutex = true → s.pinger.holds = true ∨
    ∃ (i : Nat) (p : Peer), s.objects[i]? = some p ∧ p.task.holds = true

theorem owned_free (hm : s.peersMutex = false) : Owned s := by
  intro hf
  rw [hm] at hf
  cases hf

theorem owned_pinger (hp : s.pinger.holds = true) : Owned s := fun _ => Or.inl hp

/-- A step in which no holder lets go. -/
theorem owned_quiet (h : Owned s) (hm : s'.peersMutex = s.peersMutex)
    (hp : s.pinger.holds = true → s'.pinger.holds = true)
    (ho : ∀ (i : Nat) (p : Peer), s.objects[i]? = some p → p.task.holds = true →
      ∃ q, s'.objects[i]? = some q ∧ q.task.holds = true) : Owned s' := by
  intro hf
  rw [hm] at hf
  obtain hpg | ⟨i, p, hi, hh⟩ := h hf
  · exact Or.inl (hp hpg)
  · obtain ⟨q, hq, hqh⟩ := ho i p hi hh
    exact Or.inr ⟨i, q, hq, hqh⟩

theorem owned_setPeer {i : Nat} {p q : Peer} (h : Owned s) (hi : s.objects[i]? = some p)
    (hq : p.task.holds = true → q.task.holds = true) (ho : s'.objects = (s.setPeer i q).objects)
    (hm : s'.peersMutex = s.peersMutex) (hp : s.pinger.holds = true → s'.pinger.holds = true) :
    Owned s' := by
  refine owned_quiet h hm hp ?_
  intro j r hj hh
  rw [ho, objects_setPeer hi]
  split
  · next hji =>
    rw [hji, hi] at hj
    cases hj
    exact ⟨q, rfl, hq hh⟩
  · exact ⟨r, hj, hh⟩

theorem owned_advance {i : PeerRef} {p : Peer} (h : Owned s) (hp : s.objects[i]? = some p)
    (ha : Advances s i p s' es) : Owned s' := by
  -- before these sections the thread does not hold the mutex
  have hno : ∀ {task : Task} {b : Bool}, p.task = task → task.holds = false →
      (p.task.holds = true → b = true) := by
    intro task b ht hf hh
    rw [ht, hf] at hh
    cases hh
  cases ha with
  | add ht hm =>
    rw [addPeer_fst]
    exact owned_setPeer (q := { p with task := .greeting }) h hp (hno ht rfl) rfl rfl fun hh => hh
  | remove ht hm =>
    rw [removePeerById_fst]
    exact owned_setPeer (q := { p with task := .removed }) h hp (hno ht rfl) rfl rfl fun hh => hh
  | record timestamp pingTime ht => exact owned_setPeer h hp (hno ht rfl) rfl rfl fun hh => hh
  | done ht =>
    obtain ⟨payload, ht⟩ | ht := ht
    · exact owned_setPeer h hp (hno ht rfl) rfl rfl fun hh => hh
    · exact owned_setPeer h hp (hno ht rfl) rfl rfl fun hh => hh
  | greet ht => exact owned_setPeer h hp (hno ht rfl) rfl rfl fun hh => hh
  | send recipients payload c j ht hj => exact owned_setPeer h hp (hno ht rfl) rfl rfl fun hh => hh
  | event recipients event c j ht hj => exact owned_setPeer h hp (fun _ => rfl) rfl rfl fun hh => hh
  | eventDone event ht => exact owned_free rfl
  | select peerIds ht hm => exact owned_setPeer h hp (hno ht rfl) rfl rfl fun hh => hh
  | kick targets c j ht hj => exact owned_setPeer h hp (hno ht rfl) rfl rfl fun hh => hh
  | clear ht => exact owned_setPeer h hp (hno ht rfl) rfl rfl fun hh => hh

theorem owned_handle {i : PeerRef} {p : Peer} {message : MessageDto} {now : Int} {task : Task}
    (h : Owned s) (hp : s.objects[i]? = some p) (ht : p.task = .listening)
    (hre : Reacts s i p.peerId message now s' task es) : Owned (s'.setTask i p task) := by
  have hno : ∀ {b : Bool}, p.task.holds = true → b = true := by
    intro b hh
    rw [ht] at hh
    cases hh
  have hpg := reacts_pinger hre
  have hob : (s'.setTask i p task).objects = (s.setTask i p task).objects := by
    simp only [setTask, setPeer, (reacts_frame hre).1]
  cases hre with
  | pong timestamp =>
    obtain ⟨time, id, since, he⟩ := reportPeerPong_fst s p.peerId timestamp now
    rw [he]
    exact owned_setPeer h hp hno rfl rfl fun hh => hh
  | event hc hm =>
    refine fun _ => Or.inr ⟨i, ?_⟩
    rw [hob, setTask, objects_setPeer hp, if_pos rfl]
    exact ⟨_, rfl, rfl⟩
  | _ => exact owned_setPeer h hp hno rfl rfl fun hh => hh

theorem owned_tick {c : Nat} {now : Int} (h : Owned s) (hk : Ticks s c now s' es) :
    Owned s' := by
  cases hk with
  | read ht =>
    exact owned_quiet h rfl (fun hf => by rw [ht] at hf; cases hf) fun i p hp hh => ⟨p, hp, hh⟩
  | stamp ht =>
    exact owned_quiet h rfl (fun hf => by rw [ht] at hf; cases hf) fun i p hp hh => ⟨p, hp, hh⟩
  | checkDone timestamp ht => exact owned_free rfl
  | pingDone timestamp ht => exact owned_free rfl
  | _ => exact owned_pinger rfl

theorem step_owned {a : Op} (h : Owned s) (hs : s.step a = some (s', es)) : Owned s' := by
  cases step_cases hs with
  | findSession => exact owned_quiet h rfl (fun hh => hh) fun i p hp hh => ⟨p, hp, hh⟩
  | newPeer k isHost hk =>
    refine owned_quiet h rfl (fun hh => hh) ?_
    intro i p hp hh
    have hlt := (List.getElem?_eq_some_iff.mp hp).1
    exact ⟨p, (List.getElem?_append_left hlt).trans hp, hh⟩
  | advance i p c s' es hp ha => exact owned_advance h hp ha
  | handle i p message now s₁ task es hp ht hre => exact owned_handle h hp ht hre
  | close i p hp ht =>
    refine owned_setPeer h hp ?_ rfl rfl fun hh => hh
    intro hh
    rw [ht] at hh
    cases hh
  | tick c now s' es hk => exact owned_tick h hk

theorem run_locked {sessionId : String} {config : GameConfigDto} {w : List Op} {t : List Event}
    (hr : machine.run w [] { id := sessionId, config := config } = some (t, s)) :
    Locked s ∧ Owned s := by
  refine run_invariant (I := fun _ s => Locked s ∧ Owned s) ?_
    ⟨locked_init sessionId config, owned_free rfl⟩ hr
  intro t s a s' es h hs
  exact ⟨step_locked h.1 hs, step_owned h.2 hs⟩

end Session
end Helicopter
