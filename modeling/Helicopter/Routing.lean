import Helicopter.Threads

/-! Whom the loops of the handlers and of the pinger can reach: peers that have been in
`m_peers`, even if they have left since. -/
namespace Helicopter
open Interleaving

def Task.targets : Task → List PeerRef
  | .sending recipients _ => recipients
  | .broadcasting recipients _ => recipients
  | .kicking targets => targets
  | _ => []

def PingerTask.targets : PingerTask → List PeerRef
  | .checkLoop _ rest => rest
  | .dropping _ rest j => j :: rest
  | .pingLoop _ rest => rest
  | _ => []

namespace Session
variable {s s' : Session} {es : List Event}

structure Routed (s : Session) : Prop where
  tasks : ∀ (i : Nat) (p : Peer), s.objects[i]? = some p → ∀ j ∈ p.task.targets, s.Arrived j
  pinger : ∀ j ∈ s.pinger.targets, s.Arrived j

theorem routed_init (id : String) (config : GameConfigDto) :
    Routed { id := id, config := config } :=
  ⟨fun i p hp => by simp at hp, fun j hj => by simp [PingerTask.targets] at hj⟩

theorem arrived_iff {j : PeerRef} :
    s.Arrived j ↔ ∃ m, s.roster.members[j]? = some m ∧ m.stage ≠ .coming := by
  unfold Arrived
  rw [getElem?_roster]
  constructor
  · rintro ⟨p, hp, hst⟩
    exact ⟨p.member, by rw [hp]; rfl, hst⟩
  · rintro ⟨m, hm, hst⟩
    obtain ⟨p, hp, rfl⟩ := Option.map_eq_some_iff.mp hm
    exact ⟨p, hp, hst⟩

theorem arrived_of_find {k : Int} {j : PeerRef} (h : Agrees s) (hf : s.peers.find k = some j) :
    s.Arrived j := by
  obtain ⟨m, hm, -, hin⟩ := (h.peers k j).mp hf
  exact arrived_iff.mpr ⟨m, hm, by rw [hin]; decide⟩

theorem arrived_of_mem_getAllPeers {j : PeerRef} (h : Agrees s) (hj : j ∈ s.getAllPeers) :
    s.Arrived j := by
  obtain ⟨k, hk⟩ := UnorderedMap.mem_values.mp hj
  exact arrived_of_find h hk

theorem arrived_of_mem_getPeers {j : PeerRef} {ids : List (Option Int)} (h : Agrees s)
    (hj : j ∈ s.getPeers ids) : s.Arrived j := by
  obtain ⟨id, -, hid⟩ := List.mem_filterMap.mp hj
  obtain ⟨k, -, hk⟩ := Option.bind_eq_some_iff.mp hid
  exact arrived_of_find h hk

theorem nodup_getAllPeers (h : Agrees s) : s.getAllPeers.Nodup := by
  refine UnorderedMap.nodup_values ?_
  intro k k' j hk hk'
  obtain ⟨m, hm, hid, -⟩ := (h.peers k j).mp hk
  obtain ⟨m', hm', hid', -⟩ := (h.peers k' j).mp hk'
  rw [hm] at hm'
  cases hm'
  rw [← hid, hid']

theorem mem_of_mem_others {j : PeerRef} {peerId : Int} {peers : List PeerRef}
    (hj : j ∈ s.others peerId peers) : j ∈ peers ∧ s.peerId? j ≠ some peerId := by
  obtain ⟨hm, hne⟩ := List.mem_filter.mp hj
  exact ⟨hm, by simpa using hne⟩

theorem arrived_of_host {j : PeerRef} (h : Agrees s) (hj : s.host = some j) : s.Arrived j := by
  rw [h.host, Roster.hostOf_eq_some h.wf] at hj
  obtain ⟨m, hm, -, hin⟩ := hj
  exact arrived_iff.mpr ⟨m, hm, by rw [hin]; decide⟩

/-- Peers stay, with their id and role, and move on. -/
theorem step_later {a : Op} {j : PeerRef} {p : Peer} (h : Agrees s)
    (hs : s.step a = some (s', es)) (hp : s.objects[j]? = some p) :
    ∃ p', s'.objects[j]? = some p' ∧ Roster.Later p.member p'.member := by
  have hm : s.roster.members[j]? = some p.member := by rw [getElem?_roster, hp]; rfl
  obtain ⟨m', hm', hl⟩ := Roster.later_run (step_roster h hs).2 hm
  rw [getElem?_roster] at hm'
  obtain ⟨p', hp', rfl⟩ := Option.map_eq_some_iff.mp hm'
  exact ⟨p', hp', hl⟩

theorem arrived_step {a : Op} {j : PeerRef} (h : Agrees s) (hs : s.step a = some (s', es))
    (hj : s.Arrived j) : s'.Arrived j := by
  obtain ⟨p, hp, hst⟩ := hj
  obtain ⟨p', hp', hl⟩ := step_later h hs hp
  exact ⟨p', hp', hl.entered hst⟩

/-- The first section of a handler takes its recipients from the map or from `m_host`. -/
theorem reacts_targets {i j : PeerRef} {peerId now : Int} {message : MessageDto} {task : Task}
    (h : Agrees s) (hr : Reacts s i peerId message now s' task es) (hj : j ∈ task.targets) :
    s.Arrived j := by
  cases hr with
  | error e => cases hj
  | pong timestamp => cases hj
  | broadcast hc hm => exact arrived_of_mem_getAllPeers h (mem_of_mem_others hj).1
  | direct dm ids hc hd hids hm => exact arrived_of_mem_getPeers h (mem_of_mem_others hj).1
  | event hc hm => exact arrived_of_mem_getAllPeers h hj
  | select k ids hc hk hid hids hm => cases hj
  | toHost k hc hk hid hm =>
    simp only [Task.targets, List.mem_singleton] at hj
    subst hj
    exact arrived_of_host h hk

theorem arrived_eraseIdx {l : List PeerRef} {c : Nat} (h : ∀ j ∈ l, s.Arrived j) :
    ∀ j ∈ l.eraseIdx c, s.Arrived j :=
  fun j hj => h j (List.mem_of_mem_eraseIdx hj)

theorem turns_targets {a : Op} {i : PeerRef} {p q : Peer} (h : Agrees s) (ht : Turns s a i p q)
    (hp : ∀ j ∈ p.task.targets, s.Arrived j) : ∀ j ∈ q.task.targets, s.Arrived j := by
  have hnil : ∀ j ∈ ([] : List PeerRef), s.Arrived j := fun j hj => by cases hj
  cases ht with
  | thread c task hn =>
    cases hn with
    | send recipients payload c ht =>
      rw [ht] at hp
      exact arrived_eraseIdx hp
    | event recipients event c ht =>
      rw [ht] at hp
      exact arrived_eraseIdx hp
    | kick targets c ht =>
      rw [ht] at hp
      exact arrived_eraseIdx hp
    | select peerIds ht => exact fun j hj => arrived_of_mem_getPeers h (mem_of_mem_others hj).1
    | _ => exact hnil
  | record c timestamp pingTime ht => exact hnil
  | handle message now s₁ task es ht hre => exact fun j hj => reacts_targets h hre hj
  | close ht => exact hnil
  | check c now timestamp =>
    rw [task_countPing]
    exact hp

theorem ticks_targets {c : Nat} {now : Int} (h : Agrees s)
    (hp : ∀ j ∈ s.pinger.targets, s.Arrived j) (hk : Ticks s c now s' es) :
    ∀ j ∈ s'.pinger.targets, s.Arrived j := by
  have hnil : ∀ j ∈ ([] : List PeerRef), s.Arrived j := fun j hj => by cases hj
  cases hk with
  | lockCheck timestamp ht hm => exact fun j hj => arrived_of_mem_getAllPeers h hj
  | check timestamp rest j p ht hc ho hf =>
    rw [ht] at hp
    exact arrived_eraseIdx hp
  | drop timestamp rest j p ht hc ho hf =>
    rw [ht] at hp
    intro k hk
    cases List.mem_cons.mp hk with
    | inl hk =>
      rw [hk]
      exact hp j (List.mem_of_getElem? hc)
    | inr hk => exact arrived_eraseIdx hp k hk
  | clear timestamp rest j ht =>
    rw [ht] at hp
    exact fun k hk => hp k (List.mem_cons_of_mem j hk)
  | lockPing timestamp ht hm => exact fun j hj => arrived_of_mem_getAllPeers h hj
  | ping timestamp rest j ht hc =>
    rw [ht] at hp
    exact arrived_eraseIdx hp
  | _ => exact hnil

/-- A step keeps the loops among arrived peers. -/
theorem step_routed {a : Op} (h : Agrees s) (hr : Routed s) (hs : s.step a = some (s', es)) :
    Routed s' := by
  have hmono : ∀ j, s.Arrived j → s'.Arrived j := fun j => arrived_step h hs
  have htasks := forall_step (P := fun _ p => ∀ j ∈ p.task.targets, s'.Arrived j) hs
    (fun i p hp j hj => hmono j (hr.tasks i p hp j hj)) (fun isHost j hj => by cases hj)
    (fun i p q hp ht j hj => hmono j (turns_targets h ht (hr.tasks i p hp) j hj))
  refine ⟨htasks, fun j hj => hmono j ?_⟩
  cases a with
  | tick c now =>
    cases step_cases hs with
    | tick _ _ _ _ hk => exact ticks_targets h hr.pinger hk j hj
  | _ =>
    rw [(step_threads hs (by simp)).1] at hj
    exact hr.pinger j hj

@[simp] theorem offersTo_append (j : PeerRef) (t u : List Event) :
    offersTo j (t ++ u) = offersTo j t ++ offersTo j u := List.filterMap_append ..

theorem mem_offersTo {j : PeerRef} {m : MessageDto} {t : List Event} :
    m ∈ offersTo j t ↔ .offer j m ∈ t := by
  unfold offersTo
  rw [List.mem_filterMap]
  constructor
  · rintro ⟨e, he, hem⟩
    cases e with
    | offer k m' =>
      simp only [Event.offerTo?] at hem
      split at hem
      · next hk =>
        cases hem
        rw [← hk]
        exact he
      · cases hem
    | _ => cases hem
  · intro h
    exact ⟨_, h, by simp [Event.offerTo?]⟩

/-- Messages are offered only to peers that are or have been in `m_peers`. -/
theorem step_offer {a : Op} {j : PeerRef} {m : MessageDto} (h : Agrees s) (hr : Routed s)
    (hs : s.step a = some (s', es)) (hj : .offer j m ∈ es) : s.Arrived j := by
  cases step_cases hs with
  | findSession => cases hj
  | newPeer k isHost hk => simp at hj
  | advance i p c s' es hp ha =>
    have htask := hr.tasks i p hp
    have hself : ∀ task, p.task = task → task.stage ≠ .coming → s.Arrived i := by
      intro task ht hst
      exact ⟨p, hp, by rw [ht]; exact hst⟩
    cases ha with
    | add ht hm =>
      rw [addPeer_snd] at hj
      split at hj
      · simp at hj
      · obtain ⟨k, hk, he⟩ := mem_tellHost.mp (by simpa using hj)
        simp only [Event.offer.injEq] at he
        rw [he.1]
        exact arrived_of_host h hk
    | remove ht hm =>
      obtain ⟨-, k, hk, he⟩ := mem_removePeerById.mp (by simpa using hj)
      simp only [Event.offer.injEq] at he
      rw [he.1]
      exact arrived_of_host h hk
    | greet ht =>
      simp only [List.mem_singleton, Event.offer.injEq] at hj
      rw [hj.1]
      exact hself .greeting ht (by decide)
    | send recipients payload c k ht hk =>
      simp only [List.mem_singleton, Event.offer.injEq] at hj
      rw [ht] at htask
      rw [hj.1]
      exact htask k (List.mem_of_getElem? hk)
    | event recipients event c k ht hk =>
      simp only [List.mem_singleton, Event.offer.injEq] at hj
      rw [ht] at htask
      rw [hj.1]
      exact htask k (List.mem_of_getElem? hk)
    | _ => simp at hj
  | handle i p message now s₁ task es hp ht hre =>
    cases hre <;> simp at hj
  | close i p hp ht => simp at hj
  | tick c now s' es hk => cases hk <;> simp at hj

theorem run_offer {id : String} {config : GameConfigDto} {w : List Op} {t : List Event}
    (hr : machine.run w [] { id := id, config := config } = some (t, s)) {j : PeerRef}
    {m : MessageDto} (hj : .offer j m ∈ t) : s.Arrived j := by
  have hI : (Agrees s ∧ Routed s) ∧ ∀ j m, .offer j m ∈ t → s.Arrived j := by
    refine run_invariant
      (I := fun t s => (Agrees s ∧ Routed s) ∧ ∀ j m, .offer j m ∈ t → s.Arrived j) ?_
      ⟨⟨agrees_init id config, routed_init id config⟩, fun j m hm => by cases hm⟩ hr
    intro t s a s' es h hs
    obtain ⟨⟨hA, hR⟩, ho⟩ := h
    refine ⟨⟨(step_roster hA hs).1, step_routed hA hR hs⟩, ?_⟩
    intro j m hm
    obtain hm | hm := List.mem_append.mp hm
    · exact arrived_step hA hs (ho j m hm)
    · exact arrived_step hA hs (step_offer hA hR hs hm)
  exact hI.2 j m hj

theorem run_sound {id : String} {config : GameConfigDto} {w : List Op} {t : List Event}
    (hr : machine.run w [] { id := id, config := config } = some (t, s)) :
    Agrees s ∧ Routed s := by
  refine run_invariant (I := fun _ s => Agrees s ∧ Routed s) ?_
    ⟨agrees_init id config, routed_init id config⟩ hr
  intro t s a s' es h hs
  exact ⟨(step_roster h.1 hs).1, step_routed h.1 h.2 hs⟩

end Session
end Helicopter
