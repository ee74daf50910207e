import Helicopter.EachSession
import Helicopter.Rest

/-! Where the connections are. None is lost and none is counted twice, on its way through the
registry into a session and out of it again. -/
namespace Helicopter
open Interleaving

namespace Session
variable {s s' : Session} {t es : List Event} {i : PeerRef} {p : Peer}

def numberAt (s : Session) (stage : Stage) : Nat :=
  total (fun p : Peer => if p.task.stage = stage then 1 else 0) s.objects

def Event.isLeft : Event → Bool
  | .left _ _ => true
  | _ => false

def goneIn (t : List Event) : Nat := t.countP Event.isLeft

structure Placed (t : List Event) (s : Session) : Prop where
  agrees : Agrees s
  members : s.peers.size = s.numberAt .inside
  gone : goneIn t = s.numberAt .gone

theorem length_objects (s : Session) :
    s.objects.length = s.numberAt .coming + s.numberAt .inside + s.numberAt .gone := by
  unfold numberAt
  induction s.objects with
  | nil => rfl
  | cons p ps ih =>
    simp only [List.length_cons, total_cons]
    cases p.task.stage <;> simp <;> omega

theorem numberAt_setPeer (hp : s.objects[i]? = some p) (q : Peer) (stage : Stage) :
    (s.setPeer i q).numberAt stage + (if p.task.stage = stage then 1 else 0) =
      s.numberAt stage + if q.task.stage = stage then 1 else 0 :=
  total_set hp

theorem numberAt_same {q : Peer} (hp : s.objects[i]? = some p)
    (hq : q.task.stage = p.task.stage) (stage : Stage) :
    (s.setPeer i q).numberAt stage = s.numberAt stage := by
  have hset := numberAt_setPeer hp q stage
  rw [hq] at hset
  omega

theorem placed_same (h : Placed t s) (hA : Agrees s')
    (hsame : ∀ stage, stage ≠ .coming → s'.numberAt stage = s.numberAt stage)
    (hpeers : s'.peers = s.peers) (hes : goneIn es = 0) : Placed (t ++ es) s' := by
  refine ⟨hA, ?_, ?_⟩
  · rw [hpeers, hsame .inside (by simp), h.members]
  · rw [goneIn, List.countP_append, hsame .gone (by simp), ← h.gone]
    exact congrArg (goneIn t + ·) hes

/-- A thread goes on and stays where it is. -/
theorem placed_stays {q : Peer} (h : Placed t s) (hA : Agrees s') (hp : s.objects[i]? = some p)
    (hq : q.task.stage = p.task.stage) (ho : s'.objects = (s.setPeer i q).objects)
    (hpeers : s'.peers = s.peers) (hes : goneIn es = 0) : Placed (t ++ es) s' := by
  refine placed_same h hA (fun stage _ => ?_) hpeers hes
  rw [← numberAt_same hp hq stage, numberAt, ho]
  rfl

theorem goneIn_tellHost (s : Session) (notice : Notice) : goneIn (s.tellHost notice) = 0 := by
  unfold tellHost
  cases s.host <;> rfl

theorem goneIn_addPeer (s : Session) (peerId : Int) (isHost : Bool) :
    goneIn (.joined i isHost :: (s.addPeer i peerId isHost).2) = 0 := by
  cases isHost with
  | true => rfl
  | false => exact goneIn_tellHost _ _

theorem goneIn_removePeerById (s : Session) (i : PeerRef) (peerId : Int) :
    goneIn (.left i (s.removePeerById peerId).2.1 :: (s.removePeerById peerId).2.2) = 1 := by
  rw [goneIn, List.countP_cons_of_pos rfl, ← goneIn]
  exact congrArg (· + 1) (goneIn_tellHost _ _)

theorem goneIn_quiet (h : es.filterMap Event.roster? = []) : goneIn es = 0 := by
  rw [goneIn, List.countP_eq_zero]
  intro e he hleft
  have hnone := List.filterMap_eq_nil_iff.mp h e he
  cases e with
  | left j isEmpty => cases hnone
  | _ => cases hleft

/-- The locked section of `addPeer`. -/
theorem placed_add (h : Placed t s) (hp : s.objects[i]? = some p) (ht : p.task = .adding)
    (hA : Agrees ((s.addPeer i p.peerId p.isHost).1.setTask i p .greeting)) :
    Placed (t ++ .joined i p.isHost :: (s.addPeer i p.peerId p.isHost).2)
      ((s.addPeer i p.peerId p.isHost).1.setTask i p .greeting) := by
  have hfresh : s.peers.find p.peerId = none :=
    peers_find_coming h.agrees (member_of_object hp) (by simp [Peer.member, ht, Task.stage])
  have hnumber := fun stage => numberAt_setPeer hp { p with task := .greeting } stage
  simp only [ht, Task.stage] at hnumber
  have hinside := hnumber .inside
  have hgone := hnumber .gone
  simp only [reduceCtorEq, if_true, if_false] at hinside hgone
  have hnow : ∀ stage, ((s.addPeer i p.peerId p.isHost).1.setTask i p .greeting).numberAt stage =
      (s.setPeer i { p with task := .greeting }).numberAt stage := by
    intro stage
    rw [addPeer_fst]
    rfl
  refine ⟨hA, ?_, ?_⟩
  · rw [hnow, addPeer_fst]
    exact (UnorderedMap.size_insertNew i hfresh).trans (by rw [h.members]; omega)
  · rw [goneIn, List.countP_append, hnow, ← goneIn, ← goneIn, goneIn_addPeer, h.gone]
    omega

theorem placed_remove (h : Placed t s) (hp : s.objects[i]? = some p) (ht : p.task = .removing)
    (hA : Agrees ((s.removePeerById p.peerId).1.setTask i p .removed)) :
    Placed (t ++ .left i (s.removePeerById p.peerId).2.1 :: (s.removePeerById p.peerId).2.2)
      ((s.removePeerById p.peerId).1.setTask i p .removed) := by
  have hentry : s.peers.find p.peerId = some i :=
    find_inside h.agrees hp (by rw [ht]; rfl)
  have hnumber := fun stage => numberAt_setPeer hp { p with task := .removed } stage
  simp only [ht, Task.stage] at hnumber
  have hinside := hnumber .inside
  have hgone := hnumber .gone
  simp only [reduceCtorEq, if_true, if_false] at hinside hgone
  have hnow : ∀ stage, ((s.removePeerById p.peerId).1.setTask i p .removed).numberAt stage =
      (s.setPeer i { p with task := .removed }).numberAt stage := by
    intro stage
    rw [removePeerById_fst]
    rfl
  refine ⟨hA, ?_, ?_⟩
  · have hsize := UnorderedMap.size_eraseKey hentry
    have hpeers : ((s.removePeerById p.peerId).1.setTask i p .removed).peers =
        s.peers.eraseKey p.peerId := by
      rw [removePeerById_fst]
      rfl
    have hmembers := h.members
    rw [hnow, hpeers]
    omega
  · rw [goneIn, List.countP_append, hnow, ← goneIn, ← goneIn, goneIn_removePeerById, h.gone]
    omega

theorem step_placed {a : Op} (h : Placed t s) (hs : s.step a = some (s', es)) :
    Placed (t ++ es) s' := by
  have hA := (step_roster h.agrees hs).1
  cases step_cases hs with
  | findSession => exact placed_same h hA (fun _ _ => rfl) rfl rfl
  | newPeer k isHost hk =>
    refine placed_same h hA (fun stage hstage => ?_) rfl rfl
    simp only [numberAt, total_append, total_cons, total_nil, Task.stage, Ne.symm hstage,
      if_false, Nat.add_zero]
  | advance i p c s' es hp ha =>
    cases ha with
    | add ht hm => exact placed_add h hp ht hA
    | remove ht hm => exact placed_remove h hp ht hA
    | done ht =>
      refine placed_stays (q := { p with task := .listening }) h hA hp ?_ rfl rfl rfl
      obtain ⟨payload, ht⟩ | ht := ht <;> rw [ht] <;> rfl
    | eventDone event ht =>
      exact placed_stays (q := { p with task := .listening }) h hA hp (by rw [ht]; rfl) rfl rfl rfl
    | greet ht => exact placed_stays h hA hp (by rw [ht]; rfl) rfl rfl rfl
    | record timestamp pingTime ht => exact placed_stays h hA hp (by rw [ht]; rfl) rfl rfl rfl
    | send recipients payload c j ht hj =>
      exact placed_stays h hA hp (by rw [ht]; rfl) rfl rfl rfl
    | event recipients event c j ht hj => exact placed_stays h hA hp (by rw [ht]; rfl) rfl rfl rfl
    | select peerIds ht hm => exact placed_stays h hA hp (by rw [ht]; rfl) rfl rfl rfl
    | kick targets c j ht hj => exact placed_stays h hA hp (by rw [ht]; rfl) rfl rfl rfl
    | clear ht => exact placed_stays h hA hp (by rw [ht]; rfl) rfl rfl rfl
  | handle i p message now s₁ task es hp ht hr =>
    obtain ⟨ho, hpeers, -, -, hstage, hquiet⟩ := reacts_frame hr
    refine placed_stays (q := { p with task := task }) h hA hp (by rw [ht]; exact hstage) ?_
      hpeers (goneIn_quiet hquiet)
    simp only [setTask, setPeer, ho]
  | close i p hp ht => exact placed_stays h hA hp (by rw [ht]; rfl) rfl rfl rfl
  | tick c now s' es hk =>
    cases hk with
    | check timestamp rest j p hpg hc hp hf =>
      exact placed_stays h hA hp (congrArg Task.stage (task_countPing p timestamp)) rfl rfl rfl
    | drop timestamp rest j p hpg hc hp hf =>
      exact placed_stays h hA hp (congrArg Task.stage (task_countPing p timestamp)) rfl rfl rfl
    | _ => exact placed_same h hA (fun _ _ => rfl) rfl rfl

/-- At most one peer is removed in a step. -/
theorem goneIn_step {a : Op} (hs : s.step a = some (s', es)) : goneIn es ≤ 1 := by
  cases step_cases hs with
  | advance i p c s' es hp ha =>
    cases ha with
    | add ht hm =>
      rw [goneIn_addPeer]
      exact Nat.zero_le 1
    | remove ht hm => exact Nat.le_of_eq (goneIn_removePeerById s i p.peerId)
    | _ => exact Nat.zero_le 1
  | handle i p message now s₁ task es hp ht hr =>
    have hquiet : goneIn (.handled i message.message :: es) = 0 :=
      goneIn_quiet (reacts_frame hr).2.2.2.2.2
    rw [hquiet]
    exact Nat.zero_le 1
  | tick c now s' es hk => cases hk <;> exact Nat.zero_le 1
  | _ => exact Nat.zero_le 1

theorem leavesEmpty_le (es : List Event) : es.countP Event.leavesEmpty ≤ goneIn es := by
  apply List.countP_mono_left
  intro e _ he
  cases e with
  | left i isEmpty => rfl
  | _ => cases he

theorem leavesEmpty_ticks {c : Nat} {now : Int} (hk : Ticks s c now s' es) :
    es.countP Event.leavesEmpty = 0 := by
  cases hk <;> rfl

def Op.looksUp : Op → Bool
  | .findSession => true
  | _ => false

theorem step_crowd {a : Op} (hs : s.step a = some (s', es)) :
    s'.lookups.length + s'.objects.length =
      s.lookups.length + s.objects.length + if a.looksUp then 1 else 0 := by
  cases step_cases hs with
  | findSession =>
    simp only [List.length_append, List.length_singleton, Op.looksUp, if_true]
    omega
  | newPeer k isHost hk =>
    have hlen := length_eraseIdx_lt hk
    simp only [List.length_append, List.length_singleton, Op.looksUp, Bool.false_eq_true,
      if_false]
    omega
  | advance i p c s' es hp ha =>
    obtain ⟨q, hobj, hlook, -⟩ := advances_lowers ha
    rw [hobj, hlook]
    simp only [setPeer, List.length_set, Op.looksUp]
    rfl
  | handle i p message now s₁ task es hp ht hr =>
    obtain ⟨ho, -, -, hroster, -, -⟩ := reacts_frame hr
    have hlook : s₁.lookups = s.lookups := congrArg Roster.lookups hroster
    simp only [setTask, setPeer, List.length_set, ho, hlook, Op.looksUp]
    rfl
  | close i p hp ht =>
    simp only [setTask, setPeer, List.length_set, Op.looksUp]
    rfl
  | tick c now s' es hk =>
    obtain ⟨hlook, hlen, -, -⟩ := ticks_threads hk
    rw [hlook, hlen]
    rfl

end Session

namespace Room
variable {r r' : Room} {es : List Event}

def Op.looksUp : Op → Bool
  | .session a => a.looksUp
  | _ => false

theorem step_crowd {a : Op} (hs : r.step a = some (r', es)) :
    r'.crowd = r.crowd + if a.looksUp then 1 else 0 := by
  obtain ⟨b, rfl, hb⟩ | ⟨hno, hsame, -⟩ := step_session hs
  · exact Session.step_crowd hb
  · have hlook : a.looksUp = false := by
      cases a with
      | session b => exact absurd rfl (hno b)
      | _ => rfl
    rw [crowd, crowd, hsame, hlook]
    rfl

end Room

namespace Registry
variable {r r' : Registry} {es : List Event} {k : RoomRef}

def crowdAt (r : Registry) (k : RoomRef) : Nat :=
  match r.rooms[k]? with
  | some h => h.room.crowd
  | none => 0

def Op.admits : Op → Bool
  | .createNewSession _ _ => true
  | .stepRoom _ a => a.looksUp
  | _ => false

theorem crowdAt_setRoom {j : RoomRef} {h : Hosted} {room : Room} (hj : r.rooms[j]? = some h)
    {n : Nat} (hroom : room.crowd = h.room.crowd + n) :
    crowdAt { r with rooms := r.rooms.set j ⟨h.game, room⟩ } k =
      r.crowdAt k + if j = k then n else 0 := by
  have hlt := (List.getElem?_eq_some_iff.mp hj).1
  unfold crowdAt
  by_cases hk : j = k
  · subst hk
    simp only [List.getElem?_set_self hlt, hj, if_true, hroom]
  · simp only [List.getElem?_set_ne hk, if_neg hk, Nat.add_zero]

theorem step_crowdAt {op : Op} (hop : op.admits = false) (hs : r.step op = some (r', es)) :
    r'.crowdAt k = r.crowdAt k := by
  cases step_cases hs with
  | created g sessionId game hg hf => cases hop
  | room j a h room fs hj hst =>
    have hlook : a.looksUp = false := hop
    have hroom := Room.step_crowd hst
    rw [hlook] at hroom
    rw [crowdAt_setRoom hj hroom]
    split <;> rfl
  | _ => rfl

/-- What the sections that let nobody in keep, a run of them keeps. -/
theorem run_unadmitting {α : Type*} {f : Registry → α}
    (hstep : ∀ r op r' es, Op.admits op = false → r.step op = some (r', es) → f r' = f r)
    {w : List Op} {t t' : List Event} (hw : ∀ op ∈ w, op.admits = false)
    (hr : machine.run w t r = some (t', r')) : f r' = f r := by
  induction w generalizing t r with
  | nil =>
    cases hr
    rfl
  | cons op w ih =>
    obtain ⟨r₁, es, hs, hr⟩ := run_cons_some hr
    rw [ih (fun op' h => hw op' (List.mem_cons_of_mem op h)) hr]
    exact hstep r op r₁ es (hw op List.mem_cons_self) hs

theorem countP_leavesEmpty (k : RoomRef) (fs : List Room.Event) :
    (fs.map (Event.room k)).countP Event.leavesEmpty =
      (Room.sessionPart fs).countP Session.Event.leavesEmpty := by
  induction fs with
  | nil => rfl
  | cons e fs ih =>
    cases e with
    | outbox j e =>
      rw [List.map_cons, List.countP_cons, ih]
      rfl
    | session e =>
      rw [List.map_cons, List.countP_cons, ih, Room.sessionPart_session, List.countP_cons]
      congr 1
      cases e with
      | left i isEmpty => cases isEmpty <;> rfl
      | _ => rfl

/-- A session is left empty at most once in a step. -/
theorem stepRoom_leavesEmpty {a : Room.Op} (hs : r.stepRoom k a = some (r', es)) :
    es.countP Event.leavesEmpty = if es.any Event.leavesEmpty then 1 else 0 := by
  have hle : es.countP Event.leavesEmpty ≤ 1 := by
    obtain ⟨h, room, fs, hk, hst, -, rfl⟩ := stepRoom_some hs
    rw [countP_leavesEmpty]
    obtain ⟨b, -, hb⟩ | ⟨-, -, hnone⟩ := Room.step_session hst
    · exact Nat.le_trans (Session.leavesEmpty_le _) (Session.goneIn_step hb)
    · rw [hnone]
      exact Nat.zero_le 1
  split
  · next hany =>
    have hpos : 0 < es.countP Event.leavesEmpty :=
      List.countP_pos_iff.mpr (List.any_eq_true.mp hany)
    omega
  · next hany =>
    rw [List.countP_eq_zero]
    intro e he hleaves
    exact hany (List.any_eq_true.mpr ⟨e, he, hleaves⟩)

/-- The pinger lets nobody in and removes nobody. -/
theorem pinger_crowdAt {g : GameRef} {p c : Nat} {now : Int}
    (h : r.pinger g p c now = some (r', es)) :
    r'.crowdAt k = r.crowdAt k ∧ es.countP Event.leavesEmpty = 0 := by
  obtain ⟨w, hw, hq⟩ := pinger_run h
  have hof : machine.Along (fun _ _ op => op.ofPinger g c now) w [] r :=
    along_of_forall fun op hop _ _ => hq op hop
  refine run_invariant_along (I := fun fs q => q.crowdAt k = r.crowdAt k ∧
    fs.countP Event.leavesEmpty = 0) ?_ ⟨rfl, rfl⟩ hof hw
  intro fs q op q' gs hI hop hs
  have hs : q.step op = some (q', gs) := hs
  rw [List.countP_append, hI.2, ← hI.1]
  obtain ⟨pingers, active, rfl⟩ | ⟨j, rfl⟩ := hop
  · refine ⟨step_crowdAt rfl hs, ?_⟩
    cases step_cases hs
    rfl
  · refine ⟨step_crowdAt rfl hs, ?_⟩
    obtain ⟨hosted, room, fs, hj, hst, -, rfl⟩ := stepRoom_some hs
    rw [countP_leavesEmpty, Nat.zero_add]
    obtain ⟨b, hb, hst⟩ | ⟨hno, -, -⟩ := Room.step_session hst
    · cases hb
      exact Session.leavesEmpty_ticks (Session.tick_ticks hst)
    · exact absurd rfl (hno _)

def letIn (k : RoomRef) : Except ErrorDto RoomRef → Nat
  | .ok j => if j = k then 1 else 0
  | .error _ => 0

/-- Who gets a session counts among those in it, and nowhere else. -/
theorem getSession_crowdAt {a : Admission} {res : Except ErrorDto RoomRef}
    (h : r.getSession a = some (res, r', es)) : r'.crowdAt k = r.crowdAt k + letIn k res := by
  cases getSession_cases h with
  | created j r' hc =>
    cases createNewSession_cases hc with
    | created game hg hl hf =>
      simp only [crowdAt, getElem?_snoc, letIn]
      by_cases hk : k = r.rooms.length
      · rw [if_pos hk, if_pos hk.symm, hk, List.getElem?_eq_none (Nat.le_refl _)]
        rfl
      · rw [if_neg hk, if_neg (Ne.symm hk)]
        rfl
  | taken e r' hc =>
    cases createNewSession_cases hc
    rfl
  | missing e => rfl
  | found j r' es hf hs =>
    obtain ⟨h, room, fs, hj, hst, rfl, -⟩ := stepRoom_some hs
    exact crowdAt_setRoom hj (Room.step_crowd hst)

theorem getSession_silent {a : Admission} {res : Except ErrorDto RoomRef}
    (h : r.getSession a = some (res, r', es)) : es = [] := by
  cases getSession_cases h with
  | found j r' es hf hs =>
    obtain ⟨h, room, fs, hj, hst, -, rfl⟩ := stepRoom_some hs
    cases hst
    rfl
  | _ => rfl

end Registry

namespace System
variable {gamesConfig : GamesConfig} {s s' : System} {t es : List Event} {w : List Op}

def Op.connects : Op → Bool
  | .connect _ => true
  | _ => false

def Event.isRejected : Event → Bool
  | .rejected _ => true
  | _ => false

def Event.isAdmitted : Event → Bool
  | .admitted _ _ => true
  | _ => false

def Event.admittedTo (k : RoomRef) : Event → Bool
  | .admitted _ j => j == k
  | _ => false

def Event.isDeleted : Event → Bool
  | .deleted _ _ => true
  | _ => false

def Event.leavesEmpty : Event → Bool
  | .registry e => e.leavesEmpty
  | _ => false

theorem countP_registry {p : Event → Bool} (h : ∀ e, p (.registry e) = false)
    (fs : List Registry.Event) : (fs.map Event.registry).countP p = 0 := by
  rw [List.countP_map, List.countP_eq_zero]
  intro e _ he
  rw [Function.comp_apply, h] at he
  cases he

/-- Each connection is turned away, waits for its session, or has got it. -/
theorem step_connects {a : Op} (hs : s.step a = some (s', es)) :
    (t ++ es).countP Event.isRejected + s'.admissions.length +
        (t ++ es).countP Event.isAdmitted =
      t.countP Event.isRejected + s.admissions.length + t.countP Event.isAdmitted +
        if a.connects then 1 else 0 := by
  have hquiet : ∀ fs : List Registry.Event,
      (fs.map Event.registry).countP Event.isRejected = 0 ∧
        (fs.map Event.registry).countP Event.isAdmitted = 0 :=
    fun fs => ⟨countP_registry (fun _ => rfl) fs, countP_registry (fun _ => rfl) fs⟩
  simp only [List.countP_append]
  cases step_cases hs with
  | rejected params e r hf =>
    simp [Event.isRejected, Event.isAdmitted, Op.connects]
    omega
  | found params a r hf =>
    simp [Op.connects]
    omega
  | refused c a e r fs ha hg =>
    obtain ⟨hrej, hadm⟩ := hquiet fs
    have hlen := Session.length_eraseIdx_lt ha
    simp [hrej, hadm, Event.isRejected, Event.isAdmitted, Op.connects]
    omega
  | admitted c a k r fs ha hg =>
    obtain ⟨hrej, hadm⟩ := hquiet fs
    have hlen := Session.length_eraseIdx_lt ha
    simp [hrej, hadm, Event.isRejected, Event.isAdmitted, Op.connects]
    omega
  | room k b r fs hb hst =>
    obtain ⟨hrej, hadm⟩ := hquiet fs
    simp [hrej, hadm, Op.connects]
  | findGame d k h g r hd hk hg => simp [Op.connects]
  | deleteSession d g sessionId r hd hdel =>
    simp [Event.isRejected, Event.isAdmitted, Op.connects]
  | pinger g p c now r fs hp =>
    obtain ⟨hrej, hadm⟩ := hquiet fs
    simp [hrej, hadm, Op.connects]

/-- Only a connection that gets its session is let into one. -/
theorem step_elsewhere {a : Op} (hs : s.step a = some (s', es)) :
    (∃ c, a = .getSession c) ∨
      (∃ v, Registry.machine.run v [] s.registry = some (registryPart es, s'.registry) ∧
        ∀ op ∈ v, op.admits = false) ∧ ∀ e ∈ es, e.isAdmitted = false := by
  have hquiet : ∀ fs : List Registry.Event, ∀ e ∈ fs.map Event.registry,
      e.isAdmitted = false := by
    intro fs e he
    obtain ⟨f, -, rfl⟩ := List.mem_map.mp he
    rfl
  have hlookup : ∀ {v : List Registry.Op}, (∀ op ∈ v, ∃ gameId, op = .getGameById gameId) →
      ∀ op ∈ v, op.admits = false := by
    intro v hv op hop
    obtain ⟨gameId, rfl⟩ := hv op hop
    rfl
  cases step_cases hs with
  | rejected params e r hf =>
    obtain ⟨v, hv, hq⟩ := Registry.findGameForPeer_run s.registry params
    rw [hf] at hv
    exact Or.inr ⟨⟨v, hv, hlookup hq⟩, by simp [Event.isAdmitted]⟩
  | found params a r hf =>
    obtain ⟨v, hv, hq⟩ := Registry.findGameForPeer_run s.registry params
    rw [hf] at hv
    exact Or.inr ⟨⟨v, hv, hlookup hq⟩, by simp⟩
  | refused c a e r fs ha hg => exact Or.inl ⟨c, rfl⟩
  | admitted c a k r fs ha hg => exact Or.inl ⟨c, rfl⟩
  | room k b r fs hb hst =>
    have hno : Registry.Op.admits (.stepRoom k b) = false := by
      cases b with
      | session b => cases b <;> first | rfl | cases hb
      | _ => rfl
    have hstep : Registry.machine.step s.registry (.stepRoom k b) = some (r, fs) := hst
    refine Or.inr ⟨⟨[.stepRoom k b], by rw [run_singleton hstep]; simp, ?_⟩, hquiet fs⟩
    exact fun op hop => by rw [List.mem_singleton.mp hop, hno]
  | findGame d k h g r hd hk hg =>
    have hv := Registry.getGameById_run s.registry h.room.session.config.gameId
    rw [hg] at hv
    exact Or.inr ⟨⟨_, hv, hlookup fun op hop => ⟨_, List.mem_singleton.mp hop⟩⟩, by simp⟩
  | deleteSession d g sessionId r hd hdel =>
    have hstep : Registry.machine.step s.registry (.deleteSession g sessionId) =
        some (r, []) := by
      simp only [Registry.machine, Registry.step, hdel]
    refine Or.inr ⟨⟨[.deleteSession g sessionId], by rw [run_singleton hstep]; rfl, ?_⟩, ?_⟩
    · exact fun op hop => by rw [List.mem_singleton.mp hop]; rfl
    · simp [Event.isAdmitted]
  | pinger g p c now r fs hp =>
    obtain ⟨v, hv, hq⟩ := Registry.pinger_run hp
    refine Or.inr ⟨⟨v, by simpa using hv, ?_⟩, hquiet fs⟩
    intro op hop
    obtain ⟨pingers, active, rfl⟩ | ⟨k, rfl⟩ := hq op hop
    · rfl
    · rfl

/-- Who has been let into the session `k` counts among its crowd. -/
theorem step_admittedTo {a : Op} (k : RoomRef) (hs : s.step a = some (s', es)) :
    s'.registry.crowdAt k = s.registry.crowdAt k + es.countP (Event.admittedTo k) := by
  have hquiet : ∀ fs : List Registry.Event,
      (fs.map Event.registry).countP (Event.admittedTo k) = 0 :=
    countP_registry fun _ => rfl
  obtain ⟨c, rfl⟩ | ⟨⟨v, hv, hq⟩, hnobody⟩ := step_elsewhere hs
  · cases step_cases hs with
    | refused c a e r fs ha hg =>
      rw [List.countP_append, hquiet]
      exact Registry.getSession_crowdAt hg
    | admitted c a j r fs ha hg =>
      rw [List.countP_append, hquiet, Nat.zero_add]
      refine (Registry.getSession_crowdAt hg).trans (congrArg (s.registry.crowdAt k + ·) ?_)
      by_cases hj : j = k <;> simp [Registry.letIn, Event.admittedTo, hj]
  · have hnone : es.countP (Event.admittedTo k) = 0 := by
      rw [List.countP_eq_zero]
      intro e he hto
      have hno := hnobody e he
      cases e with
      | admitted a j => cases hno
      | _ => cases hto
    rw [hnone]
    exact Registry.run_unadmitting (fun _ _ _ _ => Registry.step_crowdAt) hq hv

/-- Who has left a session empty has deleted it or is going to. -/
theorem step_departures {a : Op} (hs : s.step a = some (s', es)) :
    es.countP Event.leavesEmpty + s.departures.length =
      s'.departures.length + es.countP Event.isDeleted := by
  have hloud : ∀ fs : List Registry.Event, (fs.map Event.registry).countP Event.leavesEmpty =
      fs.countP Registry.Event.leavesEmpty := fun fs => List.countP_map
  have hquiet : ∀ fs : List Registry.Event, (fs.map Event.registry).countP Event.isDeleted = 0 :=
    countP_registry fun _ => rfl
  cases step_cases hs with
  | rejected params e r hf => simp [Event.leavesEmpty, Event.isDeleted]
  | found params a r hf => simp
  | refused c a e r fs ha hg =>
    cases Registry.getSession_silent hg
    exact Nat.zero_add _
  | admitted c a j r fs ha hg =>
    cases Registry.getSession_silent hg
    exact Nat.zero_add _
  | room j b r fs hb hst =>
    have hone := Registry.stepRoom_leavesEmpty hst
    rw [hloud, hquiet, hone]
    split <;> simp
    omega
  | findGame d j h g r hd hj hg => simp
  | deleteSession d g sessionId r hd hdel =>
    have hlen := Session.length_eraseIdx_lt hd
    simp [Event.leavesEmpty, Event.isDeleted]
    omega
  | pinger g p c now r fs hp =>
    rw [hloud, hquiet, (Registry.pinger_crowdAt (k := 0) hp).2]
    exact Nat.zero_add _

/-- Every session has its peers where `Placed` says. -/
theorem run_placed (hr : machine.run w [] (init gamesConfig) = some (t, s)) :
    EachRoom (fun t room => Session.Placed (Room.sessionPart t) room.session) t s := by
  have hnew : ∀ id config, Session.Placed (Room.sessionPart []) (Room.init id config).session :=
    fun id config => ⟨Session.agrees_init id config, rfl, rfl⟩
  have hstep : ∀ (t : List Room.Event) (room : Room) (a : Room.Op) (room' : Room)
      (es : List Room.Event), Session.Placed (Room.sessionPart t) room.session → True →
      room.step a = some (room', es) →
      Session.Placed (Room.sessionPart (t ++ es)) room'.session := by
    intro t room a room' es h _ hs
    rw [Room.sessionPart_append]
    obtain ⟨b, -, hb⟩ | ⟨-, hsame, hnone⟩ := Room.step_session hs
    · exact Session.step_placed h hb
    · rw [hsame, hnone, List.append_nil]
      exact h
  refine eachRoom_of_registry (run_invariant (I := fun t s => s.registry.EachRoom
    (fun t room => Session.Placed (Room.sessionPart t) room.session) (registryPart t)) ?_
    (each_nil fun _ => rfl) hr) fun _ _ h => h
  intro t s a s' es h hs
  refine step_eachRoom (C := fun _ _ _ => True) hnew (fun _ _ _ _ => trivial) hstep h ?_ hs
  cases a with
  | room k b => exact fun _ _ => trivial
  | _ => trivial

theorem crowd_accounted {k : RoomRef} {h : Hosted}
    (hr : machine.run w [] (init gamesConfig) = some (t, s))
    (hk : s.registry.rooms[k]? = some h) :
    t.countP (Event.admittedTo k) = h.room.session.lookups.length +
      h.room.session.numberAt .coming + h.room.session.peers.size +
      Session.goneIn (Room.sessionPart (roomPart k t)) := by
  have hcrowd : s.registry.crowdAt k = t.countP (Event.admittedTo k) := by
    refine run_invariant (I := fun t s => s.registry.crowdAt k = t.countP (Event.admittedTo k))
      ?_ rfl hr
    intro t s a s' es hI hs
    rw [step_admittedTo k hs, hI, List.countP_append]
  have hplaced := run_placed hr k h hk
  have hobjects := Session.length_objects h.room.session
  have hmembers := hplaced.members
  have hgone := hplaced.gone
  simp only [Registry.crowdAt, hk, Room.crowd] at hcrowd
  omega

/-- Every connection is somewhere, and nowhere else: turned away, waiting for its session, or in
it. Those in a session have still to draw their id, wait to be added, are in `m_peers`, or were
removed from there. Each time a session was left empty, its connection has deleted it or is going
to. -/
theorem connections_accounted (hr : machine.run w [] (init gamesConfig) = some (t, s)) :
    w.countP Op.connects = t.countP Event.isRejected + s.admissions.length +
        t.countP Event.isAdmitted ∧
      (∀ (k : RoomRef) (h : Hosted), s.registry.rooms[k]? = some h →
        t.countP (Event.admittedTo k) = h.room.session.lookups.length +
          h.room.session.numberAt .coming + h.room.session.peers.size +
          Session.goneIn (Room.sessionPart (roomPart k t))) ∧
      t.countP Event.leavesEmpty = s.departures.length + t.countP Event.isDeleted := by
  refine ⟨?_, fun k h => crowd_accounted hr, ?_⟩
  · have hcount := run_counted (M := machine) (p := Op.connects)
      (fun t s => t.countP Event.isRejected + s.admissions.length + t.countP Event.isAdmitted)
      (fun _ _ _ _ _ hs => step_connects hs) hr
    exact (Nat.zero_add _).symm.trans hcount.symm
  · refine run_invariant (I := fun t s => t.countP Event.leavesEmpty =
      s.departures.length + t.countP Event.isDeleted) ?_ rfl hr
    intro t s a s' es hI hs
    have hstep := step_departures hs
    rw [List.countP_append, List.countP_append]
    omega

theorem connections_accounted_settledLobby :
    ∃ t s h, machine.run settledLobby [] (init oneGame) = some (t, s) ∧
      s.registry.rooms[0]? = some h ∧
      2 = t.countP Event.isRejected + s.admissions.length + t.countP Event.isAdmitted ∧
      t.countP (Event.admittedTo 0) = h.room.session.lookups.length +
        h.room.session.numberAt .coming + h.room.session.peers.size +
        Session.goneIn (Room.sessionPart (roomPart 0 t)) ∧
      t.countP Event.leavesEmpty = s.departures.length + t.countP Event.isDeleted := by
  obtain ⟨t, s, hr, -, h, hk, -⟩ := settledLobby_run
  obtain ⟨hconnects, hrooms, hdepartures⟩ := connections_accounted hr
  exact ⟨t, s, h, hr, hk, hconnects, hrooms 0 h hk, hdepartures⟩

end System
end Helicopter
