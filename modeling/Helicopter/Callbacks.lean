import Helicopter.Connection

/-! Callbacks that run one at a time are schedules of the system: no other connection takes a
step while one of them is on its way. -/
namespace Helicopter
open Interleaving

namespace Session
variable {s s' : Session} {es : List Event} {i : PeerRef}

/-- Only `removePeerById` finds the session empty. -/
theorem removing_of_isLeftEmpty {a : Op} (hs : s.step a = some (s', es))
    (he : es.any Event.isLeftEmpty = true) :
    ∃ i c p, a = .advance i c ∧ s.objects[i]? = some p ∧ p.task = .removing := by
  have hnot : ∀ {notice : Notice}, (s.tellHost notice).any Event.isLeftEmpty = false := by
    intro notice
    rw [List.any_eq_false]
    intro e he
    rw [isLeftEmpty_tellHost he]
    exact Bool.false_ne_true
  cases step_cases hs with
  | advance i p c _ _ hp hadv =>
    cases hadv with
    | remove ht hm => exact ⟨i, c, p, rfl, hp, ht⟩
    | add ht hm =>
      rw [List.any_cons, addPeer_snd] at he
      split at he
      · cases he
      · rw [hnot] at he
        cases he
    | _ => cases he
  | handle i p message now _ task es hp ht hr => cases hr <;> cases he
  | tick c now _ _ ht => cases ht <;> cases he
  | _ => cases he

theorem quiet_of_task {p : Peer} {c : Nat} (hs : s.step (.advance i c) = some (s', es))
    (hp : s.objects[i]? = some p) (ht : p.task ≠ .removing) :
    es.any Event.isLeftEmpty = false := by
  by_contra he
  obtain ⟨j, c', q, ha, hq, htq⟩ := removing_of_isLeftEmpty hs (by simpa using he)
  cases ha
  rw [hp] at hq
  cases hq
  exact ht htq

theorem greeting_of_adding {p : Peer} {c : Nat} (hs : s.step (.advance i c) = some (s', es))
    (hp : s.objects[i]? = some p) (ht : p.task = .adding) :
    s'.objects[i]? = some { p with task := .greeting } := by
  have hm : s.peersMutex = false := by
    by_contra hm
    simp [step, hp, advance, ht, hm] at hs
  rw [step_adding hp ht hm] at hs
  cases hs
  have hp' : (s.addPeer i p.peerId p.isHost).1.objects[i]? = some p := by
    rw [addPeer_fst]
    exact hp
  simp only [setTask, objects_setPeer hp', if_true]

theorem quiet_enterOps (hr : machine.run s.enterOps [] s = some (es, s')) :
    es.any Event.isLeftEmpty = false := by
  obtain ⟨s₁, es₁, h₁, hr⟩ := run_cons_some hr
  obtain ⟨s₂, es₂, h₂, hr⟩ := run_cons_some hr
  obtain ⟨s₃, es₃, h₃, hr⟩ := run_cons_some hr
  cases hr
  have h₁ : s.step (.newPeer (s.lookups.length - 1)) = some (s₁, es₁) := h₁
  cases step_cases h₁ with
  | newPeer k isHost hl =>
    let p : Peer := { peerId := s.peerIdCounter, isHost := isHost }
    have hp : (s.objects ++ [p])[s.objects.length]? = some p := List.getElem?_concat_length
    have hp₂ := greeting_of_adding h₂ hp rfl
    have hadd := quiet_of_task h₂ hp (by simp [p])
    have hgreet := quiet_of_task h₃ hp₂ (by simp)
    simp [hadd, hgreet, Event.isLeftEmpty]

theorem quiet_closing (hr : machine.run [.close i, .advance i 0] [] s = some (es, s')) :
    es.any Event.isLeftEmpty = false := by
  obtain ⟨s₁, es₁, h₁, hr⟩ := run_cons_some hr
  obtain ⟨s₂, es₂, h₂, hr⟩ := run_cons_some hr
  cases hr
  have h₁ : s.step (.close i) = some (s₁, es₁) := h₁
  cases step_cases h₁ with
  | close _ p hp ht =>
    have hp₁ : (s.setTask i p .clearing).objects[i]? = some { p with task := .clearing } := by
      simp only [setTask, objects_setPeer hp, if_true]
    have hclear := quiet_of_task h₂ hp₁ (by simp)
    simp [hclear, Event.isLeftEmpty]

end Session

namespace Registry
variable {r r' : Registry} {k : RoomRef} {h : Hosted} {t t' : List Event}

theorem stepRoom_session {a : Session.Op} (hk : r.rooms[k]? = some h)
    (hs : r.stepRoom k (.session a) = some (r', t)) :
    ∃ s' es room', h.room.session.step a = some (s', es) ∧
      t.any Event.leavesEmpty = es.any Session.Event.isLeftEmpty ∧
      r'.rooms[k]? = some ⟨h.game, room'⟩ ∧ room'.session = s' := by
  obtain ⟨h₀, room', fs, hk₀, hroom, rfl, rfl⟩ := stepRoom_some hs
  rw [hk] at hk₀
  cases hk₀
  have hlt := (List.getElem?_eq_some_iff.mp hk).1
  obtain ⟨b, hb, hsession⟩ | ⟨hnot, -, -⟩ := Room.step_session hroom
  · cases hb
    exact ⟨room'.session, _, room', hsession, any_leavesEmpty k fs,
      List.getElem?_set_self hlt, rfl⟩
  · exact absurd rfl (hnot a)

theorem run_stepsOf_some {as : List Session.Op} (hk : r.rooms[k]? = some h)
    (hr : machine.run (stepsOf k as) t r = some (t', r')) :
    ∃ fs es s', t' = t ++ fs ∧ Session.machine.run as [] h.room.session = some (es, s') ∧
      fs.any Event.leavesEmpty = es.any Session.Event.isLeftEmpty := by
  induction as generalizing r h t with
  | nil =>
    cases hr
    exact ⟨[], [], h.room.session, (List.append_nil _).symm, rfl, rfl⟩
  | cons a as ih =>
    obtain ⟨r₁, fs₁, hs, hr⟩ := run_cons_some hr
    obtain ⟨s₁, es₁, room₁, hsession, hany, hk₁, rfl⟩ := stepRoom_session hk hs
    obtain ⟨fs, es, s', ht, hrun, hrest⟩ := ih hk₁ hr
    refine ⟨fs₁ ++ fs, es₁ ++ es, s', ?_, ?_, ?_⟩
    · rw [ht, List.append_assoc]
    · have hstep : Session.machine.step h.room.session a = some (room₁.session, es₁) := hsession
      rw [run_cons hstep, run_history, hrun]
      rfl
    · rw [List.any_append, List.any_append, hany, hrest]

end Registry

namespace System
variable {r r' : Registry} {k : RoomRef} {i : PeerRef} {t t' : List Registry.Event}

def sections (k : RoomRef) (ops : List Session.Op) : List Op :=
  ops.map fun a => .room k (.session a)

def Event.answer? : Event → Option Answer
  | .rejected e => some (.rejected e.code)
  | .admitted a _ => some (.admitted a.isHost)
  | _ => none

def answers (t : List Event) : List Answer := t.filterMap Event.answer?

@[simp] theorem answers_append (t u : List Event) : answers (t ++ u) = answers t ++ answers u :=
  List.filterMap_append ..

@[simp] theorem answers_registry (t : List Registry.Event) : answers (t.map .registry) = [] := by
  induction t with
  | nil => rfl
  | cons e t ih => exact ih

@[simp] theorem answers_rejected (e : ErrorDto) : answers [.rejected e] = [.rejected e.code] := rfl
@[simp] theorem answers_admitted (a : Admission) (k : RoomRef) :
    answers [.admitted a k] = [.admitted a.isHost] := rfl
@[simp] theorem answers_deleted (g : GameRef) (sessionId : String) :
    answers [.deleted g sessionId] = [] := rfl

theorem step_section (as : List Admission) (ds : List Departure) {a : Session.Op}
    (ha : ofPeers (.session a) = true)
    (hs : r.stepRoom k (.session a) = some (r', t)) :
    machine.step ⟨r, as, ds⟩ (.room k (.session a)) =
      some (⟨r', as, ds ++ if t.any Registry.Event.leavesEmpty then [.emptied k] else []⟩,
        t.map .registry) := by
  simp only [machine, step, ha, stepPeers, hs, if_true]

/-- As long as no session is left empty, the connection goes on alone. -/
theorem run_sections (as : List Admission) (ds : List Departure) {ops : List Session.Op}
    (hops : ∀ a ∈ ops, ofPeers (.session a) = true) {u : List Event}
    (hr : Registry.machine.run (Registry.stepsOf k ops) t r = some (t', r'))
    (hquiet : t'.any Registry.Event.leavesEmpty = false) :
    ∃ v, machine.run (sections k ops) u ⟨r, as, ds⟩ = some (v, ⟨r', as, ds⟩) ∧
      answers v = answers u := by
  induction ops generalizing r t u with
  | nil =>
    cases hr
    exact ⟨u, rfl, rfl⟩
  | cons a ops ih =>
    obtain ⟨r₁, fs, hs, hr⟩ := run_cons_some hr
    have hfs : fs.any Registry.Event.leavesEmpty = false := by
      obtain ⟨rest, rfl⟩ := run_prefix hr
      simp only [List.any_append, Bool.or_eq_false_iff] at hquiet
      exact hquiet.1.2
    have hstep := step_section as ds (hops a List.mem_cons_self) hs
    rw [hfs, if_neg Bool.false_ne_true, List.append_nil] at hstep
    obtain ⟨v, hv, hsame⟩ := ih (fun b hb => hops b (List.mem_cons_of_mem a hb)) hr
      (u := u ++ fs.map .registry)
    refine ⟨v, (run_cons hstep).trans hv, ?_⟩
    rw [hsame, answers_append, answers_registry, List.append_nil]

def resting (r : Registry) : System := { registry := r }

theorem run_addNewPeer (as : List Admission) (ds : List Departure) (u : List Event)
    (h : r.addNewPeer k = some (i, r')) :
    ∃ w v, machine.run w u ⟨r, as, ds⟩ = some (v, ⟨r', as, ds⟩) ∧ answers v = answers u := by
  unfold Registry.addNewPeer at h
  split at h
  · cases h
  · next hosted hk =>
    split at h
    · cases h
    · next fs r₁ hr =>
      cases h
      obtain ⟨fs', es, s', hfs, hsession, hany⟩ := Registry.run_stepsOf_some hk hr
      rw [List.nil_append] at hfs
      have hquiet : fs.any Registry.Event.leavesEmpty = false := by
        rw [hfs, hany]
        exact Session.quiet_enterOps hsession
      have hops : ∀ a ∈ hosted.room.session.enterOps, ofPeers (.session a) = true := by
        simp [Session.enterOps, ofPeers]
      obtain ⟨v, hv, hsame⟩ := run_sections as ds (u := u) hops hr hquiet
      exact ⟨_, v, hv, hsame⟩

theorem run_onAfterCreate {params : ParameterMap}
    {res : Except ErrorDto (Bool × RoomRef × PeerRef)}
    (h : r.onAfterCreate params = some (res, r')) :
    ∃ w v, machine.run w [] (resting r) = some (v, resting r') ∧
      answers v = match res with
        | .error e => [.rejected e.code]
        | .ok (isHost, _, _) => [.admitted isHost] := by
  unfold Registry.onAfterCreate at h
  split at h
  · next e r₁ hfound =>
    cases h
    have hconnect : machine.step (resting r) (.connect params) =
        some (resting r', [.rejected e]) := by
      simp only [machine, step, resting, hfound]
    exact ⟨_, _, run_singleton hconnect, rfl⟩
  · next a r₁ hfound =>
    have hconnect : machine.step (resting r) (.connect params) =
        some (⟨r₁, [a], []⟩, []) := by
      simp only [machine, step, resting, hfound]
      rfl
    split at h
    · cases h
    · next e r₂ es hget =>
      cases h
      have hsession : machine.step ⟨r₁, [a], []⟩ (.getSession 0) =
          some (resting r', es.map .registry ++ [.rejected e]) := by
        simp only [machine, step, List.getElem?_cons_zero, hget]
        rfl
      exact ⟨_, _, (run_cons hconnect).trans (run_singleton hsession), by simp⟩
    · next k r₂ es hget =>
      split at h
      · cases h
      · next i r₃ hadd =>
        cases h
        have hsession : machine.step ⟨r₁, [a], []⟩ (.getSession 0) =
            some (resting r₂, es.map .registry ++ [.admitted a k]) := by
          simp only [machine, step, List.getElem?_cons_zero, hget]
          rfl
        obtain ⟨w, v, hw, hsame⟩ := run_addNewPeer [] []
          ([] ++ [] ++ (es.map .registry ++ [.admitted a k])) hadd
        refine ⟨.connect params :: .getSession 0 :: w, v, ?_, ?_⟩
        · exact (run_cons hconnect).trans ((run_cons hsession).trans hw)
        · rw [hsame]
          simp

theorem run_leaveOps (hr : Registry.machine.run (Registry.stepsOf k (Session.leaveOps i)) [] r =
      some (t, r')) :
    ∃ w v, machine.run w [] (resting r) = some (v, ⟨r', [],
      if t.any Registry.Event.leavesEmpty then [.emptied k] else []⟩) ∧ answers v = [] := by
  obtain ⟨t₁, r₁, r₂, fs, hclose, hremove, hres⟩ := run_last_some
    (w := Registry.stepsOf k [.close i, .advance i 0])
    (a := .stepRoom k (.session (.advance i 0))) hr
  cases hres
  have hquiet : t₁.any Registry.Event.leavesEmpty = false := by
    obtain ⟨r₀, es₀, hs, -⟩ := run_cons_some hclose
    obtain ⟨hosted, -, -, hk, -⟩ := Registry.stepRoom_some hs
    obtain ⟨fs', es, s', hfs, hsession, hany⟩ := Registry.run_stepsOf_some hk hclose
    rw [List.nil_append] at hfs
    rw [hfs, hany]
    exact Session.quiet_closing hsession
  obtain ⟨v, hv, hsame⟩ := run_sections [] [] (u := []) (by simp [ofPeers])
    hclose hquiet
  have hstep := step_section [] [] rfl hremove
  have hrun := run_step_last hv hstep
  rw [List.any_append, hquiet, Bool.false_or]
  refine ⟨_, v ++ fs.map .registry, hrun, ?_⟩
  rw [answers_append, hsame, answers_registry]
  rfl

theorem run_onBeforeDestroy (h : r.onBeforeDestroy k i = some r') :
    ∃ w v, machine.run w [] (resting r) = some (v, resting r') ∧ answers v = [] := by
  unfold Registry.onBeforeDestroy at h
  split at h
  · cases h
  · next es r₁ hr =>
    obtain ⟨w, v, hw, hv⟩ := run_leaveOps hr
    split at h
    · next hempty =>
      rw [if_pos hempty] at hw
      split at h
      · cases h
      · next hosted hk =>
        split at h
        · cases h
        · next g r₂ hgame =>
          -- the connection goes on to delete the session
          have hfind : machine.step ⟨r₁, [], [.emptied k]⟩ (.findGame 0) =
              some (⟨r₂, [], [.deleting g hosted.room.session.id]⟩, []) := by
            simp only [machine, step, List.getElem?_cons_zero, hk, hgame]
            rfl
          have hdelete : machine.step ⟨r₂, [], [.deleting g hosted.room.session.id]⟩
              (.deleteSession 0) =
              some (resting r', [.deleted g hosted.room.session.id]) := by
            simp only [machine, step, List.getElem?_cons_zero, h]
            rfl
          refine ⟨w ++ [.findGame 0] ++ [.deleteSession 0], _,
            run_step_last (run_step_last hw hfind) hdelete, ?_⟩
          simp [hv]
    · next hempty =>
      rw [if_neg hempty] at hw
      cases h
      exact ⟨w, v, hw, hv⟩

end System

namespace Server
variable {s s' : Server} {es : List Answer}

theorem realizes : Realizes System.machine machine
    (fun s u => u = System.resting s.registry) System.Event.answer? := by
  intro s a s' es u hs hu
  subst hu
  cases a with
  | onAfterCreate params =>
    simp only [machine, step] at hs
    split at hs
    · cases hs
    · next hcall =>
      cases hs
      obtain ⟨w, v, hw, hv⟩ := System.run_onAfterCreate hcall
      exact ⟨w, v, _, hw, hv, rfl⟩
    · next hcall =>
      cases hs
      obtain ⟨w, v, hw, hv⟩ := System.run_onAfterCreate hcall
      exact ⟨w, v, _, hw, hv, rfl⟩
  | onBeforeDestroy n =>
    simp only [machine, step] at hs
    split at hs
    · cases hs
      exact ⟨[], [], _, rfl, rfl, rfl⟩
    · split at hs
      · cases hs
      · next hcall =>
        cases hs
        obtain ⟨w, v, hw, hv⟩ := System.run_onBeforeDestroy hcall
        exact ⟨w, v, _, hw, hv, rfl⟩
    · cases hs

/-- Whatever holds in every run of the system holds when the callbacks run one at a time. -/
theorem run_system {gamesConfig : GamesConfig} {w : List Callback} {t : List Answer}
    (hr : machine.run w [] (init gamesConfig) = some (t, s)) :
    ∃ v t', System.machine.run v [] (System.init gamesConfig) =
        some (t', { registry := s.registry }) ∧ System.answers t' = t := by
  obtain ⟨v, t', u, hv, ht, rfl⟩ := realizes.run (u := System.init gamesConfig) rfl hr
  exact ⟨v, t', hv, ht⟩

end Server
end Helicopter
