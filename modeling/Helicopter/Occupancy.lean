import Helicopter.Rest

/-! No session is left over: one that can be found has a peer in it or one on the way, or a
connection that is going to delete it. -/
namespace Helicopter
open Interleaving

namespace Session
variable {s s' : Session} {es : List Event}

def Attended (s : Session) : Prop :=
  s.peers.isEmpty = false ∨ s.lookups ≠ [] ∨
    ∃ (i : Nat) (p : Peer), s.objects[i]? = some p ∧ p.task = .adding

/-- A step in which nobody enters or leaves. -/
theorem attended_quiet (h : Attended s) (hp : s'.peers = s.peers) (hl : s'.lookups = s.lookups)
    (ho : ∀ (i : Nat) (p : Peer), s.objects[i]? = some p → p.task = .adding →
      ∃ q, s'.objects[i]? = some q ∧ q.task = .adding) : Attended s' := by
  obtain hocc | hlook | ⟨i, p, hi, ht⟩ := h
  · exact Or.inl (by rw [hp]; exact hocc)
  · exact Or.inr (Or.inl (by rw [hl]; exact hlook))
  · obtain ⟨q, hq, hqt⟩ := ho i p hi ht
    exact Or.inr (Or.inr ⟨i, q, hq, hqt⟩)

theorem attended_setPeer {i : Nat} {p q : Peer} (h : Attended s) (hi : s.objects[i]? = some p)
    (hq : p.task = .adding → q.task = .adding) (hp : s'.peers = s.peers)
    (hl : s'.lookups = s.lookups) (ho : s'.objects = (s.setPeer i q).objects) : Attended s' := by
  refine attended_quiet h hp hl ?_
  intro j r hj ht
  rw [ho, objects_setPeer hi]
  split
  · next hji =>
    rw [hji, hi] at hj
    cases hj
    exact ⟨q, rfl, hq ht⟩
  · exact ⟨r, hj, ht⟩

theorem attended_advance {i c : Nat} {p : Peer} (h : Attended s) (hp : s.objects[i]? = some p)
    (hs : s.step (.advance i c) = some (s', es)) (ha : Advances s i p s' es) :
    Attended s' ∨ es.any Event.leavesEmpty = true := by
  -- but for `addPeer`, the thread is past it
  have hno : ∀ {task : Task} {b : Prop}, p.task = task → task ≠ .adding →
      (p.task = .adding → b) := by
    intro task b ht hne hadd
    exact absurd (ht.symm.trans hadd) hne
  cases ha with
  | add ht hm => exact Or.inl (Or.inl (nonempty_of_adds hs ⟨p, hp, ht⟩))
  | remove ht hm =>
    cases he : (s.removePeerById p.peerId).2.1 with
    | true => exact Or.inr rfl
    | false => exact Or.inl (Or.inl he)
  | record timestamp pingTime ht =>
    exact Or.inl (attended_setPeer h hp (hno ht (by simp)) rfl rfl rfl)
  | done ht =>
    obtain ⟨payload, ht⟩ | ht := ht
    · exact Or.inl (attended_setPeer h hp (hno ht (by simp)) rfl rfl rfl)
    · exact Or.inl (attended_setPeer h hp (hno ht (by simp)) rfl rfl rfl)
  | greet ht => exact Or.inl (attended_setPeer h hp (hno ht (by simp)) rfl rfl rfl)
  | send recipients payload c j ht hj =>
    exact Or.inl (attended_setPeer h hp (hno ht (by simp)) rfl rfl rfl)
  | event recipients event c j ht hj =>
    exact Or.inl (attended_setPeer h hp (hno ht (by simp)) rfl rfl rfl)
  | eventDone event ht =>
    exact Or.inl (attended_setPeer (q := { p with task := .listening }) h hp
      (hno ht (by simp)) rfl rfl rfl)
  | select peerIds ht hm =>
    exact Or.inl (attended_setPeer h hp (hno ht (by simp)) rfl rfl rfl)
  | kick targets c j ht hj =>
    exact Or.inl (attended_setPeer h hp (hno ht (by simp)) rfl rfl rfl)
  | clear ht => exact Or.inl (attended_setPeer h hp (hno ht (by simp)) rfl rfl rfl)

theorem attended_tick {c : Nat} {now : Int} (h : Attended s) (hk : Ticks s c now s' es) :
    Attended s' := by
  cases hk with
  | check timestamp rest j p ht hj hp hf =>
    exact attended_setPeer h hp (fun hadd => by rwa [task_countPing]) rfl rfl rfl
  | drop timestamp rest j p ht hj hp hf =>
    exact attended_setPeer h hp (fun hadd => by rwa [task_countPing]) rfl rfl rfl
  | _ => exact attended_quiet h rfl rfl fun i p hp ht => ⟨p, hp, ht⟩

/-- The last peer reports the session empty when it leaves, if nobody is on the way. -/
theorem step_attended {a : Op} (h : Attended s) (hs : s.step a = some (s', es)) :
    Attended s' ∨ es.any Event.leavesEmpty = true := by
  cases step_cases hs with
  | findSession => exact Or.inl (Or.inr (Or.inl (by simp)))
  | newPeer k isHost hk =>
    exact Or.inl (Or.inr (Or.inr ⟨s.objects.length, _, List.getElem?_concat_length, rfl⟩))
  | advance i p c s' es hp ha => exact attended_advance h hp hs ha
  | handle i p message now s₁ task es hp ht hre =>
    obtain ⟨hobj, hpeers, -, hroster, -⟩ := reacts_frame hre
    refine Or.inl (attended_setPeer (q := { p with task := task }) h hp ?_ hpeers ?_ ?_)
    · intro hadd
      rw [ht] at hadd
      cases hadd
    · exact congrArg Roster.lookups hroster
    · simp only [setTask, setPeer, hobj]
  | close i p hp ht =>
    refine Or.inl (attended_setPeer h hp ?_ rfl rfl rfl)
    intro hadd
    rw [ht] at hadd
    cases hadd
  | tick c now s' es hk => exact Or.inl (attended_tick h hk)

end Session

namespace Room
variable {r r' : Room} {es : List Event} {a : Op}

theorem step_attended (h : r.session.Attended) (hs : r.step a = some (r', es)) :
    r'.session.Attended ∨ (sessionPart es).any Session.Event.leavesEmpty = true := by
  obtain ⟨b, -, hb⟩ | ⟨-, hsame, -⟩ := step_session hs
  · exact Session.step_attended h hb
  · exact Or.inl (by rw [hsame]; exact h)

/-- A look-up and a tick let nobody leave. -/
theorem attended_of_quiet (ha : System.ofPeers a = false) (h : r.session.Attended)
    (hs : r.step a = some (r', es)) : r'.session.Attended := by
  obtain ⟨b, rfl, hb⟩ | ⟨-, hsame, -⟩ := step_session hs
  · generalize r'.session = s' at hb ⊢
    generalize sessionPart es = fs at hb
    cases Session.step_cases hb with
    | findSession => exact Or.inr (Or.inl (by simp))
    | tick c now s' es hk => exact Session.attended_tick h hk
    | newPeer k isHost hk => cases ha
    | advance i p c s' es hp hadv => cases ha
    | handle i p message now s₁ task es hp ht hre => cases ha
    | close i p hp ht => cases ha
  · rw [hsame]
    exact h

end Room

namespace Registry
variable {r₀ r r' : Registry} {es : List Event}

def Keeps (r₀ r : Registry) : Prop :=
  ∀ (k : RoomRef) (h : Hosted), r.rooms[k]? = some h → r.Registered k h →
    h.room.session.Attended ∨ ∃ h₀, r₀.rooms[k]? = some h₀ ∧ r₀.Registered k h₀ ∧
      h₀.game = h.game ∧ h₀.room.session.id = h.room.session.id ∧ ¬ h₀.room.session.Attended

theorem keeps_refl (r : Registry) : Keeps r r := by
  intro k h hk hreg
  by_cases ha : h.room.session.Attended
  · exact Or.inl ha
  · exact Or.inr ⟨h, hk, hreg, rfl, rfl, ha⟩

/-- A session that is found where it was found before. -/
theorem keeps_of_lookup (h : Keeps r₀ r) (hr : r'.rooms = r.rooms)
    (hl : ∀ g sessionId k, r'.lookup g sessionId = some k → r.lookup g sessionId = some k) :
    Keeps r₀ r' := by
  intro k hosted hk hreg
  rw [hr] at hk
  exact h k hosted hk (hl _ _ _ hreg)

theorem keeps_step {op : Op} (h : Keeps r₀ r) (hq : System.Quiet op)
    (hs : r.step op = some (r', es)) : Keeps r₀ r' := by
  cases step_cases hs with
  | idle gameId => exact h
  | refused g sessionId => exact h
  | newGame gameId config hf hc =>
    refine keeps_of_lookup h rfl ?_
    intro g sessionId k hk
    rwa [lookup_newGame] at hk
  | pingers g game pingers active hg =>
    refine keeps_of_lookup h rfl ?_
    intro g' sessionId k hk
    rwa [lookup_pingers hg] at hk
  | deleted g sessionId game hg => exact hq.elim
  | created g sessionId game hg hf =>
    intro k hosted hk hreg
    simp only [getElem?_snoc] at hk
    split at hk
    · cases hk
      exact Or.inl (Or.inr (Or.inl (by simp [Room.init])))
    · next hne =>
      unfold Registered at hreg
      rw [lookup_created hg hf] at hreg
      split at hreg
      · cases hreg
        exact absurd rfl hne
      · exact h k hosted hk hreg
  | room j a hosted₀ room fs hj hst =>
    have hlt := (List.getElem?_eq_some_iff.mp hj).1
    intro k hosted hk hreg
    by_cases hkj : k = j
    · subst hkj
      simp only [List.getElem?_set_self hlt, Option.some.injEq] at hk
      subst hk
      have hid := (Room.step_static hst).1
      have hreg₀ : r.Registered k hosted₀ := by
        unfold Registered at hreg ⊢
        simp only [hid] at hreg
        exact hreg
      obtain ha | ⟨h₀, hk₀, hreg₀, hgame, hid₀, hno⟩ := h k hosted₀ hj hreg₀
      · exact Or.inl (Room.attended_of_quiet hq ha hst)
      · exact Or.inr ⟨h₀, hk₀, hreg₀, hgame, hid₀.trans hid.symm, hno⟩
    · simp only [List.getElem?_set_ne (Ne.symm hkj)] at hk
      exact h k hosted hk hreg

end Registry

namespace System
variable {gamesConfig : GamesConfig} {s s' : System} {t es : List Event}

def Condemned (s : System) (k : RoomRef) (h : Hosted) : Prop :=
  .emptied k ∈ s.departures ∨ .deleting h.game h.room.session.id ∈ s.departures

def Cared (s : System) : Prop :=
  ∀ (k : RoomRef) (h : Hosted), s.registry.rooms[k]? = some h → s.registry.Registered k h →
    h.room.session.Attended ∨ s.Condemned k h

/-- A step that no peer takes and that deletes nothing. -/
theorem cared_of_keeps (h : Cared s) (hk : s.registry.Keeps s'.registry)
    (hd : ∀ k h, s.Condemned k h → s'.Condemned k h) : Cared s' := by
  intro k hosted hroom hreg
  obtain ha | ⟨h₀, hk₀, hreg₀, hgame, hid, hno⟩ := hk k hosted hroom hreg
  · exact Or.inl ha
  · have hcond := hd k h₀ ((h k h₀ hk₀ hreg₀).resolve_left hno)
    unfold Condemned at hcond ⊢
    rw [hgame, hid] at hcond
    exact Or.inr hcond

theorem keeps_of_sections {w : List Registry.Op} {fs : List Registry.Event}
    (hw : Registry.machine.run w [] s.registry = some (fs, s'.registry))
    (hq : ∀ op ∈ w, Quiet op) : s.registry.Keeps s'.registry :=
  run_invariant_along (M := Registry.machine) (I := fun _ r => s.registry.Keeps r)
    (C := fun _ _ op => Quiet op) (fun _ _ _ _ _ h hq hs => Registry.keeps_step h hq hs)
    (Registry.keeps_refl s.registry) (along_of_forall fun op hop _ _ => hq op hop) hw

/-- The step of a peer. -/
theorem cared_room {k : RoomRef} {b : Room.Op} {r : Registry} {fs : List Registry.Event}
    (h : Cared s) (hst : s.registry.stepRoom k b = some (r, fs)) :
    Cared { s with
      registry := r
      departures := s.departures ++
        if fs.any Registry.Event.leavesEmpty then [.emptied k] else [] } := by
  obtain ⟨hosted₀, room, gs, hk₀, hroom, rfl, rfl⟩ := Registry.stepRoom_some hst
  have hlt := (List.getElem?_eq_some_iff.mp hk₀).1
  intro j hosted hj hreg
  have hmore : s.Condemned j hosted → Condemned { s with
      registry := { s.registry with rooms := s.registry.rooms.set k ⟨hosted₀.game, room⟩ }
      departures := s.departures ++ if (gs.map (Registry.Event.room k)).any
        Registry.Event.leavesEmpty then [.emptied k] else [] } j hosted :=
    fun hc => hc.imp (List.mem_append_left _) (List.mem_append_left _)
  by_cases hjk : j = k
  · subst hjk
    simp only [List.getElem?_set_self hlt, Option.some.injEq] at hj
    subst hj
    have hid := (Room.step_static hroom).1
    have hreg₀ : s.registry.Registered j hosted₀ := by
      unfold Registry.Registered at hreg ⊢
      simp only [hid] at hreg
      exact hreg
    obtain ha | hc := h j hosted₀ hk₀ hreg₀
    · obtain ha' | hempty := Room.step_attended ha hroom
      · exact Or.inl ha'
      · refine Or.inr (Or.inl (List.mem_append_right _ ?_))
        rw [departing_room, hempty, if_pos rfl]
        exact List.mem_singleton.mpr rfl
    · refine Or.inr (hmore ?_)
      unfold Condemned at hc ⊢
      simp only [hid]
      exact hc
  · simp only [List.getElem?_set_ne (Ne.symm hjk)] at hj
    exact (h j hosted hj hreg).imp_right hmore

/-- The connection finds the game of the session that it left empty. -/
theorem cared_findGame {d : Nat} {k : RoomRef} {hosted : Hosted} {g : GameRef} {r : Registry}
    (hw : s.registry.gamesConfig.WellKeyed) (hst : Standing s) (h : Cared s)
    (hd : s.departures[d]? = some (.emptied k)) (hk : s.registry.rooms[k]? = some hosted)
    (hg : s.registry.getGameById hosted.room.session.config.gameId = (some g, r)) :
    Cared { s with
      registry := r, departures := s.departures.set d (.deleting g hosted.room.session.id) } := by
  have hlt := (List.getElem?_eq_some_iff.mp hd).1
  obtain ⟨game, hgame, hconf⟩ := hst.filed.hosted k hosted hk
  obtain ⟨g', hfind, hsame⟩ := hst.filed.configs _ game hgame
  rw [← hconf] at hfind
  have hmine : g = hosted.game ∧ r = s.registry := by
    simp only [Registry.getGameById, hfind, Prod.mk.injEq, Option.some.injEq] at hg
    exact ⟨hg.1.symm.trans (hsame hw), hg.2.symm⟩
  obtain ⟨rfl, rfl⟩ := hmine
  have hother : ∀ x ∈ s.departures, x ≠ .emptied k →
      x ∈ s.departures.set d (.deleting hosted.game hosted.room.session.id) := by
    intro x hx hne
    obtain ⟨n, hn⟩ := List.mem_iff_getElem?.mp hx
    have hnd : d ≠ n := by
      intro hdn
      rw [hdn, hn] at hd
      exact hne (Option.some.inj hd)
    exact List.mem_of_getElem? ((List.getElem?_set_ne hnd).trans hn)
  intro j hosted' hj hreg
  refine (h j hosted' hj hreg).imp_right fun hc => ?_
  obtain hc | hc := hc
  · by_cases hjk : j = k
    · subst hjk
      have hsame : hosted' = hosted := Option.some.inj (hj.symm.trans hk)
      rw [hsame]
      exact Or.inr (List.mem_of_getElem? (List.getElem?_set_self hlt))
    · exact Or.inl (hother _ hc fun he => hjk (by cases he; rfl))
  · exact Or.inr (hother _ hc (by simp))

theorem cared_deleteSession {d : Nat} {g : GameRef} {sessionId : String} {r : Registry}
    (h : Cared s) (hd : s.departures[d]? = some (.deleting g sessionId))
    (hdel : s.registry.deleteSession g sessionId = some r) :
    Cared { s with registry := r, departures := s.departures.eraseIdx d } := by
  obtain ⟨game, hg, -, rfl⟩ := Registry.deleteSession_some hdel
  intro j hosted hj hreg
  unfold Registry.Registered at hreg
  rw [Registry.lookup_deleted hg] at hreg
  split at hreg
  · cases hreg
  · next hne =>
    have hother : ∀ x ∈ s.departures, x ≠ .deleting g sessionId → x ∈ s.departures.eraseIdx d :=
      fun x hx hxd => (mem_pick hd hxd).mpr hx
    refine (h j hosted hj hreg).imp_right fun hc => hc.imp ?_ ?_
    · exact fun hc => hother _ hc (by simp)
    · refine fun hc => hother _ hc ?_
      intro he
      cases he
      exact hne ⟨rfl, rfl⟩

theorem step_cared {a : Op} (hw : s.registry.gamesConfig.WellKeyed) (hst : Standing s)
    (h : Cared s) (hs : s.step a = some (s', es)) : Cared s' := by
  obtain ⟨w, hsec, hquiet⟩ := step_sections hs
  cases step_cases hs with
  | room k b r fs hb hstep => exact cared_room h hstep
  | findGame d k hosted g r hd hk hg => exact cared_findGame hw hst h hd hk hg
  | deleteSession d g sessionId r hd hdel => exact cared_deleteSession h hd hdel
  | rejected params e r hf =>
    exact cared_of_keeps h (keeps_of_sections hsec hquiet) fun _ _ hc => hc
  | found params b r hf =>
    exact cared_of_keeps h (keeps_of_sections hsec hquiet) fun _ _ hc => hc
  | refused c b e r fs hb hg =>
    exact cared_of_keeps h (keeps_of_sections hsec hquiet) fun _ _ hc => hc
  | admitted c b k r fs hb hg =>
    exact cared_of_keeps h (keeps_of_sections hsec hquiet) fun _ _ hc => hc
  | pinger g p c now r fs hp =>
    exact cared_of_keeps h (keeps_of_sections hsec hquiet) fun _ _ hc => hc

theorem run_cared {w : List Op} (hw : gamesConfig.WellKeyed)
    (hr : machine.run w [] (init gamesConfig) = some (t, s)) : Cared s := by
  have hrun : (s.registry.gamesConfig.WellKeyed ∧ Standing s) ∧ Cared s := by
    refine run_invariant (I := fun _ s => (s.registry.gamesConfig.WellKeyed ∧ Standing s) ∧
      Cared s) ?_ ⟨⟨hw, standing_init gamesConfig⟩, ?_⟩ hr
    · intro t s a s' es h hs
      obtain ⟨⟨hw, hst⟩, hc⟩ := h
      refine ⟨⟨?_, step_standing hst hs⟩, step_cared hw hst hc hs⟩
      rw [(step_games hs).1]
      exact hw
    · intro k hosted hk
      cases hk
  exact hrun.2

/-- No session is left over: one that can be found has a peer in it or on its way into it, or a
connection that has left it empty and is going to delete it. -/
theorem no_session_left_over {w : List Op} {k : RoomRef} {h : Hosted} (hw : gamesConfig.WellKeyed)
    (hr : machine.run w [] (init gamesConfig) = some (t, s))
    (hk : s.registry.rooms[k]? = some h) (hreg : s.registry.Registered k h) :
    h.room.session.Attended ∨ s.Condemned k h :=
  run_cared hw hr k h hk hreg

def hostGone : List Op :=
  [.connect (parameters "game" "lobby" "host"), .getSession 0,
    .room 0 (.session (.newPeer 0)), .room 0 (.session (.advance 0 0)),
    .room 0 (.session (.advance 0 0)), .room 0 (.session (.close 0)),
    .room 0 (.session (.advance 0 0)), .room 0 (.session (.advance 0 0))]

theorem wellKeyed_oneGame : oneGame.WellKeyed :=
  GamesConfig.wellKeyed_putGameConfig GamesConfig.wellKeyed_empty _

theorem no_session_left_over_hostGone :
    ∃ t s h, machine.run hostGone [] (init oneGame) = some (t, s) ∧
      s.registry.rooms[0]? = some h ∧ h.room.session.peers.isEmpty = true ∧
      s.registry.Registered 0 h ∧ (h.room.session.Attended ∨ s.Condemned 0 h) := by
  have hrun : ((machine.run hostGone [] (init oneGame)).bind fun r =>
      (r.2.registry.rooms[0]?).map fun h => (h.room.session.peers.isEmpty,
        r.2.registry.lookup h.game h.room.session.id)) = some (true, some 0) := by
    decide +kernel
  obtain ⟨⟨t, s⟩, hr, hrun⟩ := Option.bind_eq_some_iff.mp hrun
  obtain ⟨h, hk, hh⟩ := Option.map_eq_some_iff.mp hrun
  obtain ⟨hempty, hreg⟩ := Prod.mk.inj hh
  exact ⟨t, s, h, hr, hk, hempty, hreg, no_session_left_over wellKeyed_oneGame hr hk hreg⟩

/-! ## At rest -/

theorem occupied_of_still {r : Room} (h : r.Still) (ha : r.session.Attended) : r.occupied := by
  obtain hocc | hlook | ⟨i, p, hp, ht⟩ := ha
  · exact hocc
  · exact absurd (List.isEmpty_iff.mp h.lookups) hlook
  · have hrest := h.threads p (List.mem_of_getElem? hp)
    rw [ht] at hrest
    cases hrest

theorem occupied_at_rest {w : List Op} {k : RoomRef} {h : Hosted} (hw : gamesConfig.WellKeyed)
    (hr : machine.run w [] (init gamesConfig) = some (t, s)) (hrest : machine.AtRest Own s)
    (hk : s.registry.rooms[k]? = some h) (hreg : s.registry.Registered k h) :
    h.room.occupied := by
  have hstill := still_of_atRest hr hrest
  have hnone := List.isEmpty_iff.mp hstill.departures
  obtain ha | hc | hc := run_cared hw hr k h hk hreg
  · exact occupied_of_still (hstill.rooms h (List.mem_of_getElem? hk)) ha
  · rw [hnone] at hc
    cases hc
  · rw [hnone] at hc
    cases hc

/-- At rest a session that can be found has a peer in it. Where each `addPeer` and each
`deleteSession` came in time, the sessions that can be found are those with a peer in them. -/
theorem registered_at_rest {w : List Op} (hw : gamesConfig.WellKeyed)
    (hr : machine.run w [] (init gamesConfig) = some (t, s)) (hrest : machine.AtRest Own s) :
    (∀ (k : RoomRef) (h : Hosted), s.registry.rooms[k]? = some h → s.registry.Registered k h →
      h.room.occupied) ∧
    (machine.Along (fun _ s a => s.InTime a) w [] (init gamesConfig) →
      ∀ (k : RoomRef) (h : Hosted), s.registry.rooms[k]? = some h →
        (s.registry.Registered k h ↔ h.room.occupied)) := by
  refine ⟨fun k h hk hreg => occupied_at_rest hw hr hrest hk hreg, ?_⟩
  intro htime k h hk
  refine ⟨occupied_at_rest hw hr hrest hk, ?_⟩
  have hregistering := run_invariant_along (I := Registering)
    (fun _ _ _ _ _ h hin hs => registering_step h hin hs) (registering_init gamesConfig) htime hr
  exact hregistering.occupied k h hk

theorem registered_at_rest_settledLobby :
    ∃ t s h, machine.run settledLobby [] (init oneGame) = some (t, s) ∧ s.Still ∧
      s.registry.rooms[0]? = some h ∧ s.registry.Registered 0 h ∧ h.room.occupied ∧
      (s.registry.Registered 0 h ↔ h.room.occupied) := by
  have hrun : ((machine.run settledLobby [] (init oneGame)).bind fun r =>
      (r.2.registry.rooms[0]?).map fun h => (decide r.2.Still,
        r.2.registry.lookup h.game h.room.session.id)) = some (true, some 0) := by
    decide +kernel
  obtain ⟨⟨t, s⟩, hr, hrun⟩ := Option.bind_eq_some_iff.mp hrun
  obtain ⟨h, hk, hh⟩ := Option.map_eq_some_iff.mp hrun
  obtain ⟨hstill, hreg⟩ := Prod.mk.inj hh
  have hstill : s.Still := of_decide_eq_true hstill
  obtain ⟨hocc, hiff⟩ := registered_at_rest wellKeyed_oneGame hr (still_atRest hstill)
  exact ⟨t, s, h, hr, hstill, hk, hreg, hocc 0 h hk hreg, hiff (by decide +kernel) 0 h hk⟩

end System
end Helicopter
