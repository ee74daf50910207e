import Helicopter.System

/-! Who is who in a session: the ids it has issued, its map and its host, over the whole life of
the server. -/
namespace Helicopter
open Interleaving

/-! ## Ids -/

namespace Roster

def Event.issued? : Event → Option Int
  | .created _ peerId _ => some peerId
  | _ => none

theorem issued_tell (r : Roster) (notice : Notice) :
    (r.tell notice).filterMap Event.issued? = [] := by
  unfold tell
  cases r.hostOf <;> rfl

theorem ids_setStage {r : Roster} {i : Nat} {m : Member} {stage : Stage}
    (hm : r.members[i]? = some m) :
    (r.setStage i m stage).members.map Member.peerId = r.members.map Member.peerId := by
  apply List.ext_getElem?
  intro j
  simp only [List.getElem?_map, getElem?_setStage hm]
  split
  · next hj => simp [hj, hm]
  · rfl

theorem step_issued {r r' : Roster} {a : Op} {es : List Event} (h : r.step a = some (r', es)) :
    r'.members.map Member.peerId =
      r.members.map Member.peerId ++ es.filterMap Event.issued? := by
  cases a with
  | findSession => cases h; exact (List.append_nil _).symm
  | newPeer k =>
    simp only [step] at h
    split at h
    · cases h
    · cases h; simp [Event.issued?]
  | add i =>
    simp only [step] at h
    split at h
    · cases h
    · next m hm =>
      split at h
      · cases h
        have he : (if m.isHost = true then [] else r.tell (.joined m.peerId)).filterMap
            Event.issued? = [] := by
          split
          · rfl
          · exact issued_tell r _
        rw [ids_setStage hm, List.filterMap_cons_none rfl, he, List.append_nil]
      · cases h
  | remove i =>
    simp only [step] at h
    split at h
    · cases h
    · next m hm =>
      split at h
      · cases h
        rw [ids_setStage hm, List.filterMap_cons_none rfl, issued_tell, List.append_nil]
      · cases h

end Roster

namespace Session
variable {s s' : Session} {t t' es : List Event} {i j : PeerRef} {p q : Peer}

def Event.issued? : Event → Option Int
  | .created _ peerId _ => some peerId
  | _ => none

def issuedIds (t : List Event) : List Int := t.filterMap Event.issued?

theorem issuedIds_roster (t : List Event) :
    issuedIds t = (t.filterMap Event.roster?).filterMap Roster.Event.issued? := by
  rw [List.filterMap_filterMap]
  apply List.filterMap_congr
  intro e he
  cases e with
  | offer j m =>
    cases hm : m.notice? <;> simp [Event.issued?, Event.roster?, Roster.Event.issued?, hm]
  | _ => rfl

theorem step_issued {a : Op} (h : Agrees s) (hs : s.step a = some (s', es)) :
    s'.objects.map Peer.peerId = s.objects.map Peer.peerId ++ issuedIds es := by
  have hr := (step_roster h hs).2
  have hids : ∀ s : Session, s.objects.map Peer.peerId = s.roster.members.map Member.peerId := by
    intro s
    simp [roster, Peer.member, Function.comp_def]
  rw [hids, hids, issuedIds_roster]
  cases ho : s.rosterOp a with
  | none =>
    rw [ho] at hr
    simp only [Option.toList_none, Machine.run, Option.some.injEq, Prod.mk.injEq] at hr
    obtain ⟨he, hro⟩ := hr
    rw [← he, ← hro]
    exact (List.append_nil _).symm
  | some op =>
    rw [ho] at hr
    obtain ⟨r₁, fs, hst, hr⟩ := run_cons_some hr
    simp only [List.nil_append, Machine.run, Option.some.injEq, Prod.mk.injEq] at hr
    obtain ⟨he, hro⟩ := hr
    rw [← he, ← hro]
    exact Roster.step_issued hst

structure Identified (t : List Event) (s : Session) : Prop where
  entry : ∀ k i, s.peers.find k = some i → ∃ p, s.objects[i]? = some p ∧ p.peerId = k
  issued : issuedIds t = s.objects.map Peer.peerId
  distinct : (issuedIds t).Nodup
  adding : ∀ (i : Nat) (p : Peer), s.objects[i]? = some p → p.task = .adding →
    s.peers.find p.peerId = none
  removing : ∀ (i : Nat) (p : Peer), s.objects[i]? = some p → p.task = .removing →
    s.peers.find p.peerId = some i ∧
      ∀ k j, (s.removePeerById p.peerId).1.peers.find k = some j ↔
        s.peers.find k = some j ∧ j ≠ i
  host : ∀ i, s.host = some i →
    ∃ p, s.objects[i]? = some p ∧ p.isHost = true ∧ s.peers.find p.peerId = some i
  unique : ∀ (i j : Nat) (p q : Peer), s.objects[i]? = some p → s.objects[j]? = some q →
    p.isHost = true → q.isHost = true → i = j

theorem find_removePeerById (h : Agrees s) (hp : s.objects[i]? = some p)
    (hf : s.peers.find p.peerId = some i) (k : Int) (j : PeerRef) :
    (s.removePeerById p.peerId).1.peers.find k = some j ↔ s.peers.find k = some j ∧ j ≠ i := by
  rw [removePeerById_fst]
  show (s.peers.eraseKey p.peerId).find k = some j ↔ _
  rw [UnorderedMap.find_eraseKey]
  split
  · next hk =>
    subst hk
    constructor
    · intro hj
      cases hj
    · rintro ⟨hj, hne⟩
      rw [hf] at hj
      cases hj
      exact absurd rfl hne
  · next hk =>
    constructor
    · intro hj
      refine ⟨hj, ?_⟩
      intro he
      subst he
      obtain ⟨q, hq, hid⟩ := peerId_of_find h hj
      rw [hp] at hq
      cases hq
      exact hk hid.symm
    · rintro ⟨hj, -⟩
      exact hj

theorem identified_of_agrees (h : Agrees s) (hi : issuedIds t = s.objects.map Peer.peerId) :
    Identified t s where
  entry k i hf := peerId_of_find h hf
  issued := hi
  distinct := by
    have hd := h.wf.distinct
    rw [hi]
    simpa [roster, Peer.member, Function.comp_def] using hd
  adding i p hp ht :=
    peers_find_coming h (member_of_object hp) (by simp [Peer.member, ht, Task.stage])
  removing i p hp ht := by
    have hf := find_inside h hp (by rw [ht]; rfl)
    exact ⟨hf, find_removePeerById h hp hf⟩
  host i hi := by
    rw [h.host, Roster.hostOf_eq_some h.wf] at hi
    obtain ⟨m, hm, hh, hst⟩ := hi
    obtain ⟨p, hp, rfl⟩ := object_of_member hm
    exact ⟨p, hp, hh, find_inside h hp hst⟩
  unique i j p q hp hq hph hqh :=
    h.wf.unique i j p.member q.member (member_of_object hp) (member_of_object hq) hph hqh

theorem run_identified {id : String} {config : GameConfigDto} {w : List Op}
    (hr : machine.run w [] { id := id, config := config } = some (t, s)) : Identified t s := by
  have hI : Agrees s ∧ issuedIds t = s.objects.map Peer.peerId := by
    refine run_invariant (I := fun t s => Agrees s ∧ issuedIds t = s.objects.map Peer.peerId) ?_
      ⟨agrees_init id config, rfl⟩ hr
    intro t s a s' es h hs
    refine ⟨(step_roster h.1 hs).1, ?_⟩
    rw [step_issued h.1 hs, ← h.2]
    exact List.filterMap_append
  exact identified_of_agrees hI.1 hI.2

/-! ## The host over time -/

theorem run_later {w : List Op} (h : Agrees s) (hr : machine.run w t s = some (t', s'))
    (hp : s.objects[i]? = some p) :
    Agrees s' ∧ ∃ p', s'.objects[i]? = some p' ∧ Roster.Later p.member p'.member := by
  refine run_invariant (I := fun _ s' => Agrees s' ∧
    ∃ p', s'.objects[i]? = some p' ∧ Roster.Later p.member p'.member) ?_
    ⟨h, p, hp, Roster.Later.refl p.member⟩ hr
  rintro t s a s' es ⟨hA, p₁, hp₁, hl₁⟩ hs
  obtain ⟨p₂, hp₂, hl₂⟩ := step_later hA hs hp₁
  exact ⟨(step_roster hA hs).1, p₂, hp₂, hl₁.trans hl₂⟩

/-- The only host `s'` can have is a peer of the host's role that is in the session by then. -/
theorem host_later {w : List Op} (h : Agrees s) (hr : machine.run w t s = some (t', s'))
    (hp : s.objects[i]? = some p) (hh : p.isHost = true) (hj : s'.host = some j) :
    j = i ∧ p.task.stage ≠ .gone := by
  obtain ⟨hA, p', hp', hl⟩ := run_later h hr hp
  rw [hA.host, Roster.hostOf_eq_some hA.wf] at hj
  obtain ⟨m, hm, hmh, hin⟩ := hj
  have hji : j = i :=
    hA.wf.unique j i m p'.member hm (member_of_object hp') hmh (hl.isHost.trans hh)
  refine ⟨hji, ?_⟩
  subst hji
  rw [member_of_object hp'] at hm
  cases hm
  intro hg
  rw [hl.left hg] at hin
  cases hin

structure HostSettled (s s' : Session) : Prop where
  one : ∀ i j, s.host = some i → s'.host = some j → j = i
  gone : ∀ (i : Nat) (p : Peer), s.objects[i]? = some p → p.isHost = true → p.task = .removed →
    s'.host = none

theorem run_hostSettled {w : List Op} (h : Agrees s) (hr : machine.run w t s = some (t', s')) :
    HostSettled s s' := by
  constructor
  · intro i j hi hj
    rw [h.host, Roster.hostOf_eq_some h.wf] at hi
    obtain ⟨m, hm, hh, -⟩ := hi
    obtain ⟨p, hp, rfl⟩ := object_of_member hm
    exact (host_later h hr hp hh hj).1
  · intro i p hp hh ht
    by_contra hne
    obtain ⟨j, hj⟩ := Option.ne_none_iff_exists'.mp hne
    exact (host_later h hr hp hh hj).2 (by rw [ht]; rfl)

end Session

/-! ## Rooms over time -/

namespace Room

theorem simulates_session : Simulates machine Session.machine (fun r s => r.session = s)
    Event.session? := by
  intro r a r' es s hs hR
  subst hR
  obtain ⟨b, -, hb⟩ | ⟨-, hsame, hnil⟩ := step_session hs
  · exact ⟨[b], r'.session, run_singleton hb, rfl⟩
  · refine ⟨[], r'.session, ?_, rfl⟩
    rw [hsame]
    exact congrArg (fun es => some (es, r.session)) hnil.symm

def Leads (r r' : Room) : Prop := ∃ w t, machine.run w [] r = some (t, r')

theorem Leads.refl (r : Room) : Leads r r := ⟨[], [], rfl⟩

theorem Leads.step {r r₁ r₂ : Room} {a : Op} {es : List Event} (h : Leads r r₁)
    (hs : r₁.step a = some (r₂, es)) : Leads r r₂ := by
  obtain ⟨w, t, hw⟩ := h
  exact ⟨w ++ [a], t ++ es, run_step_last hw hs⟩

theorem Leads.session {r r' : Room} (h : Leads r r') :
    ∃ w t, Session.machine.run w [] r.session = some (t, r'.session) := by
  obtain ⟨w, t, hw⟩ := h
  obtain ⟨v, s, hv, rfl⟩ := simulates_session.run rfl hw
  exact ⟨v, _, hv⟩

end Room

namespace Registry

def Continues (r r' : Registry) : Prop :=
  ∀ (k : Nat) (h : Hosted), r.rooms[k]? = some h →
    ∃ h', r'.rooms[k]? = some h' ∧ h'.game = h.game ∧ Room.Leads h.room h'.room

theorem step_continues {r₀ r r' : Registry} {op : Op} {es : List Event} (h : Continues r₀ r)
    (hs : r.step op = some (r', es)) : Continues r₀ r' := by
  intro k h₀ hk₀
  obtain ⟨h₁, hk₁, hg, hl⟩ := h k h₀ hk₀
  have hsame : r'.rooms = r.rooms → ∃ h', r'.rooms[k]? = some h' ∧ h'.game = h₀.game ∧
      Room.Leads h₀.room h'.room := by
    intro hr
    rw [hr]
    exact ⟨h₁, hk₁, hg, hl⟩
  cases step_cases hs with
  | created g sessionId game hgame hf =>
    have hlt := (List.getElem?_eq_some_iff.mp hk₁).1
    exact ⟨h₁, (List.getElem?_append_left hlt).trans hk₁, hg, hl⟩
  | room j a hosted room fs hj hst =>
    have hlt := (List.getElem?_eq_some_iff.mp hk₁).1
    by_cases hkj : k = j
    · subst hkj
      rw [hk₁] at hj
      cases hj
      exact ⟨⟨h₁.game, room⟩, List.getElem?_set_self hlt, hg, hl.step hst⟩
    · exact ⟨h₁, (List.getElem?_set_ne (Ne.symm hkj)).trans hk₁, hg, hl⟩
  | _ => exact hsame rfl

end Registry

namespace System
variable {gamesConfig : GamesConfig} {s s' : System} {t t' : List Event} {w : List Op}

theorem run_continues (hr : machine.run w t s = some (t', s')) :
    s.registry.Continues s'.registry := by
  have hrefl : s.registry.Continues s.registry :=
    fun k h hk => ⟨h, hk, rfl, Room.Leads.refl h.room⟩
  exact run_invariant (I := fun _ s' => s.registry.Continues s'.registry)
    (fun _ _ _ _ _ h hs => step_registry (I := fun _ r => s.registry.Continues r) (t := [])
      (fun _ _ _ _ _ => Registry.step_continues) h hs) hrefl hr

/-- Peer identity and the host: at any time of any session, and from any time on. -/
theorem identity_and_host {u v : List Op} {k : RoomRef} {h : Hosted}
    (hu : machine.run u [] (init gamesConfig) = some (t, s))
    (hv : machine.run v t s = some (t', s')) (hk : s.registry.rooms[k]? = some h) :
    Session.Identified (Room.sessionPart (roomPart k t)) h.room.session ∧
      ∃ h', s'.registry.rooms[k]? = some h' ∧ h.room.session.HostSettled h'.room.session := by
  obtain ⟨id, config, hreached⟩ := run_reached hu hk
  obtain ⟨h', hk', -, hl⟩ := run_continues hv k h hk
  obtain ⟨x, hx⟩ := hreached.session
  obtain ⟨y, es, hy⟩ := hl.session
  exact ⟨Session.run_identified hx, h', hk', Session.run_hostSettled hreached.sound.1 hy⟩

def hostLeaves : List Op :=
  [.room 0 (.session (.advance 0 0)), .room 0 (.session (.close 0)),
    .room 0 (.session (.advance 0 0)), .room 0 (.session (.advance 0 0))]

theorem identity_and_host_left :
    ∃ t s h t' s' h', machine.run hostAndClient [] (init oneGame) = some (t, s) ∧
      machine.run hostLeaves t s = some (t', s') ∧ s.registry.rooms[0]? = some h ∧
      h.room.session.host = some 0 ∧
      Session.Identified (Room.sessionPart (roomPart 0 t)) h.room.session ∧
      s'.registry.rooms[0]? = some h' ∧ h.room.session.HostSettled h'.room.session := by
  have hrun : ((machine.run hostAndClient [] (init oneGame)).bind fun r =>
      (machine.run hostLeaves r.1 r.2).bind fun _ =>
        (r.2.registry.rooms[0]?).map (·.room.session.host)) = some (some 0) := by
    decide +kernel
  obtain ⟨⟨t, s⟩, hu, hrun⟩ := Option.bind_eq_some_iff.mp hrun
  obtain ⟨⟨t', s'⟩, hv, hrun⟩ := Option.bind_eq_some_iff.mp hrun
  obtain ⟨h, hk, hh⟩ := Option.map_eq_some_iff.mp hrun
  obtain ⟨hid, h', hk', hs⟩ := identity_and_host hu hv hk
  exact ⟨t, s, h, t', s', h', hu, hv, hk, hh, hid, hk', hs⟩

end System
end Helicopter
