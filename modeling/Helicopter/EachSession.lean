import Helicopter.System

/-! What holds of every session of the server because each of its own steps keeps it, and the
conditions under which steps do. -/
namespace Helicopter
open Interleaving

namespace Registry
variable {I : List Room.Event → Room → Prop} {C : List Room.Event → Room → Room.Op → Prop}

def EachRoom (I : List Room.Event → Room → Prop) (t : List Event) (r : Registry) : Prop :=
  Each I (fun k => roomPart k t) (r.rooms.map Hosted.room)

def Meets (C : List Room.Event → Room → Room.Op → Prop) (t : List Event) (r : Registry) :
    Op → Prop
  | .stepRoom k a => ∀ h : Hosted, r.rooms[k]? = some h → C (roomPart k t) h.room a
  | _ => True

theorem step_eachRoom (hnew : ∀ id config, I [] (Room.init id config))
    (hstep : ∀ t room a room' es, I t room → C t room a → room.step a = some (room', es) →
      I (t ++ es) room')
    {t es : List Event} {r r' : Registry} {op : Op} (h : r.EachRoom I t) (hc : r.Meets C t op)
    (hs : r.step op = some (r', es)) : r'.EachRoom I (t ++ es) := by
  have hquiet : ∀ k, roomPart k (t ++ []) = roomPart k t := fun k => by simp
  cases step_cases hs with
  | idle gameId => exact each_same h hquiet
  | newGame gameId config hf hc => exact each_same h hquiet
  | refused g sessionId => exact each_same h hquiet
  | created g sessionId game hg hf =>
    unfold EachRoom
    rw [List.map_append]
    exact each_spawn h (hnew sessionId game.config) hquiet
  | room k a hosted room fs hk hst =>
    have hroom : (r.rooms.map Hosted.room)[k]? = some hosted.room := by
      rw [List.getElem?_map, hk]
      rfl
    unfold EachRoom
    rw [List.map_set]
    refine each_step h hroom (hstep _ _ a _ fs (h.holds k _ hroom) (hc hosted hk) hst) ?_
    intro j
    rw [roomPart_append, roomPart_room]
    split <;> simp
  | deleted g sessionId game hg => exact each_same h hquiet
  | pingers g game pingers active hg => exact each_same h hquiet

end Registry

namespace System
variable {I P : List Room.Event → Room → Prop} {C : List Room.Event → Room → Room.Op → Prop}
  {s s' : System} {t es : List Event}

def EachRoom (P : List Room.Event → Room → Prop) (t : List Event) (s : System) : Prop :=
  ∀ (k : RoomRef) (h : Hosted), s.registry.rooms[k]? = some h → P (roomPart k t) h.room

def Meets (C : List Room.Event → Room → Room.Op → Prop) (t : List Event) (s : System) :
    Op → Prop
  | .room k a => ∀ h : Hosted, s.registry.rooms[k]? = some h → C (roomPart k t) h.room a
  | _ => True

theorem eachRoom_of_registry (h : s.registry.EachRoom I (registryPart t))
    (hP : ∀ t room, I t room → P t room) : EachRoom P t s :=
  fun k hosted hk => hP _ _ (h.holds k hosted.room (by rw [List.getElem?_map, hk]; rfl))

/-- The sections of a step that meets the condition meet it, where steps that no peer takes
always do. -/
theorem step_sections_meet (hquiet : ∀ t room a, ofPeers a = false → C t room a) {a : Op}
    (hc : Meets C t s a) (hs : s.step a = some (s', es)) :
    ∃ w, Registry.machine.run w (registryPart t) s.registry =
        some (registryPart (t ++ es), s'.registry) ∧
      Registry.machine.Along (Registry.Meets C) w (registryPart t) s.registry := by
  obtain ⟨w, hw, hsec⟩ := step_sections hs
  refine ⟨w, ?_, ?_⟩
  · rw [run_history, hw, registryPart_append]
    rfl
  · split at hsec
    · next op hop =>
      subst hsec
      have hop' : Registry.Meets C (registryPart t) s.registry op := by
        cases a with
        | room k b =>
          cases hop
          exact hc
        | deleteSession d =>
          simp only [section?] at hop
          split at hop
          · cases hop
            trivial
          · cases hop
        | _ => cases hop
      exact fun r fs _ => ⟨hop', trivial⟩
    · refine along_of_forall ?_
      intro op hop t r
      have hq := hsec op hop
      cases op with
      | stepRoom k b => exact fun h _ => hquiet _ _ b hq
      | _ => trivial

theorem step_eachRoom (hnew : ∀ id config, I [] (Room.init id config))
    (hquiet : ∀ t room a, ofPeers a = false → C t room a)
    (hstep : ∀ t room a room' es, I t room → C t room a → room.step a = some (room', es) →
      I (t ++ es) room')
    {a : Op} (h : s.registry.EachRoom I (registryPart t)) (hc : Meets C t s a)
    (hs : s.step a = some (s', es)) : s'.registry.EachRoom I (registryPart (t ++ es)) := by
  obtain ⟨w, hw, hmeet⟩ := step_sections_meet hquiet hc hs
  exact run_invariant_along (M := Registry.machine) (I := fun t r => r.EachRoom I t)
    (fun _ _ _ _ _ h hc hs => Registry.step_eachRoom hnew hstep h hc hs) h hmeet hw

theorem not_eachRoom (hlost : ∀ t room a room' es, I t room → ¬ C t room a →
      room.step a = some (room', es) → ¬ P (t ++ es) room')
    {a : Op} (h : s.registry.EachRoom I (registryPart t)) (hc : ¬ Meets C t s a)
    (hs : s.step a = some (s', es)) : ¬ EachRoom P (t ++ es) s' := by
  intro hall
  cases a with
  | room k b =>
    apply hc
    intro hosted hk
    by_contra hno
    obtain ⟨w, hw, hsec⟩ := step_sections hs
    have hsec : w = [.stepRoom k b] := hsec
    subst hsec
    obtain ⟨r, fs, hst, hr⟩ := run_cons_some hw
    simp only [List.nil_append, Machine.run, Option.some.injEq, Prod.mk.injEq] at hr
    obtain ⟨hosted', room, gs, hk', hroom, hr', hfs⟩ := Registry.stepRoom_some hst
    rw [hk] at hk'
    cases hk'
    have hlt := (List.getElem?_eq_some_iff.mp hk).1
    have hP := hall k ⟨hosted.game, room⟩ (by rw [← hr.2, hr']; exact List.getElem?_set_self hlt)
    have hpart : roomPart k es = gs := by
      rw [roomPart, ← hr.1, hfs, Registry.roomPart_room, if_pos rfl]
    rw [roomPart_append, hpart] at hP
    exact hlost _ _ b room gs (h.holds k hosted.room (by rw [List.getElem?_map, hk]; rfl)) hno
      hroom hP
  | _ => exact hc trivial

/-- Where the exact condition for a session is known, it is the condition for the server. -/
theorem eachRoom_iff_along (hnew : ∀ id config, I [] (Room.init id config))
    (hP : ∀ t room, I t room → P t room)
    (hquiet : ∀ t room a, ofPeers a = false → C t room a)
    (hstep : ∀ t room a room' es, I t room → C t room a → room.step a = some (room', es) →
      I (t ++ es) room')
    (hlost : ∀ t room a room' es, I t room → ¬ C t room a → room.step a = some (room', es) →
      ¬ P (t ++ es) room')
    (gamesConfig : GamesConfig) (w : List Op) :
    machine.Throughout (EachRoom P) w [] (init gamesConfig) ↔
      machine.Along (Meets C) w [] (init gamesConfig) := by
  refine throughout_iff_along (I := fun t s => s.registry.EachRoom I (registryPart t)) ?_ ?_ ?_ ?_
  · exact fun t s h => eachRoom_of_registry h hP
  · exact fun t s a s' es h hc hs => step_eachRoom hnew hquiet hstep h hc hs
  · exact fun t s a s' es h hc hs => not_eachRoom hlost h hc hs
  · exact each_nil fun k => rfl

end System
end Helicopter
