import Helicopter.EachSession
import Helicopter.Lib.Provenance

/-! A lineage inside every session is one inside the server: no item passes from one session to
another, and the steps that no peer takes cause none. -/
namespace Helicopter
namespace System
open Interleaving
variable {χ : Type*} {room : χ → RoomRef} {I : Session → Prop}
  {causes : χ → Session → Session.Op → Prop} {waits : Session → χ → Prop}
  {output : List Session.Event → χ → Prop} {s s' : System} {t es : List Event}

def CausesIn (room : χ → RoomRef) (causes : χ → Session → Session.Op → Prop) (x : χ) (s : System)
    (a : Op) : Prop :=
  ∃ b h, a = .room (room x) (.session b) ∧ s.registry.rooms[room x]? = some h ∧
    causes x h.room.session b

def WaitsIn (room : χ → RoomRef) (waits : Session → χ → Prop) (s : System) (x : χ) : Prop :=
  ∃ h, s.registry.rooms[room x]? = some h ∧ waits h.room.session x

def OutputIn (room : χ → RoomRef) (output : List Session.Event → χ → Prop) (t : List Event)
    (x : χ) : Prop :=
  output (Room.sessionPart (roomPart (room x) t)) x

def Keeps (I : Session → Prop) (t : List Event) (s : System) : Prop :=
  s.registry.EachRoom (fun _ room => I room.session) (registryPart t)

theorem Keeps.holds (h : Keeps I t s) {k : RoomRef} {hosted : Hosted}
    (hk : s.registry.rooms[k]? = some hosted) : I hosted.room.session :=
  Each.holds h k hosted.room (by rw [List.getElem?_map, hk]; rfl)

theorem Keeps.silent (h : Keeps I t s) {k : RoomRef} (hk : s.registry.rooms[k]? = none) :
    roomPart k t = [] :=
  Each.silent h k (by simpa using List.getElem?_eq_none_iff.mp hk)

theorem keeps_init (I : Session → Prop) (gamesConfig : GamesConfig) :
    Keeps I [] (init gamesConfig) :=
  each_nil fun _ => rfl

structure SessionLineage (I : Session → Prop) (causes : χ → Session → Session.Op → Prop)
    (waits : Session → χ → Prop) (output : List Session.Event → χ → Prop) : Prop where
  rules : Lineage Session.machine (fun _ s => I s) causes waits output
  init : ∀ id config, I { id := id, config := config }
  step : ∀ s a s' es, I s → Session.machine.step s a = some (s', es) → I s'
  fresh : ∀ id config x, ¬ waits { id := id, config := config } x
  silent : ∀ x, ¬ output [] x
  quiet : ∀ x s b, ofPeers (.session b) = false → ¬ causes x s b

namespace SessionLineage
variable (hl : SessionLineage I causes waits output)
include hl

theorem step_keeps {a : Op} (h : Keeps I t s) (hs : s.step a = some (s', es)) :
    Keeps I (t ++ es) s' := by
  refine step_eachRoom (C := fun _ _ _ => True) ?_ ?_ ?_ h ?_ hs
  · exact hl.init
  · exact fun _ _ _ _ => trivial
  · intro _ r b r' _ hI _ hs
    obtain ⟨c, -, hc⟩ | ⟨-, hsame, -⟩ := Room.step_session hs
    · exact hl.step _ c _ _ hI hc
    · rw [hsame]
      exact hI
  · unfold Meets
    split
    · exact fun _ _ => trivial
    · trivial

/-- Steps that no peer takes send nothing on. -/
theorem run_quiet {v : List Room.Op} {r r' : Room} {fs : List Room.Event} (hI : I r.session)
    (hv : Room.machine.run v [] r = some (fs, r')) (hq : ∀ b ∈ v, ofPeers b = false) (x : χ) :
    (waits r'.session x → waits r.session x) ∧
      (output (Room.sessionPart fs) x → waits r.session x) := by
  have hrun : I r'.session ∧ (waits r'.session x → waits r.session x) ∧
      (output (Room.sessionPart fs) x → waits r.session x) := by
    refine run_invariant_along (M := Room.machine) (C := fun _ _ b => ofPeers b = false)
      (I := fun fs r' => I r'.session ∧ (waits r'.session x → waits r.session x) ∧
        (output (Room.sessionPart fs) x → waits r.session x)) ?_ ?_
      (along_of_forall fun b hb _ _ => hq b hb) hv
    swap
    · exact ⟨hI, id, fun ho => absurd ho (hl.silent x)⟩
    rintro fs r₁ b r₂ gs ⟨hI₁, hw, ho⟩ hb hs
    obtain ⟨c, rfl, hc⟩ | ⟨-, hsame, hnil⟩ := Room.step_session hs
    · refine ⟨hl.step _ c _ _ hI₁ hc, ?_, ?_⟩
      · intro hx
        obtain hx | hx := hl.rules.wait [] _ c _ _ x hI₁ hc hx
        · exact hw hx
        · exact absurd hx (hl.quiet x _ c hb)
      · intro hx
        rw [Room.sessionPart_append] at hx
        obtain hx | hx := hl.rules.append _ _ x hx
        · exact ho hx
        · exact hw (hl.rules.out [] _ c _ _ x hI₁ hc hx)
    · rw [Room.sessionPart_append, hnil, List.append_nil, hsame]
      exact ⟨hI₁, hw, ho⟩
  exact hrun.2

theorem step_item {a : Op} (h : Keeps I t s) (hs : s.step a = some (s', es)) (x : χ)
    {hosted : Hosted} (hk : s'.registry.rooms[room x]? = some hosted) :
    (waits hosted.room.session x → WaitsIn room waits s x ∨ CausesIn room causes x s a) ∧
      (OutputIn room output es x → WaitsIn room waits s x) := by
  cases step_room hs hk with
  | own h₀ b ha hk₀ hst =>
    have hI := h.holds hk₀
    obtain ⟨c, rfl, hc⟩ | ⟨-, hsame, hnil⟩ := Room.step_session hst
    · constructor
      · intro hx
        obtain hx | hx := hl.rules.wait [] _ c _ _ x hI hc hx
        · exact Or.inl ⟨h₀, hk₀, hx⟩
        · exact Or.inr ⟨c, h₀, ha, hk₀, hx⟩
      · intro hx
        exact ⟨h₀, hk₀, hl.rules.out [] _ c _ _ x hI hc hx⟩
    · constructor
      · intro hx
        rw [hsame] at hx
        exact Or.inl ⟨h₀, hk₀, hx⟩
      · intro hx
        unfold OutputIn at hx
        rw [hnil] at hx
        exact absurd hx (hl.silent x)
  | quiet r v hst hv hq =>
    obtain ⟨h₀, hk₀, rfl⟩ | ⟨-, id, config, rfl⟩ := hst
    · obtain ⟨hw, ho⟩ := hl.run_quiet (h.holds hk₀) hv hq x
      exact ⟨fun hx => Or.inl ⟨h₀, hk₀, hw hx⟩, fun hx => ⟨h₀, hk₀, ho hx⟩⟩
    · obtain ⟨hw, ho⟩ := hl.run_quiet (hl.init id config) hv hq x
      exact ⟨fun hx => absurd (hw hx) (hl.fresh id config x),
        fun hx => absurd (ho hx) (hl.fresh id config x)⟩

theorem server (room : χ → RoomRef) : Lineage machine (Keeps I) (CausesIn room causes)
    (WaitsIn room waits) (OutputIn room output) where
  wait t s a s' es x hI hs hx := by
    obtain ⟨h', hk, hx⟩ := hx
    exact (hl.step_item hI hs x hk).1 hx
  out t s a s' es x hI hs hx := by
    cases hk : s'.registry.rooms[room x]? with
    | some h' => exact (hl.step_item hI hs x hk).2 hx
    | none =>
      have hnil : roomPart (room x) (t ++ es) = [] := (hl.step_keeps hI hs).silent hk
      rw [roomPart_append] at hnil
      unfold OutputIn at hx
      rw [(List.append_eq_nil_iff.mp hnil).2] at hx
      exact absurd hx (hl.silent x)
  append t u x hx := by
    unfold OutputIn at hx
    rw [roomPart_append, Room.sessionPart_append] at hx
    exact hl.rules.append _ _ x hx

theorem run (room : χ → RoomRef) {gamesConfig : GamesConfig} {w : List Op}
    (hr : machine.run w [] (System.init gamesConfig) = some (t, s)) (x : χ) :
    (WaitsIn room waits s x → machine.Passes (CausesIn room causes x) w (System.init gamesConfig)) ∧
      (OutputIn room output t x →
        machine.Passes (CausesIn room causes x) w (System.init gamesConfig)) := by
  refine (hl.server room).run ?_ (keeps_init I gamesConfig) ?_ ?_ hr x
  · exact fun t s a s' es hI hs => hl.step_keeps hI hs
  · rintro y ⟨h, hk, -⟩
    cases hk
  · exact fun y => hl.silent y

end SessionLineage
end System
end Helicopter
