import Helicopter.Registry

/-! The sections of a `Pinger` coroutine, with what an observer sees of each. -/
namespace Helicopter
open Interleaving

namespace Registry

/-- What `Pinger::act` lets an observer see: that it begins, with the sessions it finds, that it
calls `checkAllPeersPings` or `pingAllPeers` of a session, and that it ends. -/
inductive Beat where
  | activated (g : GameRef) (sessions : List RoomRef)
  | checks (g : GameRef) (k : RoomRef)
  | pings (g : GameRef) (k : RoomRef)
  | waits (g : GameRef)
  | stopped (g : GameRef)
  deriving DecidableEq

def Beat.game : Beat → GameRef
  | .activated g _ | .checks g _ | .pings g _ | .waits g | .stopped g => g

/-- What is seen of the next section of a coroutine; `c` is the choice of its loop. -/
def beats (g : GameRef) (game : Game) (c : Nat) : Pinger → List Beat
  | .waiting =>
    if game.sessions.isEmpty then [.stopped g] else [.activated g game.sessions.values]
  | .checking none rest => (rest[c]?).toList.map (.checks g)
  | .pinging none [] => [.waits g]
  | .pinging none rest => (rest[c]?).toList.map (.pings g)
  | .checking (some _) _ | .pinging (some _) _ => []

theorem game_beats {g : GameRef} {game : Game} {c : Nat} {x : Pinger} :
    ∀ b ∈ beats g game c x, b.game = g := by
  intro b hb
  unfold beats at hb
  split at hb
  · split at hb <;> rw [List.mem_singleton.mp hb] <;> rfl
  · obtain ⟨k, -, rfl⟩ := List.mem_map.mp hb
    rfl
  · rw [List.mem_singleton.mp hb]
    rfl
  · obtain ⟨k, -, rfl⟩ := List.mem_map.mp hb
    rfl
  · cases hb
  · cases hb

variable {r r' r₁ : Registry} {es fs : List Event} {g : GameRef} {game : Game} {p c : Nat}
  {now : Int} {x : Pinger}

def goTo (r : Registry) (g : GameRef) (game : Game) (p : Nat) (next : Pinger) : Registry :=
  r.setGame g { game with pingers := game.pingers.set p next }

inductive Acts (r : Registry) (g : GameRef) (game : Game) (p c : Nat) (now : Int) :
    Pinger → Registry → List Event → List Beat → Prop where
  | stop : game.locked = false → game.sessions.isEmpty = true →
    Acts r g game p c now .waiting (r.setGame g
      { game with isPingerActive := false, pingers := game.pingers.eraseIdx p }) [] [.stopped g]
  | activate : game.locked = false → game.sessions.isEmpty = false →
    Acts r g game p c now .waiting (r.goTo g game p (.checking none game.sessions.values))
      [] [.activated g game.sessions.values]
  | check (rest : List RoomRef) (k : RoomRef) : rest[c]? = some k →
    Acts r g game p c now (.checking none rest)
      (r.goTo g game p (.checking (some k) (rest.eraseIdx c))) [] [.checks g k]
  | checking (k : RoomRef) (rest : List RoomRef) (task : PingerTask) (r₁ : Registry)
    (fs : List Event) : r.tickRoom k c now = some (task, r₁, fs) → task ≠ .checked →
    Acts r g game p c now (.checking (some k) rest) r₁ fs []
  | checked (k : RoomRef) (rest : List RoomRef) (r₁ : Registry) (fs : List Event) :
    r.tickRoom k c now = some (.checked, r₁, fs) →
    Acts r g game p c now (.checking (some k) rest) (r₁.goTo g game p (.checking none rest)) fs []
  | turn : Acts r g game p c now (.checking none [])
      (r.goTo g game p (.pinging none game.sessions.values)) [] []
  | ping (rest : List RoomRef) (k : RoomRef) : rest[c]? = some k →
    Acts r g game p c now (.pinging none rest)
      (r.goTo g game p (.pinging (some k) (rest.eraseIdx c))) [] [.pings g k]
  | pinging (k : RoomRef) (rest : List RoomRef) (task : PingerTask) (r₁ : Registry)
    (fs : List Event) : r.tickRoom k c now = some (task, r₁, fs) → task ≠ .idle →
    Acts r g game p c now (.pinging (some k) rest) r₁ fs []
  | pinged (k : RoomRef) (rest : List RoomRef) (r₁ : Registry) (fs : List Event) :
    r.tickRoom k c now = some (.idle, r₁, fs) →
    Acts r g game p c now (.pinging (some k) rest) (r₁.goTo g game p (.pinging none rest)) fs []
  | wait : Acts r g game p c now (.pinging none []) (r.goTo g game p .waiting) [] [.waits g]

theorem pinger_acts (hg : r.gameObjects[g]? = some game)
    (hx : game.pingers[p]? = some x) (h : r.pinger g p c now = some (r', es)) :
    Acts r g game p c now x r' es (beats g game c x) := by
  unfold pinger at h
  simp only [hg, hx] at h
  split at h
  · cases h
  · next heq =>
    cases heq
    split at h
    · cases h
    · next hl =>
      have hfree : game.locked = false := by simpa using hl
      split at h
      · next he =>
        cases h
        rw [beats, if_pos he]
        exact .stop hfree he
      · next he =>
        cases h
        rw [beats, if_neg he]
        exact .activate hfree (by simpa using he)
  · next heq => cases heq; cases h; exact .turn
  · next rest hne heq =>
    cases heq
    split at h
    · cases h
    · next k hk =>
      cases h
      rw [beats, hk]
      exact .check rest k hk
  · next k rest heq =>
    cases heq
    split at h
    · cases h
    · next ht => cases h; exact .checked k rest _ _ ht
    · next hne ht =>
      cases h
      exact .checking k rest _ _ _ ht hne
  · next heq => cases heq; cases h; exact .wait
  · next rest hne heq =>
    cases heq
    split at h
    · cases h
    · next k hk =>
      cases h
      cases rest with
      | nil => exact absurd rfl hne
      | cons j rest =>
        have hb : beats g game c (.pinging none (j :: rest)) =
            ((j :: rest)[c]?).toList.map (.pings g) := rfl
        rw [hb, hk]
        exact .ping (j :: rest) k hk
  · next k rest heq =>
    cases heq
    split at h
    · cases h
    · next ht => cases h; exact .pinged k rest _ _ ht
    · next hne ht =>
      cases h
      exact .pinging k rest _ _ _ ht hne

/-- The coroutine that goes on is one of its game. -/
theorem pinger_some (h : r.pinger g p c now = some (r', es)) :
    ∃ game x, r.gameObjects[g]? = some game ∧ game.pingers[p]? = some x := by
  unfold pinger at h
  split at h
  · cases h
  · next game hg =>
    cases hx : game.pingers[p]? with
    | none => simp [hx] at h
    | some x => exact ⟨game, x, hg, hx⟩

theorem gameObjects_tickRoom {k : RoomRef} {task : PingerTask}
    (h : r.tickRoom k c now = some (task, r₁, fs)) : r₁.gameObjects = r.gameObjects := by
  obtain ⟨h, room, fs, -, -, rfl, -⟩ := stepRoom_some (tickRoom_some h)
  rfl

/-! ## The sections as sections of the registry -/

def Op.ofPinger (g : GameRef) (c : Nat) (now : Int) (op : Op) : Prop :=
  (∃ pingers active, op = .setPingers g pingers active) ∨
    ∃ k, op = .stepRoom k (.session (.tick c now))

/-- The pinger alone moves. -/
theorem setPingers_run (c : Nat) (now : Int) (hg : r.gameObjects[g]? = some game)
    (pingers : List Pinger) (active : Bool) : ∃ w, machine.run w [] r =
      some ([], r.setGame g { game with pingers := pingers, isPingerActive := active }) ∧
      ∀ op ∈ w, op.ofPinger g c now := by
  have hs : machine.step r (.setPingers g pingers active) = some
      (r.setGame g { game with pingers := pingers, isPingerActive := active }, []) := by
    simp only [machine, step, hg]
  refine ⟨[.setPingers g pingers active], run_singleton hs, ?_⟩
  intro op hop
  rw [List.mem_singleton.mp hop]
  exact Or.inl ⟨pingers, active, rfl⟩

/-- A session ticks, and the pinger stays in it. -/
theorem tickRoom_run (g : GameRef) {k : RoomRef} {task : PingerTask}
    (ht : r.tickRoom k c now = some (task, r₁, fs)) :
    ∃ w, machine.run w [] r = some (fs, r₁) ∧ ∀ op ∈ w, op.ofPinger g c now := by
  have hs : machine.step r (.stepRoom k (.session (.tick c now))) = some (r₁, fs) :=
    tickRoom_some ht
  refine ⟨[.stepRoom k (.session (.tick c now))], run_singleton hs, ?_⟩
  intro op hop
  rw [List.mem_singleton.mp hop]
  exact Or.inr ⟨k, rfl⟩

/-- It ticks, and the pinger moves on. -/
theorem leaveRoom_run {k : RoomRef} {task : PingerTask} (hg : r.gameObjects[g]? = some game)
    (ht : r.tickRoom k c now = some (task, r₁, fs)) (pingers : List Pinger) :
    ∃ w, machine.run w [] r = some (fs, r₁.setGame g { game with pingers := pingers }) ∧
      ∀ op ∈ w, op.ofPinger g c now := by
  have hg₁ : r₁.gameObjects[g]? = some game := by
    rw [gameObjects_tickRoom ht]
    exact hg
  obtain ⟨v, hv, hvs⟩ := tickRoom_run g ht
  obtain ⟨w, hw, hws⟩ := setPingers_run c now hg₁ pingers game.isPingerActive
  refine ⟨v ++ w, ?_, ?_⟩
  · rw [run_append, hv]
    simp only [Option.bind_some]
    rw [run_history, hw]
    simp
  · intro op hop
    obtain hop | hop := List.mem_append.mp hop
    · exact hvs op hop
    · exact hws op hop

theorem pinger_run (h : r.pinger g p c now = some (r', es)) :
    ∃ w, machine.run w [] r = some (es, r') ∧ ∀ op ∈ w, op.ofPinger g c now := by
  obtain ⟨game, x, hg, hx⟩ := pinger_some h
  have hacts := pinger_acts hg hx h
  generalize beats g game c x = bs at hacts
  cases hacts with
  | stop => exact setPingers_run c now hg _ _
  | activate => exact setPingers_run c now hg _ _
  | check => exact setPingers_run c now hg _ _
  | turn => exact setPingers_run c now hg _ _
  | ping => exact setPingers_run c now hg _ _
  | wait => exact setPingers_run c now hg _ _
  | checking k rest task r₁ fs ht => exact tickRoom_run g ht
  | pinging k rest task r₁ fs ht => exact tickRoom_run g ht
  | checked k rest r₁ fs ht => exact leaveRoom_run hg ht _
  | pinged k rest r₁ fs ht => exact leaveRoom_run hg ht _

end Registry
end Helicopter
