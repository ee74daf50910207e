import Helicopter.EachSession
import Helicopter.Registration

/-! How many peers a session has, and `maxPeers` of its config. -/
namespace Helicopter
open Interleaving

namespace Session
variable {s s' : Session} {es : List Event}

theorem size_of_adds {a : Op} (h : Agrees s) (hs : s.step a = some (s', es)) (ha : s.adds a) :
    s'.peers.size = s.peers.size + 1 := by
  cases a with
  | advance i c =>
    obtain ⟨p, hp, ht⟩ := ha
    have hfresh : s.peers.find p.peerId = none :=
      peers_find_coming h (member_of_object hp) (by simp [Peer.member, ht, Task.stage])
    rw [(step_add hp ht hs).1, addPeer_fst]
    exact UnorderedMap.size_insertNew i hfresh
  | _ => exact ha.elim

theorem size_of_not_adds {a : Op} (hs : s.step a = some (s', es)) (hno : ¬ s.adds a) :
    s'.peers.size ≤ s.peers.size := by
  cases step_cases hs with
  | findSession => exact Nat.le_refl _
  | newPeer k isHost hk => exact Nat.le_refl _
  | advance i p c s' es hp ha =>
    cases ha with
    | add ht hm => exact absurd ⟨p, hp, ht⟩ hno
    | remove ht hm =>
      rw [removePeerById_fst]
      exact UnorderedMap.size_eraseKey_le s.peers p.peerId
    | _ => exact Nat.le_refl _
  | handle i p message now s₁ task es hp ht hr =>
    have hpeers : s₁.peers = s.peers := (reacts_frame hr).2.1
    exact Nat.le_of_eq (congrArg UnorderedMap.size hpeers)
  | close i p hp ht => exact Nat.le_refl _
  | tick c now s' es ht => cases ht <;> exact Nat.le_refl _

end Session

namespace Room
variable {r r' : Room} {es : List Event}

def WithinCapacity (r : Room) : Prop := r.session.peers.size ≤ r.session.config.maxPeers

/-- If the step runs the locked section of `addPeer`, there is a place left. -/
def HasPlace (r : Room) (a : Op) : Prop :=
  r.adds a → r.session.peers.size < r.session.config.maxPeers

theorem agrees_step {a : Op} (h : r.session.Agrees) (hs : r.step a = some (r', es)) :
    r'.session.Agrees := by
  obtain ⟨b, -, hb⟩ | ⟨-, hsame, -⟩ := step_session hs
  · exact (Session.step_roster h hb).1
  · rw [hsame]
    exact h

theorem withinCapacity_step {a : Op} (h : r.session.Agrees) (hin : r.WithinCapacity)
    (hplace : r.HasPlace a) (hs : r.step a = some (r', es)) : r'.WithinCapacity := by
  unfold WithinCapacity at hin ⊢
  rw [(step_static hs).2]
  obtain ⟨b, rfl, hb⟩ | ⟨-, hsame, -⟩ := step_session hs
  · by_cases ha : r.session.adds b
    · rw [Session.size_of_adds h hb ha]
      exact hplace ha
    · exact Nat.le_trans (Session.size_of_not_adds hb ha) hin
  · rw [hsame]
    exact hin

theorem not_withinCapacity {a : Op} (h : r.session.Agrees) (hplace : ¬ r.HasPlace a)
    (hs : r.step a = some (r', es)) : ¬ r'.WithinCapacity := by
  unfold HasPlace at hplace
  obtain ⟨ha, hfull⟩ := Classical.not_imp.mp hplace
  unfold WithinCapacity
  rw [(step_static hs).2]
  obtain ⟨b, rfl, hb⟩ | ⟨hno, -, -⟩ := step_session hs
  · rw [Session.size_of_adds h hb ha]
    omega
  · cases a with
    | session b => exact absurd rfl (hno b)
    | _ => exact ha.elim

end Room

namespace System

/-- No session is ever over its `maxPeers`, if and only if each `addPeer` of the run finds a
place. Nothing in the source looks. -/
theorem capacity_iff (gamesConfig : GamesConfig) (w : List Op) :
    machine.Throughout (EachRoom fun _ r => r.WithinCapacity) w [] (init gamesConfig) ↔
      machine.Along (Meets fun _ r a => r.HasPlace a) w [] (init gamesConfig) := by
  refine eachRoom_iff_along (I := fun _ r => r.session.Agrees ∧ r.WithinCapacity)
    ?_ ?_ ?_ ?_ ?_ gamesConfig w
  · exact fun id config => ⟨Session.agrees_init id config, Nat.zero_le _⟩
  · exact fun t r h => h.2
  · intro t r a hq ha
    cases a with
    | session b =>
      cases b with
      | advance i c => cases hq
      | _ => exact ha.elim
    | _ => exact ha.elim
  · intro t r a r' es h hc hs
    exact ⟨Room.agrees_step h.1 hs, Room.withinCapacity_step h.1 h.2 hc hs⟩
  · exact fun t r a r' es h hc hs => Room.not_withinCapacity h.1 hc hs

def soloGame : GamesConfig :=
  GamesConfig.putGameConfig {} { gameId := some "game", maxPeers := 1 }

/-- A client joins the host of a game for one. -/
theorem second_peer_of_one :
    ∃ t s, machine.run hostAndClient [] (init soloGame) = some (t, s) ∧
      ¬ EachRoom (fun _ r => r.WithinCapacity) t s := by
  have hrun : ((machine.run hostAndClient [] (init soloGame)).bind fun r =>
      (r.2.registry.rooms[0]?).map fun h => (h.room.session.peers.size,
        h.room.session.config.maxPeers)) = some (2, 1) := by
    decide +kernel
  obtain ⟨⟨t, s⟩, hr, hrun⟩ := Option.bind_eq_some_iff.mp hrun
  obtain ⟨h, hk, hh⟩ := Option.map_eq_some_iff.mp hrun
  obtain ⟨hsize, hmax⟩ := Prod.mk.inj hh
  refine ⟨t, s, hr, ?_⟩
  intro hall
  have hle : h.room.session.peers.size ≤ h.room.session.config.maxPeers := hall 0 h hk
  omega

end System
end Helicopter
