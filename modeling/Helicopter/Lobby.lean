import Helicopter.Connection
import Helicopter.Lib.Party

/-! The registry when its callbacks run one at a time, and the lobby that it is then: parties
under pairs of a game id and a session id. -/
namespace Helicopter
open Interleaving Gathering

structure Request where
  gameId : String
  sessionId : String
  isHost : Bool

def Request.key (q : Request) : String × String := (q.gameId, q.sessionId)

def request (params : ParameterMap) : Option Request :=
  match (params.find "gameId").join, (params.find "sessionId").join,
    (params.find "peerType").join with
  | some gameId, some sessionId, some peerType => some ⟨gameId, sessionId, peerType == "host"⟩
  | _, _, _ => none

inductive Seat where
  | refused
  | taken (key : String × String)
  | left
  deriving DecidableEq

/-- `known` are the games with a config; the members of a party are connections, by their place
in `seats`. -/
structure Lobby where
  known : String → Bool
  parties : Parties (String × String) Nat := fun _ => none
  seats : List Seat := []

namespace Lobby

def verdict (l : Lobby) (params : ParameterMap) : Except ErrorCodes Request :=
  match request params with
  | none => .error .badRequest
  | some q =>
    if l.known q.gameId = false then .error .gameNotFound
    else if q.isHost then
      if (l.parties q.key).isSome then .error .operationNotPermitted else .ok q
    else
      if (l.parties q.key).isSome then .ok q else .error .sessionNotFound

def enter (l : Lobby) (q : Request) : Option (Party Nat) :=
  if q.isHost then some (.found l.seats.length)
  else (l.parties q.key).map fun p => p.join l.seats.length

def step (l : Lobby) : Callback → Option (Lobby × List Answer)
  | .onAfterCreate params =>
    match l.verdict params with
    | .error code => some ({ l with seats := l.seats ++ [.refused] }, [.rejected code])
    | .ok q =>
      some ({ l with
        parties := l.parties.set q.key (l.enter q)
        seats := l.seats ++ [.taken q.key] }, [.admitted q.isHost])
  | .onBeforeDestroy n =>
    match l.seats[n]? with
    | some .refused => some ({ l with seats := l.seats.set n .left }, [])
    | some (.taken key) =>
      some ({ l with
        parties := l.parties.set key ((l.parties key).bind fun p => p.leave n)
        seats := l.seats.set n .left }, [])
    | _ => none

def machine : Machine Lobby Callback Answer := ⟨step⟩

theorem verdict_ok {l : Lobby} {params : ParameterMap} {q : Request} :
    l.verdict params = .ok q ↔ request params = some q ∧ l.known q.gameId = true ∧
      (q.isHost = true ↔ l.parties q.key = none) := by
  unfold verdict
  constructor
  · intro h
    split at h
    · cases h
    · next q' hq =>
      split at h
      · cases h
      · next hk =>
        split at h
        · next hh =>
          split at h
          · cases h
          · next hp =>
            cases h
            exact ⟨hq, by simpa using hk, by simpa [hh] using hp⟩
        · next hh =>
          split at h
          · next hp =>
            cases h
            refine ⟨hq, by simpa using hk, ?_⟩
            constructor
            · intro ht
              exact absurd ht hh
            · intro hn
              rw [hn] at hp
              cases hp
          · cases h
  · rintro ⟨hq, hk, hp⟩
    rw [hq]
    simp only [hk, Bool.true_eq_false, if_false]
    cases hh : q.isHost with
    | true => simp [hp.mp hh]
    | false =>
      cases hparty : l.parties q.key with
      | none =>
        rw [hp.mpr hparty] at hh
        cases hh
      | some p => simp

end Lobby
end Helicopter
