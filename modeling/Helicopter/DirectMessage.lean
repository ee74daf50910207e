import Helicopter.Identity
import Helicopter.SenderOrder

/-! `handleDirectMessage`: how many copies of the message the peers of the session are offered.
`getPeers` looks up every id of the list, however often it occurs there. -/
namespace Helicopter
open Interleaving

namespace Session
variable {s s₁ s₂ : Session} {t es : List Event} {i j : PeerRef} {p : Peer}

/-- Every member named in the list, other than the sender, is offered one copy, and nobody else
is offered any. -/
structure DeliveredOnce (s : Session) (i : PeerRef) (peerIds : List (Option Int))
    (m : MessageDto) (t : List Event) : Prop where
  member : ∀ id j, s.peers.find id = some j → j ≠ i → some id ∈ peerIds →
    (offersTo j t).count m = 1
  nobody : ∀ j, (¬ ∃ id, s.peers.find id = some j ∧ j ≠ i ∧ some id ∈ peerIds) →
    (offersTo j t).count m = 0

def NamedOnce (s : Session) (i : PeerRef) (peerIds : List (Option Int)) : Prop :=
  ∀ id j, s.peers.find id = some j → j ≠ i → peerIds.count (some id) ≤ 1

/-- From the first section of a handler of the peer `i` to its return, among the steps of all
other threads. -/
structure Handled (i : PeerRef) (s₁ : Session) (es : List Event) (v : List Op) (t : List Event)
    (s₂ : Session) : Prop where
  run : machine.run v es s₁ = some (t, s₂)
  busy : ∀ message now, .handle i message now ∉ v
  returned : ∃ p, s₂.objects[i]? = some p ∧ p.task = .listening

/-- A loop that is given its turns comes to its end. -/
theorem sending_returns {recipients : List PeerRef} {payload : OutgoingMessageDto}
    (hp : s.objects[i]? = some p) (ht : p.task = .sending recipients payload) (es : List Event) :
    ∃ t s₂, Handled i s es (List.replicate (recipients.length + 1) (.advance i 0)) t s₂ := by
  have hbusy : ∀ n message now, Op.handle i message now ∉ List.replicate n (Op.advance i 0) := by
    intro n message now hm
    cases List.eq_of_mem_replicate hm
  induction recipients generalizing s p es with
  | nil =>
    have hs : machine.step s (.advance i 0) = some (s.setTask i p .listening, []) := by
      simp only [machine, step, hp, advance, ht]
    exact ⟨_, _, run_singleton hs, hbusy 1, _, (objects_setPeer hp _ i).trans (if_pos rfl), rfl⟩
  | cons j rest ih =>
    have hs : machine.step s (.advance i 0) =
        some (s.setTask i p (.sending rest payload), [.offer j (.outgoing payload)]) := by
      simp [machine, step, hp, advance, ht]
    have hp' : (s.setTask i p (.sending rest payload)).objects[i]? =
        some { p with task := .sending rest payload } :=
      (objects_setPeer hp _ i).trans (if_pos rfl)
    obtain ⟨t, s₂, hrest⟩ := ih hp' rfl (es ++ [.offer j (.outgoing payload)])
    refine ⟨t, s₂, ?_, hbusy _, hrest.returned⟩
    rw [List.length_cons, List.replicate_succ, run_cons hs]
    exact hrest.run

theorem count_getPeers (hA : Agrees s) {id : Int} (hf : s.peers.find id = some j)
    (peerIds : List (Option Int)) : (s.getPeers peerIds).count j = peerIds.count (some id) := by
  rw [getPeers, List.count_filterMap, List.count_eq_countP]
  refine List.countP_congr ?_
  intro x hx
  rw [beq_iff_eq, beq_iff_eq]
  constructor
  · intro hx
    obtain ⟨k, rfl, hk⟩ := Option.bind_eq_some_iff.mp hx
    obtain ⟨q, hq, rfl⟩ := peerId_of_find hA hf
    obtain ⟨q', hq', rfl⟩ := peerId_of_find hA hk
    rw [hq] at hq'
    cases hq'
    rfl
  · rintro rfl
    exact hf

/-- How often `j` is among the recipients of a direct message of the peer `i`. -/
theorem count_recipients (hA : Agrees s) (hp : s.objects[i]? = some p)
    (peerIds : List (Option Int)) :
    (∀ id, s.peers.find id = some j → j ≠ i →
      (s.others p.peerId (s.getPeers peerIds)).count j = peerIds.count (some id)) ∧
    ((¬ ∃ id, s.peers.find id = some j ∧ j ≠ i ∧ some id ∈ peerIds) →
      (s.others p.peerId (s.getPeers peerIds)).count j = 0) := by
  constructor
  · intro id hf hne
    have hother : (s.peerId? j != some p.peerId) = true := by
      rw [bne_iff_ne]
      exact hne ∘ (peerId?_eq_iff hA hp).mp
    rw [others, List.count_filter (p := fun j => s.peerId? j != some p.peerId) hother]
    exact count_getPeers hA hf peerIds
  · intro hno
    rw [List.count_eq_zero]
    intro hj
    obtain ⟨hget, hne⟩ := mem_of_mem_others hj
    obtain ⟨x, hx, hfx⟩ := List.mem_filterMap.mp hget
    obtain ⟨id, rfl, hf⟩ := Option.bind_eq_some_iff.mp hfx
    refine hno ⟨id, hf, ?_, hx⟩
    rintro rfl
    exact hne (by rw [peerId?, hp]; rfl)

/-- The copies that the peers are offered are those the first section has listed. -/
theorem count_handled {message : IncomingMessage} {now : Int} {v : List Op}
    (hI : Agrees s ∧ Signed s) (hp : s.objects[i]? = some p) (ht : p.task = .listening)
    (hs : s.step (.handle i message now) = some (s₁, es)) (hv : Handled i s₁ es v t s₂)
    (j : PeerRef) : sent i j t = s₁.pending i j := by
  have hs : machine.step s (.handle i message now) = some (s₁, es) := hs
  have hrun : machine.run (.handle i message now :: v) [] s = some (t, s₂) := by
    rw [run_cons hs]
    exact hv.run
  have h := (conserves i j).run (fun _ _ _ _ h hs => step_agrees_signed h hs) hI hrun
  have hv₁ : machine.takenUp (begun i j) v s₁ = [] := by
    apply takenUp_eq_nil
    intro a ha s s'
    unfold begun
    split
    · next k message now =>
      split
      · next hk => exact absurd (hk ▸ ha) (hv.busy message now)
      · rfl
    · rfl
  obtain ⟨q, hq, hqt⟩ := hv.returned
  rw [takenUp_cons hs, hv₁, pending_of_task hp, ht, pending_of_task hq, hqt] at h
  simpa [begun, Task.pending, sent, sentBy, offersTo] using h.symm

theorem count_sent {k : Int} {m : MessageDto} (hm : m.sender? = some k)
    (ms : List MessageDto) : (sentBy k ms).count m = ms.count m := by
  unfold sentBy
  exact List.count_filter (by simp [hm])

/-- The handler of a direct message returns, and by then the members named in the list have been
offered it once each, if and only if none of them is named twice. -/
theorem direct_message_once_iff (id : String) (config : GameConfigDto) (w : List Op)
    {t₀ : List Event} (message : IncomingMessage) (now : Int) {dm : DirectMessageDto}
    {peerIds : List (Option Int)}
    (hr : machine.run w [] { id := id, config := config } = some (t₀, s))
    (hp : s.objects[i]? = some p) (ht : p.task = .listening)
    (hc : message.message.code = some .incomingDirectMessage)
    (hdm : message.message.retrieveDirectMessage = some dm) (hids : dm.peerIds = some peerIds)
    (hne : peerIds ≠ []) (hm : s.peersMutex = false) :
    ∃ s₁ es, s.step (.handle i message now) = some (s₁, es) ∧
      (∃ v t s₂, Handled i s₁ es v t s₂) ∧
      ∀ v t s₂, Handled i s₁ es v t s₂ →
        (DeliveredOnce s i peerIds (.outgoing ⟨p.peerId, dm.data⟩) t ↔ NamedOnce s i peerIds) := by
  have hI := run_signed hr
  let recipients := s.others p.peerId (s.getPeers peerIds)
  let payload : OutgoingMessageDto := ⟨p.peerId, dm.data⟩
  have hs : s.step (.handle i message now) =
      some (s.setTask i p (.sending recipients payload), [.handled i message.message]) := by
    have hnonempty : peerIds.isEmpty = false := by simpa using hne
    simp [step, hp, ht, handleMessage, hc, handleDirectMessage, hdm, hids, hnonempty, hm,
      recipients, payload]
  have hp₁ : (s.setTask i p (.sending recipients payload)).objects[i]? =
      some { p with task := .sending recipients payload } :=
    (objects_setPeer hp _ i).trans (if_pos rfl)
  refine ⟨_, _, hs, ⟨_, sending_returns hp₁ rfl _⟩, ?_⟩
  intro v t s₂ hv
  have hcopies : ∀ j, (offersTo j t).count (.outgoing payload) = recipients.count j := by
    intro j
    have hsent := count_handled hI hp ht hs hv j
    rw [pending_of_task hp₁, Task.pending] at hsent
    have hsigned : (MessageDto.outgoing payload).sender? = some (i : Int) :=
      congrArg some (hI.2.peerId hp)
    rw [← count_sent hsigned, ← sent, hsent, List.count_replicate_self]
  have hcount := fun j => count_recipients (j := j) hI.1 hp peerIds
  constructor
  · intro h k j hf hji
    rw [← (hcount j).1 k hf hji]
    by_cases hmem : some k ∈ peerIds
    · rw [← hcopies, h.member k j hf hji hmem]
    · rw [(hcount j).1 k hf hji, List.count_eq_zero.mpr hmem]
      exact Nat.zero_le 1
  · intro h
    constructor
    · intro k j hf hji hmem
      have hpos := List.count_pos_iff.mpr hmem
      have hle := h k j hf hji
      rw [hcopies, (hcount j).1 k hf hji]
      omega
    · intro j hno
      rw [hcopies, (hcount j).2 hno]

def pair : List Op :=
  [.newPeer 0, .advance 0 0, .advance 0 0, .findSession, .newPeer 0, .advance 1 0, .advance 1 0]

def directMessage (peerIds : List (Option Int)) : IncomingMessage :=
  ⟨⟨some .incomingDirectMessage, some (.directMessage ⟨some peerIds, some "data"⟩), none⟩,
    fun p hp => by cases hp; rfl⟩

theorem direct_message_once_pair :
    ∃ t₀ s s₁ es v t s₂, machine.run pair [] { id := "lobby", config := {} } = some (t₀, s) ∧
      s.step (.handle 0 (directMessage [some 1, none, some 0, some 7]) 0) = some (s₁, es) ∧
      Handled 0 s₁ es v t s₂ ∧
      DeliveredOnce s 0 [some 1, none, some 0, some 7] (.outgoing ⟨0, some "data"⟩) t := by
  obtain ⟨t₀, s, hr, p, hp, ht, hid, hm⟩ : ∃ t₀ s, machine.run pair []
      { id := "lobby", config := {} } = some (t₀, s) ∧ ∃ p : Peer, s.objects[0]? = some p ∧
        p.task = .listening ∧ p.peerId = 0 ∧ s.peersMutex = false :=
    ⟨_, _, rfl, _, rfl, rfl, rfl, rfl⟩
  obtain ⟨s₁, es, hs, ⟨v, t, s₂, hv⟩, hiff⟩ := direct_message_once_iff "lobby" {} pair
    (directMessage [some 1, none, some 0, some 7]) 0 hr hp ht rfl rfl rfl (by simp) hm
  have honce : NamedOnce s 0 [some 1, none, some 0, some 7] :=
    fun id j _ _ => List.nodup_iff_count_le_one.mp (by decide) (some id)
  have hdelivered := (hiff v t s₂ hv).mpr honce
  rw [hid] at hdelivered
  exact ⟨t₀, s, s₁, es, v, t, s₂, hr, hs, hv, hdelivered⟩

theorem direct_message_twice :
    ∃ t₀ s s₁ es v t s₂, machine.run pair [] { id := "lobby", config := {} } = some (t₀, s) ∧
      s.step (.handle 0 (directMessage [some 1, some 1]) 0) = some (s₁, es) ∧
      Handled 0 s₁ es v t s₂ ∧ (offersTo 1 t).count (.outgoing ⟨0, some "data"⟩) = 2 ∧
      ¬ DeliveredOnce s 0 [some 1, some 1] (.outgoing ⟨0, some "data"⟩) t := by
  refine ⟨_, _, _, _, [.advance 0 0, .advance 0 0, .advance 0 0], _, _, rfl, rfl,
    ⟨rfl, by simp, _, rfl, rfl⟩, rfl, ?_⟩
  intro h
  have hone := h.member 1 1 rfl (by decide) (by decide)
  cases hone

end Session
end Helicopter
