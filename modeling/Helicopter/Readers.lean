import Helicopter.Reassembly
import Helicopter.Standing

/-! The server on the bytes of its peers. The reader of a peer hands over a message when it has
collected and parsed it, among the steps of all other threads. -/
namespace Helicopter
open Interleaving

/-! ## The messages that were handled -/

namespace Session
variable {s s' : Session} {t es : List Event} {i : PeerRef}

def Event.heard? (i : PeerRef) : Event → Option MessageDto
  | .handled j m => if j = i then some m else none
  | _ => none

def heard (i : PeerRef) (t : List Event) : List MessageDto := t.filterMap (Event.heard? i)

def Op.hands (i : PeerRef) : Op → List MessageDto
  | .handle j message _ => if j = i then [message.message] else []
  | _ => []

theorem step_heard {a : Op} (hs : s.step a = some (s', es)) : heard i es = a.hands i := by
  have htell : ∀ (s : Session) (n : Notice), heard i (s.tellHost n) = [] := by
    intro s n
    unfold tellHost
    split <;> rfl
  cases step_cases hs with
  | findSession => rfl
  | newPeer k isHost hk => rfl
  | advance j p c s' es hp ha =>
    cases ha with
    | add ht hm =>
      show heard i (s.addPeer j p.peerId p.isHost).2 = []
      unfold addPeer
      split
      · rfl
      · exact htell _ _
    | remove ht hm => exact htell _ _
    | _ => rfl
  | handle j p message now s₁ task es hp ht hr =>
    have hrest : heard i es = [] := by
      cases hr <;> rfl
    show heard i ([.handled j message.message] ++ es) = _
    rw [heard, List.filterMap_append, ← heard, ← heard, hrest, List.append_nil]
    by_cases hj : j = i <;> simp [heard, Event.heard?, Op.hands, hj]
  | close j p hp ht => rfl
  | tick c now s' es hk => cases hk <;> rfl

end Session

namespace Room
variable {r r' : Room} {t es : List Event} {i : PeerRef}

def heard (i : PeerRef) (t : List Event) : List MessageDto := Session.heard i (sessionPart t)

def Op.hands (i : PeerRef) : Op → List MessageDto
  | .session a => a.hands i
  | _ => []

theorem heard_append (t u : List Event) : heard i (t ++ u) = heard i t ++ heard i u := by
  simp [heard, Session.heard]

theorem step_heard {a : Op} (hs : r.step a = some (r', es)) : heard i es = a.hands i := by
  obtain ⟨b, rfl, hb⟩ | ⟨hno, -, hnil⟩ := step_session hs
  · exact Session.step_heard hb
  · rw [heard, hnil]
    cases a with
    | session b => exact absurd rfl (hno b)
    | _ => rfl

/-- Steps that no peer takes hand over nothing. -/
theorem run_heard_quiet {v : List Op} (hv : ∀ b ∈ v, System.ofPeers b = false)
    (hr : machine.run v [] r = some (t, r')) : heard i t = [] := by
  refine run_invariant_along (M := machine) (C := fun _ _ b => System.ofPeers b = false)
    (I := fun t _ => heard i t = []) ?_ rfl (along_of_forall fun b hb _ _ => hv b hb) hr
  intro t r b r' es ht hb hs
  have hs : r.step b = some (r', es) := hs
  rw [heard_append, ht, step_heard hs]
  cases b with
  | session b => cases b <;> first | rfl | cases hb
  | _ => cases hb

end Room

namespace System
variable {s s' : System} {t es : List Event} {a : Op} {k : RoomRef} {i : PeerRef}

def heard (k : RoomRef) (i : PeerRef) (t : List Event) : List MessageDto :=
  Room.heard i (roomPart k t)

def Op.hands (k : RoomRef) (i : PeerRef) : Op → List MessageDto
  | .room l b => if l = k then b.hands i else []
  | _ => []

theorem heard_append (t u : List Event) : heard k i (t ++ u) = heard k i t ++ heard k i u := by
  rw [heard, roomPart_append, Room.heard_append, ← heard, ← heard]

theorem step_heard (hs : s.step a = some (s', es)) : heard k i es = a.hands k i := by
  have helse : (∀ b, a ≠ .room k b) → a.hands k i = [] := by
    intro ha
    cases a with
    | room l b =>
      have hl : l ≠ k := by
        rintro rfl
        exact ha b rfl
      simp only [Op.hands, if_neg hl]
    | _ => rfl
  unfold heard
  cases step_at k hs with
  | own b h room ha hk hroom hk' =>
    rw [ha, Room.step_heard hroom]
    simp only [Op.hands, if_true]
  | unmade ha hk hk' hnil =>
    rw [hnil, helse ha]
    rfl
  | quiet h' room v ha hk' hst hv hq => rw [Room.run_heard_quiet hq hv, helse ha]

theorem step_config {h : Hosted} (hs : s.step a = some (s', es))
    (hk : s.registry.rooms[k]? = some h) :
    ∃ h', s'.registry.rooms[k]? = some h' ∧
      h'.room.session.config = h.room.session.config := by
  cases step_at k hs with
  | own b h₀ room ha hk₀ hroom hk' =>
    rw [hk] at hk₀
    cases hk₀
    exact ⟨_, hk', (Room.step_static hroom).2⟩
  | unmade ha hk₀ hk' hnil =>
    rw [hk] at hk₀
    cases hk₀
  | quiet h' room v ha hk' hst hv hq =>
    refine ⟨h', hk', ?_⟩
    have hkeep : h'.room.session.config = room.session.config :=
      run_invariant (M := Room.machine) (I := fun _ r => r.session.config = room.session.config)
        (fun _ _ _ _ _ hI hst => (Room.step_static hst).2.trans hI) rfl hv
    obtain ⟨h₀, hk₀, rfl⟩ | ⟨hk₀, -⟩ := hst
    · rw [hk] at hk₀
      cases hk₀
      exact hkeep
    · rw [hk] at hk₀
      cases hk₀

end System

/-! ## One call of a reader -/

section
variable {config : GameConfigDto} {mapper : MessageMapper} {buffer data : List UInt8}

def ReadEvent.handled? : ReadEvent → Option (Option IncomingMessage)
  | .handled message => some message
  | _ => none

/-- What `handleMessage` is called with. -/
def handed (es : List ReadEvent) : List (Option IncomingMessage) :=
  es.filterMap ReadEvent.handled?

theorem handed_append (es fs : List ReadEvent) : handed (es ++ fs) = handed es ++ handed fs :=
  List.filterMap_append ..

theorem handed_readMessage (config : GameConfigDto) (mapper : MessageMapper)
    (buffer data : List UInt8) :
    handed (readMessage config mapper buffer data).2 = [] ∨
      ∃ message, handed (readMessage config mapper buffer data).2 = [message] := by
  unfold readMessage
  split
  · exact Or.inl rfl
  · split
    · split
      · exact Or.inl rfl
      · next message _ => exact Or.inr ⟨message, rfl⟩
    · exact Or.inl rfl

theorem handed_readWhole (texts : List (List UInt8)) :
    handed (texts.flatMap (readWhole mapper)) = texts.filterMap mapper := by
  induction texts with
  | nil => rfl
  | cons text texts ih =>
    have hone : handed (readWhole mapper text) = (mapper text).toList := by
      unfold readWhole
      cases mapper text <;> rfl
    rw [List.flatMap_cons, handed_append, ih, hone, List.filterMap_cons]
    cases mapper text <;> rfl

theorem readMessage_bounded (h : buffer.length ≤ config.maxMessageSizeBytes) :
    (readMessage config mapper buffer data).1.length ≤ config.maxMessageSizeBytes := by
  unfold readMessage
  split
  · exact h
  · next hfit =>
    split
    · split <;> exact Nat.zero_le _
    · rw [List.length_append]
      omega

theorem readAll_snoc (calls : List (List UInt8)) {es : List ReadEvent}
    (h : readAll config mapper calls [] = (buffer, es))
    (hquiet : ∀ e ∈ es, e.crashes = false) :
    readAll config mapper (calls ++ [data]) [] =
      ((readMessage config mapper buffer data).1,
        es ++ (readMessage config mapper buffer data).2) := by
  have hone : readAll config mapper [data] buffer = readMessage config mapper buffer data := by
    simp only [readAll, List.append_nil]
    exact ite_self _
  rw [readAll_append (by rw [h]; exact hquiet), h, hone]

/-- A reader that has handed over messages has not come upon the null object. -/
theorem quiet_of_handed {es : List ReadEvent} {ms : List MessageDto}
    (h : (handed es).map (Option.map IncomingMessage.message) = ms.map some) :
    ∀ e ∈ es, e.crashes = false := by
  intro e he
  cases e with
  | handled message =>
    cases message with
    | none =>
      have hmem : none ∈ ms.map some := by
        rw [← h]
        exact List.mem_map.mpr ⟨none, List.mem_filterMap.mpr ⟨_, he, rfl⟩, rfl⟩
      obtain ⟨m, -, hm⟩ := List.mem_map.mp hmem
      cases hm
    | some message => rfl
  | _ => rfl

/-- Then it has read all of its messages. -/
theorem answered_of_quiet {texts : List (List UInt8)}
    (h : ∀ e ∈ (answered mapper texts).flatMap (readWhole mapper), e.crashes = false) :
    answered mapper texts = texts := by
  induction texts with
  | nil => rfl
  | cons text texts ih =>
    rw [answered] at h ⊢
    have hnull : isNull mapper text = false := by
      rw [← crashes_readWhole, List.any_eq_false]
      intro e he
      rw [h e (List.mem_append_left _ he)]
      exact Bool.false_ne_true
    rw [hnull] at h ⊢
    exact congrArg (text :: ·) (ih fun e he => h e (List.mem_append_right _ he))

end

/-! ## The readers of all peers -/

/-- `buffers` are the `m_messageBuffer` of the peers of each session. -/
structure Readers where
  system : System
  buffers : RoomRef → PeerRef → List UInt8

namespace Readers

inductive Event where
  /-- a call of `readMessage`, and what it did -/
  | read (k : RoomRef) (i : PeerRef) (data : List UInt8) (es : List ReadEvent)
  | system (e : System.Event)

inductive Op where
  | read (k : RoomRef) (i : PeerRef) (data : List UInt8) (now : Int)
  | system (a : System.Op)

def handsOver : System.Op → Bool
  | .room _ (.session (.handle _ _ _)) => true
  | _ => false

def fill (g : Readers) (k : RoomRef) (i : PeerRef) (buffer : List UInt8) : Readers :=
  { g with buffers := fun l j => if l = k ∧ j = i then buffer else g.buffers l j }

/-- The reader calls `readMessage` when the peer is at nothing else. -/
def step (mapper : MessageMapper) (g : Readers) : Op → Option (Readers × List Event)
  | .read k i data now =>
    match g.system.registry.rooms[k]? with
    | none => none
    | some h =>
      match (h.room.session.objects[i]?).map Peer.task with
      | some .listening =>
        let r := readMessage h.room.session.config mapper (g.buffers k i) data
        match handed r.2 with
        | [] => some (g.fill k i r.1, [.read k i data r.2])
        -- `handleMessage` dereferences the null message
        | none :: _ => none
        | some message :: _ =>
          match g.system.step (.room k (.session (.handle i message now))) with
          | none => none
          | some (system, es) =>
            some ({ g.fill k i r.1 with system := system },
              .read k i data r.2 :: es.map .system)
      | _ => none
  | .system a =>
    if handsOver a then none
    else
      match g.system.step a with
      | none => none
      | some (system, es) => some ({ g with system := system }, es.map .system)

def machine (mapper : MessageMapper) : Machine Readers Op Event := ⟨step mapper⟩

def init (gamesConfig : GamesConfig) : Readers := ⟨System.init gamesConfig, fun _ _ => []⟩

/-! ## What happened to whom -/

def Event.system? : Event → Option System.Event
  | .system e => some e
  | _ => none

def Event.call? (k : RoomRef) (i : PeerRef) : Event → Option (List UInt8)
  | .read l j data _ => if l = k ∧ j = i then some data else none
  | _ => none

def Event.reading (k : RoomRef) (i : PeerRef) : Event → List ReadEvent
  | .read l j _ es => if l = k ∧ j = i then es else []
  | _ => []

def systemPart (t : List Event) : List System.Event := t.filterMap Event.system?

def calls (k : RoomRef) (i : PeerRef) (t : List Event) : List (List UInt8) :=
  t.filterMap (Event.call? k i)

def readings (k : RoomRef) (i : PeerRef) (t : List Event) : List ReadEvent :=
  t.flatMap (Event.reading k i)

section
variable (k l : RoomRef) (i j : PeerRef) (t u : List Event) (data : List UInt8)
  (es : List ReadEvent) (fs : List System.Event)

@[simp] theorem systemPart_append : systemPart (t ++ u) = systemPart t ++ systemPart u :=
  List.filterMap_append ..
@[simp] theorem calls_append : calls k i (t ++ u) = calls k i t ++ calls k i u :=
  List.filterMap_append ..
@[simp] theorem readings_append : readings k i (t ++ u) = readings k i t ++ readings k i u :=
  List.flatMap_append ..

@[simp] theorem systemPart_nil : systemPart [] = [] := rfl

@[simp] theorem systemPart_read : systemPart (.read l j data es :: t) = systemPart t := rfl

theorem calls_read : calls k i (.read l j data es :: t) =
    (if l = k ∧ j = i then [data] else []) ++ calls k i t := by
  by_cases h : l = k ∧ j = i <;> simp [calls, Event.call?, h]

theorem readings_read : readings k i (.read l j data es :: t) =
    (if l = k ∧ j = i then es else []) ++ readings k i t := rfl

@[simp] theorem systemPart_system : systemPart (fs.map .system) = fs := by
  induction fs with
  | nil => rfl
  | cons f fs ih => exact congrArg (f :: ·) ih

@[simp] theorem calls_system : calls k i (fs.map .system) = [] := by
  induction fs with
  | nil => rfl
  | cons f fs ih => exact ih

@[simp] theorem readings_system : readings k i (fs.map .system) = [] := by
  induction fs with
  | nil => rfl
  | cons f fs ih => exact ih

end

/-! ## Every step -/

inductive Step (mapper : MessageMapper) (g : Readers) : Op → Readers → List Event → Prop where
  | collects (k : RoomRef) (i : PeerRef) (data : List UInt8) (now : Int) (h : Hosted)
    (buffer : List UInt8) (es : List ReadEvent) : g.system.registry.rooms[k]? = some h →
    readMessage h.room.session.config mapper (g.buffers k i) data = (buffer, es) →
    handed es = [] → Step mapper g (.read k i data now) (g.fill k i buffer) [.read k i data es]
  | hands (k : RoomRef) (i : PeerRef) (data : List UInt8) (now : Int) (h : Hosted)
    (buffer : List UInt8) (es : List ReadEvent) (message : IncomingMessage) (system : System)
    (fs : List System.Event) : g.system.registry.rooms[k]? = some h →
    readMessage h.room.session.config mapper (g.buffers k i) data = (buffer, es) →
    handed es = [some message] →
    g.system.step (.room k (.session (.handle i message now))) = some (system, fs) →
    Step mapper g (.read k i data now) { g.fill k i buffer with system := system }
      (.read k i data es :: fs.map .system)
  | system (a : System.Op) (system : System) (fs : List System.Event) : handsOver a = false →
    g.system.step a = some (system, fs) →
    Step mapper g (.system a) { g with system := system } (fs.map .system)

variable {mapper : MessageMapper} {g g' : Readers} {t es : List Event} {op : Op} {w : List Op}
  {gamesConfig : GamesConfig} {k : RoomRef} {i : PeerRef}

theorem step_cases (hs : g.step mapper op = some (g', es)) : Step mapper g op g' es := by
  cases op with
  | read k i data now =>
    simp only [step] at hs
    split at hs
    · cases hs
    · next h hk =>
      split at hs
      · have hone := handed_readMessage h.room.session.config mapper (g.buffers k i) data
        cases hr : readMessage h.room.session.config mapper (g.buffers k i) data with
        | mk buffer fs =>
          rw [hr] at hs hone
          split at hs
          · next hnone =>
            cases hs
            exact .collects k i data now h buffer fs hk hr hnone
          · cases hs
          · next message rest hsome =>
            split at hs
            · cases hs
            · next system gs hst =>
              cases hs
              obtain hnil | ⟨x, hx⟩ := hone
              · rw [hnil] at hsome
                cases hsome
              · rw [hx] at hsome
                cases hsome
                exact .hands k i data now h buffer fs message system gs hk hr hx hst
      · cases hs
  | system a =>
    simp only [step] at hs
    split at hs
    · cases hs
    · next ha =>
      split at hs
      · cases hs
      · next system fs hst =>
        cases hs
        exact .system a system fs (by simpa using ha) hst

structure Reading (mapper : MessageMapper) (k : RoomRef) (i : PeerRef) (t : List Event)
    (g : Readers) : Prop where
  alone : ∀ config : GameConfigDto,
    (∀ h : Hosted, g.system.registry.rooms[k]? = some h → h.room.session.config = config) →
      readAll config mapper (calls k i t) [] = (g.buffers k i, readings k i t)
  heard : (handed (readings k i t)).map (Option.map IncomingMessage.message) =
    (System.heard k i (systemPart t)).map some

/-- A session keeps its config, so what is asked of it after a step held before. -/
theorem config_before {s s' : System} {a : System.Op} {fs : List System.Event}
    {config : GameConfigDto} (hs : s.step a = some (s', fs))
    (h : ∀ h' : Hosted, s'.registry.rooms[k]? = some h' → h'.room.session.config = config)
    (h₀ : Hosted) (hk : s.registry.rooms[k]? = some h₀) : h₀.room.session.config = config := by
  obtain ⟨h', hk', hc⟩ := System.step_config hs hk
  rw [← hc, h h' hk']

/-- One call, whoever made it. -/
theorem read_alone {l : RoomRef} {j : PeerRef} {data buffer : List UInt8} {rs : List ReadEvent}
    {h : Hosted} {config : GameConfigDto} (hI : Reading mapper k i t g)
    (hl : g.system.registry.rooms[l]? = some h)
    (hr : readMessage h.room.session.config mapper (g.buffers l j) data = (buffer, rs))
    (hc : ∀ h : Hosted, g.system.registry.rooms[k]? = some h → h.room.session.config = config)
    (fs : List System.Event) :
    readAll config mapper (calls k i (t ++ .read l j data rs :: fs.map .system)) [] =
      ((g.fill l j buffer).buffers k i,
        readings k i (t ++ .read l j data rs :: fs.map .system)) := by
  have hold := hI.alone config hc
  rw [calls_append, readings_append, calls_read, readings_read, calls_system, readings_system,
    List.append_nil, List.append_nil]
  by_cases hki : l = k ∧ j = i
  · obtain ⟨rfl, rfl⟩ := hki
    rw [hc h hl] at hr
    simp only [and_self, if_true, fill]
    rw [readAll_snoc _ hold (quiet_of_handed hI.heard), hr]
  · have hki' : ¬ (k = l ∧ i = j) := fun ⟨hk, hi⟩ => hki ⟨hk.symm, hi.symm⟩
    simp only [if_neg hki, if_neg hki', List.append_nil, fill]
    exact hold

theorem step_reading (hI : Reading mapper k i t g) (hs : g.step mapper op = some (g', es)) :
    Reading mapper k i (t ++ es) g' := by
  cases step_cases hs with
  | collects l j data now h buffer rs hl hr hnone =>
    constructor
    · exact fun config hc => read_alone hI hl hr hc []
    · rw [readings_append, systemPart_append, readings_read, systemPart_read, handed_append,
        systemPart_nil, List.append_nil]
      have hquiet : handed ((if l = k ∧ j = i then rs else []) ++ readings k i []) = [] := by
        split
        · rw [handed_append, hnone]
          rfl
        · rfl
      rw [hquiet, List.append_nil]
      exact hI.heard
  | hands l j data now h buffer rs message system fs hl hr hone hst =>
    constructor
    · exact fun config hc => read_alone hI hl hr (config_before hst hc) fs
    · rw [readings_append, systemPart_append, readings_read, systemPart_read, readings_system,
        systemPart_system, List.append_nil, handed_append, System.heard_append,
        System.step_heard hst, List.map_append, List.map_append, hI.heard]
      by_cases hki : l = k ∧ j = i
      · obtain ⟨rfl, rfl⟩ := hki
        simp [System.Op.hands, Room.Op.hands, Session.Op.hands, hone]
      · have hnone : (System.Op.room l (.session (.handle j message now))).hands k i = [] := by
          simp only [System.Op.hands, Room.Op.hands, Session.Op.hands]
          by_cases hlk : l = k
          · rw [if_pos hlk, if_neg fun hji => hki ⟨hlk, hji⟩]
          · rw [if_neg hlk]
        rw [if_neg hki, hnone]
        rfl
  | system a system fs ha hst =>
    constructor
    · intro config hc
      rw [calls_append, readings_append, calls_system, readings_system, List.append_nil,
        List.append_nil]
      exact hI.alone config (config_before hst hc)
    · have hnone : a.hands k i = [] := by
        cases a with
        | room l b =>
          cases b with
          | session b => cases b <;> first | exact ite_self _ | cases ha
          | _ => exact ite_self _
        | _ => rfl
      rw [readings_append, systemPart_append, readings_system, systemPart_system,
        List.append_nil, System.heard_append, System.step_heard hst, hnone, List.append_nil]
      exact hI.heard

theorem run_reading (hr : (machine mapper).run w [] (init gamesConfig) = some (t, g))
    (k : RoomRef) (i : PeerRef) : Reading mapper k i t g :=
  run_invariant (I := Reading mapper k i) (fun _ _ _ _ _ hI hs => step_reading hI hs)
    ⟨fun _ _ => rfl, rfl⟩ hr

/-- Under the readers runs the server that is given whole messages. -/
theorem run_system (hr : (machine mapper).run w [] (init gamesConfig) = some (t, g)) :
    ∃ v, System.machine.run v [] (System.init gamesConfig) = some (systemPart t, g.system) := by
  refine run_invariant (I := fun t g => ∃ v,
    System.machine.run v [] (System.init gamesConfig) = some (systemPart t, g.system)) ?_
    ⟨[], rfl⟩ hr
  intro t g op g' es ⟨v, hv⟩ hs
  have hs : g.step mapper op = some (g', es) := hs
  cases step_cases hs with
  | collects l j data now h buffer rs hl hread hnone => exact ⟨v, by simpa [fill] using hv⟩
  | hands l j data now h buffer rs message system fs hl hread hone hst =>
    have hst : System.machine.step g.system (.room l (.session (.handle j message now))) =
        some (system, fs) := hst
    exact ⟨v ++ [_], by simpa using run_step_last hv hst⟩
  | system a system fs ha hst =>
    have hst : System.machine.step g.system a = some (system, fs) := hst
    exact ⟨v ++ [a], by simpa using run_step_last hv hst⟩

theorem readAll_bounded (config : GameConfigDto) (mapper : MessageMapper)
    (calls : List (List UInt8)) {buffer : List UInt8}
    (h : buffer.length ≤ config.maxMessageSizeBytes) :
    (readAll config mapper calls buffer).1.length ≤ config.maxMessageSizeBytes := by
  induction calls generalizing buffer with
  | nil => exact h
  | cons data calls ih =>
    rw [readAll]
    split
    · exact readMessage_bounded h
    · exact ih (readMessage_bounded h)

/-- The server on bytes runs the server on messages. Each reader makes of its own chunks what it
would make of them alone, its peer handles what the reader has parsed, in that order, and its
buffer never holds more than a message may have. Of messages that keep to the limit the peer
handles those that parse, however they were cut. -/
theorem readers_alone (hr : (machine mapper).run w [] (init gamesConfig) = some (t, g)) :
    (∃ v, System.machine.run v [] (System.init gamesConfig) = some (systemPart t, g.system)) ∧
      ∀ (k : RoomRef) (h : Hosted), g.system.registry.rooms[k]? = some h → ∀ i,
        readAll h.room.session.config mapper (calls k i t) [] =
          (g.buffers k i, readings k i t) ∧
        (handed (readings k i t)).map (Option.map IncomingMessage.message) =
          (System.heard k i (systemPart t)).map some ∧
        (g.buffers k i).length ≤ h.room.session.config.maxMessageSizeBytes ∧
        ∀ messages : List (List (List UInt8)), (∀ chunks ∈ messages, ∀ c ∈ chunks, c ≠ []) →
          (∀ chunks ∈ messages,
            chunks.flatten.length ≤ h.room.session.config.maxMessageSizeBytes) →
          calls k i t = messages.flatMap transfer →
          (System.heard k i (systemPart t)).map some =
            ((messages.map List.flatten).filterMap mapper).map
              (Option.map IncomingMessage.message) := by
  refine ⟨run_system hr, ?_⟩
  intro k h hk i
  have hreading := run_reading hr k i
  have halone := hreading.alone h.room.session.config fun h' hk' => by
    rw [hk] at hk'
    cases hk'
    rfl
  refine ⟨halone, hreading.heard, ?_, ?_⟩
  · have hnil : ([] : List UInt8).length ≤ h.room.session.config.maxMessageSizeBytes :=
      Nat.zero_le _
    have hle := readAll_bounded h.room.session.config mapper (calls k i t) hnil
    rwa [halone] at hle
  · intro messages hne hfit hcalls
    have hwhole := readAll_messages h.room.session.config mapper messages hne hfit
    rw [← hcalls, halone] at hwhole
    have hread := (Prod.mk.inj hwhole).2
    have hquiet := quiet_of_handed hreading.heard
    rw [hread] at hquiet
    rw [← hreading.heard, hread, answered_of_quiet hquiet, handed_readWhole]

def hostBroadcasts : List Op :=
  [.system (.connect (System.parameters "game" "lobby" "host")), .system (.getSession 0),
    .system (.room 0 (.session (.newPeer 0))), .system (.room 0 (.session (.advance 0 0))),
    .system (.room 0 (.session (.advance 0 0))), .read 0 0 (broadcastText.take 3) 0,
    .read 0 0 (broadcastText.drop 3) 0, .read 0 0 [] 0]

theorem readers_alone_hostBroadcasts :
    ∃ t g h, (machine broadcastMapper).run hostBroadcasts [] (init System.oneGame) = some (t, g) ∧
      g.system.registry.rooms[0]? = some h ∧
      System.heard 0 0 (systemPart t) = [⟨some .incomingBroadcast, none, none⟩] ∧
      (∃ v, System.machine.run v [] (System.init System.oneGame) =
        some (systemPart t, g.system)) ∧
      readAll h.room.session.config broadcastMapper (calls 0 0 t) [] =
        (g.buffers 0 0, readings 0 0 t) ∧
      (g.buffers 0 0).length ≤ h.room.session.config.maxMessageSizeBytes ∧
      (System.heard 0 0 (systemPart t)).map some =
        ([broadcastText].filterMap broadcastMapper).map (Option.map IncomingMessage.message) := by
  have hrun : ((machine broadcastMapper).run hostBroadcasts [] (init System.oneGame)).bind
      (fun r => (r.2.system.registry.rooms[0]?).map fun h => (System.heard 0 0 (systemPart r.1),
        calls 0 0 r.1, decide (10 ≤ h.room.session.config.maxMessageSizeBytes))) =
        some ([⟨some .incomingBroadcast, none, none⟩],
          [[broadcastText.take 3, broadcastText.drop 3]].flatMap transfer, true) := by
    decide +kernel
  obtain ⟨⟨t, g⟩, hr, hrun⟩ := Option.bind_eq_some_iff.mp hrun
  obtain ⟨h, hk, hh⟩ := Option.map_eq_some_iff.mp hrun
  simp only [Prod.mk.injEq] at hh
  obtain ⟨hheard, hcalls, hlimit⟩ := hh
  obtain ⟨hsystem, hpeers⟩ := readers_alone hr
  obtain ⟨halone, -, hbuffer, hmessages⟩ := hpeers 0 h hk 0
  refine ⟨t, g, h, hr, hk, hheard, hsystem, halone, hbuffer, ?_⟩
  refine hmessages [[broadcastText.take 3, broadcastText.drop 3]] (by decide) ?_ hcalls
  intro chunks hc
  rw [List.mem_singleton.mp hc]
  exact of_decide_eq_true hlimit

end Readers
end Helicopter
