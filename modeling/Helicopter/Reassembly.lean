import Helicopter.Dto
import Helicopter.GamesConfig

/-! `Peer::readMessage`: the chunks of a websocket message are collected in `m_messageBuffer`
until the call with size 0 that ends the message. -/
namespace Helicopter

/-- `readFromString`: `none` when it throws, and the null object for the text `null`. -/
abbrev MessageMapper := List UInt8 → Option (Option IncomingMessage)

/-- What one call of `readMessage` does besides filling the buffer. `handleMessage` is only
called with what the parser has just answered. -/
inductive ReadEvent where
  | parsed (wholeMessage : List UInt8)
  | handled (message : Option IncomingMessage)
  | fatal (error : ErrorDto)

def messageTooLarge (config : GameConfigDto) : ErrorDto :=
  ⟨.badMessage, "Fatal Error. Serialized message size shouldn't exceed " ++
    toString config.maxMessageSizeBytes ++ " bytes."⟩

def cantParseMessage : ErrorDto := ⟨.badMessage, "Fatal Error. Can't parse message."⟩

/-- `Peer::readMessage`. The first branch returns without touching the buffer. -/
def readMessage (config : GameConfigDto) (mapper : MessageMapper) (messageBuffer : List UInt8)
    (data : List UInt8) : List UInt8 × List ReadEvent :=
  if messageBuffer.length + data.length > config.maxMessageSizeBytes then
    (messageBuffer, [.fatal (messageTooLarge config)])
  else if data.length = 0 then
    match mapper messageBuffer with
    | none => ([], [.parsed messageBuffer, .fatal cantParseMessage])
    | some message => ([], [.parsed messageBuffer, .handled message])
  else (messageBuffer ++ data, [])

/-- `handleMessage` dereferences the null object. -/
def ReadEvent.crashes : ReadEvent → Bool
  | .handled none => true
  | _ => false

/-- The calls of the reader of one peer, one after the other. There is none after a crash. -/
def readAll (config : GameConfigDto) (mapper : MessageMapper) :
    List (List UInt8) → List UInt8 → List UInt8 × List ReadEvent
  | [], buffer => (buffer, [])
  | data :: calls, buffer =>
    let first := readMessage config mapper buffer data
    if first.2.any ReadEvent.crashes then first
    else
      let rest := readAll config mapper calls first.1
      (rest.1, first.2 ++ rest.2)

/-- The calls made for one message: its chunks, then the end-of-message call. -/
def transfer (chunks : List (List UInt8)) : List (List UInt8) := chunks ++ [[]]

variable {config : GameConfigDto} {mapper : MessageMapper}

theorem readAll_append {u : List (List UInt8)} {b : List UInt8}
    (h : ∀ e ∈ (readAll config mapper u b).2, e.crashes = false) (v : List (List UInt8)) :
    readAll config mapper (u ++ v) b =
      ((readAll config mapper v (readAll config mapper u b).1).1,
        (readAll config mapper u b).2 ++
          (readAll config mapper v (readAll config mapper u b).1).2) := by
  induction u generalizing b with
  | nil => simp [readAll]
  | cons d u ih =>
    rw [readAll] at h
    rw [List.cons_append, readAll, readAll]
    split at h
    · next hc =>
      obtain ⟨e, he, hcrash⟩ := List.any_eq_true.mp hc
      rw [h e he] at hcrash
      cases hcrash
    · next hc =>
      simp only [if_neg hc]
      rw [ih fun e he => h e (List.mem_append_right _ he), List.append_assoc]

theorem readAll_crashed {u : List (List UInt8)} {b : List UInt8} {e : ReadEvent}
    (he : e ∈ (readAll config mapper u b).2) (hcrash : e.crashes = true)
    (v : List (List UInt8)) :
    readAll config mapper (u ++ v) b = readAll config mapper u b := by
  induction u generalizing b with
  | nil => cases he
  | cons d u ih =>
    rw [readAll] at he
    rw [List.cons_append, readAll, readAll]
    split at he
    · next hc => simp only [if_pos hc]
    · next hc =>
      simp only [if_neg hc]
      obtain he | he := List.mem_append.mp he
      · exact absurd (List.any_eq_true.mpr ⟨e, he, hcrash⟩) hc
      · rw [ih he]

/-- The chunks that still fit when they arrive, after `n` bytes. A chunk that does not fit is
skipped, and a later, smaller one may fit again. -/
def kept (limit : Nat) : Nat → List (List UInt8) → List (List UInt8)
  | _, [] => []
  | n, c :: cs =>
    if n + c.length > limit then kept limit n cs else c :: kept limit (n + c.length) cs

theorem kept_sublist (limit n : Nat) (chunks : List (List UInt8)) :
    (kept limit n chunks).Sublist chunks := by
  induction chunks generalizing n with
  | nil => exact List.Sublist.slnil
  | cons c cs ih =>
    rw [kept]
    split
    · exact (ih n).cons c
    · exact (ih (n + c.length)).cons_cons c

theorem kept_bounded (limit n : Nat) (chunks : List (List UInt8)) (h : n ≤ limit) :
    n + (kept limit n chunks).flatten.length ≤ limit := by
  induction chunks generalizing n with
  | nil => simpa [kept] using h
  | cons c cs ih =>
    rw [kept]
    split
    · exact ih n h
    · next hfit =>
      have hc := ih (n + c.length) (by omega)
      simp only [List.flatten_cons, List.length_append]
      omega

/-- Nothing is kept exactly when every chunk alone is over the limit. -/
theorem kept_eq_nil_iff (limit : Nat) (chunks : List (List UInt8)) :
    kept limit 0 chunks = [] ↔ ∀ c ∈ chunks, limit < c.length := by
  induction chunks with
  | nil => simp [kept]
  | cons c cs ih =>
    rw [kept]
    by_cases hc : limit < c.length
    · have hover : 0 + c.length > limit := by omega
      rw [if_pos hover, ih]
      simp [hc]
    · have hfit : ¬ 0 + c.length > limit := by omega
      rw [if_neg hfit]
      simp [hc]

/-- Reading the chunks of a message calls the parser never: it only fills the buffer and
answers each chunk that does not fit. -/
theorem readAll_chunks (config : GameConfigDto) (mapper : MessageMapper)
    (chunks : List (List UInt8)) (b : List UInt8) (hne : ∀ c ∈ chunks, c ≠ []) :
    (readAll config mapper chunks b).1 =
        b ++ (kept config.maxMessageSizeBytes b.length chunks).flatten ∧
      ∀ e ∈ (readAll config mapper chunks b).2, e = .fatal (messageTooLarge config) := by
  induction chunks generalizing b with
  | nil => simp [readAll, kept]
  | cons c cs ih =>
    have hcs : ∀ c ∈ cs, c ≠ [] := fun x hx => hne x (List.mem_cons_of_mem c hx)
    have hlen : c.length ≠ 0 := by
      have := hne c List.mem_cons_self
      simpa using this
    rw [readAll, readMessage, kept]
    split
    · obtain ⟨hb, he⟩ := ih b hcs
      refine ⟨hb, ?_⟩
      intro e hm
      obtain hm | hm := List.mem_cons.mp hm
      · exact hm
      · exact he e hm
    · obtain ⟨hb, he⟩ := ih (b ++ c) hcs
      simp only [List.length_append] at hb
      exact ⟨by simp [hb], by simpa using he⟩

/-- What comes of any message, from an empty buffer: one call of the parser, on the chunks
that fitted, and an empty buffer. -/
theorem readAll_transfer (config : GameConfigDto) (mapper : MessageMapper)
    (chunks : List (List UInt8)) (hne : ∀ c ∈ chunks, c ≠ []) :
    (readAll config mapper (transfer chunks) []).1 = [] ∧
      ∃ errors, (∀ e ∈ errors, e = .fatal (messageTooLarge config)) ∧
        (readAll config mapper (transfer chunks) []).2 =
          errors ++ .parsed (kept config.maxMessageSizeBytes 0 chunks).flatten ::
            (match mapper (kept config.maxMessageSizeBytes 0 chunks).flatten with
              | none => [.fatal cantParseMessage]
              | some message => [.handled message]) := by
  obtain ⟨hb, he⟩ := readAll_chunks config mapper chunks [] hne
  have hfit := kept_bounded config.maxMessageSizeBytes 0 chunks (Nat.zero_le _)
  simp only [List.nil_append, List.length_nil] at hb
  have hend : ¬ (kept config.maxMessageSizeBytes 0 chunks).flatten.length + 0 >
      config.maxMessageSizeBytes := by omega
  have hquiet : ∀ e ∈ (readAll config mapper chunks []).2, e.crashes = false := by
    intro e hm
    rw [he e hm]
    rfl
  rw [transfer, readAll_append hquiet, hb]
  simp only [readAll, readMessage, List.length_nil, if_neg hend, if_true, List.append_nil]
  constructor
  · split <;> split <;> rfl
  · refine ⟨_, he, ?_⟩
    congr 1
    split <;> split <;> rfl

/-- An oversize message leaves no trace: no part of it reaches the parser or `handleMessage`
(which is not called at all, since the mapper throws on the empty text), and whatever comes
next is read as if it had not been sent. -/
structure LeavesNoTrace (config : GameConfigDto) (mapper : MessageMapper)
    (chunks : List (List UInt8)) : Prop where
  unread : ∀ part, part.Sublist chunks → part ≠ [] →
    .parsed part.flatten ∉ (readAll config mapper (transfer chunks) []).2
  unhandled : mapper [] = none →
    ∀ m, .handled m ∉ (readAll config mapper (transfer chunks) []).2
  emptied : (readAll config mapper (transfer chunks) []).1 = []
  forgotten : mapper [] = none → ∀ later, readAll config mapper (transfer chunks ++ later) [] =
    ((readAll config mapper later []).1,
      (readAll config mapper (transfer chunks) []).2 ++ (readAll config mapper later []).2)

/-- The parser is called on the chunks of an oversize message that fitted, whatever they are,
so the message leaves no trace exactly when each of its chunks alone is over the limit. -/
theorem oversize_leaves_no_trace_iff (config : GameConfigDto) (mapper : MessageMapper)
    (chunks : List (List UInt8)) (hne : ∀ c ∈ chunks, c ≠ [])
    (hover : config.maxMessageSizeBytes < chunks.flatten.length) :
    (LeavesNoTrace config mapper chunks ↔ ∀ c ∈ chunks, config.maxMessageSizeBytes < c.length) ∧
      ∃ part, part.Sublist chunks ∧ part ≠ chunks ∧
        .parsed part.flatten ∈ (readAll config mapper (transfer chunks) []).2 := by
  obtain ⟨hempty, errors, herrors, hevents⟩ :=
    readAll_transfer config mapper chunks hne
  have hparsed : .parsed (kept config.maxMessageSizeBytes 0 chunks).flatten ∈
      (readAll config mapper (transfer chunks) []).2 := by
    rw [hevents]
    exact List.mem_append_right _ List.mem_cons_self
  refine ⟨⟨?_, ?_⟩, ?_⟩
  · intro h
    rw [← kept_eq_nil_iff]
    by_contra hk
    exact h.unread _ (kept_sublist _ 0 chunks) hk hparsed
  · intro hbig
    rw [← kept_eq_nil_iff] at hbig
    have hnotparsed : ∀ x, .parsed x ∉ errors := fun x hx => by
      have := herrors _ hx
      cases this
    refine ⟨?_, ?_, hempty, ?_⟩
    · intro part hsub hpart hmem
      obtain ⟨c, hc⟩ := List.exists_mem_of_ne_nil part hpart
      have hflat : part.flatten ≠ [] := by
        intro hf
        exact hne c (hsub.subset hc) (List.flatten_eq_nil_iff.mp hf c hc)
      rw [hevents, hbig, List.mem_append] at hmem
      obtain hmem | hmem := hmem
      · exact hnotparsed _ hmem
      · obtain he | he := List.mem_cons.mp hmem
        · simp only [ReadEvent.parsed.injEq, List.flatten_nil] at he
          exact hflat he
        · split at he <;> simp at he
    · intro hmapper m hmem
      rw [hevents, hbig, List.flatten_nil, hmapper, List.mem_append] at hmem
      obtain hmem | hmem := hmem
      · have := herrors _ hmem
        cases this
      · simp at hmem
    · intro hmapper later
      rw [readAll_append, hempty]
      intro e hmem
      rw [hevents, hbig, List.flatten_nil, hmapper, List.mem_append] at hmem
      obtain hmem | hmem := hmem
      · rw [herrors e hmem]
        rfl
      · obtain rfl | hmem := List.mem_cons.mp hmem
        · rfl
        · rw [List.mem_singleton.mp hmem]
          rfl
  · refine ⟨_, kept_sublist _ 0 chunks, ?_, hparsed⟩
    intro hk
    have hfit := kept_bounded config.maxMessageSizeBytes 0 chunks (Nat.zero_le _)
    rw [hk] at hfit
    omega

/-- The bytes of the broadcast `{"code":6}`. -/
def broadcastText : List UInt8 := [123, 34, 99, 111, 100, 101, 34, 58, 54, 125]

def broadcastMapper : MessageMapper := fun text =>
  if text = broadcastText then
    some (some ⟨⟨some .incomingBroadcast, none, none⟩, fun _ h => by cases h⟩)
  else none

/-- The broadcast, then 20 spaces in one chunk, at a limit of 16 bytes. -/
def oversizeBroadcast : List (List UInt8) := [broadcastText, List.replicate 20 32]

theorem oversize_leaves_no_trace_broadcast :
    LeavesNoTrace { maxMessageSizeBytes := 4 } broadcastMapper oversizeBroadcast ∧
      ¬ LeavesNoTrace { maxMessageSizeBytes := 16 } broadcastMapper oversizeBroadcast :=
  ⟨(oversize_leaves_no_trace_iff { maxMessageSizeBytes := 4 } broadcastMapper oversizeBroadcast
      (by decide) (by decide)).1.mpr (by decide),
    fun h => absurd ((oversize_leaves_no_trace_iff { maxMessageSizeBytes := 16 } broadcastMapper
      oversizeBroadcast (by decide) (by decide)).1.mp h) (by decide)⟩

/-- The oversize message is executed as the broadcast that its first chunk spells. -/
theorem oversize_broadcast_handled :
    (∃ m, .handled (some m) ∈
      (readAll { maxMessageSizeBytes := 16 } broadcastMapper (transfer oversizeBroadcast) []).2) ∧
    ¬ LeavesNoTrace { maxMessageSizeBytes := 16 } broadcastMapper oversizeBroadcast := by
  constructor
  · exact ⟨_, List.mem_cons_of_mem _ (List.mem_cons_of_mem _ List.mem_cons_self)⟩
  · intro h
    apply h.unread [broadcastText] (by decide) (by simp)
    exact List.mem_cons_of_mem _ List.mem_cons_self

def readWhole (mapper : MessageMapper) (wholeMessage : List UInt8) : List ReadEvent :=
  .parsed wholeMessage ::
    match mapper wholeMessage with
    | none => [.fatal cantParseMessage]
    | some message => [.handled message]

def ReadEvent.parsed? : ReadEvent → Option (List UInt8)
  | .parsed wholeMessage => some wholeMessage
  | .handled _ | .fatal _ => none

theorem parsed_readWhole (mapper : MessageMapper) (wholeMessage : List UInt8) :
    (readWhole mapper wholeMessage).filterMap ReadEvent.parsed? = [wholeMessage] := by
  unfold readWhole
  cases mapper wholeMessage <;> rfl

def isNull (mapper : MessageMapper) (text : List UInt8) : Bool :=
  match mapper text with
  | some none => true
  | _ => false

theorem crashes_readWhole (mapper : MessageMapper) (text : List UInt8) :
    (readWhole mapper text).any ReadEvent.crashes = isNull mapper text := by
  unfold readWhole isNull
  cases mapper text with
  | none => rfl
  | some message => cases message <;> rfl

/-- The texts that are read: those up to the first null object. -/
def answered (mapper : MessageMapper) : List (List UInt8) → List (List UInt8)
  | [] => []
  | text :: texts => text :: if isNull mapper text then [] else answered mapper texts

theorem answered_eq_iff {texts : List (List UInt8)} :
    answered mapper texts = texts ↔ ∀ text ∈ texts.dropLast, isNull mapper text = false := by
  induction texts with
  | nil => simp [answered]
  | cons text texts ih =>
    cases texts with
    | nil => simp [answered]
    | cons next texts =>
      rw [answered, List.dropLast_cons_cons]
      cases hn : isNull mapper text with
      | true => simp [hn]
      | false => simp [hn, ih]

def AllFit (config : GameConfigDto) (mapper : MessageMapper) (calls : List (List UInt8))
    (b : List UInt8) : Prop :=
  ∀ u data v, calls = u ++ data :: v →
    (readAll config mapper u b).1.length + data.length ≤ config.maxMessageSizeBytes

theorem allFit_append {x y : List (List UInt8)} {b : List UInt8}
    (hquiet : ∀ e ∈ (readAll config mapper x b).2, e.crashes = false)
    (hx : AllFit config mapper x b)
    (hy : AllFit config mapper y (readAll config mapper x b).1) :
    AllFit config mapper (x ++ y) b := by
  intro u data v hcalls
  obtain ⟨w, hu, hw⟩ | ⟨w, hxw, hw⟩ := List.append_eq_append_iff.mp hcalls
  · rw [hu, readAll_append hquiet]
    exact hy w data v hw
  · cases w with
    | nil =>
      rw [List.append_nil] at hxw
      rw [← hxw]
      exact hy [] data v hw.symm
    | cons d w =>
      cases hw
      exact hx u data w hxw

/-- Chunks that fit together are only collected. -/
theorem readAll_fitting (config : GameConfigDto) (mapper : MessageMapper)
    (chunks : List (List UInt8)) (b : List UInt8) (hne : ∀ c ∈ chunks, c ≠ [])
    (hfit : b.length + chunks.flatten.length ≤ config.maxMessageSizeBytes) :
    readAll config mapper chunks b = (b ++ chunks.flatten, []) ∧
      AllFit config mapper chunks b := by
  induction chunks generalizing b with
  | nil =>
    refine ⟨by simp [readAll], ?_⟩
    intro u data v hcalls
    simp at hcalls
  | cons c cs ih =>
    rw [List.flatten_cons, List.length_append] at hfit
    have hc : b.length + c.length ≤ config.maxMessageSizeBytes := by omega
    have hlen : c.length ≠ 0 := by
      have := hne c List.mem_cons_self
      simpa using this
    have hread : readAll config mapper [c] b = (b ++ c, []) := by
      have hover : ¬ b.length + c.length > config.maxMessageSizeBytes := by omega
      simp [readAll, readMessage, hover, hlen]
    have hquiet : ∀ e ∈ (readAll config mapper [c] b).2, e.crashes = false := by
      rw [hread]
      exact fun e he => by cases he
    have hcs : ∀ c ∈ cs, c ≠ [] := fun x hx => hne x (List.mem_cons_of_mem c hx)
    obtain ⟨hrest, hall⟩ := ih (b ++ c) hcs (by rw [List.length_append]; omega)
    rw [← List.singleton_append]
    constructor
    · rw [readAll_append hquiet, hread, hrest]
      simp
    · refine allFit_append hquiet ?_ (by rwa [hread])
      intro u data v hcalls
      obtain ⟨rfl, rfl, -⟩ : u = [] ∧ c = data ∧ [] = v := by
        cases u with
        | nil => simpa using hcalls
        | cons d u => simp at hcalls
      exact hc

/-- A message that fits is read as a whole, and leaves the buffer as it found it. -/
theorem readAll_transfer_fitting (config : GameConfigDto) (mapper : MessageMapper)
    (chunks : List (List UInt8)) (hne : ∀ c ∈ chunks, c ≠ [])
    (hfit : chunks.flatten.length ≤ config.maxMessageSizeBytes) :
    readAll config mapper (transfer chunks) [] = ([], readWhole mapper chunks.flatten) ∧
      AllFit config mapper (transfer chunks) [] := by
  obtain ⟨hread, hall⟩ := readAll_fitting config mapper chunks [] hne (by simpa using hfit)
  rw [List.nil_append] at hread
  have hquiet : ∀ e ∈ (readAll config mapper chunks []).2, e.crashes = false := by
    rw [hread]
    exact fun e he => by cases he
  have hlast : readMessage config mapper chunks.flatten [] =
      ([], readWhole mapper chunks.flatten) := by
    rw [readMessage, if_neg (by simpa using hfit), if_pos List.length_nil, readWhole]
    split <;> rfl
  constructor
  · rw [transfer, readAll_append hquiet, hread]
    simp [readAll, hlast]
  · apply allFit_append hquiet hall
    rw [hread]
    intro u data v hcalls
    obtain ⟨rfl, rfl, -⟩ : u = [] ∧ data = [] ∧ v = [] := by
      cases u with
      | nil => simpa [eq_comm] using hcalls
      | cons d u => simp at hcalls
    simpa [readAll] using hfit

structure Reassembled (config : GameConfigDto) (mapper : MessageMapper)
    (messages : List (List (List UInt8))) : Prop where
  unchecked : AllFit config mapper (messages.flatMap transfer) []
  parsedOnce : (readAll config mapper (messages.flatMap transfer) []).2.filterMap
    ReadEvent.parsed? = messages.map List.flatten
  events : (readAll config mapper (messages.flatMap transfer) []).2 =
    (messages.map List.flatten).flatMap (readWhole mapper)
  emptied : ∀ done, done <+: messages → (readAll config mapper (done.flatMap transfer) []).1 = []

/-- A list of messages is read up to the first null object, however it was cut. -/
theorem readAll_messages (config : GameConfigDto) (mapper : MessageMapper)
    (messages : List (List (List UInt8)))
    (hne : ∀ chunks ∈ messages, ∀ c ∈ chunks, c ≠ [])
    (hfit : ∀ chunks ∈ messages, chunks.flatten.length ≤ config.maxMessageSizeBytes) :
    readAll config mapper (messages.flatMap transfer) [] =
        ([], (answered mapper (messages.map List.flatten)).flatMap (readWhole mapper)) := by
  induction messages with
  | nil => rfl
  | cons chunks messages ih =>
    obtain ⟨hread, -⟩ := readAll_transfer_fitting config mapper chunks
      (hne chunks List.mem_cons_self) (hfit chunks List.mem_cons_self)
    have hrest := ih (fun x hx => hne x (List.mem_cons_of_mem chunks hx))
      (fun x hx => hfit x (List.mem_cons_of_mem chunks hx))
    have hnull := crashes_readWhole mapper chunks.flatten
    rw [List.flatMap_cons, List.map_cons, answered]
    cases hn : isNull mapper chunks.flatten with
    | true =>
      rw [hn] at hnull
      obtain ⟨e, he, hcrash⟩ := List.any_eq_true.mp hnull
      rw [readAll_crashed (e := e) (by rw [hread]; exact he) hcrash, hread]
      simp
    | false =>
      rw [hn, List.any_eq_false] at hnull
      rw [readAll_append (by rw [hread]; simpa using hnull), hread, hrest]
      simp

/-- The size check fires in no call before the null object. -/
theorem allFit_messages (config : GameConfigDto) (mapper : MessageMapper)
    (messages : List (List (List UInt8)))
    (hne : ∀ chunks ∈ messages, ∀ c ∈ chunks, c ≠ [])
    (hfit : ∀ chunks ∈ messages, chunks.flatten.length ≤ config.maxMessageSizeBytes)
    (hnull : ∀ text ∈ (messages.map List.flatten).dropLast, isNull mapper text = false) :
    AllFit config mapper (messages.flatMap transfer) [] := by
  induction messages with
  | nil =>
    intro u data v hcalls
    simp at hcalls
  | cons chunks messages ih =>
    obtain ⟨hread, hall⟩ := readAll_transfer_fitting config mapper chunks
      (hne chunks List.mem_cons_self) (hfit chunks List.mem_cons_self)
    cases messages with
    | nil => simpa using hall
    | cons next messages =>
      rw [List.map_cons, List.map_cons, List.dropLast_cons_cons] at hnull
      have hquiet := crashes_readWhole mapper chunks.flatten
      rw [hnull _ List.mem_cons_self, List.any_eq_false] at hquiet
      rw [List.flatMap_cons]
      refine allFit_append (by rw [hread]; simpa using hquiet) hall ?_
      rw [hread]
      exact ih (fun x hx => hne x (List.mem_cons_of_mem chunks hx))
        (fun x hx => hfit x (List.mem_cons_of_mem chunks hx))
        fun text ht => hnull text (List.mem_cons_of_mem _ ht)

theorem parsed_readWholes (texts : List (List UInt8)) :
    (texts.flatMap (readWhole mapper)).filterMap ReadEvent.parsed? = texts := by
  rw [List.filterMap_flatMap]
  simp only [parsed_readWhole, List.flatMap_singleton']

/-- Only the texts of the messages count, not how they were cut. They are all read as long as
none but the last is a null object, after which nothing is. -/
theorem reassembly_independent_iff (config : GameConfigDto) (mapper : MessageMapper)
    (messages : List (List (List UInt8)))
    (hne : ∀ chunks ∈ messages, ∀ c ∈ chunks, c ≠ [])
    (hfit : ∀ chunks ∈ messages, chunks.flatten.length ≤ config.maxMessageSizeBytes) :
    (Reassembled config mapper messages ↔
        ∀ text ∈ (messages.map List.flatten).dropLast, isNull mapper text = false) ∧
      ∀ recut : List (List (List UInt8)), (∀ chunks ∈ recut, ∀ c ∈ chunks, c ≠ []) →
        recut.map List.flatten = messages.map List.flatten →
          (readAll config mapper (recut.flatMap transfer) []).2 =
            (readAll config mapper (messages.flatMap transfer) []).2 := by
  have hread := readAll_messages config mapper messages hne hfit
  refine ⟨⟨?_, ?_⟩, ?_⟩
  · intro h
    have hparsed := h.parsedOnce
    rw [hread, parsed_readWholes] at hparsed
    exact answered_eq_iff.mp hparsed
  · intro hnull
    have hall := answered_eq_iff.mpr hnull
    refine ⟨allFit_messages config mapper messages hne hfit hnull, ?_, by rw [hread, hall], ?_⟩
    · rw [hread, parsed_readWholes, hall]
    · intro done hdone
      rw [readAll_messages config mapper done (fun x hx => hne x (hdone.subset hx))
        fun x hx => hfit x (hdone.subset hx)]
  · intro recut hrecut hsame
    have hfit' : ∀ chunks ∈ recut, chunks.flatten.length ≤ config.maxMessageSizeBytes := by
      intro chunks hc
      have hmem : chunks.flatten ∈ messages.map List.flatten := by
        rw [← hsame]
        exact List.mem_map_of_mem hc
      obtain ⟨whole, hwhole, heq⟩ := List.mem_map.mp hmem
      rw [← heq]
      exact hfit whole hwhole
    rw [hread, readAll_messages config mapper recut hrecut hfit', hsame]

/-- The broadcast cut in two places, up to a limit it reaches exactly, and an empty message. -/
theorem reassembly_independent_broadcast :
    Reassembled { maxMessageSizeBytes := 10 } broadcastMapper [[broadcastText], []] ∧
      (readAll { maxMessageSizeBytes := 10 } broadcastMapper
          ([[broadcastText.take 3, broadcastText.drop 3], []].flatMap transfer) []).2 =
        (readAll { maxMessageSizeBytes := 10 } broadcastMapper
          ([[broadcastText], []].flatMap transfer) []).2 := by
  obtain ⟨h, hrecut⟩ := reassembly_independent_iff { maxMessageSizeBytes := 10 } broadcastMapper
    [[broadcastText], []] (by decide) (by decide)
  exact ⟨h.mpr (by decide),
    hrecut [[broadcastText.take 3, broadcastText.drop 3], []] (by decide) (by decide)⟩

/-- The bytes of the text `null`. -/
def nullText : List UInt8 := [110, 117, 108, 108]

def nullMapper : MessageMapper := fun text =>
  if text = nullText then some none else broadcastMapper text

/-- The broadcast after a `null` is not read. -/
theorem null_ends_reading :
    (readAll { maxMessageSizeBytes := 10 } nullMapper
        ([[nullText], [broadcastText]].flatMap transfer) []).2.filterMap ReadEvent.parsed? =
      [nullText] ∧
    ¬ Reassembled { maxMessageSizeBytes := 10 } nullMapper [[nullText], [broadcastText]] := by
  have hread : (readAll { maxMessageSizeBytes := 10 } nullMapper
      ([[nullText], [broadcastText]].flatMap transfer) []).2.filterMap ReadEvent.parsed? =
        [nullText] := by
    decide
  refine ⟨hread, ?_⟩
  intro h
  have hparsed := h.parsedOnce
  rw [hread] at hparsed
  exact absurd hparsed (by decide)

end Helicopter
