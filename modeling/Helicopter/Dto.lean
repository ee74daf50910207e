import Mathlib.Data.List.Basic

/-! The data transfer objects. A null `oatpp` wrapper is `none`; 64-bit integers are `Int`. -/
namespace Helicopter

inductive MessageCodes where
  | outgoingHello | outgoingPing | incomingPong | outgoingError | outgoingNewHost
  | outgoingMessage | incomingBroadcast | incomingDirectMessage
  | incomingSynchronizedEvent | outgoingSynchronizedEvent
  | outgoingHostClientJoined | outgoingHostClientLeft
  | incomingHostKickClients
  | outgoingClientKicked
  | incomingClientMessage
  deriving DecidableEq

inductive ErrorCodes where
  | badRequest | gameNotFound | sessionNotFound | operationNotPermitted | badMessage | invalidState
  deriving DecidableEq

structure ErrorDto where
  code : ErrorCodes
  message : String
  deriving DecidableEq

structure HelloMessageDto where
  peerId : Int
  isHost : Bool
  deriving DecidableEq

structure DirectMessageDto where
  peerIds : Option (List (Option Int)) := some []
  data : Option String
  deriving DecidableEq

structure OutgoingMessageDto where
  peerId : Int
  data : Option String
  deriving DecidableEq

structure OutgoingSynchronizedMessageDto where
  eventId : Int
  peerId : Int
  data : Option String
  deriving DecidableEq

/-- The types the payload selector of `MessageDto` can answer with. -/
inductive PayloadType where
  | hello | int64 | error | message | string | directMessage | synchronizedMessage | int64s
  deriving DecidableEq

/-- A non-null `oatpp::Any`: a value with its type. -/
inductive Payload where
  | hello (value : HelloMessageDto)
  | int64 (value : Int)
  | error (value : ErrorDto)
  | message (value : OutgoingMessageDto)
  | string (value : String)
  | directMessage (value : DirectMessageDto)
  | synchronizedMessage (value : OutgoingSynchronizedMessageDto)
  | int64s (value : List (Option Int))
  deriving DecidableEq

def Payload.type : Payload → PayloadType
  | .hello _ => .hello
  | .int64 _ => .int64
  | .error _ => .error
  | .message _ => .message
  | .string _ => .string
  | .directMessage _ => .directMessage
  | .synchronizedMessage _ => .synchronizedMessage
  | .int64s _ => .int64s

/-- `DTO_FIELD_TYPE_SELECTOR(payload)`. `none` is the branch that throws "not implemented". -/
def MessageCodes.payloadType : MessageCodes → Option PayloadType
  | .outgoingHello => some .hello
  | .outgoingPing => some .int64
  | .incomingPong => some .int64
  | .outgoingError => some .error
  | .outgoingMessage => some .message
  | .incomingBroadcast => some .string
  | .incomingDirectMessage => some .directMessage
  | .incomingSynchronizedEvent => some .string
  | .outgoingSynchronizedEvent => some .synchronizedMessage
  | .outgoingHostClientJoined | .outgoingHostClientLeft => some .int64
  | .incomingHostKickClients => some .int64s
  | .outgoingClientKicked => some .string
  | .incomingClientMessage => some .string
  | .outgoingNewHost => none

structure MessageDto where
  code : Option MessageCodes
  payload : Option Payload := none
  ocid : Option String := none
  deriving DecidableEq

def MessageDto.WellTyped (m : MessageDto) : Prop :=
  ∀ p, m.payload = some p → m.code.bind MessageCodes.payloadType = some p.type

/-- A message as the object mapper returns it from `readFromString`. -/
structure IncomingMessage where
  message : MessageDto
  typed : message.WellTyped

/-! `payload.retrieve<T>()`. It throws when the stored type is not `T`, which the payload of
an `IncomingMessage` never does to the handler of its code. -/

def MessageDto.retrieveInt64 (m : MessageDto) : Option Int :=
  match m.payload with
  | some (.int64 v) => some v
  | _ => none

def MessageDto.retrieveString (m : MessageDto) : Option String :=
  match m.payload with
  | some (.string v) => some v
  | _ => none

def MessageDto.retrieveDirectMessage (m : MessageDto) : Option DirectMessageDto :=
  match m.payload with
  | some (.directMessage v) => some v
  | _ => none

def MessageDto.retrieveInt64s (m : MessageDto) : Option (List (Option Int)) :=
  match m.payload with
  | some (.int64s v) => some v
  | _ => none

/-! The messages the server makes. -/

def MessageDto.hello (peerId : Int) (isHost : Bool) : MessageDto :=
  ⟨some .outgoingHello, some (.hello ⟨peerId, isHost⟩), none⟩

def MessageDto.outgoingError (error : ErrorDto) : MessageDto :=
  ⟨some .outgoingError, some (.error error), none⟩

def MessageDto.outgoing (payload : OutgoingMessageDto) : MessageDto :=
  ⟨some .outgoingMessage, some (.message payload), none⟩

def MessageDto.synchronizedEvent (event : OutgoingSynchronizedMessageDto) : MessageDto :=
  ⟨some .outgoingSynchronizedEvent, some (.synchronizedMessage event), none⟩

def MessageDto.clientJoined (peerId : Int) : MessageDto :=
  ⟨some .outgoingHostClientJoined, some (.int64 peerId), none⟩

def MessageDto.clientLeft (peerId : Int) : MessageDto :=
  ⟨some .outgoingHostClientLeft, some (.int64 peerId), none⟩

/-! What a queued message carries. -/

def MessageDto.event? (m : MessageDto) : Option OutgoingSynchronizedMessageDto :=
  match m.code, m.payload with
  | some .outgoingSynchronizedEvent, some (.synchronizedMessage e) => some e
  | _, _ => none

def MessageDto.outgoing? (m : MessageDto) : Option OutgoingMessageDto :=
  match m.code, m.payload with
  | some .outgoingMessage, some (.message e) => some e
  | _, _ => none

inductive Notice where
  | joined (peerId : Int)
  | left (peerId : Int)
  deriving DecidableEq

def Notice.message : Notice → MessageDto
  | .joined peerId => .clientJoined peerId
  | .left peerId => .clientLeft peerId

def MessageDto.notice? (m : MessageDto) : Option Notice :=
  match m.code, m.payload with
  | some .outgoingHostClientJoined, some (.int64 peerId) => some (.joined peerId)
  | some .outgoingHostClientLeft, some (.int64 peerId) => some (.left peerId)
  | _, _ => none

section
variable (id : Int) (isHost : Bool) (m : OutgoingMessageDto) (e : OutgoingSynchronizedMessageDto)

@[simp] theorem event?_hello : (MessageDto.hello id isHost).event? = none := rfl
@[simp] theorem event?_outgoing : (MessageDto.outgoing m).event? = none := rfl
@[simp] theorem event?_synchronizedEvent :
    (MessageDto.synchronizedEvent e).event? = some e := rfl

@[simp] theorem outgoing?_hello : (MessageDto.hello id isHost).outgoing? = none := rfl
@[simp] theorem outgoing?_outgoing : (MessageDto.outgoing m).outgoing? = some m := rfl
@[simp] theorem outgoing?_synchronizedEvent :
    (MessageDto.synchronizedEvent e).outgoing? = none := rfl

@[simp] theorem notice?_hello : (MessageDto.hello id isHost).notice? = none := rfl
@[simp] theorem notice?_outgoing : (MessageDto.outgoing m).notice? = none := rfl
@[simp] theorem notice?_synchronizedEvent :
    (MessageDto.synchronizedEvent e).notice? = none := rfl
@[simp] theorem event?_notice (n : Notice) : n.message.event? = none := by cases n <;> rfl
@[simp] theorem outgoing?_notice (n : Notice) : n.message.outgoing? = none := by cases n <;> rfl
@[simp] theorem notice?_notice (n : Notice) : n.message.notice? = some n := by cases n <;> rfl

end

end Helicopter
