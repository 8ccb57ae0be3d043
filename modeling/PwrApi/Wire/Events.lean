import PwrApi.Wire.SerialBuf

/-! The wire format of the events: `serialize_out` and `serialize_in` of `event.h`,
`events.h` and `routerEvent.h`. Each reader takes the fields in the reverse of the
order its writer appended them. -/

namespace PwrApi

open Wire

namespace Event

def serializeOut (e : Event) (buf : SerialBuf) : SerialBuf :=
  let buf := put buf e.id
  let buf := put buf e.type
  put buf e.status

def serializeIn (buf : SerialBuf) : Option (Event × SerialBuf) := do
  let (status, buf) ← get buf
  let (type, buf) ← get buf
  let (id, buf) ← get buf
  some ({ type, id, status }, buf)

@[simp] theorem serializeIn_serializeOut (e : Event) (buf : SerialBuf) :
    serializeIn (e.serializeOut buf) = some (e, buf) := by
  simp [serializeIn, serializeOut]

end Event

namespace ServerConnectEvent

def serializeOut (e : ServerConnectEvent) (buf : SerialBuf) : SerialBuf :=
  let buf := e.toEvent.serializeOut buf
  putString buf e.name

def serializeIn (buf : SerialBuf) : Option (ServerConnectEvent × SerialBuf) := do
  let (name, buf) ← getString buf
  let (base, buf) ← Event.serializeIn buf
  some ({ toEvent := base, name }, buf)

theorem serializeIn_serializeOut (e : ServerConnectEvent) (buf : SerialBuf)
    (hname : Fits e.name) : serializeIn (e.serializeOut buf) = some (e, buf) := by
  simp [serializeIn, serializeOut, hname]

end ServerConnectEvent

namespace CommEvent

def serializeOut (e : CommEvent) (buf : SerialBuf) : SerialBuf :=
  let buf := e.toEvent.serializeOut buf
  let buf := put buf e.commID
  put buf e.op

def serializeIn (buf : SerialBuf) : Option (CommEvent × SerialBuf) := do
  let (op, buf) ← get buf
  let (commID, buf) ← get buf
  let (base, buf) ← Event.serializeIn buf
  some ({ toEvent := base, commID, op }, buf)

@[simp] theorem serializeIn_serializeOut (e : CommEvent) (buf : SerialBuf) :
    serializeIn (e.serializeOut buf) = some (e, buf) := by
  simp [serializeIn, serializeOut]

end CommEvent

namespace CommCreateEvent

def serializeOut (e : CommCreateEvent) (buf : SerialBuf) : SerialBuf :=
  let buf := e.toCommEvent.serializeOut buf
  putVec (putVec putString) buf e.members

def serializeIn (buf : SerialBuf) : Option (CommCreateEvent × SerialBuf) := do
  let (members, buf) ← getVec (getVec getString) buf
  let (base, buf) ← CommEvent.serializeIn buf
  some ({ toCommEvent := base, members }, buf)

theorem serializeIn_serializeOut (e : CommCreateEvent) (buf : SerialBuf)
    (hmembers : Fits e.members) (hgroups : ∀ group ∈ e.members, FitsAll group) :
    serializeIn (e.serializeOut buf) = some (e, buf) := by
  simp [serializeIn, serializeOut, getGroups_putGroups _ hmembers hgroups]

end CommCreateEvent

namespace CommDestroyEvent

def serializeOut (e : CommDestroyEvent) (buf : SerialBuf) : SerialBuf :=
  e.toCommEvent.serializeOut buf

def serializeIn (buf : SerialBuf) : Option (CommDestroyEvent × SerialBuf) := do
  let (base, buf) ← CommEvent.serializeIn buf
  some ({ toCommEvent := base }, buf)

theorem serializeIn_serializeOut (e : CommDestroyEvent) (buf : SerialBuf) :
    serializeIn (e.serializeOut buf) = some (e, buf) := by
  simp [serializeIn, serializeOut]

end CommDestroyEvent

namespace CommReqEvent

def serializeOut (e : CommReqEvent UInt64) (buf : SerialBuf) : SerialBuf :=
  let buf := e.toCommEvent.serializeOut buf
  let buf := putVec put buf e.setValues
  let buf := putVec put buf e.attrName
  let buf := putVec put buf e.valueOp
  put buf e.grpIndex

def serializeIn (buf : SerialBuf) : Option (CommReqEvent UInt64 × SerialBuf) := do
  let (grpIndex, buf) ← get buf
  let (valueOp, buf) ← getVec get buf
  let (attrName, buf) ← getVec get buf
  let (setValues, buf) ← getVec get buf
  let (base, buf) ← CommEvent.serializeIn buf
  some ({ toCommEvent := base, grpIndex, attrName, setValues, valueOp }, buf)

theorem serializeIn_serializeOut (e : CommReqEvent UInt64) (buf : SerialBuf)
    (hset : Fits e.setValues) (hattr : Fits e.attrName) (hop : Fits e.valueOp) :
    serializeIn (e.serializeOut buf) = some (e, buf) := by
  simp [serializeIn, serializeOut, hset, hattr, hop]

end CommReqEvent

namespace CommRespEvent

def serializeOut (e : CommRespEvent UInt64) (buf : SerialBuf) : SerialBuf :=
  let buf := e.toCommEvent.serializeOut buf
  let buf := putVec (putVec put) buf e.timeStamp
  let buf := putVec (putVec put) buf e.value
  let buf := put buf e.grpIndex
  let buf := putVec put buf e.errValue
  let buf := putVec put buf e.errAttr
  putVec putString buf e.errObj

def serializeIn (buf : SerialBuf) : Option (CommRespEvent UInt64 × SerialBuf) := do
  let (errObj, buf) ← getVec getString buf
  let (errAttr, buf) ← getVec get buf
  let (errValue, buf) ← getVec get buf
  let (grpIndex, buf) ← get buf
  let (value, buf) ← getVec (getVec get) buf
  let (timeStamp, buf) ← getVec (getVec get) buf
  let (base, buf) ← CommEvent.serializeIn buf
  some ({ toCommEvent := base, timeStamp, value, grpIndex, errObj, errAttr, errValue }, buf)

theorem serializeIn_serializeOut (e : CommRespEvent UInt64) (buf : SerialBuf)
    (htime : FitsAll e.timeStamp) (hvalue : FitsAll e.value) (hobj : FitsAll e.errObj)
    (hattr : Fits e.errAttr) (herr : Fits e.errValue) :
    serializeIn (e.serializeOut buf) = some (e, buf) := by
  simp [serializeIn, serializeOut, htime, hvalue, hobj, hattr, herr]

end CommRespEvent

namespace CommLogReqEvent

def serializeOut (e : CommLogReqEvent) (buf : SerialBuf) : SerialBuf :=
  let buf := e.toCommEvent.serializeOut buf
  put buf e.attrName

def serializeIn (buf : SerialBuf) : Option (CommLogReqEvent × SerialBuf) := do
  let (attrName, buf) ← get buf
  let (base, buf) ← CommEvent.serializeIn buf
  some ({ toCommEvent := base, attrName }, buf)

theorem serializeIn_serializeOut (e : CommLogReqEvent) (buf : SerialBuf) :
    serializeIn (e.serializeOut buf) = some (e, buf) := by
  simp [serializeIn, serializeOut]

end CommLogReqEvent

namespace CommLogRespEvent

def serializeOut (e : CommLogRespEvent) (buf : SerialBuf) : SerialBuf :=
  let buf := e.toCommEvent.serializeOut buf
  let buf := putVec put buf e.errValue
  let buf := putVec put buf e.errAttr
  putVec putString buf e.errObj

def serializeIn (buf : SerialBuf) : Option (CommLogRespEvent × SerialBuf) := do
  let (errObj, buf) ← getVec getString buf
  let (errAttr, buf) ← getVec get buf
  let (errValue, buf) ← getVec get buf
  let (base, buf) ← CommEvent.serializeIn buf
  some ({ toCommEvent := base, errObj, errAttr, errValue }, buf)

theorem serializeIn_serializeOut (e : CommLogRespEvent) (buf : SerialBuf)
    (hobj : FitsAll e.errObj) (hattr : Fits e.errAttr) (herr : Fits e.errValue) :
    serializeIn (e.serializeOut buf) = some (e, buf) := by
  simp [serializeIn, serializeOut, hobj, hattr, herr]

end CommLogRespEvent

namespace CommGetSamplesReqEvent

def serializeOut (e : CommGetSamplesReqEvent UInt64) (buf : SerialBuf) : SerialBuf :=
  let buf := e.toCommEvent.serializeOut buf
  let buf := put buf e.count
  let buf := put buf e.period
  let buf := put buf e.startTime
  put buf e.attrName

def serializeIn (buf : SerialBuf) : Option (CommGetSamplesReqEvent UInt64 × SerialBuf) := do
  let (attrName, buf) ← get buf
  let (startTime, buf) ← get buf
  let (period, buf) ← get buf
  let (count, buf) ← get buf
  let (base, buf) ← CommEvent.serializeIn buf
  some ({ toCommEvent := base, attrName, startTime, period, count }, buf)

theorem serializeIn_serializeOut (e : CommGetSamplesReqEvent UInt64) (buf : SerialBuf) :
    serializeIn (e.serializeOut buf) = some (e, buf) := by
  simp [serializeIn, serializeOut]

end CommGetSamplesReqEvent

namespace CommGetSamplesRespEvent

def serializeOut (e : CommGetSamplesRespEvent UInt64) (buf : SerialBuf) : SerialBuf :=
  let buf := e.toCommEvent.serializeOut buf
  let buf := putVec putString buf e.errObj
  let buf := putVec put buf e.errAttr
  let buf := putVec put buf e.errValue
  let buf := putVec put buf e.data
  let buf := put buf e.count
  put buf e.startTime

def serializeIn (buf : SerialBuf) : Option (CommGetSamplesRespEvent UInt64 × SerialBuf) := do
  let (startTime, buf) ← get buf
  let (count, buf) ← get buf
  let (data, buf) ← getVec get buf
  let (errValue, buf) ← getVec get buf
  let (errAttr, buf) ← getVec get buf
  let (errObj, buf) ← getVec getString buf
  let (base, buf) ← CommEvent.serializeIn buf
  some ({ toCommEvent := base, startTime, count, data, errObj, errAttr, errValue }, buf)

theorem serializeIn_serializeOut (e : CommGetSamplesRespEvent UInt64) (buf : SerialBuf)
    (hdata : Fits e.data) (hobj : FitsAll e.errObj) (hattr : Fits e.errAttr)
    (herr : Fits e.errValue) : serializeIn (e.serializeOut buf) = some (e, buf) := by
  simp [serializeIn, serializeOut, hdata, hobj, hattr, herr]

end CommGetSamplesRespEvent

/-- The events that travel inside a `RouterEvent` or straight to a client. -/
inductive Payload (V : Type)
  | serverConnect (e : ServerConnectEvent)
  | commCreate (e : CommCreateEvent)
  | commDestroy (e : CommDestroyEvent)
  | commReq (e : CommReqEvent V)
  | commResp (e : CommRespEvent V)
  | commLogReq (e : CommLogReqEvent)
  | commLogResp (e : CommLogRespEvent)
  | commGetSamplesReq (e : CommGetSamplesReqEvent V)
  | commGetSamplesResp (e : CommGetSamplesRespEvent V)
  deriving DecidableEq, Repr

namespace Payload

/-- The class of the object, which selects its virtual functions. -/
def eventType {V : Type} : Payload V → EventType
  | serverConnect _ => .serverConnect
  | commCreate _ => .commCreate
  | commDestroy _ => .commDestroy
  | commReq _ => .commReq
  | commResp _ => .commResp
  | commLogReq _ => .commLogReq
  | commLogResp _ => .commLogResp
  | commGetSamplesReq _ => .commGetSamplesReq
  | commGetSamplesResp _ => .commGetSamplesResp

def base {V : Type} : Payload V → Event
  | serverConnect e => e.toEvent
  | commCreate e => e.toEvent
  | commDestroy e => e.toEvent
  | commReq e => e.toEvent
  | commResp e => e.toEvent
  | commLogReq e => e.toEvent
  | commLogResp e => e.toEvent
  | commGetSamplesReq e => e.toEvent
  | commGetSamplesResp e => e.toEvent

def serializeOut : Payload UInt64 → SerialBuf → SerialBuf
  | serverConnect e => e.serializeOut
  | commCreate e => e.serializeOut
  | commDestroy e => e.serializeOut
  | commReq e => e.serializeOut
  | commResp e => e.serializeOut
  | commLogReq e => e.serializeOut
  | commLogResp e => e.serializeOut
  | commGetSamplesReq e => e.serializeOut
  | commGetSamplesResp e => e.serializeOut

/-- The constructor from a buffer of the class with a given tag. Every allocation
function calls it for the tags of its own list and fails an assertion on the others. -/
def construct (t : EventType) (buf : SerialBuf) : Option (Payload UInt64 × SerialBuf) :=
  match t with
  | .serverConnect => (ServerConnectEvent.serializeIn buf).map (Prod.map .serverConnect id)
  | .commCreate => (CommCreateEvent.serializeIn buf).map (Prod.map .commCreate id)
  | .commDestroy => (CommDestroyEvent.serializeIn buf).map (Prod.map .commDestroy id)
  | .commReq => (CommReqEvent.serializeIn buf).map (Prod.map .commReq id)
  | .commResp => (CommRespEvent.serializeIn buf).map (Prod.map .commResp id)
  | .commLogReq => (CommLogReqEvent.serializeIn buf).map (Prod.map .commLogReq id)
  | .commLogResp => (CommLogRespEvent.serializeIn buf).map (Prod.map .commLogResp id)
  | .commGetSamplesReq =>
      (CommGetSamplesReqEvent.serializeIn buf).map (Prod.map .commGetSamplesReq id)
  | .commGetSamplesResp =>
      (CommGetSamplesRespEvent.serializeIn buf).map (Prod.map .commGetSamplesResp id)
  | .notSet | .router2Router => none

/-- Every string and vector of the event is below the range of the loop counters. -/
def AllFit {V : Type} : Payload V → Prop
  | serverConnect e => Fits e.name
  | commCreate e => Fits e.members ∧ ∀ group ∈ e.members, FitsAll group
  | commDestroy _ => True
  | commReq e => Fits e.setValues ∧ Fits e.attrName ∧ Fits e.valueOp
  | commResp e => FitsAll e.timeStamp ∧ FitsAll e.value ∧ FitsAll e.errObj ∧
      Fits e.errAttr ∧ Fits e.errValue
  | commLogReq _ => True
  | commLogResp e => FitsAll e.errObj ∧ Fits e.errAttr ∧ Fits e.errValue
  | commGetSamplesReq _ => True
  | commGetSamplesResp e => Fits e.data ∧ FitsAll e.errObj ∧ Fits e.errAttr ∧ Fits e.errValue

theorem construct_serializeOut (e : Payload UInt64) (buf : SerialBuf) (hfit : e.AllFit) :
    construct e.eventType (e.serializeOut buf) = some (e, buf) := by
  cases e with
  | serverConnect e =>
      simp [construct, eventType, serializeOut, e.serializeIn_serializeOut buf hfit]
  | commCreate e =>
      simp [construct, eventType, serializeOut, e.serializeIn_serializeOut buf hfit.1 hfit.2]
  | commDestroy e =>
      simp [construct, eventType, serializeOut, e.serializeIn_serializeOut buf]
  | commReq e =>
      obtain ⟨hset, hattr, hop⟩ := hfit
      simp [construct, eventType, serializeOut, e.serializeIn_serializeOut buf hset hattr hop]
  | commResp e =>
      obtain ⟨htime, hvalue, hobj, hattr, herr⟩ := hfit
      simp [construct, eventType, serializeOut,
        e.serializeIn_serializeOut buf htime hvalue hobj hattr herr]
  | commLogReq e =>
      simp [construct, eventType, serializeOut, e.serializeIn_serializeOut buf]
  | commLogResp e =>
      obtain ⟨hobj, hattr, herr⟩ := hfit
      simp [construct, eventType, serializeOut, e.serializeIn_serializeOut buf hobj hattr herr]
  | commGetSamplesReq e =>
      simp [construct, eventType, serializeOut, e.serializeIn_serializeOut buf]
  | commGetSamplesResp e =>
      obtain ⟨hdata, hobj, hattr, herr⟩ := hfit
      simp [construct, eventType, serializeOut,
        e.serializeIn_serializeOut buf hdata hobj hattr herr]

end Payload

namespace Wire

/-- `RouterEvent`, whose payload is the serialized event. -/
structure RouterEvent extends Event where
  src : UInt64
  dest : UInt64
  eventType : EventType
  payload : SerialBuf
  deriving DecidableEq, Repr

namespace RouterEvent

/-- `RouterEvent( AppID, AppID, Event* )`: the tag is the cast of `ev->type`. -/
def ofEvent (src dest : UInt64) (e : Payload UInt64) : Option RouterEvent := do
  let eventType ← EventType.ofCode e.base.type.toNat
  some ⟨Event.ofType .router2Router, src, dest, eventType, e.serializeOut []⟩

def getPayload (re : RouterEvent) : Option (Payload UInt64 × SerialBuf) :=
  Payload.construct re.eventType re.payload

def serializeOut (e : RouterEvent) (buf : SerialBuf) : SerialBuf :=
  let buf := e.toEvent.serializeOut buf
  let buf := put buf e.dest
  let buf := put buf e.src
  let buf := put buf e.eventType
  putVec put buf e.payload

def serializeIn (buf : SerialBuf) : Option (RouterEvent × SerialBuf) := do
  let (payload, buf) ← getVec get buf
  let (eventType, buf) ← get buf
  let (src, buf) ← get buf
  let (dest, buf) ← get buf
  let (base, buf) ← Event.serializeIn buf
  some ({ toEvent := base, src, dest, eventType, payload }, buf)

theorem serializeIn_serializeOut (e : RouterEvent) (buf : SerialBuf)
    (hpayload : Fits e.payload) : serializeIn (e.serializeOut buf) = some (e, buf) := by
  simp [serializeIn, serializeOut, hpayload]

/-- The event after `n` more routers, each of which decodes the message it receives
and encodes the event afresh for the next channel. -/
def relay : Nat → RouterEvent → Option RouterEvent
  | 0, re => some re
  | n + 1, re => do
    let (next, _) ← serializeIn (re.serializeOut [])
    relay n next

theorem relay_eq (n : Nat) (re : RouterEvent) (hpayload : Fits re.payload) :
    relay n re = some re := by
  induction n with
  | zero => rfl
  | succ n ih => simp [relay, re.serializeIn_serializeOut [] hpayload, ih]

end RouterEvent

/-- Every event reads back as written on top of any buffer contents, and so does a
`RouterEvent`, which after any number of routers still yields the wrapped event. -/
theorem events_round_trip :
    (∀ (e : Payload UInt64) (p : SerialBuf), e.AllFit →
      Payload.construct e.eventType (e.serializeOut p) = some (e, p)) ∧
    (∀ (re : RouterEvent) (p : SerialBuf), Fits re.payload →
      RouterEvent.serializeIn (re.serializeOut p) = some (re, p)) ∧
    (∀ (src dest : UInt64) (e : Payload UInt64) (routers : Nat),
      e.AllFit → e.base.type = e.eventType.code → Fits (e.serializeOut []) →
      ∃ sent received, RouterEvent.ofEvent src dest e = some sent ∧
        RouterEvent.relay routers sent = some received ∧
        received.src = src ∧ received.dest = dest ∧
        received.getPayload = some (e, [])) := by
  refine ⟨Payload.construct_serializeOut, RouterEvent.serializeIn_serializeOut, ?_⟩
  intro src dest e routers hfit htype hpayload
  have hcast : EventType.ofCode e.base.type.toNat = some e.eventType := by
    rw [htype, EventType.ofCode_code]
  let sent : RouterEvent :=
    ⟨Event.ofType .router2Router, src, dest, e.eventType, e.serializeOut []⟩
  refine ⟨sent, sent, ?_, RouterEvent.relay_eq routers sent hpayload, rfl, rfl, ?_⟩
  · simp [RouterEvent.ofEvent, hcast, sent]
  · exact Payload.construct_serializeOut e [] hfit

/-- A reply with a negative attribute code, error code and time. -/
def sampleResp : Payload UInt64 :=
  .commResp
    { type := EventType.commResp.code, id := 7, status := -1, commID := 3, op := .get,
      timeStamp := [[-5]], value := [[4607182418800017408]], grpIndex := 0,
      errObj := [[112, 108]], errAttr := [.invalid], errValue := [-6] }

def sampleLogReq : Payload UInt64 :=
  .commLogReq
    { type := EventType.commLogReq.code, id := 7, status := 0, commID := 3, op := .start,
      attrName := .notSpecified }

def sampleRouterEvent : RouterEvent :=
  ⟨Event.ofType .router2Router, 1, 2, .commResp, [9, 8]⟩

theorem events_round_trip_sample :
    Payload.construct .commResp (sampleResp.serializeOut [1, 2]) = some (sampleResp, [1, 2]) ∧
      RouterEvent.serializeIn (sampleRouterEvent.serializeOut [5]) =
        some (sampleRouterEvent, [5]) ∧
      ∃ sent received, RouterEvent.ofEvent 1 2 sampleLogReq = some sent ∧
        RouterEvent.relay 3 sent = some received ∧ received.src = 1 ∧ received.dest = 2 ∧
        received.getPayload = some (sampleLogReq, []) := by
  have hfit : sampleResp.AllFit := by
    refine ⟨⟨?_, ?_⟩, ⟨?_, ?_⟩, ⟨?_, ?_⟩, ?_, ?_⟩ <;> decide
  have hsize : Fits (sampleLogReq.serializeOut []) := by decide
  exact ⟨events_round_trip.1 _ _ hfit, events_round_trip.2.1 _ _ (by decide),
    events_round_trip.2.2 1 2 _ 3 trivial rfl hsize⟩

end Wire

end PwrApi
