import Mathlib.Algebra.Group.Int.Defs
import Mathlib.Algebra.Group.Nat.Defs
import Mathlib.Data.List.Basic

/-! The types shared by the client library, the routers and the servers:
`pwrtypes.h`, `impTypes.h` and `eventType.h`. -/

namespace PwrApi

/-- Object names are C++ strings, that is byte sequences. -/
abbrev ObjID := List UInt8
abbrev CommID := UInt64
abbrev EventId := UInt64
abbrev PwrTime := Int64

inductive AttrName
  | pstate | cstate | cstateLimit | sstate | current | voltage | power
  | powerLimitMin | powerLimitMax | freq | freqLimitMin | freqLimitMax
  | energy | temp | osId | throttledTime | throttledCount | numAttrNames
  | invalid | notSpecified
  deriving DecidableEq, Inhabited, Repr

namespace AttrName

def toCode : AttrName → Int
  | pstate => 0 | cstate => 1 | cstateLimit => 2 | sstate => 3 | current => 4
  | voltage => 5 | power => 6 | powerLimitMin => 7 | powerLimitMax => 8 | freq => 9
  | freqLimitMin => 10 | freqLimitMax => 11 | energy => 12 | temp => 13 | osId => 14
  | throttledTime => 15 | throttledCount => 16 | numAttrNames => 17
  | invalid => -1 | notSpecified => -2

/-- The enumerator with a given code; a code of no enumerator has no value here. -/
def ofCode (code : Int) : Option AttrName :=
  [pstate, cstate, cstateLimit, sstate, current, voltage, power, powerLimitMin,
    powerLimitMax, freq, freqLimitMin, freqLimitMax, energy, temp, osId, throttledTime,
    throttledCount, numAttrNames, invalid, notSpecified].find? fun a => a.toCode == code

theorem ofCode_toCode (a : AttrName) : ofCode a.toCode = some a := by
  cases a <;> rfl

theorem toCode_bounds (a : AttrName) : -2 ^ 31 ≤ a.toCode ∧ a.toCode < 2 ^ 31 := by
  cases a <;> decide

end AttrName

/-- The reductions of `impTypes.h`. -/
inductive ValueOp
  | noOp | fpAdd | intAdd | fpAvg | intAvg
  deriving DecidableEq, Inhabited, Repr

namespace ValueOp

def toCode : ValueOp → Nat
  | noOp => 0 | fpAdd => 1 | intAdd => 2 | fpAvg => 3 | intAvg => 4

def ofCode (code : Nat) : Option ValueOp :=
  [noOp, fpAdd, intAdd, fpAvg, intAvg].find? fun op => op.toCode == code

theorem ofCode_toCode (op : ValueOp) : ofCode op.toCode = some op := by
  cases op <;> rfl

theorem toCode_lt (op : ValueOp) : op.toCode < 2 ^ 32 := by
  cases op <;> decide

end ValueOp

/-- `CommEvent::OpType`. -/
inductive OpType
  | noop | get | set | start | stop | clear
  deriving DecidableEq, Inhabited, Repr

namespace OpType

def toCode : OpType → Nat
  | noop => 0 | get => 1 | set => 2 | start => 3 | stop => 4 | clear => 5

def ofCode (code : Nat) : Option OpType :=
  [noop, get, set, start, stop, clear].find? fun op => op.toCode == code

theorem ofCode_toCode (op : OpType) : ofCode op.toCode = some op := by
  cases op <;> rfl

theorem toCode_lt (op : OpType) : op.toCode < 2 ^ 32 := by
  cases op <;> decide

end OpType

inductive EventType
  | notSet | commCreate | commDestroy | commReq | commResp | commLogReq | commLogResp
  | commGetSamplesReq | commGetSamplesResp | serverConnect | router2Router
  deriving DecidableEq, Inhabited, Repr

namespace EventType

def toCode : EventType → Nat
  | notSet => 0 | commCreate => 1 | commDestroy => 2 | commReq => 3 | commResp => 4
  | commLogReq => 5 | commLogResp => 6 | commGetSamplesReq => 7 | commGetSamplesResp => 8
  | serverConnect => 9 | router2Router => 10

def ofCode (code : Nat) : Option EventType :=
  [notSet, commCreate, commDestroy, commReq, commResp, commLogReq, commLogResp,
    commGetSamplesReq, commGetSamplesResp, serverConnect, router2Router].find?
    fun t => t.toCode == code

theorem ofCode_toCode (t : EventType) : ofCode t.toCode = some t := by
  cases t <;> rfl

theorem toCode_lt (t : EventType) : t.toCode < 2 ^ 32 := by
  cases t <;> decide

/-- The code as it stands in `Event::type`, a `uint32_t`. -/
def code (t : EventType) : UInt32 := UInt32.ofNat t.toCode

theorem ofCode_code (t : EventType) : ofCode t.code.toNat = some t := by
  cases t <;> rfl

end EventType

/-- The base class of every event: `Event` of `event.h`. -/
structure Event where
  type : UInt32
  id : EventId
  status : Int32
  deriving DecidableEq, Repr

/-- `Event( EventType _type )`. -/
def Event.ofType (t : EventType) : Event := ⟨t.code, 0, 0⟩

structure ServerConnectEvent extends Event where
  name : ObjID
  deriving DecidableEq, Repr

structure CommEvent extends Event where
  commID : CommID
  op : OpType
  deriving DecidableEq, Repr

structure CommCreateEvent extends CommEvent where
  members : List (List ObjID)
  deriving DecidableEq, Repr

structure CommDestroyEvent extends CommEvent
  deriving DecidableEq, Repr

/-! Attribute values travel as 64-bit words holding an integer or a double. The
events are generic in the type of such a word, so that the wire format can be
stated on bit patterns and the routing of values on exact numbers. -/

structure CommReqEvent (V : Type) extends CommEvent where
  grpIndex : UInt64
  attrName : List AttrName
  setValues : List V
  valueOp : List ValueOp
  deriving DecidableEq, Repr

structure CommRespEvent (V : Type) extends CommEvent where
  timeStamp : List (List PwrTime)
  value : List (List V)
  grpIndex : UInt64
  errObj : List ObjID
  errAttr : List AttrName
  errValue : List Int32
  deriving DecidableEq, Repr

structure CommLogReqEvent extends CommEvent where
  attrName : AttrName
  deriving DecidableEq, Repr

structure CommLogRespEvent extends CommEvent where
  errObj : List ObjID
  errAttr : List AttrName
  errValue : List Int32
  deriving DecidableEq, Repr

structure CommGetSamplesReqEvent (V : Type) extends CommEvent where
  attrName : AttrName
  startTime : PwrTime
  period : V
  count : UInt32
  deriving DecidableEq, Repr

structure CommGetSamplesRespEvent (V : Type) extends CommEvent where
  startTime : PwrTime
  count : UInt32
  data : List V
  errObj : List ObjID
  errAttr : List AttrName
  errValue : List Int32
  deriving DecidableEq, Repr

end PwrApi
