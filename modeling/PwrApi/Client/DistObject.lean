import PwrApi.Client.Object
import PwrApi.Router.Dispatch

/-! Objects served by other processes: `distObject.cc`, `distRequest.cc` and `distComm.cc`.
What a communicator's objects answer is a parameter here. -/

namespace PwrApi

open Runs

variable {V : Type}

/-- An object as the constructor of `DistObject` lets it pass: no attribute has both
devices and a communicator, and all attributes have the same communicator. -/
structure DistObject (V : Type) extends Object V where
  notMixed : ∀ name, (attrInfo name).comm ≠ none → (attrInfo name).devices = []
  sameComm : ∀ name name', (attrInfo name).comm ≠ none → (attrInfo name').comm ≠ none →
    (attrInfo name).comm = (attrInfo name').comm

/-- `findObject` of a context: the object of a name, `none` for `NULL`. -/
abbrev Cntxt (V : Type) := ObjID → Except Fault (Option (DistObject V))

/-- The events that `DistComm` sends; their ids and the communicator's are addresses,
which `Net.fan_out_fan_in` is about. -/
def DistComm.getValues (names : List AttrName) (valueOp : List ValueOp) : CommReqEvent V :=
  { toCommEvent := { Router.newCommEvent .commReq 0 0 with op := .get }
    grpIndex := 0, attrName := names, setValues := [], valueOp }

def DistComm.setValues (values : List (AttrName × V)) : CommReqEvent V :=
  { toCommEvent := { Router.newCommEvent .commReq 0 0 with op := .set }
    grpIndex := 0, attrName := values.map Prod.fst, setValues := values.map Prod.snd
    valueOp := [] }

def DistComm.startLog (name : AttrName) : CommLogReqEvent :=
  { toCommEvent := { Router.newCommEvent .commLogReq 0 0 with op := .start }, attrName := name }

def DistComm.stopLog (name : AttrName) : CommLogReqEvent :=
  { toCommEvent := { Router.newCommEvent .commLogReq 0 0 with op := .stop }, attrName := name }

def DistComm.getSamples (name : AttrName) (start : PwrTime) (period : V) (count : UInt32) :
    CommGetSamplesReqEvent V :=
  { toCommEvent := Router.newCommEvent .commGetSamplesReq 0 0
    attrName := name, startTime := start, period, count }

/-- The cells of a buffer that are written, and those that keep what they held. -/
def overlay {α : Type} (written buf : List α) : List α := written ++ buf.drop written.length

/-- No part of an error is entered in a response. -/
def NoErrors (errObj : List ObjID) (errAttr : List AttrName) (errValue : List Int32) : Prop :=
  errObj = [] ∧ errAttr = [] ∧ errValue = []

namespace DistRequest

/-- The loop over the errors of a response that adds each to the request's `Status`, with
the object that has the name in this context. -/
def addErrors (cntxt : Cntxt V) (status : Status) (errObj : List ObjID)
    (errAttr : List AttrName) (errValue : List Int32) : Except Fault Status := do
  let errors ← (errObj.zip (errAttr.zip errValue)).mapM fun (obj, name, error) => do
    let found ← cntxt obj
    .ok (⟨found.map fun found => found.name, name, error⟩ : AttrAccessError)
  .ok (status ++ errors)

theorem addErrors_none (cntxt : Cntxt V) (status : Status) {errObj : List ObjID}
    {errAttr : List AttrName} {errValue : List Int32} (hnone : NoErrors errObj errAttr errValue) :
    addErrors cntxt status errObj errAttr errValue = .ok status := by
  obtain ⟨rfl, rfl, rfl⟩ := hnone
  simp [addErrors, bind, Except.bind, pure, Except.pure]

def getValue (cntxt : Cntxt V) (value : List (List (V × PwrTime))) (status : Status)
    (ev : CommRespEvent V) : Except Fault (List (List (V × PwrTime)) × Status) := do
  require (value.length = ev.value.length) .assertFailed
  let status ← addErrors cntxt status ev.errObj ev.errAttr ev.errValue
  let cells := (ev.value.zip ev.timeStamp).map fun (values, times) => values.zip times
  .ok (List.zipWith overlay cells value, status)

def setValue (cntxt : Cntxt V) (status : Status) (ev : CommRespEvent V) :
    Except Fault Status :=
  addErrors cntxt status ev.errObj ev.errAttr ev.errValue

def setRetval (cntxt : Cntxt V) (status : Status) (ev : CommLogRespEvent) :
    Except Fault Status :=
  addErrors cntxt status ev.errObj ev.errAttr ev.errValue

/-- The errors of the event are not looked at. -/
def getSamples (samples : Samples V) (ev : CommGetSamplesRespEvent V) : Samples V :=
  { samples with
    start := ev.startTime
    data := overlay (ev.data.take ev.count.toNat) samples.data }

end DistRequest

/-- `status->empty() ? PWR_RET_SUCCESS : PWR_RET_STATUS`. -/
def Status.retval (status : Status) : Int32 :=
  if status = [] then Ret.success else Ret.status

/-- The code of the first error, which is popped from a local `Status`. -/
def Status.popRetval (status : Status) : Int32 :=
  match status with
  | [] => Ret.success
  | error :: _ => error.error

/-- What a non-blocking call leaves: its return value, the cells it has written, the
errors in the given `Status`, and the request it has sent with the objects it is for. -/
structure Started (V : Type) where
  retval : Int32
  cells : List (V × PwrTime)
  status : Status
  sent : Option (List ObjID × CommReqEvent V)

/-- The overloads without a `Status`: the errors are in a local one, of which only the
first code is returned. -/
def Started.dropStatus (started : Started V) : Started V :=
  { started with
    retval := if started.retval = Ret.status then started.status.popRetval else started.retval
    status := [] }

namespace DistObject

/-- The loops that compare the communicators of the attributes with that of the first. -/
def commOf (obj : DistObject V) (names : List AttrName) : Except Fault (Option (List ObjID)) := do
  let first ← orFault names.head? .undefined
  let comm := (obj.attrInfo first).comm
  names.forM fun name => require (comm = (obj.attrInfo name).comm) .assertFailed
  .ok comm

theorem commOf_eq_ok {obj : DistObject V} {names : List AttrName} {comm : Option (List ObjID)}
    (h : obj.commOf names = .ok comm) :
    names ≠ [] ∧ ∀ name ∈ names, (obj.attrInfo name).comm = comm := by
  cases names with
  | nil => cases h
  | cons first names =>
      refine ⟨List.cons_ne_nil first names, ?_⟩
      simp only [commOf, List.head?_cons, orFault_some, bind_eq_ok, Except.ok.injEq] at h
      obtain ⟨_, rfl, _, hall, rfl⟩ := h
      intro name hname
      exact (forM_require_eq_ok.mp hall name hname).symm

section Calls

variable [Zero V]

/-- `attrGetValues( .., Status*, Request* )`. -/
def attrGetValuesStart (obj : DistObject V) (names : List AttrName) :
    Except Fault (Started V) := do
  let (cells, status) := obj.toObject.attrGetValues names
  let comm ← obj.commOf names
  let valueOp := names.map fun name => (obj.attrInfo name).valueOp
  .ok { retval := status.retval, cells, status
        sent := comm.map fun objs => (objs, DistComm.getValues names valueOp) }

/-- `attrSetValues( .., Status*, Request* )`. -/
def attrSetValuesStart (obj : DistObject V) (values : List (AttrName × V)) :
    Except Fault (Started V) := do
  let status := obj.toObject.attrSetValues values
  let comm ← obj.commOf (values.map Prod.fst)
  .ok { retval := status.retval, cells := [], status
        sent := comm.map fun objs => (objs, DistComm.setValues values) }

/-- `attrGetValues( .., Request* )`. -/
def attrGetValuesNB (obj : DistObject V) (names : List AttrName) : Except Fault (Started V) := do
  let started ← obj.attrGetValuesStart names
  .ok started.dropStatus

/-- `attrSetValues( .., Request* )`. -/
def attrSetValuesNB (obj : DistObject V) (values : List (AttrName × V)) :
    Except Fault (Started V) := do
  let started ← obj.attrSetValuesStart values
  .ok started.dropStatus

/-- `attrGetValues( .., Status* )`, which waits for the response of the communicator. -/
def attrGetValues (obj : DistObject V) (cntxt : Cntxt V)
    (answer : List ObjID → CommReqEvent V → Except Fault (CommRespEvent V))
    (names : List AttrName) (buf : List (V × PwrTime)) :
    Except Fault (Int32 × List (V × PwrTime) × Status) := do
  let started ← obj.attrGetValuesStart names
  let buf := overlay started.cells buf
  match started.sent with
  | none => .ok (started.status.retval, buf, started.status)
  | some (objs, req) => do
      let ev ← answer objs req
      let (value, status) ← DistRequest.getValue cntxt [buf] started.status ev
      .ok (status.retval, value.headD buf, status)

/-- `attrGetValue` into a buffer of one value and time. -/
def attrGetValue (obj : DistObject V) (cntxt : Cntxt V)
    (answer : List ObjID → CommReqEvent V → Except Fault (CommRespEvent V))
    (name : AttrName) (cell : V × PwrTime) : Except Fault (Int32 × V × PwrTime) := do
  let (retval, buf, status) ← obj.attrGetValues cntxt answer [name] [cell]
  .ok (if retval = Ret.status then status.popRetval else retval, buf.headD cell)

/-- `attrSetValues( .., Status* )`. -/
def attrSetValues (obj : DistObject V) (cntxt : Cntxt V)
    (answer : List ObjID → CommReqEvent V → Except Fault (CommRespEvent V))
    (values : List (AttrName × V)) : Except Fault (Int32 × Status) := do
  let started ← obj.attrSetValuesStart values
  match started.sent with
  | none => .ok (started.status.retval, started.status)
  | some (objs, req) => do
      let ev ← answer objs req
      let status ← DistRequest.setValue cntxt started.status ev
      .ok (status.retval, status)

end Calls

section Logs

/-- `attrStartLog( attr )` and `attrStopLog( attr )`, with the local call and the request:
the return value and the errors of the `Status` it comes from. -/
def attrLog (obj : DistObject V) (cntxt : Cntxt V)
    (answer : List ObjID → CommLogReqEvent → Except Fault CommLogRespEvent)
    (name : AttrName) (retval : Int32) (req : CommLogReqEvent) :
    Except Fault (Int32 × Status) := do
  if retval = Ret.success then
    match (obj.attrInfo name).comm with
    | none => .ok (Ret.success, [])
    | some objs => do
        let ev ← answer objs req
        let status ← DistRequest.setRetval cntxt [] ev
        .ok (status.popRetval, status)
  else .ok (retval, [])

def attrStartLog (obj : DistObject V) (cntxt : Cntxt V)
    (answer : List ObjID → CommLogReqEvent → Except Fault CommLogRespEvent)
    (name : AttrName) : Except Fault (Int32 × Status) :=
  obj.attrLog cntxt answer name (obj.toObject.attrStartLog name) (DistComm.startLog name)

def attrStopLog (obj : DistObject V) (cntxt : Cntxt V)
    (answer : List ObjID → CommLogReqEvent → Except Fault CommLogRespEvent)
    (name : AttrName) : Except Fault (Int32 × Status) :=
  obj.attrLog cntxt answer name (obj.toObject.attrStopLog name) (DistComm.stopLog name)

/-- `attrGetSamples( .., buf )`: nothing enters the `Status` it looks at in the end. -/
def attrGetSamples [Zero V] [Add V] (obj : DistObject V)
    (answer : List ObjID → CommGetSamplesReqEvent V → Except Fault (CommGetSamplesRespEvent V))
    (name : AttrName) (period : V) (samples : Samples V) :
    Except Fault (Int32 × Samples V × Status) := do
  let (retval, samples) ← obj.toObject.attrGetSamples name period samples
  if retval = Ret.success then
    match (obj.attrInfo name).comm with
    | none => .ok (Ret.success, samples, [])
    | some objs => do
        let ev ← answer objs (DistComm.getSamples name samples.start period samples.count)
        .ok (Ret.success, DistRequest.getSamples samples ev, [])
  else .ok (retval, samples, [])

end Logs

end DistObject

end PwrApi
