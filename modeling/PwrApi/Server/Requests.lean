import PwrApi.Client.DistObject
import PwrApi.Router.Reduction

/-! The requests a server answers: `commReqEvent.h`, `commLogEvent.h` and
`commGetSamplesReqEvent.h` of `server/`, and the answers of the servers below it, which
the router collects. -/

namespace PwrApi

open Runs

variable {V : Type}

/-- `PWR_ObjGetName` into a buffer of 100 bytes, which is then read up to a zero byte. -/
def objGetName (name : ObjID) : Except Fault ObjID := do
  require ((Router.cStr name).length < 100) .undefined
  .ok (Router.cStr name)

namespace Server

/-- The loop that pops the errors of a `Status` into the three vectors of a response. -/
def popErrors (status : Status) : Except Fault (List ObjID × List AttrName × List Int32) := do
  let errObj ← status.mapM fun error => do
    let obj ← orFault error.obj .undefined
    objGetName obj
  .ok (errObj, status.map (·.name), status.map (·.error))

def requestFini (resp : CommRespEvent V) (status : Status) : Except Fault (CommRespEvent V) := do
  let (errObj, errAttr, errValue) ← popErrors status
  .ok { resp with
    errObj := resp.errObj ++ errObj
    errAttr := resp.errAttr ++ errAttr
    errValue := resp.errValue ++ errValue }

def logReqFini (resp : CommLogRespEvent) (status : Status) : Except Fault CommLogRespEvent := do
  let (errObj, errAttr, errValue) ← popErrors status
  .ok { resp with
    errObj := resp.errObj ++ errObj
    errAttr := resp.errAttr ++ errAttr
    errValue := resp.errValue ++ errValue }

def getSamplesFini (resp : CommGetSamplesRespEvent V) (status : Status) :
    Except Fault (CommGetSamplesRespEvent V) := do
  let (errObj, errAttr, errValue) ← popErrors status
  .ok { resp with
    errObj := resp.errObj ++ errObj
    errAttr := resp.errAttr ++ errAttr
    errValue := resp.errValue ++ errValue }

@[simp] theorem requestFini_nil (resp : CommRespEvent V) : requestFini resp [] = .ok resp := by
  simp [requestFini, popErrors, bind, Except.bind, pure, Except.pure]

/-- The object of the communicator, which `SrvrCommCreateEvent::process` has looked up. -/
def commObject (cntxt : Cntxt V) (name : ObjID) : Except Fault (DistObject V) := do
  let found ← cntxt name
  orFault found .assertFailed

/-- The response before its errors are entered. -/
def commResp (ev : CommReqEvent V) (cells : List (V × PwrTime)) : CommRespEvent V :=
  { toCommEvent := { Router.newCommEvent .commResp ev.id 0 with op := ev.op }
    timeStamp := if ev.op = .get then [cells.map Prod.snd] else []
    value := if ev.op = .get then [cells.map Prod.fst] else []
    grpIndex := ev.grpIndex, errObj := [], errAttr := [], errValue := [] }

section Values

variable [Zero V]

/-- `SrvrCommReqEvent::process` up to `requestFini`, for a `Get`. The request has a
`Status` of its own, which stays empty unless other servers answer. -/
def processGet (cntxt : Cntxt V)
    (answer : List ObjID → CommReqEvent V → Except Fault (CommRespEvent V)) (name : ObjID)
    (ev : CommReqEvent V) : Except Fault (CommRespEvent V) := do
  let obj ← commObject cntxt name
  let started ← obj.attrGetValuesNB ev.attrName
  let buf := overlay started.cells (List.replicate ev.attrName.length (0, 0))
  match if started.retval = Ret.success then started.sent else none with
  | none => requestFini (commResp ev buf) []
  | some (objs, req) => do
      let answered ← answer objs req
      let (value, status) ← DistRequest.getValue cntxt [buf] [] answered
      requestFini (commResp ev (value.headD buf)) status

def processSet (cntxt : Cntxt V)
    (answer : List ObjID → CommReqEvent V → Except Fault (CommRespEvent V)) (name : ObjID)
    (ev : CommReqEvent V) : Except Fault (CommRespEvent V) := do
  let obj ← commObject cntxt name
  let started ← obj.attrSetValuesNB (ev.attrName.zip ev.setValues)
  match if started.retval = Ret.success then started.sent else none with
  | none => requestFini (commResp ev []) []
  | some (objs, req) => do
      let answered ← answer objs req
      let status ← DistRequest.setValue cntxt [] answered
      requestFini (commResp ev []) status

/-- `SrvrCommReqEvent::process`. -/
def processCommReq (cntxt : Cntxt V)
    (answer : List ObjID → CommReqEvent V → Except Fault (CommRespEvent V)) (name : ObjID)
    (ev : CommReqEvent V) : Except Fault (CommRespEvent V) :=
  if ev.op = .get then processGet cntxt answer name ev else processSet cntxt answer name ev

end Values

/-- `SrvrCommLogReqEvent::process`: a log that fails to start or stop is not forwarded. -/
def processCommLogReq (cntxt : Cntxt V)
    (answer : List ObjID → CommLogReqEvent → Except Fault CommLogRespEvent) (name : ObjID)
    (ev : CommLogReqEvent) : Except Fault CommLogRespEvent := do
  let obj ← commObject cntxt name
  let resp : CommLogRespEvent :=
    { toCommEvent := { Router.newCommEvent .commLogResp ev.id 0 with op := ev.op }
      errObj := [], errAttr := [], errValue := [] }
  let retval :=
    if ev.op = .start then obj.toObject.attrStartLog ev.attrName
    else obj.toObject.attrStopLog ev.attrName
  let req :=
    if ev.op = .start then DistComm.startLog ev.attrName else DistComm.stopLog ev.attrName
  match if retval = Ret.success then (obj.attrInfo ev.attrName).comm else none with
  | none => logReqFini resp []
  | some objs => do
      let answered ← answer objs req
      let status ← DistRequest.setRetval cntxt [] answered
      logReqFini resp status

/-- `SrvrCommGetSamplesReqEvent::process`. The start time of its response, which the
constructor leaves unset, is taken as zero. -/
def processCommGetSamplesReq [Zero V] [Add V] (cntxt : Cntxt V)
    (answer : List ObjID → CommGetSamplesReqEvent V → Except Fault (CommGetSamplesRespEvent V))
    (name : ObjID) (ev : CommGetSamplesReqEvent V) :
    Except Fault (CommGetSamplesRespEvent V) := do
  let obj ← commObject cntxt name
  let samples : Samples V := ⟨0, ev.count, List.replicate ev.count.toNat 0⟩
  let (retval, samples) ← obj.toObject.attrGetSamples ev.attrName ev.period samples
  let resp (samples : Samples V) : CommGetSamplesRespEvent V :=
    { toCommEvent := Router.newCommEvent .commGetSamplesResp ev.id 0
      startTime := samples.start, count := samples.count, data := samples.data
      errObj := [], errAttr := [], errValue := [] }
  match if retval = Ret.success then (obj.attrInfo ev.attrName).comm else none with
  | none => getSamplesFini (resp samples) []
  | some objs => do
      let answered ← answer objs
        (DistComm.getSamples ev.attrName samples.start ev.period samples.count)
      getSamplesFini (resp (DistRequest.getSamples samples answered)) []

end Server

section Routing

variable {Req Resp : Type}

/-- The router's part for a communicator of one group: the request goes to each object,
and the answers are merged when all are in. Their order is that of the objects here. -/
def routeCommReq [Zero V] [Add V] (remote : ObjID → CommReqEvent V → Except Fault (CommRespEvent V))
    (objs : List ObjID) (ev : CommReqEvent V) : Except Fault (CommRespEvent V) := do
  let answers ← (Router.fanOut ev [objs]).mapM fun (obj, ev) => remote obj ev
  let info := Router.newCommReqInfo 0 ev 0 [objs]
  match info.resp with
  | .commResp resp => Router.mergeGroup info resp 0 answers
  | _ => .error .undefined

/-- The router takes a log request for one object only. -/
def routeCommLogReq (remote : ObjID → CommLogReqEvent → Except Fault CommLogRespEvent)
    (objs : List ObjID) (ev : CommLogReqEvent) : Except Fault CommLogRespEvent := do
  require (objs.length = 1) .assertFailed
  let obj ← orFault objs.head? .undefined
  let answer ← remote obj ev
  .ok { answer with toCommEvent := Router.newCommEvent .commLogResp ev.id 0 }

def routeCommGetSamplesReq
    (remote : ObjID → CommGetSamplesReqEvent V → Except Fault (CommGetSamplesRespEvent V))
    (objs : List ObjID) (ev : CommGetSamplesReqEvent V) :
    Except Fault (CommGetSamplesRespEvent V) := do
  require (objs.length = 1) .assertFailed
  let obj ← orFault objs.head? .undefined
  let answer ← remote obj ev
  .ok { answer with toCommEvent := Router.newCommEvent .commGetSamplesResp ev.id 0 }

/-- The servers, each with its context, that answer for each other: a server that cannot
answer alone asks the servers of other objects, to the given depth. -/
def nested (servers : ObjID → Option (Cntxt V))
    (process : Cntxt V → (List ObjID → Req → Except Fault Resp) → ObjID → Req →
      Except Fault Resp)
    (route : (ObjID → Req → Except Fault Resp) → List ObjID → Req → Except Fault Resp) :
    Nat → ObjID → Req → Except Fault Resp
  | 0, _, _ => .error .exhausted
  | n + 1, name, req => do
      let cntxt ← orFault (servers name) .undefined
      process cntxt (route (nested servers process route n)) name req

theorem nested_invariant {servers : ObjID → Option (Cntxt V)}
    {process : Cntxt V → (List ObjID → Req → Except Fault Resp) → ObjID → Req →
      Except Fault Resp}
    {route : (ObjID → Req → Except Fault Resp) → List ObjID → Req → Except Fault Resp}
    (P : Resp → Prop)
    (hprocess : ∀ cntxt answer, (∀ objs req r, answer objs req = .ok r → P r) →
      ∀ name req r, process cntxt answer name req = .ok r → P r)
    (hroute : ∀ remote, (∀ name req r, remote name req = .ok r → P r) →
      ∀ objs req r, route remote objs req = .ok r → P r) (n : Nat) :
    ∀ name req r, nested servers process route n name req = .ok r → P r := by
  induction n with
  | zero =>
      intro name req r h
      cases h
  | succ n ih =>
      intro name req r h
      obtain ⟨cntxt, _, h⟩ := bind_eq_ok.mp h
      exact hprocess cntxt _ (hroute _ ih) name req r h

variable [Zero V] [Add V] (servers : ObjID → Option (Cntxt V))

def serveCommReq : Nat → ObjID → CommReqEvent V → Except Fault (CommRespEvent V) :=
  nested servers Server.processCommReq routeCommReq

def serveCommLogReq : Nat → ObjID → CommLogReqEvent → Except Fault CommLogRespEvent :=
  nested servers Server.processCommLogReq routeCommLogReq

def serveCommGetSamplesReq :
    Nat → ObjID → CommGetSamplesReqEvent V → Except Fault (CommGetSamplesRespEvent V) :=
  nested servers Server.processCommGetSamplesReq routeCommGetSamplesReq

end Routing

end PwrApi
