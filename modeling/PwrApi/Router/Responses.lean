import PwrApi.Router.State
import Mathlib.Algebra.BigOperators.Group.List.Basic

/-! The handlers of the events that come back from the servers: `commRespEvent.h`,
`commLogEvents.h` and `commGetSamplesEvent.h`. -/

namespace PwrApi.Router

open Function Runs

variable {V : Type}

/-- `info->src->sendEvent( info->resp )` and the deletes after it. -/
def sendResp (rtr : Router V) (id : EventId) (info : CommReqInfo V) (resp : Payload V) :
    Except Fault (Router V) := do
  require (rtr.clientMap info.src ≠ none) .deadChannel
  .ok { rtr with
    infos := update rtr.infos id none
    replies := rtr.replies ++ [(info.src, resp)] }

section Reduction

variable [Zero V] [Add V]

/-- The loop over the attributes `i` for one response: the accumulated value and
time of every attribute, against row 0 of the response. -/
def addRow : List ValueOp → List (V × PwrTime) → List V → List PwrTime →
    Except Fault (List (V × PwrTime))
  | [], cells, _, _ => .ok cells
  | op :: ops, cells, values, times => do
      require (op = .fpAdd) .assertFailed
      let (sum, _) ← orFault cells.head? .undefined
      let value ← orFault values.head? .undefined
      let time ← orFault times.head? .undefined
      let cells ← addRow ops cells.tail values.tail times.tail
      .ok ((sum + value, time) :: cells)

def reduceGroup (valueOp : List ValueOp) (rs : List (CommRespEvent V)) :
    Except Fault (List (V × PwrTime)) :=
  rs.foldlM (fun cells r => addRow valueOp cells (r.value.headD []) (r.timeStamp.headD []))
    (valueOp.map fun _ => (0, 0))

/-- What the last response of a group adds to the response for the client. -/
def mergeGroup (info : CommReqInfo V) (resp : CommRespEvent V) (grp : Nat)
    (rs : List (CommRespEvent V)) : Except Fault (CommRespEvent V) := do
  let resp ←
    if info.ev.op = .get then do
      let cells ← reduceGroup info.valueOp rs
      .ok { resp with
        timeStamp := resp.timeStamp.set grp (cells.map Prod.snd)
        value := resp.value.set grp (cells.map Prod.fst) }
    else .ok resp
  .ok { resp with
    errValue := resp.errValue ++ rs.flatMap (·.errValue)
    errAttr := resp.errAttr ++ rs.flatMap (·.errAttr)
    errObj := resp.errObj ++ rs.flatMap (·.errObj)
    grpIndex := 0
    commID := 0 }

/-- `RtrCommRespEvent::process`. -/
def processCommResp (rtr : Router V) (r : CommRespEvent V) : Except Fault (Router V) := do
  let info ← orFault (rtr.infos r.id) .useAfterFree
  let grp := r.grpIndex.toNat
  let rs ← orFault info.respQ[grp]? .undefined
  let size ← orFault info.grpInfo[grp]? .undefined
  let rs := rs ++ [r]
  let info := { info with respQ := info.respQ.set grp rs }
  if rs.length = size then
    match info.resp with
    | .commResp resp => do
        let resp ← mergeGroup info resp grp rs
        let info := { info with resp := .commResp resp, pending := info.pending - 1 }
        if info.pending = 0 then rtr.sendResp r.id info info.resp
        else .ok { rtr with infos := update rtr.infos r.id (some info) }
    | _ => .error .undefined
  else .ok { rtr with infos := update rtr.infos r.id (some info) }

end Reduction

/-- `RtrCommLogRespEvent::process`: the assignment copies the errors only. -/
def processCommLogResp (rtr : Router V) (r : CommLogRespEvent) : Except Fault (Router V) := do
  let info ← orFault (rtr.infos r.id) .useAfterFree
  match info.resp with
  | .commLogResp resp =>
      rtr.sendResp r.id info (.commLogResp { r with toCommEvent := resp.toCommEvent })
  | _ => .error .undefined

/-- `RtrCommGetSamplesRespEvent::process`: the assignment copies the payload only. -/
def processCommGetSamplesResp (rtr : Router V) (r : CommGetSamplesRespEvent V) :
    Except Fault (Router V) := do
  let info ← orFault (rtr.infos r.id) .useAfterFree
  match info.resp with
  | .commGetSamplesResp resp =>
      rtr.sendResp r.id info (.commGetSamplesResp { r with toCommEvent := resp.toCommEvent })
  | _ => .error .undefined

end PwrApi.Router
