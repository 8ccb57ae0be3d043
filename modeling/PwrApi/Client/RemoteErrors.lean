import PwrApi.Server.Requests
import Mathlib.Logic.Relation

/-! What becomes of an error of a server: the code that a device returns, or an attribute
that is not valid, on its way to the client that asked. -/

namespace PwrApi

open Relation Runs

variable {V : Type}

/-- The attribute operations of an object. -/
inductive RemoteOp (V : Type)
  | get (names : List AttrName)
  | set (values : List (AttrName × V))
  | startLog (name : AttrName)
  | stopLog (name : AttrName)
  | getSamples (name : AttrName) (start : PwrTime) (period : V) (count : UInt32)

namespace RemoteOp

def attrs : RemoteOp V → List AttrName
  | .get names => names
  | .set values => values.map Prod.fst
  | .startLog name | .stopLog name | .getSamples name _ _ _ => [name]

/-- The events that ask for the operation. -/
def Asks : RemoteOp V → Payload V → Prop
  | .get names, .commReq ev => ev.op = .get ∧ ev.attrName = names
  | .set values, .commReq ev => ev.op = .set ∧ ev.attrName.zip ev.setValues = values
  | .startLog name, .commLogReq ev => ev.op = .start ∧ ev.attrName = name
  | .stopLog name, .commLogReq ev => ev.op = .stop ∧ ev.attrName = name
  | .getSamples name _ period count, .commGetSamplesReq ev =>
      ev.attrName = name ∧ ev.period = period ∧ ev.count = count
  | _, _ => False

theorem exists_asks (op : RemoteOp V) : ∃ ev, op.Asks ev := by
  cases op with
  | get names => exact ⟨.commReq (DistComm.getValues names []), rfl, rfl⟩
  | set values =>
      refine ⟨.commReq (DistComm.setValues values), rfl, ?_⟩
      simp [DistComm.setValues, List.zip_map']
  | startLog name => exact ⟨.commLogReq (DistComm.startLog name), rfl, rfl⟩
  | stopLog name => exact ⟨.commLogReq (DistComm.stopLog name), rfl, rfl⟩
  | getSamples name start period count =>
      exact ⟨.commGetSamplesReq (DistComm.getSamples name start period count), rfl, rfl, rfl⟩

end RemoteOp

namespace DistObject

/-- The objects that a call for these attributes is forwarded to. -/
def remotes (obj : DistObject V) (op : RemoteOp V) : Option (List ObjID) :=
  op.attrs.head?.bind fun name => (obj.attrInfo name).comm

/-- A code other than success as the error it stands for. -/
def codeError (obj : DistObject V) (name : AttrName) (retval : Int32) : Status :=
  if retval = Ret.success then [] else [⟨some obj.name, name, retval⟩]

/-- The errors of the operation on the object itself. -/
def localErrors [Zero V] [Add V] (obj : DistObject V) : RemoteOp V → Status
  | .get names => (obj.toObject.attrGetValues names).2
  | .set values => obj.toObject.attrSetValues values
  | .startLog name => obj.codeError name (obj.toObject.attrStartLog name)
  | .stopLog name => obj.codeError name (obj.toObject.attrStopLog name)
  | .getSamples name start period count =>
      let samples : Samples V := ⟨start, count, List.replicate count.toNat 0⟩
      match obj.toObject.attrGetSamples name period samples with
      | .ok (retval, _) => obj.codeError name retval
      | .error _ => []

/-- Every attribute asked for is valid, and every device call returns success. Samples
are read when there is one device at most. -/
def Succeeds (obj : DistObject V) : RemoteOp V → Prop
  | .get names => ∀ (k : Nat) (name : AttrName), names[k]? = some name →
      (obj.attrInfo name).Succeeds fun dev => (dev.read k name).1
  | .set values => ∀ (k : Nat) (name : AttrName) (value : V),
      values[k]? = some (name, value) →
      (obj.attrInfo name).Succeeds fun dev => dev.write k name value
  | .startLog name => (obj.attrInfo name).Succeeds (·.startLog name)
  | .stopLog name => (obj.attrInfo name).Succeeds (·.stopLog name)
  | .getSamples name _ period count => (obj.attrInfo name).isValid ∧
      ((obj.attrInfo name).devices.length ≤ 1 →
        ∀ dev ∈ (obj.attrInfo name).devices,
          (dev.getSamples name period count).1 = Ret.success)

theorem codeError_eq_nil (obj : DistObject V) (name : AttrName) (retval : Int32) :
    obj.codeError name retval = [] ↔ retval = Ret.success := by
  unfold codeError
  by_cases hretval : retval = Ret.success <;> simp [hretval]

theorem attrGetSamples_errors [Zero V] [Add V] (obj : DistObject V) (name : AttrName)
    (start : PwrTime) (period : V) (count : UInt32) :
    obj.localErrors (.getSamples name start period count) = [] ↔
      obj.Succeeds (.getSamples name start period count) := by
  simp only [localErrors, Succeeds, Object.attrGetSamples]
  by_cases hvalid : (obj.attrInfo name).isValid
  · rw [if_pos hvalid]
    by_cases hone : (obj.attrInfo name).devices.length ≤ 1
    · rw [require_of _ hone]
      cases hdevices : (obj.attrInfo name).devices with
      | nil => simp [hvalid, codeError, bind, Except.bind]
      | cons dev devices =>
          have hnil : devices = [] := by
            rw [hdevices, List.length_cons] at hone
            exact List.length_eq_zero_iff.mp (by omega)
          by_cases hcode : (dev.getSamples name period count).1 = Ret.success
          · simp [hnil, hvalid, hcode, codeError, bind, Except.bind]
          · simp [hnil, hvalid, hcode, codeError, bind, Except.bind]
    · simp [require, hone, hvalid, bind, Except.bind]
  · simp [hvalid, codeError, Ret.failure, Ret.success]

theorem localErrors_eq_nil [Zero V] [Add V] (obj : DistObject V) (op : RemoteOp V) :
    obj.localErrors op = [] ↔ obj.Succeeds op := by
  cases op with
  | get names =>
      have h := Object.attrGetValuesFrom_status obj.toObject 0 names
      simp only [Nat.zero_add] at h
      exact h
  | set values =>
      have h := Object.attrSetValuesFrom_eq_nil obj.toObject 0 values
      simp only [Nat.zero_add] at h
      exact h
  | startLog name =>
      exact (codeError_eq_nil obj name _).trans (Object.attrLog_eq_success obj.toObject name _)
  | stopLog name =>
      exact (codeError_eq_nil obj name _).trans (Object.attrLog_eq_success obj.toObject name _)
  | getSamples name start period count => exact attrGetSamples_errors obj name start period count

end DistObject

section Responses

def payloadErrors : Payload V → List (ObjID × AttrName × Int32)
  | .commResp ev => ev.errObj.zip (ev.errAttr.zip ev.errValue)
  | .commLogResp ev => ev.errObj.zip (ev.errAttr.zip ev.errValue)
  | .commGetSamplesResp ev => ev.errObj.zip (ev.errAttr.zip ev.errValue)
  | _ => []

namespace Server

theorem requestFini_none {ev : CommReqEvent V} {cells : List (V × PwrTime)}
    {resp : CommRespEvent V} (h : requestFini (commResp ev cells) [] = .ok resp) :
    NoErrors resp.errObj resp.errAttr resp.errValue := by
  rw [requestFini_nil] at h
  obtain rfl := Except.ok.inj h
  exact ⟨rfl, rfl, rfl⟩

theorem processGet_errors [Zero V] {cntxt : Cntxt V}
    {answer : List ObjID → CommReqEvent V → Except Fault (CommRespEvent V)}
    (hanswer : ∀ objs req r, answer objs req = .ok r → NoErrors r.errObj r.errAttr r.errValue)
    {name : ObjID} {ev : CommReqEvent V} {resp : CommRespEvent V}
    (h : processGet cntxt answer name ev = .ok resp) :
    NoErrors resp.errObj resp.errAttr resp.errValue := by
  simp only [processGet, bind_eq_ok] at h
  obtain ⟨obj, _, started, _, h⟩ := h
  split at h
  · exact requestFini_none h
  · simp only [bind_eq_ok, DistRequest.getValue] at h
    obtain ⟨answered, hanswered, ⟨value, status⟩, ⟨_, _, status', hstatus, heq⟩, h⟩ := h
    rw [DistRequest.addErrors_none cntxt [] (hanswer _ _ _ hanswered)] at hstatus
    obtain rfl := Except.ok.inj hstatus
    obtain ⟨_, rfl⟩ := Prod.mk.inj (Except.ok.inj heq)
    exact requestFini_none h

theorem processSet_errors {cntxt : Cntxt V}
    {answer : List ObjID → CommReqEvent V → Except Fault (CommRespEvent V)}
    (hanswer : ∀ objs req r, answer objs req = .ok r → NoErrors r.errObj r.errAttr r.errValue)
    {name : ObjID} {ev : CommReqEvent V} {resp : CommRespEvent V}
    (h : processSet cntxt answer name ev = .ok resp) :
    NoErrors resp.errObj resp.errAttr resp.errValue := by
  simp only [processSet, bind_eq_ok] at h
  obtain ⟨obj, _, started, _, h⟩ := h
  split at h
  · exact requestFini_none h
  · simp only [bind_eq_ok, DistRequest.setValue] at h
    obtain ⟨answered, hanswered, status, hstatus, h⟩ := h
    rw [DistRequest.addErrors_none cntxt [] (hanswer _ _ _ hanswered)] at hstatus
    obtain rfl := Except.ok.inj hstatus
    exact requestFini_none h

end Server

theorem processCommLogReq_errors {cntxt : Cntxt V}
    {answer : List ObjID → CommLogReqEvent → Except Fault CommLogRespEvent}
    (hanswer : ∀ objs req r, answer objs req = .ok r → NoErrors r.errObj r.errAttr r.errValue)
    {name : ObjID} {ev : CommLogReqEvent} {resp : CommLogRespEvent}
    (h : Server.processCommLogReq cntxt answer name ev = .ok resp) :
    NoErrors resp.errObj resp.errAttr resp.errValue := by
  simp only [Server.processCommLogReq, bind_eq_ok] at h
  obtain ⟨obj, _, h⟩ := h
  split at h
  · obtain rfl := Except.ok.inj h
    exact ⟨rfl, rfl, rfl⟩
  · simp only [bind_eq_ok, DistRequest.setRetval] at h
    obtain ⟨answered, hanswered, status, hstatus, h⟩ := h
    rw [DistRequest.addErrors_none cntxt [] (hanswer _ _ _ hanswered)] at hstatus
    obtain rfl := Except.ok.inj hstatus
    obtain rfl := Except.ok.inj h
    exact ⟨rfl, rfl, rfl⟩

theorem processCommGetSamplesReq_errors [Zero V] [Add V] {cntxt : Cntxt V}
    {answer : List ObjID → CommGetSamplesReqEvent V → Except Fault (CommGetSamplesRespEvent V)}
    {name : ObjID} {ev : CommGetSamplesReqEvent V} {resp : CommGetSamplesRespEvent V}
    (h : Server.processCommGetSamplesReq cntxt answer name ev = .ok resp) :
    NoErrors resp.errObj resp.errAttr resp.errValue := by
  simp only [Server.processCommGetSamplesReq, bind_eq_ok] at h
  obtain ⟨obj, _, ⟨retval, samples⟩, _, h⟩ := h
  split at h
  · obtain rfl := Except.ok.inj h
    exact ⟨rfl, rfl, rfl⟩
  · simp only [bind_eq_ok] at h
    obtain ⟨answered, _, h⟩ := h
    obtain rfl := Except.ok.inj h
    exact ⟨rfl, rfl, rfl⟩

theorem routeCommReq_errors [AddMonoid V]
    {remote : ObjID → CommReqEvent V → Except Fault (CommRespEvent V)}
    (hremote : ∀ name req r, remote name req = .ok r → NoErrors r.errObj r.errAttr r.errValue)
    {objs : List ObjID} {req : CommReqEvent V} {r : CommRespEvent V}
    (h : routeCommReq remote objs req = .ok r) : NoErrors r.errObj r.errAttr r.errValue := by
  simp only [routeCommReq, bind_eq_ok, Router.newCommReqInfo] at h
  obtain ⟨answers, hanswers, h⟩ := h
  obtain ⟨_, hobj, hattr, hvalue, _⟩ := Router.mergeGroup_ok h
  have hnone : ∀ answer ∈ answers, NoErrors answer.errObj answer.errAttr answer.errValue := by
    intro answer hanswer
    obtain ⟨sent, _, hsent⟩ := mem_of_mapM hanswers hanswer
    exact hremote _ _ _ hsent
  refine ⟨?_, ?_, ?_⟩
  · rw [hobj, List.nil_append, List.flatMap_eq_nil_iff]
    exact fun answer hanswer => (hnone answer hanswer).1
  · rw [hattr, List.nil_append, List.flatMap_eq_nil_iff]
    exact fun answer hanswer => (hnone answer hanswer).2.1
  · rw [hvalue, List.nil_append, List.flatMap_eq_nil_iff]
    exact fun answer hanswer => (hnone answer hanswer).2.2

end Responses

section Serving

variable [AddMonoid V] (servers : ObjID → Option (Cntxt V))

/-- The request event that a server gets, and the response it sends. -/
def serve (n : Nat) (name : ObjID) : Payload V → Except Fault (Payload V)
  | .commReq ev => (serveCommReq servers n name ev).map .commResp
  | .commLogReq ev => (serveCommLogReq servers n name ev).map .commLogResp
  | .commGetSamplesReq ev => (serveCommGetSamplesReq servers n name ev).map .commGetSamplesResp
  | _ => .error .assertFailed

theorem serve_errors (n : Nat) {name : ObjID} {ev resp : Payload V}
    (h : serve servers n name ev = .ok resp) : payloadErrors resp = [] := by
  cases ev with
  | commReq req =>
      obtain ⟨r, hr, rfl⟩ := map_eq_ok.mp h
      have hnone := nested_invariant
        (fun r : CommRespEvent V => NoErrors r.errObj r.errAttr r.errValue) ?_
        (fun remote hremote objs req r => routeCommReq_errors hremote) n name req r hr
      · simp [payloadErrors, hnone.1]
      · intro cntxt answer hanswer name req r hr
        unfold Server.processCommReq at hr
        split at hr
        · exact Server.processGet_errors hanswer hr
        · exact Server.processSet_errors hanswer hr
  | commLogReq req =>
      obtain ⟨r, hr, rfl⟩ := map_eq_ok.mp h
      have hnone := nested_invariant
        (fun r : CommLogRespEvent => NoErrors r.errObj r.errAttr r.errValue)
        (fun cntxt answer hanswer name req r => processCommLogReq_errors hanswer) ?_ n name req r hr
      · simp [payloadErrors, hnone.1]
      · intro remote hremote objs req r hr
        simp only [routeCommLogReq, bind_eq_ok] at hr
        obtain ⟨_, _, obj, _, answer, hanswer, hr⟩ := hr
        obtain rfl := Except.ok.inj hr
        exact (hremote _ _ answer hanswer : NoErrors answer.errObj answer.errAttr answer.errValue)
  | commGetSamplesReq req =>
      obtain ⟨r, hr, rfl⟩ := map_eq_ok.mp h
      have hnone := nested_invariant
        (fun r : CommGetSamplesRespEvent V => NoErrors r.errObj r.errAttr r.errValue)
        (fun cntxt answer _ name req r => processCommGetSamplesReq_errors) ?_ n name req r hr
      · simp [payloadErrors, hnone.1]
      · intro remote hremote objs req r hr
        simp only [routeCommGetSamplesReq, bind_eq_ok] at hr
        obtain ⟨_, _, obj, _, answer, hanswer, hr⟩ := hr
        obtain rfl := Except.ok.inj hr
        exact (hremote _ _ answer hanswer : NoErrors answer.errObj answer.errAttr answer.errValue)
  | _ => cases h

/-- The call of a client: its return value and the errors of the `Status` that the
responses are entered in. -/
def clientCall (n : Nat) (cntxt : Cntxt V) (client : DistObject V) :
    RemoteOp V → Except Fault (Int32 × Status)
  | .get names => do
      let buf := List.replicate names.length (0, 0)
      let (retval, _, status) ←
        client.attrGetValues cntxt (routeCommReq (serveCommReq servers n)) names buf
      .ok (retval, status)
  | .set values =>
      client.attrSetValues cntxt (routeCommReq (serveCommReq servers n)) values
  | .startLog name =>
      client.attrStartLog cntxt (routeCommLogReq (serveCommLogReq servers n)) name
  | .stopLog name =>
      client.attrStopLog cntxt (routeCommLogReq (serveCommLogReq servers n)) name
  | .getSamples name start period count => do
      let samples : Samples V := ⟨start, count, List.replicate count.toNat 0⟩
      let (retval, _, status) ← client.attrGetSamples
        (routeCommGetSamplesReq (serveCommGetSamplesReq servers n)) name period samples
      .ok (retval, status)

/-- The object that the server of the name has under it. -/
def Serves (name : ObjID) (obj : DistObject V) : Prop :=
  ∃ cntxt, servers name = some cntxt ∧ cntxt name = .ok (some obj)

/-- The server of `name` forwards the operation to that of `name'`. -/
def Forwards (op : RemoteOp V) (name name' : ObjID) : Prop :=
  ∃ obj objs, Serves servers name obj ∧ obj.remotes op = some objs ∧ name' ∈ objs

/-- The objects a client's operation comes to: those of its communicator, and through
intermediate servers those of theirs. -/
def ServedBy (client : DistObject V) (op : RemoteOp V) (obj : DistObject V) : Prop :=
  ∃ objs, client.remotes op = some objs ∧ ∃ name ∈ objs, ∃ name',
    ReflTransGen (Forwards servers op) name name' ∧ Serves servers name' obj

/-- Every error of an object the operation comes to is in the response that its server
sends for any request of the operation, and in the `Status` of the client, whose call
does not return success. -/
def ErrorsReported (cntxt : Cntxt V) (client : DistObject V) (op : RemoteOp V) : Prop :=
  ∀ obj, ServedBy servers client op obj → ∀ error ∈ obj.localErrors op,
    (∀ name ev, Serves servers name obj → op.Asks ev → ∃ n resp,
      serve servers n name ev = .ok resp ∧
      (obj.name, error.name, error.error) ∈ payloadErrors resp) ∧
    ∃ n retval status, clientCall servers n cntxt client op = .ok (retval, status) ∧
      error ∈ status ∧ retval ≠ Ret.success

/-- Errors are reported exactly when there are none: on every object that the operation
comes to, all attributes are valid and all device calls return success. -/
theorem errors_reported_iff (cntxt : Cntxt V) (client : DistObject V) (op : RemoteOp V) :
    ErrorsReported servers cntxt client op ↔
      ∀ obj, ServedBy servers client op obj → obj.Succeeds op := by
  constructor
  · intro hreported obj hserved
    rw [← DistObject.localErrors_eq_nil, List.eq_nil_iff_forall_not_mem]
    intro error herror
    obtain ⟨_, _, _, _, name, _, hserves⟩ := id hserved
    obtain ⟨ev, hasks⟩ := op.exists_asks
    obtain ⟨n, resp, hresp, hmem⟩ := (hreported obj hserved error herror).1 name ev hserves hasks
    rw [serve_errors servers n hresp] at hmem
    cases hmem
  · intro hsucceeds obj hserved error herror
    rw [(DistObject.localErrors_eq_nil obj op).mpr (hsucceeds obj hserved)] at herror
    cases herror

end Serving

section FailingRead

def failingDevice : Device Int where
  read := fun _ _ => (Ret.failure, 0, 0)
  write := fun _ _ _ => Ret.failure
  logStart := none
  logStop := none
  samples := none

def failingNode : DistObject Int where
  name := [112, 46, 110]
  attrInfo := fun _ => ⟨[failingDevice], none, List.sum, .fpAdd⟩
  notMixed := fun _ h => absurd rfl h
  sameComm := fun _ _ _ _ => rfl

def remotePlatform : DistObject Int where
  name := [112]
  attrInfo := fun _ => ⟨[], some [[112, 46, 110]], List.sum, .fpAdd⟩
  notMixed := fun _ _ => rfl
  sameComm := fun _ _ _ _ => rfl

def platformCntxt : Cntxt Int := fun name =>
  .ok (if name = [112] then some remotePlatform else none)

def nodeServer (name : ObjID) : Option (Cntxt Int) :=
  if name = [112, 46, 110] then some fun _ => .ok (some failingNode) else none

/-- The device fails, the response has no error in it, and the client gets success. -/
theorem read_failure_is_lost :
    ¬ ErrorsReported nodeServer platformCntxt remotePlatform (.get [.power]) ∧
    clientCall nodeServer 1 platformCntxt remotePlatform (.get [.power]) =
      .ok (Ret.success, []) := by
  constructor
  · intro hreported
    have hserves : Serves nodeServer [112, 46, 110] failingNode := ⟨_, rfl, rfl⟩
    have hserved : ServedBy nodeServer remotePlatform (.get [.power]) failingNode :=
      ⟨_, rfl, _, List.mem_singleton_self _, _, .refl, hserves⟩
    have herror : (⟨some failingNode.name, .power, Ret.failure⟩ : AttrAccessError) ∈
        failingNode.localErrors (.get [.power]) := List.mem_singleton_self _
    obtain ⟨ev, hasks⟩ := (RemoteOp.get [.power] : RemoteOp Int).exists_asks
    obtain ⟨n, resp, hresp, hmem⟩ :=
      (hreported _ hserved _ herror).1 _ ev hserves hasks
    rw [serve_errors nodeServer n hresp] at hmem
    cases hmem
  · rfl

end FailingRead

end PwrApi
