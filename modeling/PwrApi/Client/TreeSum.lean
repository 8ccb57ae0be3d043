import PwrApi.Client.Gather
import PwrApi.Server.Requests

/-! A read through all contexts that serve an object's subtree, as the sum over that
subtree. -/

namespace PwrApi

open Runs

variable {V : Type}

/-- A response with the value `v` and no errors. -/
def Answers (resp : CommRespEvent V) (v : V) : Prop :=
  ∃ time, resp.value = [[v]] ∧ resp.timeStamp = [[time]] ∧
    NoErrors resp.errObj resp.errAttr resp.errValue

theorem getValue_answers {v : V} (cntxt : Cntxt V) (cell : V × PwrTime) {ev : CommRespEvent V}
    (h : Answers ev v) :
    ∃ time, DistRequest.getValue cntxt [[cell]] [] ev = .ok ([[(v, time)]], []) := by
  obtain ⟨time, hvalue, htime, hnone⟩ := h
  refine ⟨time, ?_⟩
  unfold DistRequest.getValue
  rw [DistRequest.addErrors_none cntxt [] hnone, hvalue, htime]
  rfl

section Objects

variable [Zero V] [Add V] {attr : AttrName}

/-- The attribute of an object adds up devices that all answer, to `v` where no other
process is asked. -/
structure Sums (obj : DistObject V) (attr : AttrName) (v : V) : Prop where
  operation : (obj.attrInfo attr).operation = sumOp
  valueOp : (obj.attrInfo attr).valueOp = .fpAdd
  reads : ∀ device ∈ (obj.attrInfo attr).devices, ∀ i, (device.read i attr).1 = Ret.success
  sum : (obj.attrInfo attr).comm = none → ∀ i,
    ((obj.attrInfo attr).devices.map fun device => (device.read i attr).2.1).sum = v

variable {obj : DistObject V} {v : V}

theorem attrGetValuesDevice_sum (h : Sums obj attr v) (i : Nat) :
    ∃ time, Object.attrGetValuesDevice (obj.attrInfo attr) attr i = .ok
      (((obj.attrInfo attr).devices.map fun device => (device.read i attr).2.1).sum, time) := by
  unfold Object.attrGetValuesDevice
  rw [mapM_of_ok fun device hdevice => getValue_of_success (h.reads device hdevice i), h.operation]
  cases (obj.attrInfo attr).devices with
  | nil => exact ⟨0, rfl⟩
  | cons device devices =>
      refine ⟨(device.read i attr).2.2, ?_⟩
      simp [bind, Except.bind, sumOp, timeOp, Function.comp_def]

theorem attrGetValuesStart_sum (h : Sums obj attr v) :
    ∃ cell status, obj.attrGetValuesStart [attr] = .ok
        { retval := status.retval, cells := [cell], status
          sent := (obj.attrInfo attr).comm.map fun objs =>
            (objs, DistComm.getValues [attr] [.fpAdd]) } ∧
      ((obj.attrInfo attr).isValid → status = []) ∧
      ((obj.attrInfo attr).comm = none → cell.1 = v) := by
  have hcomm : obj.commOf [attr] = .ok (obj.attrInfo attr).comm := by
    simp [DistObject.commOf, require, bind, Except.bind, pure, Except.pure]
  by_cases hvalid : (obj.attrInfo attr).isValid
  · obtain ⟨time, hlocal⟩ := attrGetValuesDevice_sum h 0
    refine ⟨(((obj.attrInfo attr).devices.map fun device => (device.read 0 attr).2.1).sum, time),
      [], ?_, fun _ => rfl, fun hnone => h.sum hnone 0⟩
    unfold DistObject.attrGetValuesStart
    rw [hcomm]
    simp only [Object.attrGetValues, Object.attrGetValuesFrom, if_pos hvalid, hlocal, bind,
      Except.bind, List.map_cons, List.map_nil, h.valueOp]
  · have hnodevices : (obj.attrInfo attr).devices = [] := by
      by_contra hdevices
      exact hvalid (.inl hdevices)
    refine ⟨(0, 0), [⟨some obj.name, attr, Ret.invalid⟩], ?_, fun hval => (hvalid hval).elim, ?_⟩
    · unfold DistObject.attrGetValuesStart
      rw [hcomm]
      simp only [Object.attrGetValues, Object.attrGetValuesFrom, if_neg hvalid, bind,
        Except.bind, List.map_cons, List.map_nil, h.valueOp]
    · intro hnone
      rw [← h.sum hnone 0, hnodevices]
      rfl

theorem processGet_answers {cntxt : Cntxt V}
    {answer : List ObjID → CommReqEvent V → Except Fault (CommRespEvent V)} {name : ObjID}
    {req : CommReqEvent V} (hobj : cntxt name = .ok (some obj)) (h : Sums obj attr v)
    (hop : req.op = .get) (hname : req.attrName = [attr])
    (hanswer : ∀ objs, (obj.attrInfo attr).comm = some objs →
      ∃ ev, answer objs (DistComm.getValues [attr] [.fpAdd]) = .ok ev ∧ Answers ev v) :
    ∃ resp, Server.processCommReq cntxt answer name req = .ok resp ∧ Answers resp v := by
  obtain ⟨cell, status, hstart, hvalid, hlocal⟩ := attrGetValuesStart_sum h
  have hcommObject : Server.commObject cntxt name = .ok obj := by
    simp [Server.commObject, hobj, bind, Except.bind]
  have hresp : ∀ cell : V × PwrTime, Answers (Server.commResp req [cell]) cell.1 := by
    intro cell
    refine ⟨cell.2, ?_, ?_, rfl, rfl, rfl⟩
    · simp [Server.commResp, hop]
    · simp [Server.commResp, hop]
  cases hcomm : (obj.attrInfo attr).comm with
  | none =>
      refine ⟨Server.commResp req [cell], ?_, hlocal hcomm ▸ hresp cell⟩
      simp only [Server.processCommReq, hop, if_true, Server.processGet, hcommObject, hname,
        DistObject.attrGetValuesNB, hstart, hcomm, bind, Except.bind]
      simp [Started.dropStatus, overlay]
  | some objs =>
      obtain ⟨ev, hev, hanswers⟩ := hanswer objs hcomm
      obtain ⟨time, hget⟩ := getValue_answers cntxt cell hanswers
      have hstatus : status = [] := hvalid (.inr (by simp [hcomm]))
      refine ⟨Server.commResp req [(v, time)], ?_, hresp (v, time)⟩
      simp only [Server.processCommReq, hop, if_true, Server.processGet, hcommObject, hname,
        DistObject.attrGetValuesNB, hstart, hcomm, hstatus, bind, Except.bind]
      simp [Started.dropStatus, Status.retval, overlay, Ret.success, Ret.status, hev, hget]

theorem attrGetValue_answers {cntxt : Cntxt V}
    {answer : List ObjID → CommReqEvent V → Except Fault (CommRespEvent V)}
    (h : Sums obj attr v) (hvalid : (obj.attrInfo attr).isValid) (buf : V × PwrTime)
    (hanswer : ∀ objs, (obj.attrInfo attr).comm = some objs →
      ∃ ev, answer objs (DistComm.getValues [attr] [.fpAdd]) = .ok ev ∧ Answers ev v) :
    ∃ time, obj.attrGetValue cntxt answer attr buf = .ok (Ret.success, v, time) := by
  obtain ⟨cell, status, hstart, hstatus, hlocal⟩ := attrGetValuesStart_sum h
  obtain rfl := hstatus hvalid
  cases hcomm : (obj.attrInfo attr).comm with
  | none =>
      refine ⟨cell.2, ?_⟩
      simp only [DistObject.attrGetValue, DistObject.attrGetValues, hstart, hcomm, bind,
        Except.bind]
      simp [Status.retval, overlay, Ret.success, Ret.status, ← hlocal hcomm]
  | some objs =>
      obtain ⟨ev, hev, hanswers⟩ := hanswer objs hcomm
      obtain ⟨time, hget⟩ := getValue_answers cntxt cell hanswers
      refine ⟨time, ?_⟩
      simp only [DistObject.attrGetValue, DistObject.attrGetValues, hstart, hcomm, bind,
        Except.bind, Option.map_some, hev]
      simp [Status.retval, overlay, hget, Ret.success, Ret.status]

end Objects

section Routing

variable [AddCommMonoid V] {attr : AttrName}

theorem answers_sum {objs : List ObjID} {answers : List (CommRespEvent V)} {f : ObjID → V}
    (h : List.Forall₂ (fun obj resp => Answers resp (f obj)) objs answers) :
    (∀ r ∈ answers, Router.Covers 1 r ∧ NoErrors r.errObj r.errAttr r.errValue) ∧
      (answers.map fun r => Router.valueAt r 0).sum = (objs.map f).sum := by
  induction h with
  | nil => simp
  | cons hhead _ ih =>
      obtain ⟨time, hvalue, htime, hnone⟩ := hhead
      constructor
      · intro r hr
        rcases List.mem_cons.mp hr with rfl | hr
        · exact ⟨by simp [Router.Covers, hvalue, htime], hnone⟩
        · exact ih.1 r hr
      · rw [List.map_cons, List.map_cons, List.sum_cons, List.sum_cons, ih.2]
        simp [Router.valueAt, hvalue]

theorem routeCommReq_answers {remote : ObjID → CommReqEvent V → Except Fault (CommRespEvent V)}
    {objs : List ObjID} {f : ObjID → V}
    (hremote : ∀ obj ∈ objs, ∀ req : CommReqEvent V, req.op = .get → req.attrName = [attr] →
      ∃ resp, remote obj req = .ok resp ∧ Answers resp (f obj)) :
    ∃ resp, routeCommReq remote objs (DistComm.getValues [attr] [.fpAdd]) = .ok resp ∧
      Answers resp (objs.map f).sum := by
  have hfan : Router.fanOut (DistComm.getValues [attr] [.fpAdd] : CommReqEvent V) [objs] =
      objs.map fun obj => (obj, DistComm.getValues [attr] [.fpAdd]) := by
    simp [Router.fanOut, DistComm.getValues]
  have hsent : ∀ sent ∈ objs.map fun obj =>
      (obj, (DistComm.getValues [attr] [.fpAdd] : CommReqEvent V)),
      ∃ resp, remote sent.1 sent.2 = .ok resp ∧ Answers resp (f sent.1) := by
    intro sent hmem
    obtain ⟨obj, hobj, rfl⟩ := List.mem_map.mp hmem
    exact hremote obj hobj _ rfl rfl
  obtain ⟨answers, hanswers, hall⟩ := mapM_exists hsent
  rw [List.forall₂_map_left_iff] at hall
  obtain ⟨hgood, hsum⟩ := answers_sum hall
  let info := Router.newCommReqInfo 0 (DistComm.getValues [attr] [.fpAdd] : CommReqEvent V) 0 [objs]
  let start : CommRespEvent V :=
    { toCommEvent := Router.newCommEvent .commResp 0 0
      timeStamp := [[]], value := [[]]
      grpIndex := 0, errObj := [], errAttr := [], errValue := [] }
  obtain ⟨resp, hresp⟩ := Router.mergeGroup_total info start 0
    (fun _ op hop => List.mem_singleton.mp hop) (fun _ r hr => (hgood r hr).1)
  obtain ⟨_, hobj, hattr, hvalue, hget, _⟩ := Router.mergeGroup_ok hresp
  obtain ⟨hvalues, htimes⟩ := hget rfl
  refine ⟨resp, ?_, Router.lastTimes 1 answers |>.headD 0, ?_, ?_, ?_, ?_, ?_⟩
  · unfold routeCommReq
    rw [hfan, bind_eq_ok]
    exact ⟨answers, hanswers, hresp⟩
  · rw [hvalues, ← hsum]
    rfl
  · rw [htimes]
    rfl
  · rw [hobj, List.nil_append, List.flatMap_eq_nil_iff]
    exact fun r hr => (hgood r hr).2.1
  · rw [hattr, List.nil_append, List.flatMap_eq_nil_iff]
    exact fun r hr => (hgood r hr).2.2.1
  · rw [hvalue, List.nil_append, List.flatMap_eq_nil_iff]
    exact fun r hr => (hgood r hr).2.2.2

end Routing

end PwrApi
