import PwrApi.Server.Fini

/-! What the calls of a server come to: which responses can be made and processed, and what
a call leaves of the requests that are under way. -/

namespace PwrApi

open Function Memory Runs Server

variable {V : Type}

/-- A response answers a request: the id, and for values the group, are those of the
request. -/
def Matches : Payload V → Payload V → Prop
  | .commReq req, .commResp resp => resp.id = req.id ∧ resp.grpIndex = req.grpIndex
  | .commLogReq req, .commLogResp resp => resp.id = req.id
  | .commGetSamplesReq req, .commGetSamplesResp resp => resp.id = req.id
  | _, _ => False

section Responding

/-- The errors of a `Status` are of objects whose names fit in the buffer. -/
def Poppable (status : Status) : Prop :=
  ∀ error ∈ status, ∃ name, error.obj = some name ∧ (Router.cStr name).length < 100

theorem popErrors_ok {status : Status} (h : Poppable status) :
    ∃ errors, popErrors status = .ok errors := by
  have hnames : ∃ names, status.mapM (fun error => do
      let obj ← orFault error.obj .undefined
      objGetName obj) = .ok names := by
    apply (mapM_isOk status).mpr
    intro error herror
    obtain ⟨name, hname, hlength⟩ := h error herror
    refine ⟨Router.cStr name, ?_⟩
    simp [hname, objGetName, require, hlength, bind, Except.bind]
  obtain ⟨names, hnames⟩ := hnames
  refine ⟨(names, status.map (·.name), status.map (·.error)), ?_⟩
  rw [popErrors, bind_eq_ok]
  exact ⟨names, hnames, rfl⟩

theorem requestFini_ok {status : Status} (h : Poppable status) (resp : CommRespEvent V) :
    ∃ resp', requestFini resp status = .ok resp' ∧ resp'.id = resp.id ∧
      resp'.grpIndex = resp.grpIndex := by
  obtain ⟨errors, herrors⟩ := popErrors_ok h
  simp [requestFini, herrors, bind, Except.bind]

theorem logReqFini_ok {status : Status} (h : Poppable status) (resp : CommLogRespEvent) :
    ∃ resp', logReqFini resp status = .ok resp' ∧ resp'.id = resp.id := by
  obtain ⟨errors, herrors⟩ := popErrors_ok h
  simp [logReqFini, herrors, bind, Except.bind]

theorem getSamplesFini_ok {status : Status} (h : Poppable status)
    (resp : CommGetSamplesRespEvent V) :
    ∃ resp', getSamplesFini resp status = .ok resp' ∧ resp'.id = resp.id := by
  obtain ⟨errors, herrors⟩ := popErrors_ok h
  simp [getSamplesFini, herrors, bind, Except.bind]

theorem respond_ok {payload : Payload V} {base : Nat} {buf : Nat → V × PwrTime}
    {status : Status} (hrequest : (requests payload).isSome) (h : Poppable status) :
    ∃ reply, ServerState.respond ⟨payload, base⟩ buf status = .ok reply ∧
      Matches payload reply := by
  cases payload with
  | commReq req =>
      obtain ⟨resp, hresp, hid, hgroup⟩ :=
        requestFini_ok h (commResp req (readRow buf base req.attrName.length))
      exact ⟨.commResp resp, bind_eq_ok.mpr ⟨resp, hresp, rfl⟩, hid, hgroup⟩
  | commLogReq req =>
      obtain ⟨resp, hresp, hid⟩ := logReqFini_ok h
        { toCommEvent := { Router.newCommEvent .commLogResp req.id 0 with op := req.op }
          errObj := [], errAttr := [], errValue := [] }
      exact ⟨.commLogResp resp, bind_eq_ok.mpr ⟨resp, hresp, rfl⟩, hid⟩
  | commGetSamplesReq req =>
      obtain ⟨resp, hresp, hid⟩ := getSamplesFini_ok h
        { toCommEvent := Router.newCommEvent .commGetSamplesResp req.id 0
          startTime := (buf base).2, count := req.count
          data := (readRow buf base req.count.toNat).map Prod.fst
          errObj := [], errAttr := [], errValue := [] }
      exact ⟨.commGetSamplesResp resp, bind_eq_ok.mpr ⟨resp, hresp, rfl⟩, hid⟩
  | _ => cases hrequest

end Responding

section Serving

/-- The object is served by local devices or by a communicator. -/
def Uniform (obj : DistObject V) : Prop :=
  (∀ name, (obj.attrInfo name).comm = none) ∨ ∀ name, (obj.attrInfo name).devices = []

/-- The attributes of a call are there, and all valid or all not. -/
def Unmixed (obj : DistObject V) (names : List AttrName) : Prop :=
  names ≠ [] ∧ ((∀ name ∈ names, (obj.attrInfo name).isValid) ∨
    ∀ name ∈ names, ¬ (obj.attrInfo name).isValid)

/-- The operations that a server can perform: samples are of one device at most. -/
def Suits (obj : DistObject V) : ClientState.Operation V → Prop
  | .getValues names _ => Uniform obj ∧ Unmixed obj names
  | .setValues values => Uniform obj ∧ Unmixed obj (values.map Prod.fst)
  | .startLog _ | .stopLog _ => True
  | .getSamples name _ _ _ => (obj.attrInfo name).devices.length ≤ 1

variable {obj : DistObject V}

theorem commOf_unmixed (huniform : Uniform obj) {names : List AttrName}
    (hnames : Unmixed obj names) : ∃ comm, obj.commOf names = .ok comm ∧
      (comm ≠ none → ∀ name ∈ names, (obj.attrInfo name).isValid ∧
        (obj.attrInfo name).devices = []) := by
  obtain ⟨hne, hvalid⟩ := hnames
  obtain ⟨first, rest, rfl⟩ := List.exists_cons_of_ne_nil hne
  have hall : ∀ name ∈ first :: rest, (obj.attrInfo first).comm = (obj.attrInfo name).comm := by
    intro name hname
    rcases huniform with hlocal | hremote
    · rw [hlocal, hlocal]
    · rcases hvalid with hvalid | hinvalid
      · apply obj.sameComm
        · exact (hvalid first List.mem_cons_self).resolve_left fun h => h (hremote first)
        · exact (hvalid name hname).resolve_left fun h => h (hremote name)
      · have hnone : ∀ other ∈ first :: rest, (obj.attrInfo other).comm = none := by
          intro other hother
          by_contra hsome
          exact hinvalid other hother (.inr hsome)
        rw [hnone first List.mem_cons_self, hnone name hname]
  refine ⟨(obj.attrInfo first).comm, ?_, ?_⟩
  · simp only [DistObject.commOf, List.head?_cons, orFault_some, bind_eq_ok]
    exact ⟨first, rfl, (), forM_require_eq_ok.mpr hall, rfl⟩
  · intro hcomm name hname
    have hsome : (obj.attrInfo name).comm ≠ none := by rwa [← hall name hname]
    exact ⟨.inr hsome, obj.notMixed name hsome⟩

theorem dropStatus_success_iff {started : Started V}
    (hretval : started.retval = started.status.retval)
    (hfails : ∀ e ∈ started.status, e.error ≠ Ret.success) :
    started.dropStatus.retval = Ret.success ↔ started.retval = Ret.success := by
  constructor
  · exact ClientState.dropStatus_success hretval hfails
  · intro h
    have hcode : started.retval ≠ Ret.status := by
      rw [h]
      decide
    exact (if_neg hcode).trans h

/-- What a call comes to: it fails in this process, or it ends with the code that says
whether it did, and succeeded when it goes to a communicator. -/
def Served (s : ClientState V) (r : ReqPtr) (id : EventId) (code : Int32) (t : ClientState V) :
    Prop :=
  ∃ mid, ClientState.SamePending s mid ∧ ((t = mid ∧ code ≠ Ret.success) ∨
    ∃ kind comm retval, t = mid.issue r kind id comm retval ∧
      (code = Ret.success ↔ retval = Ret.success) ∧ (comm ≠ none → retval = Ret.success))

section Calls

variable {s : ClientState V} {r : ReqPtr} {id : EventId}

theorem log_served (kind : CommReqKind) (name : AttrName) (retval : Int32) :
    Served s r id (s.attrLog obj r kind id name retval).1
      (s.attrLog obj r kind id name retval).2 := by
  refine ⟨s, .refl s, ?_⟩
  unfold ClientState.attrLog
  by_cases hretval : retval = Ret.success
  · rw [if_pos hretval]
    exact .inr ⟨kind, _, retval, rfl, iff_of_true rfl hretval, fun _ => hretval⟩
  · rw [if_neg hretval]
    exact .inl ⟨rfl, hretval⟩

theorem issue_served {mid : ClientState V} (hsame : ClientState.SamePending s mid)
    (kind : CommReqKind) {started : Started V} (hretval : started.retval = started.status.retval)
    (hfails : ∀ e ∈ started.status, e.error ≠ Ret.success)
    (hremote : started.sent ≠ none → started.status = []) :
    Served s r id started.dropStatus.retval
      (mid.issue r kind id (started.sent.map Prod.fst) started.retval) := by
  refine ⟨mid, hsame, .inr ⟨kind, _, _, rfl, dropStatus_success_iff hretval hfails, ?_⟩⟩
  intro hcomm
  have hsent : started.sent ≠ none := by
    intro hnone
    rw [hnone] at hcomm
    exact hcomm rfl
  rw [hretval, hremote hsent]
  rfl

theorem setValues_served {values : List (AttrName × V)} (huniform : Uniform obj)
    (hnames : Unmixed obj (values.map Prod.fst)) :
    ∃ started t, s.attrSetValues obj r id values = .ok (started, t) ∧
      Served s r id started.dropStatus.retval t := by
  obtain ⟨comm, hcomm, hremote⟩ := commOf_unmixed huniform hnames
  let started : Started V :=
    { retval := (obj.toObject.attrSetValues values).retval, cells := []
      status := obj.toObject.attrSetValues values
      sent := comm.map fun objs => (objs, DistComm.setValues values) }
  have hstart : obj.attrSetValuesStart values = .ok started := by
    rw [DistObject.attrSetValuesStart, hcomm]
    rfl
  refine ⟨started, _, by rw [ClientState.attrSetValues, hstart]; rfl, ?_⟩
  apply issue_served (.refl s) .set rfl (obj.toObject.attrSetValuesFrom_fails 0 values)
  intro hsent
  apply (obj.toObject.attrSetValuesFrom_eq_nil 0 values).mpr
  intro k name value hk
  have hname : name ∈ values.map Prod.fst := List.mem_map_of_mem (List.mem_of_getElem? hk)
  obtain ⟨hvalid, hdevices⟩ := hremote (fun hnone => hsent (by simp [started, hnone])) name hname
  refine ⟨hvalid, ?_⟩
  rw [hdevices]
  exact fun _ hdev => absurd hdev List.not_mem_nil

variable [Zero V]

theorem getValues_served {names : List AttrName} (huniform : Uniform obj)
    (hnames : Unmixed obj names) (base : Nat) :
    ∃ started t, s.attrGetValues obj r id names base = .ok (started, t) ∧
      Served s r id started.dropStatus.retval t := by
  obtain ⟨comm, hcomm, hremote⟩ := commOf_unmixed huniform hnames
  let started : Started V :=
    { retval := (obj.toObject.attrGetValues names).2.retval
      cells := (obj.toObject.attrGetValues names).1
      status := (obj.toObject.attrGetValues names).2
      sent := comm.map fun objs => (objs, DistComm.getValues names
        (names.map fun name => (obj.attrInfo name).valueOp)) }
  have hstart : obj.attrGetValuesStart names = .ok started := by
    rw [DistObject.attrGetValuesStart, hcomm]
    rfl
  refine ⟨started, _, by rw [ClientState.attrGetValues, hstart]; rfl, ?_⟩
  apply issue_served (ClientState.samePending_setValue s r base _) .get rfl
    (obj.toObject.attrGetValuesFrom_fails 0 names)
  intro hsent
  apply (obj.toObject.attrGetValuesFrom_status 0 names).mpr
  intro k name hk
  obtain ⟨hvalid, hdevices⟩ := hremote (fun hnone => hsent (by simp [started, hnone])) name
    (List.mem_of_getElem? hk)
  refine ⟨hvalid, ?_⟩
  rw [hdevices]
  exact fun _ hdev => absurd hdev List.not_mem_nil

theorem getSamples_served [Add V] {name : AttrName}
    (hdevices : (obj.attrInfo name).devices.length ≤ 1) (period : V) (count : UInt32)
    (base : Nat) :
    ∃ code t, s.attrGetSamples obj r id name period count base = .ok (code, t) ∧
      Served s r id code t := by
  have hlocal : ∀ samples : Samples V, ∃ result,
      obj.toObject.attrGetSamples name period samples = .ok result := by
    intro samples
    unfold Object.attrGetSamples
    by_cases hvalid : (obj.attrInfo name).isValid
    · rw [if_pos hvalid, require_of _ hdevices]
      cases (obj.attrInfo name).devices with
      | nil => exact ⟨_, rfl⟩
      | cons dev devices =>
          by_cases hretval : (dev.getSamples name period samples.count).1 = Ret.success
          · exact ⟨_, if_pos hretval⟩
          · exact ⟨_, if_neg hretval⟩
    · rw [if_neg hvalid]
      exact ⟨_, rfl⟩
  obtain ⟨⟨retval, samples⟩, hresult⟩ := hlocal
    { start := (s.buf base).2, count, data := (readRow s.buf base count.toNat).map Prod.fst }
  rw [ClientState.attrGetSamples, hresult]
  by_cases hretval : retval = Ret.success
  · refine ⟨_, _, if_pos hretval, _, ?_,
      .inr ⟨.getSamples, _, retval, rfl, iff_of_true rfl hretval, fun _ => hretval⟩⟩
    by_cases hcomm : (obj.attrInfo name).comm = none
    · rw [if_pos hcomm]
      exact ClientState.samePending_buf s _
    · rw [if_neg hcomm]
      exact ClientState.samePending_setValue s r base _
  · exact ⟨_, _, if_neg hretval, _, ClientState.samePending_buf s _, .inl ⟨rfl, hretval⟩⟩

theorem call_served [Add V] {op : ClientState.Operation V} (hsuits : Suits obj op) :
    ∃ code t, s.call obj r id op = .ok (code, t) ∧ Served s r id code t := by
  cases op with
  | getValues names base =>
      obtain ⟨started, t, hstart, hserved⟩ := getValues_served hsuits.1 hsuits.2 base
      refine ⟨_, t, ?_, hserved⟩
      rw [ClientState.call, hstart]
      rfl
  | setValues values =>
      obtain ⟨started, t, hstart, hserved⟩ := setValues_served hsuits.1 hsuits.2
      refine ⟨_, t, ?_, hserved⟩
      rw [ClientState.call, hstart]
      rfl
  | startLog name => exact ⟨_, _, rfl, log_served .startLog name _⟩
  | stopLog name => exact ⟨_, _, rfl, log_served .stopLog name _⟩
  | getSamples name period count base => exact getSamples_served hsuits period count base

end Calls

end Serving

section Frames

/-- A request is as it was, but for the places in the buffers. -/
structure Kept (s t : ClientState V) (r : ReqPtr) : Prop where
  commReqs : (t.reqs r).commReqs = (s.reqs r).commReqs
  callback : (t.reqs r).callback = (s.reqs r).callback
  status : (t.reqs r).status = (s.reqs r).status
  places : (t.reqs r).value.length = (s.reqs r).value.length
  statuses : t.statuses r = s.statuses r

/-- Nothing that is under way is lost: the requests that are not for `r` are as they were,
no response has come, and the communicator requests are where they were. -/
structure Frame (s t : ClientState V) (r : ReqPtr) : Prop where
  linked : t.Linked
  others : ∀ r', r' ≠ r → Kept s t r'
  channel : ∀ ev ∈ t.channel, ev ∈ s.channel
  commReqs : ∀ id commReq, s.commReqs id = some commReq → t.commReqs id = some commReq

theorem kept_of_same {s t : ClientState V} (h : ClientState.SamePending s t) (r : ReqPtr) :
    Kept s t r :=
  ⟨(h.reqs r).1, (h.reqs r).2, h.status r, h.places r, by rw [h.statuses]⟩

theorem Kept.trans {s t u : ClientState V} {r : ReqPtr} (h : Kept s t r) (k : Kept t u r) :
    Kept s u r where
  commReqs := k.commReqs.trans h.commReqs
  callback := k.callback.trans h.callback
  status := k.status.trans h.status
  places := k.places.trans h.places
  statuses := k.statuses.trans h.statuses

variable {s t : ClientState V} {r : ReqPtr} {id : EventId} {code : Int32}

theorem served_cases (h : Served s r id code t) (hlinked : s.Linked)
    (hfresh : s.commReqs id = none) (hcallback : (s.reqs r).callback = true)
    (hfree : (s.reqs r).commReqs = []) :
    Frame s t r ∧
    ((code ≠ Ret.success ∧ t.called r = s.called r ∧ Kept s t r) ∨
      (code = Ret.success ∧ t.called r = s.called r ++ [[]] ∧ Kept s t r) ∨
      (code = Ret.success ∧ t.called r = s.called r ∧ (t.reqs r).commReqs = [id] ∧
        (t.reqs r).callback = true ∧ (t.reqs r).status = (s.reqs r).status ∧
        (t.reqs r).value.length = (s.reqs r).value.length ∧ t.statuses r = s.statuses r)) := by
  obtain ⟨mid, hsame, hend⟩ := h
  have hmid : mid.Linked := ClientState.linked_congr hlinked hsame.awaited hsame.channel
    hsame.commReqs fun r' => (hsame.reqs r').1
  have hframe : Frame s mid r := by
    refine ⟨hmid, fun r' _ => kept_of_same hsame r', ?_, ?_⟩
    · rw [hsame.channel]
      exact fun ev hev => hev
    · rw [hsame.commReqs]
      exact fun id commReq h => h
  rcases hend with ⟨rfl, hcode⟩ | ⟨kind, comm, retval, rfl, hcode, hsent⟩
  · exact ⟨hframe, .inl ⟨hcode, by rw [hsame.called], kept_of_same hsame r⟩⟩
  · cases comm with
    | none =>
        rw [ClientState.issue_none]
        have hfinished : mid.finished r := (hsame.reqs r).1.trans hfree
        by_cases hretval : retval = Ret.success
        · rw [if_pos ⟨hretval, hfinished⟩]
          have hkept : ∀ r', Kept s (mid.execCallback r) r' := by
            intro r'
            apply (kept_of_same hsame r').trans
            exact ⟨by simp, by simp, by simp, by simp, by simp⟩
          refine ⟨⟨ClientState.linked_callback hmid r, fun r' _ => hkept r', ?_, ?_⟩,
            .inr (.inl ⟨hcode.mpr hretval, ?_, hkept r⟩)⟩
          · rw [ClientState.execCallback_channel]
            exact hframe.channel
          · rw [ClientState.execCallback_commReqs]
            exact hframe.commReqs
          · rw [ClientState.execCallback_called_self ((hsame.reqs r).2.trans hcallback),
              hsame.called, (hsame.reqs r).1, hfree]
        · rw [if_neg fun h => hretval h.1]
          exact ⟨hframe, .inl ⟨fun h => hretval (hcode.mp h), by rw [hsame.called],
            kept_of_same hsame r⟩⟩
    | some objs =>
        have hfreshMid : mid.commReqs id = none := by rw [hsame.commReqs, hfresh]
        rw [ClientState.issue_some]
        refine ⟨⟨ClientState.linked_send hmid hfreshMid r kind, ?_, hframe.channel, ?_⟩,
          .inr (.inr ⟨hcode.mpr (hsent (by simp)), ?_, ?_⟩)⟩
        · intro r' hr
          have hreq : (mid.send r kind id).reqs r' = mid.reqs r' := update_of_ne hr _ _
          apply (kept_of_same hsame r').trans
          exact ⟨by rw [hreq], by rw [hreq], by rw [hreq], by rw [hreq], rfl⟩
        · intro id' commReq hcommReq
          have hne : id' ≠ id := by
            rintro rfl
            rw [hfresh] at hcommReq
            cases hcommReq
          exact (update_of_ne hne _ _).trans (hframe.commReqs id' commReq hcommReq)
        · exact congrFun hsame.called r
        · have hreq : (mid.send r kind id).reqs r =
              { mid.reqs r with commReqs := (mid.reqs r).commReqs ++ [id] } := update_self _ _ _
          rw [hreq]
          refine ⟨?_, (hsame.reqs r).2.trans hcallback, hsame.status r, hsame.places r,
            congrFun hsame.statuses r⟩
          change (mid.reqs r).commReqs ++ [id] = [id]
          rw [(hsame.reqs r).1, hfree, List.nil_append]

end Frames

section Responses

/-- The errors of a response are whole, and of objects of the context whose names fit. -/
structure Known (cntxt : Cntxt V) (errObj : List ObjID) (errAttr : List AttrName)
    (errValue : List Int32) : Prop where
  attrs : errAttr.length = errObj.length
  values : errValue.length = errObj.length
  objects : ∀ name ∈ errObj, ∃ obj, cntxt name = .ok (some obj) ∧
    (Router.cStr obj.name).length < 100

/-- The responses for a communicator request of a kind. -/
def Fits (cntxt : Cntxt V) : CommReqKind → Payload V → Prop
  | .get, .commResp ev => ev.value.length = 1 ∧ Known cntxt ev.errObj ev.errAttr ev.errValue
  | .set, .commResp ev => Known cntxt ev.errObj ev.errAttr ev.errValue
  | .startLog, .commLogResp ev | .stopLog, .commLogResp ev =>
      Known cntxt ev.errObj ev.errAttr ev.errValue
  | .getSamples, .commGetSamplesResp ev => ev.count.toNat ≤ ev.data.length
  | _, _ => False

variable {cntxt : Cntxt V}

theorem addErrors_known {errObj : List ObjID} {errAttr : List AttrName} {errValue : List Int32}
    (h : Known cntxt errObj errAttr errValue) :
    ∃ status, DistRequest.addErrors cntxt [] errObj errAttr errValue = .ok status ∧
      Poppable status := by
  have hfound : ∀ entry ∈ errObj.zip (errAttr.zip errValue), ∃ obj,
      cntxt entry.1 = .ok (some obj) ∧ (Router.cStr obj.name).length < 100 :=
    fun entry hentry => h.objects entry.1 (List.of_mem_zip hentry).1
  have hadd : ∃ errors, (errObj.zip (errAttr.zip errValue)).mapM (fun entry => do
      let found ← cntxt entry.1
      .ok (⟨found.map fun found : DistObject V => found.name, entry.2.1, entry.2.2⟩ :
        AttrAccessError)) = .ok errors := by
    apply (mapM_isOk _).mpr
    intro entry hentry
    obtain ⟨obj, hobj, _⟩ := hfound entry hentry
    exact ⟨⟨some obj.name, entry.2.1, entry.2.2⟩, bind_eq_ok.mpr ⟨some obj, hobj, rfl⟩⟩
  obtain ⟨errors, herrors⟩ := hadd
  refine ⟨errors, bind_eq_ok.mpr ⟨errors, herrors, rfl⟩, ?_⟩
  intro error herror
  obtain ⟨entry, hentry, hadded⟩ := mem_of_mapM herrors herror
  obtain ⟨obj, hobj, hlength⟩ := hfound entry hentry
  obtain ⟨found, hsame, rfl⟩ := by simpa only [bind_eq_ok, Except.ok.injEq] using hadded
  obtain rfl := Except.ok.inj (hobj.symm.trans hsame)
  exact ⟨obj.name, rfl, hlength⟩

theorem process_fits {kind : CommReqKind} {ev : Payload V} (hfits : Fits cntxt kind ev)
    {req : DistRequest} (hplace : req.value.length = 1) (buf : Nat → V × PwrTime) :
    ∃ buf' status, DistCommReq.process kind cntxt req buf [] ev = .ok (buf', status) ∧
      Poppable status := by
  -- the kinds whose responses have errors and no values
  have errors : ∀ {errObj errAttr errValue}, Known cntxt errObj errAttr errValue →
      ∃ buf' status, (do
          let status ← DistRequest.addErrors cntxt [] errObj errAttr errValue
          .ok (buf, status)) = .ok (buf', status) ∧ Poppable status := by
    intro errObj errAttr errValue hknown
    obtain ⟨status, hstatus, hpoppable⟩ := addErrors_known hknown
    exact ⟨buf, status, bind_eq_ok.mpr ⟨status, hstatus, rfl⟩, hpoppable⟩
  cases kind with
  | get =>
      cases ev with
      | commResp ev =>
          obtain ⟨status, hstatus, hpoppable⟩ := addErrors_known hfits.2
          have hget : ∃ buf', DistRequest.getValueAt cntxt req.value buf [] ev =
              .ok (buf', status) := by
            rw [DistRequest.getValueAt, require_of _ (hplace.trans hfits.1.symm), hstatus]
            exact ⟨_, rfl⟩
          obtain ⟨buf', hbuf⟩ := hget
          exact ⟨buf', status, hbuf, hpoppable⟩
      | _ => cases hfits
  | set =>
      cases ev with
      | commResp ev => exact errors hfits
      | _ => cases hfits
  | startLog =>
      cases ev with
      | commLogResp ev => exact errors hfits
      | _ => cases hfits
  | stopLog =>
      cases ev with
      | commLogResp ev => exact errors hfits
      | _ => cases hfits
  | getSamples =>
      cases ev with
      | commGetSamplesResp ev =>
          obtain ⟨base, hbase⟩ := List.length_eq_one_iff.mp hplace
          have hcount : ev.count.toNat ≤ ev.data.length := hfits
          refine ⟨writeSamples buf base ev.startTime (ev.data.take ev.count.toNat), [], ?_,
            fun error herror => absurd herror List.not_mem_nil⟩
          rw [DistCommReq.process, hbase, require_of _ hcount]
          rfl
      | _ => cases hfits

/-- A request that waits for one response, whose callback is to run then. -/
structure Waits (s : ClientState V) (r : ReqPtr) : Prop where
  callback : (s.reqs r).callback = true
  status : (s.reqs r).status = r
  place : (s.reqs r).value.length = 1
  sent : ∃ id, (s.reqs r).commReqs = [id]
  clean : s.statuses r = []

theorem Waits.of_kept {s t : ClientState V} {r : ReqPtr} (h : Waits s r) (k : Kept s t r) :
    Waits t r where
  callback := k.callback.trans h.callback
  status := k.status.trans h.status
  place := k.places.trans h.place
  sent := by
    rw [k.commReqs]
    exact h.sent
  clean := k.statuses.trans h.clean

theorem makeProgress_of_consume {s t : ClientState V} {ev : Payload V}
    (h : ClientState.Consume cntxt s ev t) {kind : CommReqKind} {r : ReqPtr}
    (hreq : s.commReqs ev.base.id = some ⟨kind, r⟩) :
    s.makeProgress cntxt = .ok (some (Ret.success, t.execCallback r)) := by
  obtain ⟨rest, hchannel, hprocess⟩ := h
  simp only [ClientState.makeProgress, hchannel, hreq, orFault_some, bind_eq_ok,
    exists_eq_left', Except.ok.injEq]
  exact ⟨t, hprocess, rfl⟩

theorem progress_waits {s : ClientState V} (hlinked : s.Linked) {ev : Payload V}
    {rest : List (Payload V)} (hchannel : s.channel = ev :: rest) {kind : CommReqKind}
    {r : ReqPtr} (hreq : s.commReqs ev.base.id = some ⟨kind, r⟩) (hwaits : Waits s r)
    (hfits : Fits cntxt kind ev) :
    ∃ t, s.makeProgress cntxt = .ok (some (Ret.success, t)) ∧ Frame s t r ∧
      t.called r = s.called r ++ [[]] ∧ (t.reqs r).commReqs = [] ∧ Poppable (t.statuses r) := by
  obtain ⟨buf, status, hprocess, hpoppable⟩ := process_fits hfits hwaits.place s.buf
  obtain ⟨id, hsent⟩ := hwaits.sent
  have hid : ev.base.id = id := by
    have hmem := ClientState.next_expected hlinked hchannel hreq
    rwa [hsent, List.mem_singleton] at hmem
  obtain ⟨mid, hconsume, hreqs, hstatuses, hcommReqs, hrest, hcalled⟩ : ∃ mid,
      ClientState.Consume cntxt s ev mid ∧
      mid.reqs = update s.reqs r { s.reqs r with commReqs := [] } ∧
      mid.statuses = update s.statuses r status ∧ mid.commReqs = s.commReqs ∧
      mid.channel = rest ∧ mid.called = s.called := by
    let mid : ClientState V := { s with
      channel := rest
      buf
      statuses := update s.statuses r status
      reqs := update s.reqs r { s.reqs r with commReqs := [] }
      consumed := s.consumed ++ [ev] }
    have hmid : { s with channel := rest }.process cntxt ev = .ok mid := by
      simp only [ClientState.process, hreq, orFault_some, bind_eq_ok, Except.ok.injEq,
        exists_eq_left', hwaits.status, hwaits.clean, hprocess]
      simp only [mid, hwaits.status, hsent, hid, List.erase_cons_head]
    exact ⟨mid, ⟨rest, hchannel, hmid⟩, rfl, rfl, rfl, rfl, rfl⟩
  refine ⟨mid.execCallback r, ?_, ⟨?_, ?_, ?_, ?_⟩, ?_, ?_, ?_⟩
  · exact makeProgress_of_consume hconsume hreq
  · exact ClientState.linked_callback (ClientState.linked_consume hlinked hconsume) r
  · intro r' hr
    constructor <;> simp [hreqs, hstatuses, hr]
  · rw [ClientState.execCallback_channel, hrest, hchannel]
    exact fun other hother => List.mem_cons_of_mem ev hother
  · rw [ClientState.execCallback_commReqs, hcommReqs]
    exact fun id commReq h => h
  · rw [ClientState.execCallback_called_self, hcalled, hreqs, update_self]
    rw [hreqs, update_self]
    exact hwaits.callback
  · rw [ClientState.execCallback_reqs, hreqs, update_self]
  · rw [ClientState.execCallback_statuses, hstatuses, update_self]
    exact hpoppable

end Responses

end PwrApi
