import PwrApi.Client.Progress

/-! The calls that wait for a response, on objects (`distObject.cc`) and on groups
(`distGroup.cc`), and which of them tell that the channel has ended. -/

namespace PwrApi

open Function Memory Runs

variable {V α : Type}

/-- How the calls make their return value of the code of `wait` and the errors. -/
inductive CallKind
  | object | log | group
  deriving DecidableEq, Repr

def CallKind.retval (kind : CallKind) (code : Int32) (status : Status) : Int32 :=
  match kind with
  | .object => if code ≠ Ret.success then code else status.retval
  | .log => status.popRetval
  | .group => status.retval

/-- A call up to its `wait`: it has returned already, or it will wait. -/
inductive Begun (V : Type)
  | returned (retval : Int32) (client : ClientState V)
  | waits (client : ClientState V)

namespace ClientState

def addErrors (s : ClientState V) (status : StatusPtr) (errors : Status) : ClientState V :=
  { s with statuses := update s.statuses status (s.statuses status ++ errors) }

section Objects

variable [Zero V]

/-- `attrGetValues( .., Status* )` up to its `wait`. -/
def beginGetValues (s : ClientState V) (obj : DistObject V) (r : ReqPtr) (status : StatusPtr)
    (id : EventId) (names : List AttrName) (base : Nat) : Except Fault (ClientState V) := do
  let (started, s) ← (s.newRequest r status false).attrGetValues obj r id names base
  .ok (s.addErrors status started.status)

/-- `attrSetValues( .., Status* )` up to its `wait`. -/
def beginSetValues (s : ClientState V) (obj : DistObject V) (r : ReqPtr) (status : StatusPtr)
    (id : EventId) (values : List (AttrName × V)) : Except Fault (ClientState V) := do
  let (started, s) ← (s.newRequest r status false).attrSetValues obj r id values
  .ok (s.addErrors status started.status)

/-- `attrStartLog( attr )`, `attrStopLog( attr )` and `attrGetSamples( .., buf )` up to their
`wait`. The `Status` is a local one. -/
def beginLog [Add V] (s : ClientState V) (obj : DistObject V) (r : ReqPtr) (status : StatusPtr)
    (id : EventId) (op : Operation V) : Except Fault (Begun V) := do
  let s := { s.newRequest r status false with statuses := update s.statuses status [] }
  let (retval, s) ← s.call obj r id op
  .ok (if retval = Ret.success then .waits s else .returned retval s)

end Objects

section Waiting

variable (cntxt : Cntxt V)

def finish (s : ClientState V) (kind : CallKind) (r : ReqPtr) (status : StatusPtr) :
    Except Fault (Option (Int32 × ClientState V)) := do
  let result ← s.wait cntxt r
  .ok (result.map fun (code, s) => (kind.retval code (s.statuses status), s))

/-- The loop over `m_list` that opens the calls of a group: there is a code if one of the
members ends it, and no result if one blocks. -/
def members {β : Type} (call : ClientState V → β → Except Fault (Option (Int32 × ClientState V))) :
    ClientState V → List β → Except Fault (Option (Option Int32 × ClientState V))
  | s, [] => .ok (some (none, s))
  | s, member :: rest => do
      match ← call s member with
      | none => .ok none
      | some (rc, s) =>
          if rc ≠ Ret.success ∧ rc ≠ Ret.status then .ok (some (some rc, s))
          else members call s rest

/-- The calls of a group after the loop: with remote members, a request goes to their
communicator. -/
def sendGroup (s : ClientState V) (remote : List α) (r : ReqPtr) (status : StatusPtr)
    (kind : CommReqKind) (id : EventId) (value : List Nat) : Begun V :=
  match remote with
  | [] => .returned (Status.retval (s.statuses status)) s
  | _ :: _ =>
      let s := s.newRequest r status false
      .waits (({ s with reqs := update s.reqs r { s.reqs r with value } }).send r kind id)

variable [Zero V] (heap : α → DistObject V)

/-- `DistGrp::attrGetValues` up to its `wait`. -/
def beginGrpGetValues (s : ClientState V) (grp : DistGrp α) (r : ReqPtr) (status : StatusPtr)
    (id : EventId) (names : List AttrName) (base : Nat) : Except Fault (Option (Begun V)) := do
  let num := names.length
  let result ← members (fun s (obj, i) => do
    let s ← s.beginGetValues (heap obj) r status id names (base + i * num)
    s.finish cntxt .object r status) s grp.list.zipIdx
  .ok (result.map fun
    | (some rc, s) => .returned rc s
    | (none, s) => s.sendGroup grp.distObjs r status .get id
        ((List.range grp.distObjs.length).map fun i => base + i * num))

/-- `DistGrp::attrSetValues` up to its `wait`. -/
def beginGrpSetValues (s : ClientState V) (grp : DistGrp α) (r : ReqPtr) (status : StatusPtr)
    (id : EventId) (values : List (AttrName × V)) : Except Fault (Option (Begun V)) := do
  let result ← members (fun s obj => do
    let s ← s.beginSetValues (heap obj) r status id values
    s.finish cntxt .object r status) s grp.list
  .ok (result.map fun
    | (some rc, s) => .returned rc s
    | (none, s) => s.sendGroup grp.distObjs r status .set id [0])

end Waiting

end ClientState

/-- The calls that wait. -/
inductive BlockingCall (V α : Type)
  | attrGetValues (obj : DistObject V) (names : List AttrName) (base : Nat)
  | attrSetValues (obj : DistObject V) (values : List (AttrName × V))
  | attrStartLog (obj : DistObject V) (name : AttrName)
  | attrStopLog (obj : DistObject V) (name : AttrName)
  | attrGetSamples (obj : DistObject V) (name : AttrName) (period : V) (count : UInt32) (base : Nat)
  | grpAttrGetValues (grp : DistGrp α) (names : List AttrName) (base : Nat)
  | grpAttrSetValues (grp : DistGrp α) (values : List (AttrName × V))

namespace BlockingCall

def kind : BlockingCall V α → CallKind
  | .attrGetValues _ _ _ | .attrSetValues _ _ => .object
  | .attrStartLog _ _ | .attrStopLog _ _ | .attrGetSamples _ _ _ _ _ => .log
  | .grpAttrGetValues _ _ _ | .grpAttrSetValues _ _ => .group

def locals : BlockingCall V α → List α × List AttrName
  | .grpAttrGetValues grp names _ => (grp.list, names)
  | .grpAttrSetValues grp values => (grp.list, values.map Prod.fst)
  | _ => ([], [])

def start [Zero V] [Add V] (heap : α → DistObject V) (cntxt : Cntxt V) (s : ClientState V)
    (r : ReqPtr) (status : StatusPtr) (id : EventId) :
    BlockingCall V α → Except Fault (Option (Begun V))
  | .attrGetValues obj names base =>
      (s.beginGetValues obj r status id names base).map fun s => some (.waits s)
  | .attrSetValues obj values =>
      (s.beginSetValues obj r status id values).map fun s => some (.waits s)
  | .attrStartLog obj name => (s.beginLog obj r status id (.startLog name)).map some
  | .attrStopLog obj name => (s.beginLog obj r status id (.stopLog name)).map some
  | .attrGetSamples obj name period count base =>
      (s.beginLog obj r status id (.getSamples name period count base)).map some
  | .grpAttrGetValues grp names base =>
      s.beginGrpGetValues cntxt heap grp r status id names base
  | .grpAttrSetValues grp values => s.beginGrpSetValues cntxt heap grp r status id values

end BlockingCall

/-- A call that waits, with its request and the `Status` that it looks at. -/
structure Waiting where
  kind : CallKind
  req : ReqPtr
  status : StatusPtr

/-- What the last step came to for the caller: nothing, a return value with the errors in
the caller's `Status` and whether all responses that the call asked for were applied, or the
use of an event that is missing. -/
inductive Outcome
  | silent
  | returned (retval : Int32) (status : Status) (answered : Bool)
  | missing

def Outcome.Reported : Outcome → Prop
  | .silent => True
  | .returned retval status answered => retval ≠ Ret.success ∨ status ≠ [] ∨ answered = true
  | .missing => False

structure Blocking (V : Type) where
  client : ClientState V
  waiting : Option Waiting
  outcome : Outcome

namespace Blocking

inductive Label (V α : Type)
  | start (call : BlockingCall V α) (r : ReqPtr) (status : StatusPtr) (id : EventId)
  | finish
  | client (l : ClientState.Label V)

def start (status : ReqPtr → StatusPtr) (callback : ReqPtr → Bool) (buf : Nat → V × PwrTime) :
    Blocking V := ⟨.start status callback buf, none, .silent⟩

section Model

variable [Zero V] [Add V] (heap : α → DistObject V) (cntxt : Cntxt V)

/-- The call that has begun. The `Status` of a log is its own, not the caller's. -/
def begun (call : BlockingCall V α) (r : ReqPtr) (status : StatusPtr) : Begun V → Blocking V
  | .returned retval client =>
      ⟨client, none, .returned retval (if call.kind = .log then [] else client.statuses status)
        true⟩
  | .waits client => ⟨client, some ⟨call.kind, r, status⟩, .silent⟩

def finished (w : Waiting) (retval : Int32) (client : ClientState V) : Blocking V where
  client := client
  waiting := none
  outcome := .returned retval (if w.kind = .log then [] else client.statuses w.status)
    (decide (client.finished w.req))

/-- One call at a time, each with a request on the stack and a new address for its
communicator request; the `Status` of a log is nobody else's. While it waits, responses come
and the channel may end. After the use of a missing event there is nothing. -/
def Admissible (s : Blocking V) : Label V α → Prop
  | .start call r status id => s.outcome ≠ .missing ∧ s.waiting = none ∧
      s.client.commReqs id = none ∧ (s.client.reqs r).commReqs = [] ∧
      (call.kind = .log → ∀ r', r' ≠ r → (s.client.reqs r').commReqs ≠ [] →
        (s.client.reqs r').status ≠ status) ∧
      (∀ obj ∈ call.locals.1, (heap obj).isLocal = true) ∧
      (∀ name ∈ call.locals.2, name ∈ AttrName.indices)
  | .finish => s.outcome ≠ .missing
  | .client (.arrive ev) => s.outcome ≠ .missing ∧ s.client.Admissible (.arrive ev)
  | .client .close => s.outcome ≠ .missing
  | .client l => s.outcome ≠ .missing ∧ s.waiting = none ∧ s.client.Admissible l

def Drained (s : Blocking V) : Prop := s.client.closed = true ∧ s.client.channel = []

/-- One step. A call that blocks or fails an assertion has no next state, but `makeProgress`
on a channel that has ended uses the event that it does not get. -/
def Step (s : Blocking V) (l : Label V α) (t : Blocking V) : Prop :=
  s.Admissible heap l ∧
  match l with
  | .start call r status id => ∃ b, call.start heap cntxt s.client r status id = .ok (some b) ∧
      t = begun call r status b
  | .finish => ∃ w retval client, s.waiting = some w ∧
      s.client.finish cntxt w.kind w.req w.status = .ok (some (retval, client)) ∧
      t = finished w retval client
  | .client l => (l = .makeProgress ∧ s.Drained ∧ t = { s with outcome := .missing }) ∨
      ∃ code client, s.client.exec cntxt l = .ok (some (code, client)) ∧
        t = { s with client, outcome := .silent }

end Model

end Blocking

section Errors

def Payload.HasErrors : Payload V → Prop
  | .commResp ev => ev.errObj.zip (ev.errAttr.zip ev.errValue) ≠ []
  | .commLogResp ev => ev.errObj.zip (ev.errAttr.zip ev.errValue) ≠ []
  | _ => False

theorem DistRequest.addErrors_ne_nil {cntxt : Cntxt V} {status status' : Status}
    {errObj : List ObjID} {errAttr : List AttrName} {errValue : List Int32}
    (h : addErrors cntxt status errObj errAttr errValue = .ok status') :
    status' ≠ [] ↔ status ≠ [] ∨ errObj.zip (errAttr.zip errValue) ≠ [] := by
  simp only [addErrors, bind_eq_ok, Except.ok.injEq] at h
  obtain ⟨errors, herrors, rfl⟩ := h
  have hlength := (mapM_eq_ok.mp herrors).length_eq
  have hnil : errors = [] ↔ errObj.zip (errAttr.zip errValue) = [] := by
    rw [← List.length_eq_zero_iff, ← hlength, List.length_eq_zero_iff]
  rw [Ne, List.append_eq_nil_iff, hnil, not_and_or]

theorem process_ne_nil {cntxt : Cntxt V} {kind : CommReqKind} {req : DistRequest}
    {buf buf' : Nat → V × PwrTime} {status status' : Status} {ev : Payload V}
    (h : DistCommReq.process kind cntxt req buf status ev = .ok (buf', status')) :
    status' ≠ [] ↔ status ≠ [] ∨ ev.HasErrors := by
  have log : ∀ resp : CommLogRespEvent,
      (do let status ← DistRequest.setRetval cntxt status resp; .ok (buf, status) :
        Except Fault ((Nat → V × PwrTime) × Status)) = .ok (buf', status') →
      (status' ≠ [] ↔ status ≠ [] ∨ Payload.HasErrors (.commLogResp resp : Payload V)) := by
    intro resp hresp
    simp only [DistRequest.setRetval, bind_eq_ok, Except.ok.injEq] at hresp
    obtain ⟨entered, hentered, heq⟩ := hresp
    obtain ⟨_, rfl⟩ := Prod.mk.inj heq
    exact DistRequest.addErrors_ne_nil hentered
  cases kind with
  | get =>
      cases ev with
      | commResp resp =>
          simp only [DistCommReq.process, DistRequest.getValueAt, bind_eq_ok,
            Except.ok.injEq] at h
          obtain ⟨_, _, entered, hentered, heq⟩ := h
          obtain ⟨_, rfl⟩ := Prod.mk.inj heq
          exact DistRequest.addErrors_ne_nil hentered
      | _ => cases h
  | set =>
      cases ev with
      | commResp resp =>
          simp only [DistCommReq.process, DistRequest.setValue, bind_eq_ok,
            Except.ok.injEq] at h
          obtain ⟨entered, hentered, heq⟩ := h
          obtain ⟨_, rfl⟩ := Prod.mk.inj heq
          exact DistRequest.addErrors_ne_nil hentered
      | _ => cases h
  | startLog =>
      cases ev with
      | commLogResp resp => exact log resp h
      | _ => cases h
  | stopLog =>
      cases ev with
      | commLogResp resp => exact log resp h
      | _ => cases h
  | getSamples =>
      cases ev with
      | commGetSamplesResp resp =>
          simp only [DistCommReq.process, bind_eq_ok, Except.ok.injEq] at h
          obtain ⟨_, _, _, _, heq⟩ := h
          obtain ⟨_, rfl⟩ := Prod.mk.inj heq
          exact (or_iff_left id).symm
      | _ => cases h

end Errors

namespace ClientState

section Consumed

variable {cntxt : Cntxt V} {s t : ClientState V} {ev : Payload V} {evs : List (Payload V)}

/-- The response is for a request with the `Status`, and enters an error there. -/
def Enters (s : ClientState V) (ev : Payload V) (status : StatusPtr) : Prop :=
  ∃ commReq, s.commReqs ev.base.id = some commReq ∧ (s.reqs commReq.req).status = status ∧
    ev.HasErrors

/-- What is known when the responses `evs` have been consumed. -/
structure Consumed (s : ClientState V) (evs : List (Payload V)) (t : ClientState V) : Prop where
  channel : s.channel = evs ++ t.channel
  closed : t.closed = s.closed
  commReqs : t.commReqs = s.commReqs
  status : ∀ r, (t.reqs r).status = (s.reqs r).status
  underWay : ∀ r id, id ∈ (t.reqs r).commReqs ↔
    id ∈ (s.reqs r).commReqs ∧ id ∉ evs.map (·.base.id)
  entered : ∀ status, t.statuses status ≠ [] ↔
    s.statuses status ≠ [] ∨ ∃ ev ∈ evs, s.Enters ev status

theorem consumed_nil (s : ClientState V) : s.Consumed [] s where
  channel := rfl
  closed := rfl
  commReqs := rfl
  status := fun _ => rfl
  underWay := by simp
  entered := by simp

theorem consumed_one (hlinked : s.Linked) (h : Consume cntxt s ev t) : s.Consumed [ev] t := by
  obtain ⟨rest, kind, r, buf, status, hchannel, hreq, hprocess, rfl⟩ := consume_ok h
  refine ⟨hchannel, rfl, rfl, ?_, ?_, ?_⟩
  · intro r'
    by_cases hr : r' = r
    · subst hr
      simp only [update_self]
    · simp only [update_of_ne hr]
  · intro r' id
    rw [List.map_singleton, List.mem_singleton, and_comm]
    exact mem_erased hlinked hreq r' id
  · intro other
    have henters : (∃ e ∈ [ev], s.Enters e other) ↔
        (s.reqs r).status = other ∧ ev.HasErrors := by
      simp only [List.mem_singleton, exists_eq_left, Enters, hreq, Option.some.injEq,
        exists_eq_left']
    rw [henters]
    by_cases hother : (s.reqs r).status = other
    · subst hother
      simp only [update_self, true_and]
      exact process_ne_nil hprocess
    · simp only [update_of_ne (Ne.symm hother), hother, false_and, or_false]

theorem consumed_cons {mid : ClientState V} (h : s.Consumed [ev] mid) (k : mid.Consumed evs t) :
    s.Consumed (ev :: evs) t where
  channel := by rw [h.channel, k.channel, List.cons_append, List.nil_append]; rfl
  closed := k.closed.trans h.closed
  commReqs := k.commReqs.trans h.commReqs
  status := fun r => (k.status r).trans (h.status r)
  underWay := by
    intro r id
    rw [k.underWay, h.underWay, List.map_singleton, List.mem_singleton, List.map_cons,
      List.mem_cons, not_or, and_assoc]
  entered := by
    intro status
    have hsame : ∀ e, mid.Enters e status ↔ s.Enters e status := by
      intro e
      simp only [Enters, h.commReqs, h.status]
    rw [k.entered, h.entered, or_assoc]
    simp only [hsame, List.mem_cons, List.not_mem_nil, or_and_right, exists_or, exists_eq_left,
      or_false]

theorem consumed_run (hlinked : s.Linked) (h : Run (Consume cntxt) s evs t) :
    s.Consumed evs t := by
  induction h with
  | nil s => exact consumed_nil s
  | cons hstep _ ih =>
      exact consumed_cons (consumed_one hlinked hstep) (ih (linked_consume hlinked hstep))

end Consumed

end ClientState

def Begun.Holds (P : ClientState V → Prop) : Begun V → Prop
  | .returned _ s => s.Linked
  | .waits s => P s

namespace ClientState

section Begin

variable {cntxt : Cntxt V} {s t : ClientState V} {obj : DistObject V} {r : ReqPtr}
  {status : StatusPtr} {id : EventId}

/-- A call may wait: it has sent at most one communicator request, for its request with its
`Status`. -/
structure Ready (r : ReqPtr) (status : StatusPtr) (s : ClientState V) : Prop where
  linked : s.Linked
  status : (s.reqs r).status = status
  single : (s.reqs r).commReqs.length ≤ 1

theorem ready_issue {mid : ClientState V} {kind : CommReqKind} {comm : Option (List ObjID)}
    {retval : Int32} (hlinked : (mid.issue r kind id comm retval).Linked)
    (hstatus : (mid.reqs r).status = status) (hfree : (mid.reqs r).commReqs = []) :
    Ready r status (mid.issue r kind id comm retval) := by
  have hframe := issue_frame mid r kind id retval comm
  refine ⟨hlinked, ?_, ?_⟩
  · rw [(hframe.2.2.2.2 r).2, hstatus]
  · rcases issue_sent mid r kind id retval comm with hlocal | hremote
    · rw [hlocal.2.2, hfree]
      exact Nat.zero_le 1
    · rw [hremote.2.2, hfree]
      exact Nat.le_refl 1

theorem ready_errors (h : Ready r status s) (st : StatusPtr) (errors : Status) :
    Ready r status (s.addErrors st errors) :=
  ⟨linked_congr h.linked rfl rfl rfl fun _ => rfl, h.status, h.single⟩

theorem ready_samePending {s' mid : ClientState V} (h : s.Linked) (hfree : (s.reqs r).commReqs = [])
    (hfresh : s.commReqs id = none)
    (hreq : s' = { s.newRequest r status false with statuses := s'.statuses })
    (hsame : SamePending s' mid) (kind : CommReqKind) (comm : Option (List ObjID))
    (retval : Int32) : Ready r status (mid.issue r kind id comm retval) := by
  have hnew := linked_newRequest h hfree status false
  have hmid : mid.Linked := by
    apply linked_congr hnew
    · rw [hsame.awaited, hreq]
    · rw [hsame.channel, hreq]
    · rw [hsame.commReqs, hreq]
    · intro r'
      rw [(hsame.reqs r').1, hreq]
  apply ready_issue
  · apply linked_issue hmid
    rw [hsame.commReqs, hreq]
    exact hfresh
  · rw [hsame.status, hreq]
    exact congrArg DistRequest.status (newRequest_self s r status false)
  · rw [(hsame.reqs r).1, hreq]
    exact congrArg DistRequest.commReqs (newRequest_self s r status false)

variable [Zero V]

theorem ready_getValues (h : s.Linked) (hfree : (s.reqs r).commReqs = [])
    (hfresh : s.commReqs id = none) {names : List AttrName} {base : Nat}
    (hbegin : s.beginGetValues obj r status id names base = .ok t) : Ready r status t := by
  simp only [beginGetValues, attrGetValues, bind_eq_ok, Except.ok.injEq] at hbegin
  obtain ⟨_, ⟨started, _, rfl⟩, rfl⟩ := hbegin
  apply ready_errors
  exact ready_samePending h hfree hfresh rfl (samePending_setValue _ r base _) .get _ _

omit [Zero V] in
theorem ready_setValues (h : s.Linked) (hfree : (s.reqs r).commReqs = [])
    (hfresh : s.commReqs id = none) {values : List (AttrName × V)}
    (hbegin : s.beginSetValues obj r status id values = .ok t) : Ready r status t := by
  simp only [beginSetValues, attrSetValues, bind_eq_ok, Except.ok.injEq] at hbegin
  obtain ⟨_, ⟨started, _, rfl⟩, rfl⟩ := hbegin
  apply ready_errors
  exact ready_samePending h hfree hfresh rfl (.refl _) .set _ _

theorem ready_log [Add V] (h : s.Linked) (hfree : (s.reqs r).commReqs = [])
    (hfresh : s.commReqs id = none) {op : Operation V} {b : Begun V}
    (hbegin : s.beginLog obj r status id op = .ok b) :
    b.Holds fun t => Ready r status t ∧ t.statuses status = [] ∧ ∀ r', r' ≠ r →
      (t.reqs r').commReqs = (s.reqs r').commReqs ∧
      (t.reqs r').status = (s.reqs r').status := by
  simp only [beginLog, bind_eq_ok, Except.ok.injEq] at hbegin
  obtain ⟨⟨retval, client⟩, hcall, rfl⟩ := hbegin
  have hnew : ({ s.newRequest r status false with statuses := update s.statuses status [] } :
      ClientState V).Linked :=
    linked_congr (linked_newRequest h hfree status false) rfl rfl rfl fun _ => rfl
  by_cases hretval : retval = Ret.success
  · rw [if_pos hretval]
    obtain ⟨mid, hsame, hend⟩ := call_ok hcall
    rcases hend with ⟨_, hfails⟩ | ⟨kind, comm, code, rfl, _⟩
    · exact absurd hretval hfails
    · refine ⟨ready_samePending h hfree hfresh rfl hsame kind comm code, ?_, ?_⟩
      · rw [(issue_frame mid r kind id code comm).2.1, hsame.statuses]
        exact update_self _ _ _
      · intro r' hr
        rw [(issue_others mid r kind id code comm hr).1, (hsame.reqs r').1, hsame.status]
        have hother := newRequest_of_ne s status false hr
        exact ⟨congrArg DistRequest.commReqs hother, congrArg DistRequest.status hother⟩
  · rw [if_neg hretval]
    exact linked_call hnew hfresh hcall

end Begin

section Groups

variable {cntxt : Cntxt V} {s t : ClientState V} {r : ReqPtr} {status : StatusPtr} {id : EventId}

theorem wait_finished (h : s.finished r) :
    s.wait cntxt r = .ok (some (Ret.success, s.execCallback r)) := by
  unfold wait
  cases s.channel with
  | nil => exact if_pos h
  | cons ev rest => exact if_pos h

/-- What a local member leaves for the next: nothing is under way for the group's request,
and no communicator request was made. -/
structure Idle (commReqs : EventId → Option DistCommReq) (r : ReqPtr) (s : ClientState V) :
    Prop where
  linked : s.Linked
  free : (s.reqs r).commReqs = []
  commReqs : s.commReqs = commReqs

theorem idle_finish {commReqs : EventId → Option DistCommReq} {rc : Int32}
    (hready : Ready r status s) (hfree : s.finished r) (hcommReqs : s.commReqs = commReqs)
    (h : s.finish cntxt .object r status = .ok (some (rc, t))) : Idle commReqs r t := by
  rw [finish, wait_finished hfree] at h
  obtain ⟨_, rfl⟩ := Prod.mk.inj (Option.some.inj (Except.ok.inj h))
  refine ⟨linked_callback hready.linked r, ?_, ?_⟩
  · rw [execCallback_reqs]
    exact hfree
  · rw [execCallback_commReqs, hcommReqs]

theorem issue_local (s : ClientState V) (r : ReqPtr) (kind : CommReqKind) (id : EventId)
    (retval : Int32) :
    (s.issue r kind id none retval).commReqs = s.commReqs ∧
      ((s.issue r kind id none retval).reqs r).commReqs = (s.reqs r).commReqs := by
  rw [issue_none]
  split
  · exact ⟨by simp, by simp⟩
  · exact ⟨rfl, rfl⟩

omit s t r status id in
theorem commOf_local {obj : DistObject V} {names : List AttrName} {comm : Option (List ObjID)}
    (hlocal : obj.isLocal = true) (hnames : ∀ name ∈ names, name ∈ AttrName.indices)
    (h : obj.commOf names = .ok comm) : comm = none := by
  obtain ⟨hne, hall⟩ := DistObject.commOf_eq_ok h
  obtain ⟨name, hname⟩ := List.exists_mem_of_ne_nil names hne
  rw [← hall name hname]
  exact DistObject.comm_eq_none hlocal (hnames name hname)

section Members

variable {obj : DistObject V} {commReqs : EventId → Option DistCommReq} {rc : Int32}

theorem idle_getValues [Zero V] (hidle : Idle commReqs r s) (hfresh : commReqs id = none)
    {names : List AttrName} {base : Nat} (hlocal : obj.isLocal = true)
    (hnames : ∀ name ∈ names, name ∈ AttrName.indices)
    (h : (do
      let s ← s.beginGetValues obj r status id names base
      s.finish cntxt .object r status) = .ok (some (rc, t))) : Idle commReqs r t := by
  obtain ⟨mid, hbegin, hfinish⟩ := bind_eq_ok.mp h
  have hready := ready_getValues hidle.linked hidle.free (hidle.commReqs ▸ hfresh) hbegin
  simp only [beginGetValues, attrGetValues, DistObject.attrGetValuesStart, bind_eq_ok,
    Except.ok.injEq] at hbegin
  obtain ⟨_, ⟨started, ⟨comm, hcomm, hstarted⟩, rfl⟩, rfl⟩ := hbegin
  have hsent : started.sent = none := by
    rw [← hstarted, commOf_local hlocal hnames hcomm]
    rfl
  have hkept := issue_local ({ (s.newRequest r status false).setValue r base with
    buf := writeRow s.buf base started.cells }) r .get id started.retval
  have hsame := samePending_setValue (s.newRequest r status false) r base
    (writeRow s.buf base started.cells)
  refine idle_finish hready ?_ ?_ hfinish
  · simp only [hsent, Option.map_none]
    exact hkept.2.trans ((hsame.reqs r).1.trans
      (congrArg DistRequest.commReqs (newRequest_self s r status false)))
  · simp only [hsent, Option.map_none]
    exact hkept.1.trans hidle.commReqs

theorem idle_setValues (hidle : Idle commReqs r s) (hfresh : commReqs id = none)
    {values : List (AttrName × V)} (hlocal : obj.isLocal = true)
    (hnames : ∀ name ∈ values.map Prod.fst, name ∈ AttrName.indices)
    (h : (do
      let s ← s.beginSetValues obj r status id values
      s.finish cntxt .object r status) = .ok (some (rc, t))) : Idle commReqs r t := by
  obtain ⟨mid, hbegin, hfinish⟩ := bind_eq_ok.mp h
  have hready := ready_setValues hidle.linked hidle.free (hidle.commReqs ▸ hfresh) hbegin
  simp only [beginSetValues, attrSetValues, DistObject.attrSetValuesStart, bind_eq_ok,
    Except.ok.injEq] at hbegin
  obtain ⟨_, ⟨started, ⟨comm, hcomm, hstarted⟩, rfl⟩, rfl⟩ := hbegin
  have hsent : started.sent = none := by
    rw [← hstarted, commOf_local hlocal hnames hcomm]
    rfl
  have hkept := issue_local (s.newRequest r status false) r .set id started.retval
  refine idle_finish hready ?_ ?_ hfinish
  · simp only [hsent, Option.map_none]
    exact hkept.2.trans (congrArg DistRequest.commReqs (newRequest_self s r status false))
  · simp only [hsent, Option.map_none]
    exact hkept.1.trans hidle.commReqs

end Members

theorem members_idle {β : Type} {commReqs : EventId → Option DistCommReq}
    {call : ClientState V → β → Except Fault (Option (Int32 × ClientState V))} {ms : List β}
    (hcall : ∀ m ∈ ms, ∀ s rc t, Idle commReqs r s → call s m = .ok (some (rc, t)) →
      Idle commReqs r t) {rc : Option Int32} (hs : Idle commReqs r s)
    (h : members call s ms = .ok (some (rc, t))) : Idle commReqs r t := by
  induction ms generalizing s with
  | nil =>
      obtain ⟨_, rfl⟩ := Prod.mk.inj (Option.some.inj (Except.ok.inj h))
      exact hs
  | cons m ms ih =>
      rw [members, bind_eq_ok] at h
      obtain ⟨result, hresult, h⟩ := h
      cases result with
      | none => cases h
      | some out =>
          have hmid := hcall m List.mem_cons_self s out.1 out.2 hs hresult
          by_cases hends : out.1 ≠ Ret.success ∧ out.1 ≠ Ret.status
          · simp only [if_pos hends] at h
            obtain ⟨_, rfl⟩ := Prod.mk.inj (Option.some.inj (Except.ok.inj h))
            exact hmid
          · simp only [if_neg hends] at h
            exact ih (fun m' hm' => hcall m' (List.mem_cons_of_mem m hm')) hmid h

theorem sendGroup_holds {remote : List α} {kind : CommReqKind} {value : List Nat}
    (hidle : Idle s.commReqs r s) (hfresh : s.commReqs id = none) :
    (s.sendGroup remote r status kind id value).Holds (Ready r status) := by
  cases remote with
  | nil => exact hidle.linked
  | cons first rest =>
      have hnew := linked_newRequest hidle.linked hidle.free status false
      set placed : ClientState V := { s.newRequest r status false with
        reqs := update (s.newRequest r status false).reqs r
          { (s.newRequest r status false).reqs r with value } } with hplaced
      have hself : placed.reqs r = { (s.newRequest r status false).reqs r with value } :=
        update_self _ _ _
      have hlinked : placed.Linked := by
        apply linked_congr (t := placed) hnew rfl rfl rfl
        intro r'
        by_cases hr : r' = r
        · rw [hr, hself]
        · exact congrArg DistRequest.commReqs (update_of_ne hr _ _)
      refine ⟨linked_send hlinked hfresh r kind, ?_, ?_⟩
      · simp only [send, update_self, newRequest_self]
      · simp only [send, update_self, newRequest_self]
        exact Nat.le_refl 1

section Starts

variable {heap : α → DistObject V} {grp : DistGrp α} {b : Begun V}

theorem ready_group {remote : List α} {kind : CommReqKind} {value : List Nat}
    {result : Option (Option Int32 × ClientState V)} (hfresh : s.commReqs id = none)
    (hidle : ∀ rc t, result = some (rc, t) → Idle s.commReqs r t)
    (h : (result.map fun
      | (some rc, s) => Begun.returned rc s
      | (none, s) => s.sendGroup remote r status kind id value) = some b) :
    b.Holds (Ready r status) := by
  obtain ⟨⟨rc, mid⟩, rfl, rfl⟩ := Option.map_eq_some_iff.mp h
  have hmid := hidle rc mid rfl
  cases rc with
  | some rc => exact hmid.linked
  | none =>
      apply sendGroup_holds
      · rw [hmid.commReqs]
        exact hmid
      · rw [hmid.commReqs]
        exact hfresh

theorem ready_grpGetValues [Zero V] (hidle : Idle s.commReqs r s) (hfresh : s.commReqs id = none)
    (hlocal : ∀ obj ∈ grp.list, (heap obj).isLocal = true) {names : List AttrName} {base : Nat}
    (hnames : ∀ name ∈ names, name ∈ AttrName.indices)
    (h : s.beginGrpGetValues cntxt heap grp r status id names base = .ok (some b)) :
    b.Holds (Ready r status) := by
  simp only [beginGrpGetValues, bind_eq_ok, Except.ok.injEq] at h
  obtain ⟨result, hresult, hb⟩ := h
  apply ready_group hfresh _ hb
  rintro rc t rfl
  apply members_idle _ hidle hresult
  rintro ⟨obj, i⟩ hmem s rc t hs hcall
  have hobj : obj ∈ grp.list := List.fst_mem_of_mem_zipIdx hmem
  exact idle_getValues hs hfresh (hlocal obj hobj) hnames hcall

theorem ready_grpSetValues [Zero V] (hidle : Idle s.commReqs r s) (hfresh : s.commReqs id = none)
    (hlocal : ∀ obj ∈ grp.list, (heap obj).isLocal = true) {values : List (AttrName × V)}
    (hnames : ∀ name ∈ values.map Prod.fst, name ∈ AttrName.indices)
    (h : s.beginGrpSetValues cntxt heap grp r status id values = .ok (some b)) :
    b.Holds (Ready r status) := by
  simp only [beginGrpSetValues, bind_eq_ok, Except.ok.injEq] at h
  obtain ⟨result, hresult, hb⟩ := h
  apply ready_group hfresh _ hb
  rintro rc t rfl
  apply members_idle _ hidle hresult
  intro obj hobj s rc t hs hcall
  exact idle_setValues hs hfresh (hlocal obj hobj) hnames hcall

end Starts

end Groups

end ClientState

end PwrApi
