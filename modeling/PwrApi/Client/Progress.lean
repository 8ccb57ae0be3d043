import PwrApi.Client.GroupCalls

/-! The requests that a client waits for: `distRequest.cc`, the communicator requests of
`distComm.h`, the non-blocking calls of `distObject.cc` and `DistCntxt::makeProgress`. -/

namespace PwrApi

open Function Memory Runs

variable {V : Type}

abbrev ReqPtr := Nat
abbrev StatusPtr := Nat

def Ret.ipc : Int32 := -14

/-- `DistRequest`: the places in the caller's buffers, the caller's `Status`, whether there
is a callback, and the communicator requests under way. -/
structure DistRequest where
  value : List Nat
  status : StatusPtr
  callback : Bool
  commReqs : List EventId

/-- The classes derived from `DistCommReq`. -/
inductive CommReqKind
  | get | set | startLog | stopLog | getSamples
  deriving DecidableEq, Repr

structure DistCommReq where
  kind : CommReqKind
  req : ReqPtr

/-- The memory of a client with its end of the event channel: what has come and was not
read, and whether the channel is closed behind that. The last three fields only record: the
requests sent to which no response has come, the responses processed, and the calls of each
callback with the communicator requests that were under way then. -/
structure ClientState (V : Type) where
  reqs : ReqPtr → DistRequest
  commReqs : EventId → Option DistCommReq
  buf : Nat → V × PwrTime
  statuses : StatusPtr → Status
  channel : List (Payload V)
  closed : Bool
  awaited : List EventId
  consumed : List (Payload V)
  called : ReqPtr → List (List EventId)

/-- Samples in a buffer, with the time of the first beside it. -/
def writeSamples (buf : Nat → V × PwrTime) (base : Nat) (start : PwrTime) (data : List V) :
    Nat → V × PwrTime := fun addr =>
  (if base ≤ addr then (data[addr - base]?).getD (buf addr).1 else (buf addr).1,
    if addr = base then start else (buf addr).2)

/-- The `process` of each class on the buffers and the `Status` of the request. -/
def DistCommReq.process (kind : CommReqKind) (cntxt : Cntxt V) (req : DistRequest)
    (buf : Nat → V × PwrTime) (status : Status) (ev : Payload V) :
    Except Fault ((Nat → V × PwrTime) × Status) :=
  match kind, ev with
  | .get, .commResp ev => DistRequest.getValueAt cntxt req.value buf status ev
  | .set, .commResp ev => do
      let status ← DistRequest.setValue cntxt status ev
      .ok (buf, status)
  | .startLog, .commLogResp ev | .stopLog, .commLogResp ev => do
      let status ← DistRequest.setRetval cntxt status ev
      .ok (buf, status)
  | .getSamples, .commGetSamplesResp ev => do
      let base ← orFault req.value.head? .undefined
      require (ev.count.toNat ≤ ev.data.length) .undefined
      .ok (writeSamples buf base ev.startTime (ev.data.take ev.count.toNat), status)
  | _, _ => .error .undefined

namespace ClientState

def start (status : ReqPtr → StatusPtr) (callback : ReqPtr → Bool) (buf : Nat → V × PwrTime) :
    ClientState V where
  reqs := fun r => { value := [0], status := status r, callback := callback r, commReqs := [] }
  commReqs := fun _ => none
  buf := buf
  statuses := fun _ => []
  channel := []
  closed := false
  awaited := []
  consumed := []
  called := fun _ => []

def finished (s : ClientState V) (r : ReqPtr) : Prop := (s.reqs r).commReqs = []

instance (s : ClientState V) (r : ReqPtr) : Decidable (s.finished r) :=
  inferInstanceAs (Decidable (_ = _))

def execCallback (s : ClientState V) (r : ReqPtr) : ClientState V :=
  if (s.reqs r).callback then
    { s with called := update s.called r (s.called r ++ [(s.reqs r).commReqs]) }
  else s

/-- `new DistRequest( ctx, status, callback )` at the address `r`, or one on the stack. -/
def newRequest (s : ClientState V) (r : ReqPtr) (status : StatusPtr) (callback : Bool) :
    ClientState V :=
  { s with reqs := update s.reqs r { value := [0], status, callback, commReqs := [] } }

section Responses

variable (cntxt : Cntxt V)

/-- `req->process( ev )` for the request that the id of the event points to. -/
def process (s : ClientState V) (ev : Payload V) : Except Fault (ClientState V) := do
  let commReq ← orFault (s.commReqs ev.base.id) .undefined
  let req := s.reqs commReq.req
  let (buf, status) ←
    DistCommReq.process commReq.kind cntxt req s.buf (s.statuses req.status) ev
  .ok { s with
    buf
    statuses := update s.statuses req.status status
    reqs := update s.reqs commReq.req { req with commReqs := req.commReqs.erase ev.base.id }
    consumed := s.consumed ++ [ev] }

/-- The loop of `wait` over the events of the channel. There is no result while it blocks;
what comes then, and the end of the channel, can be taken to have come before the call. -/
def waitFrom (r : ReqPtr) : ClientState V → List (Payload V) →
    Except Fault (Option (Int32 × ClientState V))
  | s, [] =>
      if s.finished r then .ok (some (Ret.success, s.execCallback r))
      else if s.closed then .ok (some (Ret.ipc, s))
      else .ok none
  | s, ev :: rest =>
      if s.finished r then .ok (some (Ret.success, s.execCallback r))
      else do
        let s ← { s with channel := rest }.process cntxt ev
        waitFrom r s rest

/-- `DistRequest::wait`. -/
def wait (s : ClientState V) (r : ReqPtr) : Except Fault (Option (Int32 × ClientState V)) :=
  waitFrom cntxt r s s.channel

/-- `DistCntxt::makeProgress`. The event is not looked at before it is used. -/
def makeProgress (s : ClientState V) : Except Fault (Option (Int32 × ClientState V)) :=
  match s.channel with
  | [] => if s.closed then .error .undefined else .ok none
  | ev :: rest => do
      let commReq ← orFault (s.commReqs ev.base.id) .undefined
      let s ← { s with channel := rest }.process cntxt ev
      .ok (some (Ret.success, s.execCallback commReq.req))

end Responses

section Calls

/-- A new communicator request at the address `id`, and the event with that id. -/
def send (s : ClientState V) (r : ReqPtr) (kind : CommReqKind) (id : EventId) : ClientState V :=
  { s with
    commReqs := update s.commReqs id (some ⟨kind, r⟩)
    reqs := update s.reqs r { s.reqs r with commReqs := (s.reqs r).commReqs ++ [id] }
    awaited := s.awaited ++ [id] }

/-- The end of the calls: what goes to the communicator, if there is one, and the callback
when nothing is under way. -/
def issue (s : ClientState V) (r : ReqPtr) (kind : CommReqKind) (id : EventId)
    (comm : Option (List ObjID)) (retval : Int32) : ClientState V :=
  let s := if comm = none then s else s.send r kind id
  if retval = Ret.success ∧ s.finished r then s.execCallback r else s

def setValue (s : ClientState V) (r : ReqPtr) (base : Nat) : ClientState V :=
  { s with reqs := update s.reqs r { s.reqs r with value := (s.reqs r).value.set 0 base } }

/-- `attrGetValues( .., Status*, Request* )`. -/
def attrGetValues [Zero V] (s : ClientState V) (obj : DistObject V) (r : ReqPtr) (id : EventId)
    (names : List AttrName) (base : Nat) : Except Fault (Started V × ClientState V) := do
  let started ← obj.attrGetValuesStart names
  let s := { s.setValue r base with buf := writeRow s.buf base started.cells }
  .ok (started, s.issue r .get id (started.sent.map Prod.fst) started.retval)

/-- `attrSetValues( .., Status*, Request* )`. -/
def attrSetValues (s : ClientState V) (obj : DistObject V) (r : ReqPtr) (id : EventId)
    (values : List (AttrName × V)) : Except Fault (Started V × ClientState V) := do
  let started ← obj.attrSetValuesStart values
  .ok (started, s.issue r .set id (started.sent.map Prod.fst) started.retval)

/-- `attrStartLog( attr, req )` and `attrStopLog( attr, req )` after the local call. -/
def attrLog (s : ClientState V) (obj : DistObject V) (r : ReqPtr) (kind : CommReqKind)
    (id : EventId) (name : AttrName) (retval : Int32) : Int32 × ClientState V :=
  if retval = Ret.success then
    (Ret.success, s.issue r kind id (obj.attrInfo name).comm retval)
  else (retval, s)

def attrStartLog (s : ClientState V) (obj : DistObject V) (r : ReqPtr) (id : EventId)
    (name : AttrName) : Int32 × ClientState V :=
  s.attrLog obj r .startLog id name (obj.toObject.attrStartLog name)

def attrStopLog (s : ClientState V) (obj : DistObject V) (r : ReqPtr) (id : EventId)
    (name : AttrName) : Int32 × ClientState V :=
  s.attrLog obj r .stopLog id name (obj.toObject.attrStopLog name)

/-- `attrGetSamples( .., buf, req )`. -/
def attrGetSamples [Zero V] [Add V] (s : ClientState V) (obj : DistObject V) (r : ReqPtr)
    (id : EventId) (name : AttrName) (period : V) (count : UInt32) (base : Nat) :
    Except Fault (Int32 × ClientState V) := do
  let samples : Samples V :=
    { start := (s.buf base).2, count, data := (readRow s.buf base count.toNat).map Prod.fst }
  let (retval, samples) ← obj.toObject.attrGetSamples name period samples
  let s := { s with buf := writeSamples s.buf base samples.start samples.data }
  if retval = Ret.success then
    let comm := (obj.attrInfo name).comm
    let s := if comm = none then s else s.setValue r base
    .ok (Ret.success, s.issue r .getSamples id comm retval)
  else .ok (retval, s)

end Calls

/-- The non-blocking calls on an object. -/
inductive Operation (V : Type)
  | getValues (names : List AttrName) (base : Nat)
  | setValues (values : List (AttrName × V))
  | startLog (name : AttrName)
  | stopLog (name : AttrName)
  | getSamples (name : AttrName) (period : V) (count : UInt32) (base : Nat)

/-- What can happen to a client: a call for a request, with the address of the communicator
request that it may make, a response that comes, and the calls that consume responses. -/
inductive Label (V : Type)
  | call (obj : DistObject V) (r : ReqPtr) (id : EventId) (op : Operation V)
  | arrive (ev : Payload V)
  | close
  | wait (r : ReqPtr)
  | makeProgress

section Steps

variable [Zero V] [Add V] (cntxt : Cntxt V)

/-- `PWR_ObjAttrGetValues_NB` and its like: the return value and the state. -/
def call (s : ClientState V) (obj : DistObject V) (r : ReqPtr) (id : EventId) :
    Operation V → Except Fault (Int32 × ClientState V)
  | .getValues names base => do
      let (started, s) ← s.attrGetValues obj r id names base
      .ok (started.dropStatus.retval, s)
  | .setValues values => do
      let (started, s) ← s.attrSetValues obj r id values
      .ok (started.dropStatus.retval, s)
  | .startLog name => .ok (s.attrStartLog obj r id name)
  | .stopLog name => .ok (s.attrStopLog obj r id name)
  | .getSamples name period count base => s.attrGetSamples obj r id name period count base

/-- One step, with the return value of the call. -/
def exec (s : ClientState V) : Label V → Except Fault (Option (Int32 × ClientState V))
  | .call obj r id op => (s.call obj r id op).map some
  | .arrive ev => .ok (some (Ret.success,
      { s with channel := s.channel ++ [ev], awaited := s.awaited.erase ev.base.id }))
  | .close => .ok (some (Ret.success, { s with closed := true }))
  | .wait r => s.wait cntxt r
  | .makeProgress => s.makeProgress cntxt

end Steps

/-- What the environment keeps to: addresses that `new` returns are not in use, and only
requests that were sent are answered, each once. -/
def Admissible (s : ClientState V) : Label V → Prop
  | .call _ _ id _ => s.commReqs id = none
  | .arrive ev => ev.base.id ∈ s.awaited ∧ s.closed = false
  | _ => True

/-- The ids of the responses that are still expected: on their way, or not read yet. -/
def expected (s : ClientState V) : List EventId := s.awaited ++ s.channel.map (·.base.id)

/-- The ids expected are those of the communicator requests under way, each of them once
and for one request. -/
structure Linked (s : ClientState V) : Prop where
  once : s.expected.Nodup
  underWay : ∀ id, id ∈ s.expected ↔ ∃ r, id ∈ (s.reqs r).commReqs
  owner : ∀ r, ∀ id ∈ (s.reqs r).commReqs, ∃ kind, s.commReqs id = some ⟨kind, r⟩
  distinct : ∀ r, (s.reqs r).commReqs.Nodup

/-- The states differ in the buffers and the places of the requests. -/
structure SamePending (s t : ClientState V) : Prop where
  reqs : ∀ r, (t.reqs r).commReqs = (s.reqs r).commReqs ∧
    (t.reqs r).callback = (s.reqs r).callback
  status : ∀ r, (t.reqs r).status = (s.reqs r).status
  places : ∀ r, (t.reqs r).value.length = (s.reqs r).value.length
  statuses : t.statuses = s.statuses
  commReqs : t.commReqs = s.commReqs
  channel : t.channel = s.channel
  awaited : t.awaited = s.awaited
  consumed : t.consumed = s.consumed
  called : t.called = s.called

section Operations

variable {s t : ClientState V} {obj : DistObject V} {r : ReqPtr} {id : EventId}

theorem SamePending.refl (s : ClientState V) : SamePending s s :=
  ⟨fun _ => ⟨rfl, rfl⟩, fun _ => rfl, fun _ => rfl, rfl, rfl, rfl, rfl, rfl, rfl⟩

theorem samePending_buf (s : ClientState V) (buf : Nat → V × PwrTime) :
    SamePending s { s with buf } :=
  ⟨fun _ => ⟨rfl, rfl⟩, fun _ => rfl, fun _ => rfl, rfl, rfl, rfl, rfl, rfl, rfl⟩

theorem samePending_setValue (s : ClientState V) (r : ReqPtr) (base : Nat)
    (buf : Nat → V × PwrTime) : SamePending s { s.setValue r base with buf } := by
  have hreq : ∀ r', ((s.setValue r base).reqs r').commReqs = (s.reqs r').commReqs ∧
      ((s.setValue r base).reqs r').callback = (s.reqs r').callback ∧
      ((s.setValue r base).reqs r').status = (s.reqs r').status ∧
      ((s.setValue r base).reqs r').value.length = (s.reqs r').value.length := by
    intro r'
    simp only [setValue]
    by_cases hr : r' = r
    · subst hr
      rw [update_self]
      exact ⟨rfl, rfl, rfl, List.length_set⟩
    · rw [update_of_ne hr]
      exact ⟨rfl, rfl, rfl, rfl⟩
  exact ⟨fun r' => ⟨(hreq r').1, (hreq r').2.1⟩, fun r' => (hreq r').2.2.1,
    fun r' => (hreq r').2.2.2, rfl, rfl, rfl, rfl, rfl, rfl⟩

theorem dropStatus_success {started : Started V} (hretval : started.retval = started.status.retval)
    (hfails : ∀ e ∈ started.status, e.error ≠ Ret.success)
    (h : started.dropStatus.retval = Ret.success) : started.retval = Ret.success := by
  cases hstatus : started.status with
  | nil =>
      rw [hretval, hstatus]
      rfl
  | cons e errors =>
      have hcode : started.retval = Ret.status := by
        rw [hretval, hstatus]
        rfl
      rw [Started.dropStatus] at h
      simp only [hcode, if_true] at h
      rw [hstatus] at h hfails
      exact absurd h (hfails e List.mem_cons_self)

theorem call_ok [Zero V] [Add V] {op : Operation V} {code : Int32}
    (h : s.call obj r id op = .ok (code, t)) :
    ∃ mid, SamePending s mid ∧ ((t = mid ∧ code ≠ Ret.success) ∨
      ∃ kind comm retval, t = mid.issue r kind id comm retval ∧
        (code = Ret.success → retval = Ret.success)) := by
  have log : ∀ kind name retval, s.attrLog obj r kind id name retval = (code, t) →
      ∃ mid, SamePending s mid ∧ ((t = mid ∧ code ≠ Ret.success) ∨
        ∃ kind comm retval, t = mid.issue r kind id comm retval ∧
          (code = Ret.success → retval = Ret.success)) := by
    intro kind name retval hlog
    refine ⟨s, .refl s, ?_⟩
    unfold attrLog at hlog
    by_cases hretval : retval = Ret.success
    · rw [if_pos hretval] at hlog
      obtain ⟨_, rfl⟩ := Prod.mk.inj hlog
      exact .inr ⟨kind, _, retval, rfl, fun _ => hretval⟩
    · rw [if_neg hretval] at hlog
      obtain ⟨rfl, rfl⟩ := Prod.mk.inj hlog
      exact .inl ⟨rfl, hretval⟩
  cases op with
  | getValues names base =>
      simp only [call, attrGetValues, DistObject.attrGetValuesStart, bind_eq_ok,
        Except.ok.injEq] at h
      obtain ⟨_, ⟨started, ⟨comm, _, hstarted⟩, rfl⟩, h⟩ := h
      obtain ⟨rfl, rfl⟩ := Prod.mk.inj h
      refine ⟨_, samePending_setValue s r base _, .inr ⟨.get, _, _, rfl, ?_⟩⟩
      apply dropStatus_success
      · rw [← hstarted]
      · rw [← hstarted]
        exact obj.toObject.attrGetValuesFrom_fails 0 names
  | setValues values =>
      simp only [call, attrSetValues, DistObject.attrSetValuesStart, bind_eq_ok,
        Except.ok.injEq] at h
      obtain ⟨_, ⟨started, ⟨comm, _, hstarted⟩, rfl⟩, h⟩ := h
      obtain ⟨rfl, rfl⟩ := Prod.mk.inj h
      refine ⟨s, .refl s, .inr ⟨.set, _, _, rfl, ?_⟩⟩
      apply dropStatus_success
      · rw [← hstarted]
      · rw [← hstarted]
        exact obj.toObject.attrSetValuesFrom_fails 0 values
  | startLog name => exact log .startLog name _ (Except.ok.inj h)
  | stopLog name => exact log .stopLog name _ (Except.ok.inj h)
  | getSamples name period count base =>
      simp only [call, attrGetSamples, bind_eq_ok] at h
      obtain ⟨⟨retval, samples⟩, _, h⟩ := h
      by_cases hretval : retval = Ret.success
      · simp only [if_pos hretval] at h
        obtain ⟨_, rfl⟩ := Prod.mk.inj (Except.ok.inj h)
        refine ⟨_, ?_, .inr ⟨.getSamples, _, retval, rfl, fun _ => hretval⟩⟩
        by_cases hcomm : (obj.attrInfo name).comm = none
        · rw [if_pos hcomm]
          exact samePending_buf s _
        · rw [if_neg hcomm]
          exact samePending_setValue s r base _
      · simp only [if_neg hretval] at h
        obtain ⟨rfl, rfl⟩ := Prod.mk.inj (Except.ok.inj h)
        exact ⟨_, samePending_buf s _, .inl ⟨rfl, hretval⟩⟩

end Operations

section Consume

variable {cntxt : Cntxt V} {s t : ClientState V} {r : ReqPtr} {ev : Payload V}

/-- The next event of the channel is read and processed. -/
def Consume (cntxt : Cntxt V) (s : ClientState V) (ev : Payload V) (t : ClientState V) : Prop :=
  ∃ rest, s.channel = ev :: rest ∧ { s with channel := rest }.process cntxt ev = .ok t

theorem consume_ok (h : Consume cntxt s ev t) :
    ∃ rest kind r buf status, s.channel = ev :: rest ∧
      s.commReqs ev.base.id = some ⟨kind, r⟩ ∧
      DistCommReq.process kind cntxt (s.reqs r) s.buf (s.statuses (s.reqs r).status) ev =
        .ok (buf, status) ∧
      t = { s with
        channel := rest
        buf
        statuses := update s.statuses (s.reqs r).status status
        reqs := update s.reqs r
          { s.reqs r with commReqs := (s.reqs r).commReqs.erase ev.base.id }
        consumed := s.consumed ++ [ev] } := by
  obtain ⟨rest, hchannel, hprocess⟩ := h
  simp only [process, bind_eq_ok, orFault_eq_ok] at hprocess
  obtain ⟨⟨kind, r⟩, hreq, ⟨buf, status⟩, hwrite, ht⟩ := hprocess
  exact ⟨rest, kind, r, buf, status, hchannel, hreq, hwrite, (Except.ok.inj ht).symm⟩

/-- The responses that a wait consumes, with the request unfinished before each. -/
def WaitStep (cntxt : Cntxt V) (r : ReqPtr) (s : ClientState V) (ev : Payload V)
    (t : ClientState V) : Prop :=
  ¬ s.finished r ∧ Consume cntxt s ev t

theorem waitFrom_ok {code : Int32} {channel : List (Payload V)} (hchannel : s.channel = channel)
    (h : waitFrom cntxt r s channel = .ok (some (code, t))) :
    ∃ evs mid, Run (WaitStep cntxt r) s evs mid ∧
      ((mid.finished r ∧ code = Ret.success ∧ t = mid.execCallback r) ∨
        (¬ mid.finished r ∧ mid.channel = [] ∧ mid.closed ∧ code = Ret.ipc ∧ t = mid)) := by
  induction channel generalizing s with
  | nil =>
      refine ⟨[], s, .nil s, ?_⟩
      unfold waitFrom at h
      by_cases hfinished : s.finished r
      · rw [if_pos hfinished] at h
        obtain ⟨rfl, rfl⟩ := Prod.mk.inj (Option.some.inj (Except.ok.inj h))
        exact .inl ⟨hfinished, rfl, rfl⟩
      · rw [if_neg hfinished] at h
        by_cases hclosed : s.closed
        · rw [if_pos hclosed] at h
          obtain ⟨rfl, rfl⟩ := Prod.mk.inj (Option.some.inj (Except.ok.inj h))
          exact .inr ⟨hfinished, hchannel, hclosed, rfl, rfl⟩
        · rw [if_neg hclosed] at h
          cases h
  | cons ev rest ih =>
      unfold waitFrom at h
      by_cases hfinished : s.finished r
      · rw [if_pos hfinished] at h
        obtain ⟨rfl, rfl⟩ := Prod.mk.inj (Option.some.inj (Except.ok.inj h))
        exact ⟨[], s, .nil s, .inl ⟨hfinished, rfl, rfl⟩⟩
      · rw [if_neg hfinished, bind_eq_ok] at h
        obtain ⟨next, hnext, h⟩ := h
        have hconsume : Consume cntxt s ev next := ⟨rest, hchannel, hnext⟩
        have hrest : next.channel = rest := by
          obtain ⟨rest', _, _, _, _, hsame, _, _, rfl⟩ := consume_ok hconsume
          exact (List.cons.inj (hsame.symm.trans hchannel)).2
        obtain ⟨evs, mid, hrun, hend⟩ := ih hrest h
        exact ⟨ev :: evs, mid, .cons ⟨hfinished, hconsume⟩ hrun, hend⟩

theorem makeProgress_ok {code : Int32} (h : s.makeProgress cntxt = .ok (some (code, t))) :
    ∃ ev mid kind r, Consume cntxt s ev mid ∧ s.commReqs ev.base.id = some ⟨kind, r⟩ ∧
      code = Ret.success ∧ t = mid.execCallback r := by
  unfold makeProgress at h
  split at h
  next =>
    split at h
    · cases h
    · cases h
  next ev rest hchannel =>
    simp only [bind_eq_ok, orFault_eq_ok] at h
    obtain ⟨⟨kind, r⟩, hreq, mid, hmid, h⟩ := h
    obtain ⟨rfl, rfl⟩ := Prod.mk.inj (Option.some.inj (Except.ok.inj h))
    exact ⟨ev, mid, kind, r, ⟨rest, hchannel, hmid⟩, hreq, rfl, rfl⟩

end Consume

section Callbacks

variable (s : ClientState V) (r : ReqPtr)

@[simp] theorem execCallback_reqs : (s.execCallback r).reqs = s.reqs := by
  unfold execCallback
  split <;> rfl

@[simp] theorem execCallback_commReqs : (s.execCallback r).commReqs = s.commReqs := by
  unfold execCallback
  split <;> rfl

@[simp] theorem execCallback_buf : (s.execCallback r).buf = s.buf := by
  unfold execCallback
  split <;> rfl

@[simp] theorem execCallback_statuses : (s.execCallback r).statuses = s.statuses := by
  unfold execCallback
  split <;> rfl

@[simp] theorem execCallback_channel : (s.execCallback r).channel = s.channel := by
  unfold execCallback
  split <;> rfl

@[simp] theorem execCallback_awaited : (s.execCallback r).awaited = s.awaited := by
  unfold execCallback
  split <;> rfl

@[simp] theorem execCallback_consumed : (s.execCallback r).consumed = s.consumed := by
  unfold execCallback
  split <;> rfl

variable {s r}

theorem execCallback_called_self (hcallback : (s.reqs r).callback = true) :
    (s.execCallback r).called r = s.called r ++ [(s.reqs r).commReqs] := by
  rw [execCallback, if_pos hcallback]
  exact update_self _ _ _

theorem execCallback_called_ne {r' : ReqPtr} (hr : r' ≠ r) :
    (s.execCallback r).called r' = s.called r' := by
  unfold execCallback
  split
  · exact update_of_ne hr _ _
  · rfl

end Callbacks

section Issue

variable (s : ClientState V) (r : ReqPtr) (kind : CommReqKind) (id : EventId) (retval : Int32)

theorem issue_none : s.issue r kind id none retval =
    if retval = Ret.success ∧ s.finished r then s.execCallback r else s := rfl

theorem issue_some (objs : List ObjID) :
    s.issue r kind id (some objs) retval = s.send r kind id := by
  have hunfinished : ¬ (s.send r kind id).finished r := by
    simp [finished, send]
  unfold issue
  simp only [reduceCtorEq, if_false]
  rw [if_neg fun h => hunfinished h.2]

theorem issue_cases (comm : Option (List ObjID)) :
    s.issue r kind id comm retval = s.send r kind id ∨
    (comm = none ∧ s.issue r kind id comm retval =
      if retval = Ret.success ∧ s.finished r then s.execCallback r else s) := by
  cases comm with
  | none => exact .inr ⟨rfl, issue_none s r kind id retval⟩
  | some objs => exact .inl (issue_some s r kind id retval objs)

theorem issue_frame (comm : Option (List ObjID)) :
    (s.issue r kind id comm retval).buf = s.buf ∧
    (s.issue r kind id comm retval).statuses = s.statuses ∧
    (s.issue r kind id comm retval).channel = s.channel ∧
    (s.issue r kind id comm retval).consumed = s.consumed ∧
    ∀ r', ((s.issue r kind id comm retval).reqs r').value = (s.reqs r').value ∧
      ((s.issue r kind id comm retval).reqs r').status = (s.reqs r').status := by
  rcases issue_cases s r kind id retval comm with hsend | ⟨_, hlocal⟩
  · rw [hsend]
    refine ⟨rfl, rfl, rfl, rfl, fun r' => ?_⟩
    by_cases hr : r' = r
    · subst hr
      simp only [send, update_self, and_self]
    · simp only [send, update_of_ne hr, and_self]
  · rw [hlocal]
    split
    · exact ⟨by simp, by simp, by simp, by simp, by simp⟩
    · exact ⟨rfl, rfl, rfl, rfl, fun _ => ⟨rfl, rfl⟩⟩

theorem issue_others (comm : Option (List ObjID)) {r' : ReqPtr} (hr : r' ≠ r) :
    (s.issue r kind id comm retval).reqs r' = s.reqs r' ∧
      (s.issue r kind id comm retval).called r' = s.called r' := by
  rcases issue_cases s r kind id retval comm with hsend | ⟨_, hlocal⟩
  · rw [hsend]
    exact ⟨update_of_ne hr _ _, rfl⟩
  · rw [hlocal]
    split
    · exact ⟨by rw [execCallback_reqs], execCallback_called_ne hr⟩
    · exact ⟨rfl, rfl⟩

theorem issue_sent (comm : Option (List ObjID)) :
    ((s.issue r kind id comm retval).commReqs = s.commReqs ∧
      (s.issue r kind id comm retval).awaited = s.awaited ∧
      ((s.issue r kind id comm retval).reqs r).commReqs = (s.reqs r).commReqs) ∨
    ((s.issue r kind id comm retval).commReqs = update s.commReqs id (some ⟨kind, r⟩) ∧
      (s.issue r kind id comm retval).awaited = s.awaited ++ [id] ∧
      ((s.issue r kind id comm retval).reqs r).commReqs = (s.reqs r).commReqs ++ [id]) := by
  rcases issue_cases s r kind id retval comm with hsend | ⟨_, hlocal⟩
  · rw [hsend]
    refine .inr ⟨rfl, rfl, ?_⟩
    simp only [send, update_self]
  · rw [hlocal]
    left
    split
    · exact ⟨by simp, by simp, by simp⟩
    · exact ⟨rfl, rfl, rfl⟩

end Issue

section Links

variable {s t : ClientState V}

theorem linked_start (status : ReqPtr → StatusPtr) (callback : ReqPtr → Bool)
    (buf : Nat → V × PwrTime) : (start status callback buf).Linked where
  once := List.nodup_nil
  underWay := fun _ => iff_of_false List.not_mem_nil fun ⟨_, h⟩ => List.not_mem_nil h
  owner := fun _ _ h => absurd h List.not_mem_nil
  distinct := fun _ => List.nodup_nil

theorem linked_congr (h : s.Linked) (hawaited : t.awaited = s.awaited)
    (hchannel : t.channel = s.channel) (hcommReqs : t.commReqs = s.commReqs)
    (hreqs : ∀ r, (t.reqs r).commReqs = (s.reqs r).commReqs) : t.Linked := by
  have hexpected : t.expected = s.expected := by rw [expected, expected, hawaited, hchannel]
  refine ⟨?_, ?_, ?_, ?_⟩
  · rw [hexpected]
    exact h.once
  · simp only [hexpected, hreqs]
    exact h.underWay
  · simp only [hcommReqs, hreqs]
    exact h.owner
  · simp only [hreqs]
    exact h.distinct

theorem newRequest_self (s : ClientState V) (r : ReqPtr) (status : StatusPtr)
    (callback : Bool) : (s.newRequest r status callback).reqs r =
      { value := [0], status, callback, commReqs := [] } := update_self _ _ _

theorem newRequest_of_ne (s : ClientState V) {r r' : ReqPtr} (status : StatusPtr)
    (callback : Bool) (hr : r' ≠ r) : (s.newRequest r status callback).reqs r' = s.reqs r' :=
  update_of_ne hr _ _

theorem linked_newRequest (h : s.Linked) {r : ReqPtr} (hfree : (s.reqs r).commReqs = [])
    (status : StatusPtr) (callback : Bool) : (s.newRequest r status callback).Linked := by
  apply linked_congr (t := s.newRequest r status callback) h rfl rfl rfl
  intro r'
  by_cases hr : r' = r
  · rw [hr, newRequest_self, hfree]
  · rw [newRequest_of_ne s status callback hr]

theorem linked_callback (h : s.Linked) (r : ReqPtr) : (s.execCallback r).Linked :=
  linked_congr h (by simp) (by simp) (by simp) (by simp)

theorem owner_unique (h : s.Linked) {id : EventId} {kind : CommReqKind} {r r' : ReqPtr}
    (hid : id ∈ (s.reqs r').commReqs) (hreq : s.commReqs id = some ⟨kind, r⟩) : r' = r := by
  obtain ⟨kind', hkind'⟩ := h.owner r' id hid
  exact (DistCommReq.mk.inj (Option.some.inj (hkind'.symm.trans hreq))).2

theorem mem_of_expected (h : s.Linked) {id : EventId} {kind : CommReqKind} {r : ReqPtr}
    (hid : id ∈ s.expected) (hreq : s.commReqs id = some ⟨kind, r⟩) :
    id ∈ (s.reqs r).commReqs := by
  obtain ⟨owner, howner⟩ := (h.underWay id).mp hid
  obtain rfl := owner_unique h howner hreq
  exact howner

theorem next_expected (h : s.Linked) {ev : Payload V} {rest : List (Payload V)}
    (hchannel : s.channel = ev :: rest) {kind : CommReqKind} {r : ReqPtr}
    (hreq : s.commReqs ev.base.id = some ⟨kind, r⟩) : ev.base.id ∈ (s.reqs r).commReqs := by
  apply mem_of_expected h _ hreq
  rw [expected, hchannel]
  exact List.mem_append_right _ List.mem_cons_self

theorem commReqs_of_mem {r : ReqPtr} (hsingle : (s.reqs r).commReqs.length ≤ 1) {id : EventId}
    (hid : id ∈ (s.reqs r).commReqs) : (s.reqs r).commReqs = [id] := by
  obtain ⟨front, back, hsplit⟩ := List.append_of_mem hid
  rw [hsplit, List.length_append, List.length_cons] at hsingle
  obtain rfl : front = [] := List.eq_nil_of_length_eq_zero (by omega)
  obtain rfl : back = [] := List.eq_nil_of_length_eq_zero (by omega)
  exact hsplit

theorem expected_next {ev : Payload V} {rest : List (Payload V)} (hchannel : s.channel = ev :: rest) :
    s.expected.Perm (ev.base.id :: (s.awaited ++ rest.map (·.base.id))) := by
  rw [expected, hchannel, List.map_cons]
  exact List.perm_middle

theorem mem_erased (h : s.Linked) {id : EventId} {kind : CommReqKind} {r : ReqPtr}
    (hreq : s.commReqs id = some ⟨kind, r⟩) (r' : ReqPtr) (other : EventId) :
    other ∈ (update s.reqs r
      { s.reqs r with commReqs := (s.reqs r).commReqs.erase id } r').commReqs ↔
      other ≠ id ∧ other ∈ (s.reqs r').commReqs := by
  by_cases hr : r' = r
  · subst hr
    rw [update_self]
    exact (h.distinct r').mem_erase_iff
  · rw [update_of_ne hr]
    refine (and_iff_right_of_imp ?_).symm
    rintro hother rfl
    exact hr (owner_unique h hother hreq)

theorem linked_consume {cntxt : Cntxt V} {ev : Payload V} (h : s.Linked)
    (hconsume : Consume cntxt s ev t) : t.Linked := by
  obtain ⟨rest, kind, r, buf, status, hchannel, hreq, _, rfl⟩ := consume_ok hconsume
  have hperm := expected_next hchannel
  obtain ⟨hgone, honce⟩ := List.nodup_cons.mp (hperm.nodup_iff.mp h.once)
  refine ⟨honce, ?_, ?_, ?_⟩
  · intro id
    have hbefore := h.underWay id
    rw [hperm.mem_iff, List.mem_cons] at hbefore
    simp only [mem_erased h hreq, exists_and_left, ← hbefore]
    constructor
    · intro hid
      exact ⟨fun heq => hgone (heq ▸ hid), .inr hid⟩
    · rintro ⟨hne, hid⟩
      exact hid.resolve_left hne
  · intro r' id hid
    exact h.owner r' id ((mem_erased h hreq r' id).mp hid).2
  · intro r'
    by_cases hr : r' = r
    · subst hr
      simp only [update_self]
      exact (h.distinct r').erase _
    · simp only [update_of_ne hr]
      exact h.distinct r'

theorem linked_wait {cntxt : Cntxt V} {r : ReqPtr} {code : Int32} (h : s.Linked)
    (hwait : s.wait cntxt r = .ok (some (code, t))) : t.Linked := by
  obtain ⟨evs, mid, hrun, hend⟩ := waitFrom_ok rfl hwait
  have hmid : mid.Linked :=
    hrun.invariant Linked (fun _ _ _ hs hstep => linked_consume hs hstep.2) h
  rcases hend with ⟨_, _, rfl⟩ | ⟨_, _, _, _, rfl⟩
  · exact linked_callback hmid r
  · exact hmid

theorem linked_arrive (h : s.Linked) {ev : Payload V} (hev : ev.base.id ∈ s.awaited) :
    ({ s with channel := s.channel ++ [ev], awaited := s.awaited.erase ev.base.id } :
      ClientState V).Linked := by
  have hperm : (s.awaited.erase ev.base.id ++ (s.channel ++ [ev]).map (·.base.id)).Perm
      s.expected := by
    rw [List.map_append, List.map_singleton, ← List.append_assoc]
    calc
      List.Perm _ (ev.base.id :: (s.awaited.erase ev.base.id ++ s.channel.map (·.base.id))) :=
        List.perm_append_singleton _ _
      List.Perm _ s.expected := ((List.perm_cons_erase hev).symm.append_right _)
  refine ⟨hperm.nodup_iff.mpr h.once, ?_, h.owner, h.distinct⟩
  intro id
  exact hperm.mem_iff.trans (h.underWay id)

theorem mem_sent (r : ReqPtr) (kind : CommReqKind) (id : EventId) (r' : ReqPtr)
    (other : EventId) : other ∈ ((s.send r kind id).reqs r').commReqs ↔
      other ∈ (s.reqs r').commReqs ∨ r' = r ∧ other = id := by
  by_cases hr : r' = r
  · subst hr
    simp [send]
  · simp [send, hr]

theorem linked_send (h : s.Linked) {id : EventId} (hfresh : s.commReqs id = none) (r : ReqPtr)
    (kind : CommReqKind) : (s.send r kind id).Linked := by
  have hnew : ∀ r', id ∉ (s.reqs r').commReqs := by
    intro r' hid
    obtain ⟨kind', hkind'⟩ := h.owner r' id hid
    rw [hfresh] at hkind'
    cases hkind'
  have hperm : (s.send r kind id).expected.Perm (id :: s.expected) := by
    change (s.awaited ++ [id] ++ s.channel.map (·.base.id)).Perm _
    rw [List.append_assoc, List.singleton_append]
    exact List.perm_middle
  refine ⟨?_, ?_, ?_, ?_⟩
  · rw [hperm.nodup_iff, List.nodup_cons, h.underWay]
    exact ⟨fun ⟨r', hr'⟩ => hnew r' hr', h.once⟩
  · intro other
    rw [hperm.mem_iff, List.mem_cons, h.underWay]
    simp only [mem_sent, exists_or, exists_eq_left]
    exact or_comm
  · intro r' other hother
    rcases (mem_sent r kind id r' other).mp hother with hold | ⟨rfl, rfl⟩
    · have hne : other ≠ id := fun heq => hnew r' (heq ▸ hold)
      have hkind : (s.send r kind id).commReqs other = s.commReqs other := update_of_ne hne _ _
      rw [hkind]
      exact h.owner r' other hold
    · exact ⟨kind, update_self _ _ _⟩
  · intro r'
    simp only [send]
    by_cases hr : r' = r
    · subst hr
      rw [update_self, (List.perm_append_singleton _ _).nodup_iff, List.nodup_cons]
      exact ⟨hnew r', h.distinct r'⟩
    · rw [update_of_ne hr]
      exact h.distinct r'

theorem linked_issue (h : s.Linked) {id : EventId} (hfresh : s.commReqs id = none) (r : ReqPtr)
    (kind : CommReqKind) (comm : Option (List ObjID)) (retval : Int32) :
    (s.issue r kind id comm retval).Linked := by
  rcases issue_cases s r kind id retval comm with hsend | ⟨_, hlocal⟩
  · rw [hsend]
    exact linked_send h hfresh r kind
  · rw [hlocal]
    split
    · exact linked_callback h r
    · exact h

theorem linked_call [Zero V] [Add V] (h : s.Linked) {obj : DistObject V} {r : ReqPtr}
    {id : EventId} {op : Operation V} {code : Int32} (hfresh : s.commReqs id = none)
    (hcall : s.call obj r id op = .ok (code, t)) : t.Linked := by
  obtain ⟨mid, hsame, hend⟩ := call_ok hcall
  have hmid : mid.Linked := linked_congr h hsame.awaited hsame.channel hsame.commReqs
    fun r' => (hsame.reqs r').1
  rcases hend with ⟨rfl, _⟩ | ⟨kind, comm, retval, rfl, _⟩
  · exact hmid
  · apply linked_issue hmid
    rw [hsame.commReqs, hfresh]

theorem linked_exec [Zero V] [Add V] {cntxt : Cntxt V} {l : Label V} {code : Int32}
    (h : s.Linked) (hadm : s.Admissible l) (hexec : s.exec cntxt l = .ok (some (code, t))) :
    t.Linked := by
  cases l with
  | call obj r id op =>
      obtain ⟨⟨code', t'⟩, hcall, heq⟩ := map_eq_ok.mp hexec
      obtain ⟨rfl, rfl⟩ := Prod.mk.inj (Option.some.inj heq)
      exact linked_call h hadm hcall
  | arrive ev =>
      obtain ⟨_, rfl⟩ := Prod.mk.inj (Option.some.inj (Except.ok.inj hexec))
      exact linked_arrive h hadm.1
  | close =>
      obtain ⟨_, rfl⟩ := Prod.mk.inj (Option.some.inj (Except.ok.inj hexec))
      exact linked_congr h rfl rfl rfl fun _ => rfl
  | wait r => exact linked_wait h hexec
  | makeProgress =>
      obtain ⟨ev, mid, kind, r, hconsume, _, _, rfl⟩ := makeProgress_ok hexec
      exact linked_callback (linked_consume h hconsume) r

end Links

end ClientState

end PwrApi
