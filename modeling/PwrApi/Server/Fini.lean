import PwrApi.Client.Progress
import PwrApi.Lib.Table
import PwrApi.Server.CommMap

/-! A server at work: the events it takes from the router (`routerEvent.h`, `commReqEvent.h`,
`commLogEvent.h` and `commGetSamplesReqEvent.h` of `server/`), the responses that its context
reads, and the table of the requests that it has to answer (`server.cc`). -/

namespace PwrApi

open Function Memory Runs Server

variable {V : Type}

/-- The address of a request in memory. Its `DistRequest` and its `Status`, which nothing
else points to, go by the same number. -/
abbrev EventKey := Nat

/-- An entry of `m_finiMap`: the event that a request came in, and the channel. -/
structure FiniEntry (V : Type) where
  event : Router.RouterEvent V
  chan : Nat

/-- A request in memory, with the place of the values of its response. -/
structure SrvrEvent (V : Type) where
  payload : Payload V
  base : Nat

structure Reply (V : Type) where
  entry : FiniEntry V
  chan : Nat
  event : Router.RouterEvent V

/-- `Server`, with the requests in memory. The last two fields only record: the requests
that came, and what was sent to the router. -/
structure ServerState (V : Type) where
  ctx : ClientState V
  commMap : CommMap
  events : EventKey → Option (SrvrEvent V)
  finiMap : List (EventKey × FiniEntry V)
  received : List (FiniEntry V)
  sent : List (Reply V)

namespace ServerState

def start (buf : Nat → V × PwrTime) : ServerState V where
  ctx := .start id (fun _ => false) buf
  commMap := fun _ => none
  events := fun _ => none
  finiMap := []
  received := []
  sent := []

def initFini (s : ServerState V) (key : EventKey) (event : Router.RouterEvent V) (chan : Nat) :
    ServerState V :=
  { s with finiMap := Table.insert key ⟨event, chan⟩ s.finiMap }

def freeFini (s : ServerState V) (key : EventKey) : Except Fault (ServerState V) := do
  let _ ← orFault (s.finiMap.lookup key) .assertFailed
  .ok { s with finiMap := Table.erase key s.finiMap }

/-- `Server::fini`, which deletes the request. -/
def fini (s : ServerState V) (key : EventKey) (payload : Payload V) :
    Except Fault (ServerState V) := do
  let entry ← orFault (s.finiMap.lookup key) .assertFailed
  .ok { s with
    events := update s.events key none
    finiMap := Table.erase key s.finiMap
    sent := s.sent ++ [⟨entry, entry.chan, entry.event.dest, entry.event.src, payload⟩] }

/-- `m_respEvent` after the errors of the `Status` were popped into it. -/
def respond (ev : SrvrEvent V) (buf : Nat → V × PwrTime) (status : Status) :
    Except Fault (Payload V) :=
  match ev.payload with
  | .commReq req => do
      let resp := commResp req (readRow buf ev.base req.attrName.length)
      let resp ← requestFini resp status
      .ok (.commResp resp)
  | .commLogReq req => do
      let resp : CommLogRespEvent :=
        { toCommEvent := { Router.newCommEvent .commLogResp req.id 0 with op := req.op }
          errObj := [], errAttr := [], errValue := [] }
      let resp ← logReqFini resp status
      .ok (.commLogResp resp)
  | .commGetSamplesReq req => do
      let resp : CommGetSamplesRespEvent V :=
        { toCommEvent := Router.newCommEvent .commGetSamplesResp req.id 0
          startTime := (buf ev.base).2, count := req.count
          data := (readRow buf ev.base req.count.toNat).map Prod.fst
          errObj := [], errAttr := [], errValue := [] }
      let resp ← getSamplesFini resp status
      .ok (.commGetSamplesResp resp)
  | _ => .error .undefined

/-- The three callbacks, `requestFini`, `logReqFini` and `getSamplesFini`. -/
def callback (s : ServerState V) (key : EventKey) : Except Fault (ServerState V) := do
  let ev ← orFault (s.events key) .useAfterFree
  let payload ← respond ev s.ctx.buf (s.ctx.statuses key)
  s.fini key payload

def callbacks (s : ServerState V) (key : EventKey) (ctx : ClientState V) :
    Except Fault (ServerState V) :=
  let runs := (ctx.called key).length - (s.ctx.called key).length
  (List.replicate runs key).foldlM callback { s with ctx }

/-- The call that the context gets for a request, and the cells that its response needs. -/
def operation (base : Nat) : Payload V → Option (CommID × ClientState.Operation V × Nat)
  | .commReq req => some (req.commID,
      if req.op = .get then (.getValues req.attrName base, req.attrName.length)
      else (.setValues (req.attrName.zip req.setValues), 0))
  | .commLogReq req => some (req.commID,
      if req.op = .start then .startLog req.attrName else .stopLog req.attrName, 0)
  | .commGetSamplesReq req =>
      some (req.commID, .getSamples req.attrName req.period req.count base, req.count.toNat)
  | _ => none

section Processing

variable [Zero V] [Add V] (cntxt : Cntxt V)

/-- A request as it calls the context: its `Status` and `DistRequest` are new, and the cells
of its response zero. -/
def beginRequest (s : ServerState V) (key : EventKey) (base : Nat) (payload : Payload V)
    (cells : Nat) : ServerState V :=
  { s with
    ctx := { s.ctx.newRequest key key true with
      statuses := update s.ctx.statuses key []
      buf := writeRow s.ctx.buf base (List.replicate cells (0, 0)) }
    events := update s.events key (some ⟨payload, base⟩) }

/-- `process` of the three requests. -/
def processRequest (s : ServerState V) (key : EventKey) (base : Nat) (id : EventId)
    (payload : Payload V) (commID : CommID) (op : ClientState.Operation V) (cells : Nat) :
    Except Fault (ServerState V) := do
  let name ← commObj s.commMap commID
  let obj ← commObject cntxt name
  let s := s.beginRequest key base payload cells
  let (ret, ctx) ← s.ctx.call obj key id op
  let s ← s.callbacks key ctx
  if ret ≠ Ret.success then s.callback key else .ok s

/-- `ev->process( gen )` for the events of `allocReqEvent`, with its result. -/
def process (s : ServerState V) (key : EventKey) (base : Nat) (id : EventId)
    (payload : Payload V) : Except Fault (Bool × ServerState V) :=
  match payload with
  | .commCreate create => do
      let found (name : ObjID) : Bool := match cntxt name with
        | .ok (some _) => true
        | _ => false
      let commMap ← createComm found s.commMap create
      .ok (true, { s with commMap })
  | .commDestroy destroy => .ok (true, { s with commMap := destroyComm s.commMap destroy })
  | payload => do
      let (commID, op, cells) ← orFault (operation base payload) .assertFailed
      let s ← s.processRequest cntxt key base id payload commID op cells
      .ok (false, s)

/-- `SrvrRouterEvent::process`. -/
def processRouterEvent (s : ServerState V) (event : Router.RouterEvent V) (chan : Nat)
    (key : EventKey) (base : Nat) (id : EventId) : Except Fault (ServerState V) := do
  let s := s.initFini key event chan
  let s := if (requests event.payload).isSome then
    { s with received := s.received ++ [⟨event, chan⟩] } else s
  let (done, s) ← s.process cntxt key base id event.payload
  if done then s.freeFini key else .ok s

/-- `CntxtData::process`, on a response that has come. -/
def makeProgress (s : ServerState V) : Except Fault (Option (ServerState V)) := do
  let result ← s.ctx.makeProgress cntxt
  match result, s.ctx.channel with
  | some (_, ctx), ev :: _ => do
      let commReq ← orFault (s.ctx.commReqs ev.base.id) .undefined
      let s ← s.callbacks commReq.req ctx
      .ok (some s)
  | _, _ => .ok none

end Processing

/-- An event comes from the router, with the addresses of its request, of the values of its
response and of the communicator request that it may make; or a response comes to the
context; or the context reads one. -/
inductive Label (V : Type)
  | routerEvent (event : Router.RouterEvent V) (chan : Nat) (key : EventKey) (base : Nat) (id : EventId)
  | arrive (ev : Payload V)
  | makeProgress

def exec [Zero V] [Add V] (cntxt : Cntxt V) (s : ServerState V) :
    Label V → Except Fault (Option (ServerState V))
  | .routerEvent event chan key base id =>
      (s.processRouterEvent cntxt event chan key base id).map some
  | .arrive ev => .ok (some { s with
      ctx := { s.ctx with
        channel := s.ctx.channel ++ [ev]
        awaited := s.ctx.awaited.erase ev.base.id } })
  | .makeProgress => s.makeProgress cntxt

end ServerState

end PwrApi
