import PwrApi.Router.Responses

/-! `Router::sendEvent`, the handlers of requests and of connections, and the loop
body of `Router::work` for one ready channel. -/

namespace PwrApi.Router

open Function Runs

variable {V : Type}

section Sending

/-- `ec->sendEvent( ev )` for an event in memory. -/
def writeEvent (rtr : Router V) (ch : Chan) (ptr : EventPtr) : Except Fault (Router V) := do
  let re ← orFault (rtr.mail.events ptr) .useAfterFree
  match ch with
  | .server ec => require (rtr.serverMap ec ≠ none) .deadChannel
  | .router _ => .ok ()
  .ok { rtr with mail := { rtr.mail with written := rtr.mail.written ++ [(ch, re)] } }

/-- `new RouterEvent`, as the next address. -/
def newEvent (rtr : Router V) (re : RouterEvent V) : Router V :=
  { rtr with mail := { rtr.mail with
    events := update rtr.mail.events rtr.mail.nextEvent (some re)
    nextEvent := rtr.mail.nextEvent + 1 } }

def deleteEvent (rtr : Router V) (ptr : EventPtr) : Router V :=
  { rtr with mail := { rtr.mail with events := update rtr.mail.events ptr none } }

def pushPending (rtr : Router V) (id : ServerID) (ptr : EventPtr) : Router V :=
  { rtr with mail := { rtr.mail with
    pendingEvents := update rtr.mail.pendingEvents id (rtr.mail.pendingEvents id ++ [ptr]) } }

def recordCall (rtr : Router V) (dest : AppID) (re : RouterEvent V) : Router V :=
  { rtr with mail := { rtr.mail with calls := rtr.mail.calls ++ [(dest, re)] } }

/-- The choice of the channel at the top of `sendEvent( AppID, Event* )`. -/
def destChan (rtr : Router V) (dest : AppID) : Except Fault (Option Chan) :=
  if rtrIdOf dest = rtr.rtrId then
    .ok ((rtr.findServerChan (serverIdOf dest)).map .server)
  else do
    let ec ← orFault (rtr.getChannel (rtrIdOf dest)) .assertFailed
    .ok (some (.router ec))

/-- `sendEvent( AppID, Event* )` for an event that is no `RouterEvent`: it is copied
into a new one, which is deleted unless it waits for its server. -/
def sendEvent (rtr : Router V) (dest : AppID) (ev : Payload V) : Except Fault (Router V) := do
  let ec ← rtr.destChan dest
  let re : RouterEvent V := ⟨appId rtr.rtrId noServer, dest, ev⟩
  let ptr := rtr.mail.nextEvent
  let rtr := (rtr.recordCall dest re).newEvent re
  match ec with
  | none => .ok (rtr.pushPending (serverIdOf dest) ptr)
  | some ec => do
      let rtr ← rtr.writeEvent ec ptr
      .ok (rtr.deleteEvent ptr)

/-- `sendEvent( ObjID, Event* )`. -/
def sendEventTo (rtr : Router V) (destObj : ObjID) (ev : Payload V) :
    Except Fault (Router V) :=
  let destID := rtr.findRoute destObj
  if destID = unrouted then .ok rtr else rtr.sendEvent destID ev

/-- `doPending`. The events are not deleted after they are sent. -/
def doPending (rtr : Router V) (id : ServerID) : Except Fault (Router V) :=
  match rtr.mail.pendingEvents id with
  | [] => .ok rtr
  | ptrs => do
      let ec ← orFault (rtr.findServerChan id) .assertFailed
      let rtr ← ptrs.foldlM (fun rtr ptr => rtr.writeEvent (.server ec) ptr) rtr
      .ok { rtr with mail := { rtr.mail with
        pendingEvents := update rtr.mail.pendingEvents id [] } }

end Sending

section Requests

/-- `CommEvent( type )` with the fields its constructor leaves unset as zero. -/
def newCommEvent (t : EventType) (id : EventId) (commID : CommID) : CommEvent :=
  { toEvent := { Event.ofType t with id }, commID, op := .noop }

/-- `RtrCommCreateEvent::process`. -/
def processCommCreate (rtr : Router V) (ec : ClientChan) (ev : CommCreateEvent) :
    Except Fault (Router V) := do
  let client ← rtr.getClient ec
  let client ← client.addComm ev.commID ev
  let rtr := { rtr with clientMap := update rtr.clientMap ec (some client) }
  ev.members.flatten.foldlM (fun rtr obj => rtr.sendEventTo obj
    (.commCreate { toCommEvent := newCommEvent .commCreate 0 ev.commID, members := [[obj]] })) rtr

/-- The events `RtrCommReqEvent::process` sends: itself, with the address of the
request as its id and the index of the group it addresses. -/
def fanOut (ev : CommReqEvent V) (commList : List (List ObjID)) :
    List (ObjID × CommReqEvent V) :=
  commList.zipIdx.flatMap fun (group, i) =>
    group.map fun obj => (obj, { ev with grpIndex := UInt64.ofNat i })

def newCommReqInfo (ec : ClientChan) (ev : CommReqEvent V) (info : EventId)
    (commList : List (List ObjID)) : CommReqInfo V where
  src := ec
  ev := { ev.toCommEvent with id := info }
  grpInfo := commList.map List.length
  pending := commList.length
  valueOp := if ev.op = .get then ev.valueOp else []
  respQ := commList.map fun _ => []
  resp := .commResp
    { toCommEvent := newCommEvent .commResp ev.id 0
      timeStamp := if ev.op = .get then commList.map fun _ => [] else []
      value := if ev.op = .get then commList.map fun _ => [] else []
      grpIndex := 0, errObj := [], errAttr := [], errValue := [] }

/-- `RtrCommReqEvent::process`, where `info` is the address of the new request. -/
def processCommReq (rtr : Router V) (ec : ClientChan) (ev : CommReqEvent V)
    (info : EventId) : Except Fault (Router V) := do
  let client ← rtr.getClient ec
  let commList ← client.getCommList ev.commID
  let rtr := { rtr with
    infos := update rtr.infos info (some (newCommReqInfo ec ev info commList)) }
  (fanOut { ev with id := info } commList).foldlM
    (fun rtr (obj, ev) => rtr.sendEventTo obj (.commReq ev)) rtr

/-- The handlers of the other two requests: one object only, and a response of the
given kind. The samples handler leaves `pending` unset, which nothing reads. -/
def processSingle (rtr : Router V) (ec : ClientChan) (comm : CommEvent) (info : EventId)
    (ev resp : Payload V) : Except Fault (Router V) := do
  let client ← rtr.getClient ec
  let commList ← client.getCommList comm.commID
  require (commList.length = 1) .assertFailed
  require ((commList.headD []).length = 1) .assertFailed
  let rtr := { rtr with
    infos := update rtr.infos info (some
      { src := ec, ev := { comm with id := info }, grpInfo := []
        pending := commList.length, valueOp := [], respQ := [], resp }) }
  commList.flatten.foldlM (fun rtr obj => rtr.sendEventTo obj ev) rtr

/-- `RtrCommLogReqEvent::process`. -/
def processCommLogReq (rtr : Router V) (ec : ClientChan) (ev : CommLogReqEvent)
    (info : EventId) : Except Fault (Router V) :=
  rtr.processSingle ec ev.toCommEvent info (.commLogReq { ev with id := info })
    (.commLogResp
      { toCommEvent := newCommEvent .commLogResp ev.id 0, errObj := [], errAttr := []
        errValue := [] })

/-- `RtrCommGetSamplesReqEvent::process`. -/
def processCommGetSamplesReq (rtr : Router V) (ec : ClientChan)
    (ev : CommGetSamplesReqEvent V) (info : EventId) : Except Fault (Router V) :=
  rtr.processSingle ec ev.toCommEvent info (.commGetSamplesReq { ev with id := info })
    (.commGetSamplesResp
      { toCommEvent := newCommEvent .commGetSamplesResp ev.id 0, startTime := 0, count := 0
        data := [], errObj := [], errAttr := [], errValue := [] })

/-- `strcpy` semantics of `std::string( const char* )`: the name up to a zero byte. -/
def cStr (s : ObjID) : ObjID := s.takeWhile (· ≠ 0)

/-- `~Client`: every object of the first group of every communicator is told. -/
def destroyComms (rtr : Router V) (client : Client) : Except Fault (Router V) :=
  client.commMap.foldlM (fun rtr (_, ev) => do
    let group ← orFault ev.members.head? .undefined
    group.foldlM (fun rtr obj => rtr.sendEventTo (cStr obj)
      (.commDestroy { toCommEvent := newCommEvent .commDestroy 0 ev.commID })) rtr) rtr

def delClientChan (rtr : Router V) (ec : ClientChan) : Except Fault (Router V) :=
  match rtr.clientMap ec with
  | none => .ok rtr
  | some client => do
      let rtr ← rtr.destroyComms client
      .ok { rtr with clientMap := update rtr.clientMap ec none }

/-- `RtrServerConnectEvent::process`. -/
def processServerConnect (rtr : Router V) (ec : Option ServerChan) (ev : ServerConnectEvent) :
    Except Fault (Router V) := do
  let (id, rtr) ← rtr.addServer ev.name ec
  rtr.doPending id

/-- The event classes of `allocClientEvent`, each with its `process`. -/
def processClient (rtr : Router V) (ec : ClientChan) (ev : Payload V) (info : EventId) :
    Except Fault (Router V) :=
  match ev with
  | .commCreate ev => rtr.processCommCreate ec ev
  | .commReq ev => rtr.processCommReq ec ev info
  | .commLogReq ev => rtr.processCommLogReq ec ev info
  | .commGetSamplesReq ev => rtr.processCommGetSamplesReq ec ev info
  | _ => .error .assertFailed

end Requests

section Dispatch

variable [Zero V] [Add V]

/-- The event classes of `allocServerEvent`, each with its `process`. -/
def processServer (rtr : Router V) (ec : Option ServerChan) (ev : Payload V) :
    Except Fault (Router V) :=
  match ev with
  | .commResp r => rtr.processCommResp r
  | .commLogResp r => rtr.processCommLogResp r
  | .commGetSamplesResp r => rtr.processCommGetSamplesResp r
  | .serverConnect ev => rtr.processServerConnect ec ev
  | _ => .error .assertFailed

/-- `sendEvent( AppID, Event* )` for a `RouterEvent` in memory: it is processed here
when the destination is this router, and passed on as it is otherwise. -/
def forwardEvent (rtr : Router V) (dest : AppID) (ptr : EventPtr) :
    Except Fault (Router V) := do
  let ec ← rtr.destChan dest
  let re ← orFault (rtr.mail.events ptr) .useAfterFree
  let rtr := rtr.recordCall dest re
  if rtrIdOf dest = rtr.rtrId ∧ serverIdOf dest = noServer then
    rtr.processServer none re.payload
  else
    match ec with
    | none => .ok (rtr.pushPending (serverIdOf dest) ptr)
    | some ec => rtr.writeEvent ec ptr

/-- `RtrRouterEvent::process` between the allocation of the event that was read and
its deletion: the handler returns true whatever `sendEvent` did with the event. -/
def processRouterEvent (rtr : Router V) (re : RouterEvent V) : Except Fault (Router V) := do
  let ptr := rtr.mail.nextEvent
  let rtr ← (rtr.newEvent re).forwardEvent re.dest ptr
  .ok (rtr.deleteEvent ptr)

/-- What a ready channel brings: a connection, an event or the end of the channel.
`info` is the address `new CommReqInfo` returns if the event is a request. -/
inductive Label (V : Type)
  | acceptClient (ec : ClientChan)
  | acceptServer (ec : ServerChan)
  | clientEvent (ec : ClientChan) (ev : Payload V) (info : EventId)
  | clientClosed (ec : ClientChan)
  | serverEvent (ec : ServerChan) (ev : Payload V)
  | serverClosed (ec : ServerChan)
  | routerEvent (re : RouterEvent V)

/-- One round of `Router::work`. -/
def dispatch (rtr : Router V) : Label V → Except Fault (Router V)
  | .acceptClient ec => .ok (rtr.addClientChan ec)
  | .acceptServer ec => .ok (rtr.addServerChan ec)
  | .clientEvent ec ev info => rtr.processClient ec ev info
  | .clientClosed ec => rtr.delClientChan ec
  | .serverEvent ec ev => rtr.processServer (some ec) ev
  | .serverClosed ec => .ok (rtr.delServerChan ec)
  | .routerEvent re => rtr.processRouterEvent re

/-- The addresses that `new` returns are not in use. -/
def Fresh (rtr : Router V) : Label V → Prop
  | .acceptClient ec => rtr.clientMap ec = none
  | .acceptServer ec => rtr.serverMap ec = none
  | .clientEvent _ _ info => rtr.infos info = none
  | _ => True

def Step (rtr : Router V) (l : Label V) (rtr' : Router V) : Prop :=
  rtr.Fresh l ∧ rtr.dispatch l = .ok rtr'

theorem step_det {rtr t t' : Router V} {l : Label V} (h : rtr.Step l t) (h' : rtr.Step l t') :
    t = t' := by
  have : (Except.ok t : Except Fault (Router V)) = .ok t' := h.2 ▸ h'.2
  exact Except.ok.inj this

end Dispatch

end PwrApi.Router
