import PwrApi.Router.Ledger
import PwrApi.Server.Answers

/-! The routers of a tree with the servers on their channels: what becomes of a request on its
way to its server, and of the answer on its way back. -/

namespace PwrApi

open Function Runs Router

namespace ServerState

variable {V : Type}

section Servers

variable [Zero V] [Add V] {cntxt : Cntxt V} {s t : ServerState V}

omit [Zero V] [Add V] in
theorem sent_callback {key : EventKey} (h : s.callback key = .ok t) : s.sent <+: t.sent := by
  simp only [callback, fini, bind_eq_ok, Except.ok.injEq] at h
  obtain ⟨_, _, _, _, _, _, rfl⟩ := h
  exact List.prefix_append _ _

omit [Zero V] [Add V] in
theorem sent_callbacks {key : EventKey} {ctx : ClientState V} (h : s.callbacks key ctx = .ok t) :
    s.sent <+: t.sent :=
  foldlM_preserves (fun t => s.sent <+: t.sent) _
    (fun _ _ _ _ hs hstep => hs.trans (sent_callback hstep)) List.prefix_rfl h

theorem sent_processRequest {key : EventKey} {base cells : Nat} {id : EventId}
    {payload : Payload V} {commID : CommID} {op : ClientState.Operation V}
    (h : s.processRequest cntxt key base id payload commID op cells = .ok t) :
    s.sent <+: t.sent := by
  simp only [processRequest, bind_eq_ok] at h
  obtain ⟨_, _, _, _, ⟨code, ctx⟩, _, mid, hmid, h⟩ := h
  have hsent := sent_callbacks hmid
  replace hsent : s.sent <+: mid.sent := hsent
  split at h
  · exact hsent.trans (sent_callback h)
  · exact Except.ok.inj h ▸ hsent

theorem sent_process {key : EventKey} {base : Nat} {id : EventId} {payload : Payload V}
    {done : Bool} (h : s.process cntxt key base id payload = .ok (done, t)) :
    s.sent <+: t.sent := by
  have hrequest : ∀ call, operation base payload = some call →
      s.sent <+: t.sent := by
    rintro ⟨commID, op, cells⟩ hop
    rw [process_request hop, bind_eq_ok] at h
    obtain ⟨mid, hmid, h⟩ := h
    obtain ⟨_, rfl⟩ := Prod.mk.inj (Except.ok.inj h)
    exact sent_processRequest hmid
  cases payload with
  | commCreate create =>
      simp only [process, bind_eq_ok, Except.ok.injEq, Prod.mk.injEq] at h
      obtain ⟨_, _, _, rfl⟩ := h
      exact List.prefix_rfl
  | commDestroy destroy =>
      obtain ⟨_, rfl⟩ := Prod.mk.inj (Except.ok.inj h)
      exact List.prefix_rfl
  | commReq req => exact hrequest _ rfl
  | commLogReq req => exact hrequest _ rfl
  | commGetSamplesReq req => exact hrequest _ rfl
  | _ => cases h

theorem sent_exec {l : Label V} (h : s.exec cntxt l = .ok (some t)) :
    s.sent <+: t.sent := by
  cases l with
  | routerEvent event chan key base id =>
      obtain ⟨mid, hmid, heq⟩ := map_eq_ok.mp h
      obtain rfl := Option.some.inj heq
      simp only [processRouterEvent, bind_eq_ok] at hmid
      obtain ⟨⟨done, next⟩, hprocess, hend⟩ := hmid
      have hsent := sent_process hprocess
      have hbegin : s.sent <+: next.sent := by
        split at hsent <;> exact hsent
      split at hend
      · simp only [freeFini, bind_eq_ok, Except.ok.injEq] at hend
        obtain ⟨_, _, rfl⟩ := hend
        exact hbegin
      · exact Except.ok.inj hend ▸ hbegin
  | arrive ev =>
      obtain rfl := Option.some.inj (Except.ok.inj h)
      exact List.prefix_rfl
  | makeProgress =>
      simp only [exec, makeProgress, bind_eq_ok] at h
      obtain ⟨result, _, h⟩ := h
      split at h
      · simp only [bind_eq_ok, Except.ok.injEq, Option.some.injEq] at h
        obtain ⟨_, _, _, hcallbacks, rfl⟩ := h
        exact sent_callbacks hcallbacks
      · cases h

end Servers

end ServerState

namespace Transport

variable {α V : Type} [DecidableEq α]

/-- What is on the connections, and came into being, after a step of the router at `x`. -/
def worked (s : Transport α V) (x : α) (rtr' : Router V) : Transport α V where
  routers := update s.routers x rtr'
  flight := s.flight ++ written x (s.routers x) rtr'
  made := s.made ++ passed x (s.routers x) rtr'

theorem worked_self {s : Transport α V} {x : α} {rtr' : Router V} :
    (s.worked x rtr').routers x = rtr' := by
  simp [worked]

end Transport

/-- The routers and the servers, each named by its router and its channel there. A server reads
the events of its channel one after the other, and the router what the server sends. The record
`came` is of what the routers have read from the servers. -/
structure Service (α V : Type) where
  transport : Transport α V
  servers : α × ServerChan → ServerState V
  read : α × ServerChan → Nat
  came : List ((α × ServerChan) × Reply V)

namespace Service

variable {α V : Type}

inductive Label (α V : Type)
  | work (x : α) (l : Router.Label V)
  | arrive (x : α) (ch : RtrChan)
  | serve (k : α × ServerChan) (l : ServerState.Label V)
  | reply (k : α × ServerChan)

def start (net : TreeNetwork α) (table : α → ObjID → Option AppID)
    (buf : α × ServerChan → Nat → V × PwrTime) : Service α V where
  transport := Transport.start net table
  servers k := ServerState.start (buf k)
  read := fun _ => 0
  came := []

def written (s : Service α V) (k : α × ServerChan) : List (RouterEvent V) :=
  (s.transport.routers k.1).writtenTo k.2

section Steps

variable [DecidableEq α]

def taken (s : Service α V) (k : α × ServerChan) : List (Reply V) := eventsFor s.came k

variable [Zero V] [Add V] (net : TreeNetwork α) (cntxt : α × ServerChan → Cntxt V)

/-- A router takes what its clients and servers bring, the oldest event of a connection from
another router, or the next reply of a server; a server takes the next event of its channel, or
goes on with what its context reads. -/
inductive Step : Service α V → Label α V → Service α V → Prop
  | work {s : Service α V} {x : α} {l : Router.Label V} {rtr' : Router V} :
      (s.transport.routers x).Orderly l → (s.transport.routers x).Step l rtr' →
      Step s (.work x l) { s with transport := s.transport.worked x rtr' }
  | arrive {s : Service α V} {x : α} {ch : RtrChan} {transport : Transport α V} :
      Transport.Step net s.transport (.arrive x ch) transport →
      Step s (.arrive x ch) { s with transport }
  | serve {s : Service α V} {k : α × ServerChan} {l : ServerState.Label V} {t : ServerState V} :
      (∀ event chan key base id, l ≠ .routerEvent event chan key base id) →
      (s.servers k).Step (cntxt k) l t →
      Step s (.serve k l) { s with servers := update s.servers k t }
  | deliver {s : Service α V} {k : α × ServerChan} {event : RouterEvent V} {chan base : Nat}
      {key : EventKey} {id : EventId} {t : ServerState V} :
      (s.written k)[s.read k]? = some event →
      (s.servers k).Step (cntxt k) (.routerEvent event chan key base id) t →
      Step s (.serve k (.routerEvent event chan key base id))
        { s with servers := update s.servers k t, read := update s.read k (s.read k + 1) }
  | reply {s : Service α V} {k : α × ServerChan} {reply : Reply V} {rtr' : Router V} :
      (s.servers k).sent[(s.taken k).length]? = some reply →
      (s.transport.routers k.1).Step (.routerEvent reply.event) rtr' →
      Step s (.reply k)
        { s with transport := s.transport.worked k.1 rtr', came := s.came ++ [(k, reply)] }

/-- What holds between the steps. The routers behave as routers do whose servers answer from
their own addresses, and each server has read the beginning of what was written to it and was
read the beginning of what it has sent. What came into being at a router it has sent for a
client, or read from a server. -/
structure Inv (table : α → ObjID → Option AppID) (s : Service α V) : Prop where
  history : ∃ ls, Run (Transport.Step net) (Transport.start net table) ls s.transport
  accounts : ∀ x id, (s.transport.routers x).Accounts id
  calls : ∀ x, ∀ e ∈ (s.transport.routers x).mail.calls, e.1 = e.2.dest
  routes : ∀ x, (s.transport.routers x).routeTable = table x
  consistent : ∀ k, (s.servers k).Consistent (cntxt k) none
  behind : ∀ k, s.read k ≤ (s.written k).length
  received : ∀ k, (s.servers k).received.map (·.event) =
    ((s.written k).take (s.read k)).filter isRequest
  taken : ∀ k, s.taken k <+: (s.servers k).sent
  replies : (s.transport.made.filter fun e => isResponse e.2.payload) =
    s.came.map fun c => (c.1.1, c.2.event)
  own : ∀ e ∈ s.transport.made, ¬ isResponse e.2.payload → e.2.src = appId (net.id e.1) noServer

end Steps

section Invariant

theorem isResponse_of_matches {req resp : Payload V} (h : Matches req resp) :
    isResponse resp = true := by
  cases req <;> cases resp <;> first | rfl | cases h

variable [DecidableEq α] [Zero V] [Add V] {net : TreeNetwork α}
  {cntxt : α × ServerChan → Cntxt V} {table : α → ObjID → Option AppID} {s : Service α V}

theorem Inv.relay (h : Inv net cntxt table s) :
    ∃ ls t, Run (Transport.relay net V).Step Relay.start ls t ∧
      Transport.Refines net s.transport t := by
  obtain ⟨ls, hrun⟩ := h.history
  obtain ⟨ls', t, hrun', ht, _⟩ :=
    Transport.refines_run (Transport.refines_start net table) hrun
  exact ⟨ls', t, hrun', ht⟩

theorem Inv.rtrId (h : Inv net cntxt table s) (x : α) :
    (s.transport.routers x).rtrId = net.id x := by
  obtain ⟨_, _, _, ht⟩ := h.relay
  exact (ht.configured x).1

theorem Inv.written (h : Inv net cntxt table s) (x : α) {idle : Prop}
    (hidle : idle → ∀ id, (s.transport.routers x).mail.pendingEvents id = []) :
    Passes idle
      (((s.transport.routers x).mail.calls.map Prod.snd).filter fun re =>
        rtrIdOf re.dest = net.id x ∧ isRequest re)
      (((s.transport.routers x).toServers.map Prod.snd).filter isRequest) := by
  have hwritten := requests_written (h.accounts x) (h.calls x) hidle
  rwa [h.rtrId] at hwritten

theorem Inv.sent (h : Inv net cntxt table s) {k : α × ServerChan} {reply : Reply V}
    (hr : reply ∈ (s.servers k).sent) :
    reply.Answers ∧ reply.entry.event ∈ s.written k ∧ isRequest reply.entry.event ∧
      rtrIdOf reply.entry.event.dest = net.id k.1 := by
  have hentry : reply.entry ∈ (s.servers k).received :=
    (h.consistent k).once.symm.subset (List.mem_append_left _ (List.mem_map_of_mem hr))
  have hread : reply.entry.event ∈ ((s.written k).take (s.read k)).filter isRequest := by
    rw [← h.received k]
    exact List.mem_map_of_mem hentry
  obtain ⟨hmem, hrequest⟩ := List.mem_filter.mp hread
  have hwritten : reply.entry.event ∈ s.written k := List.mem_of_mem_take hmem
  refine ⟨(h.consistent k).replies reply hr, hwritten, hrequest, ?_⟩
  rw [Service.written, writtenTo_eq] at hwritten
  obtain ⟨e, he, hre⟩ := List.mem_map.mp hwritten
  have hserver : reply.entry.event ∈
      ((s.transport.routers k.1).toServers.map Prod.snd).filter isRequest :=
    List.mem_filter.mpr ⟨List.mem_map.mpr ⟨e, List.mem_of_mem_filter he, hre⟩, hrequest⟩
  have hpasses : Passes False _ _ := h.written k.1 False.elim
  exact (of_decide_eq_true (List.mem_filter.mp (hpasses.once.subset hserver)).2).1

theorem Inv.router (h : Inv net cntxt table s) {x : α} {l : Router.Label V} {rtr' : Router V}
    {new : List (RouterEvent V)} (hd : (s.transport.routers x).dispatch l = .ok rtr')
    (hsends : (s.transport.routers x).Sends new rtr') {s' : Service α V}
    (hrouters : s'.transport.routers = update s.transport.routers x rtr')
    (hservers : s'.servers = s.servers) (hread : s'.read = s.read)
    (history : ∃ ls, Run (Transport.Step net) (Transport.start net table) ls s'.transport)
    (htaken : ∀ k, s'.taken k <+: (s'.servers k).sent)
    (hreplies : (s'.transport.made.filter fun e => isResponse e.2.payload) =
      s'.came.map fun c => (c.1.1, c.2.event))
    (hown : ∀ e ∈ s'.transport.made, ¬ isResponse e.2.payload →
      e.2.src = appId (net.id e.1) noServer) : Inv net cntxt table s' := by
  have hwritten : ∀ k, s.written k <+: s'.written k := by
    intro k
    rw [Service.written, Service.written, hrouters]
    by_cases hk : k.1 = x
    · rw [hk, update_self]
      exact writtenTo_dispatch hd k.2
    · rw [update_of_ne hk]
  refine ⟨history, fun y => ?_, fun y => ?_, fun y => ?_, ?_, fun k => ?_, fun k => ?_, htaken,
    hreplies, hown⟩
  · rw [hrouters]
    by_cases hy : y = x
    · rw [hy, update_self]
      exact accounts_dispatch (h.accounts x) hd
    · rw [update_of_ne hy]
      exact h.accounts y
  · rw [hrouters]
    by_cases hy : y = x
    · rw [hy, update_self, hsends.calls]
      intro e he
      rcases List.mem_append.mp he with he | he
      · exact h.calls x e he
      · obtain ⟨re, _, rfl⟩ := List.mem_map.mp he
        rfl
    · rw [update_of_ne hy]
      exact h.calls y
  · rw [hrouters]
    by_cases hy : y = x
    · rw [hy, update_self, (dispatch_config hd).1]
      exact h.routes x
    · rw [update_of_ne hy]
      exact h.routes y
  · rw [hservers]
    exact h.consistent
  · rw [hread]
    exact (h.behind k).trans (hwritten k).length_le
  · obtain ⟨more, hmore⟩ := hwritten k
    rw [hservers, hread, h.received k, ← hmore, List.take_append_of_le_length (h.behind k)]

theorem inv_start (table : α → ObjID → Option AppID) (buf : α × ServerChan → Nat → V × PwrTime) :
    Inv net cntxt table (start net table buf) where
  history := ⟨[], .nil _⟩
  accounts := fun _ => accounts_start _ _ _
  calls := fun _ _ he => absurd he List.not_mem_nil
  routes := fun _ => rfl
  consistent := fun k => ServerState.consistent_start (cntxt k) (buf k)
  behind := fun _ => Nat.zero_le _
  received := fun _ => rfl
  taken := fun _ => List.nil_prefix
  replies := rfl
  own := fun _ he => absurd he List.not_mem_nil

omit [Zero V] [Add V] in
theorem made_worked {x : α} {rtr' : Router V} {new : List (RouterEvent V)}
    (hsends : (s.transport.routers x).Sends new rtr') :
    (s.transport.worked x rtr').made = s.transport.made ++ new.map fun re => (x, re) := by
  rw [Transport.worked, Transport.passed_of_sends hsends]

theorem Inv.continues (h : Inv net cntxt table s) {l : Transport.Label α V}
    {transport : Transport α V} (hstep : Transport.Step net s.transport l transport) :
    ∃ ls, Run (Transport.Step net) (Transport.start net table) ls transport := by
  obtain ⟨ls, hrun⟩ := h.history
  exact ⟨ls ++ [l], hrun.snoc hstep⟩

theorem inv_work (h : Inv net cntxt table s) {x : α} {l : Router.Label V} {rtr' : Router V}
    (hl : (s.transport.routers x).Orderly l) (hstep : (s.transport.routers x).Step l rtr') :
    Inv net cntxt table { s with transport := s.transport.worked x rtr' } := by
  have hsends := work_sends hl hstep.2
  have hmade := made_worked hsends
  refine h.router hstep.2 hsends rfl rfl rfl
    (h.continues (.work (fun re hre => absurd hre (hl.fromHere re)) hstep)) h.taken ?_ ?_
  · have hnone : ((((s.transport.routers x).forwards ((s.transport.routers x).clientSends l)).map
        Prod.snd).map fun re => (x, re)).filter (fun e => isResponse e.2.payload) = [] := by
      refine List.filter_eq_nil_iff.mpr fun e he => ?_
      obtain ⟨re, hre, rfl⟩ := List.mem_map.mp he
      exact (forwards_own hre).2
    rw [hmade, List.filter_append, hnone, List.append_nil]
    exact h.replies
  · intro e he hresp
    rw [hmade] at he
    rcases List.mem_append.mp he with he | he
    · exact h.own e he hresp
    · obtain ⟨re, hre, rfl⟩ := List.mem_map.mp he
      rw [(forwards_own hre).1, h.rtrId]

theorem inv_arrive (h : Inv net cntxt table s) {x : α} {ch : RtrChan}
    {transport : Transport α V} (hstep : Transport.Step net s.transport (.arrive x ch) transport) :
    Inv net cntxt table { s with transport } := by
  have hcontinues := h.continues hstep
  cases hstep with
  | @arrive x y ch re front back rtr' hflight hfront hpeer hstep =>
      exact h.router hstep.2 (processRouterEvent_sends hstep.2) rfl rfl rfl hcontinues h.taken
        h.replies h.own

theorem Inv.next (h : Inv net cntxt table s) {k : α × ServerChan} {reply : Reply V}
    (hnext : (s.servers k).sent[(s.taken k).length]? = some reply) :
    s.taken k ++ [reply] <+: (s.servers k).sent ∧ isResponse reply.event.payload = true ∧
      rtrIdOf reply.event.src = net.id k.1 := by
  obtain ⟨rest, hrest⟩ := h.taken k
  obtain ⟨hanswers, _, _, hlocal⟩ := h.sent (List.mem_of_getElem? hnext)
  refine ⟨?_, isResponse_of_matches hanswers.payload, by rw [hanswers.src, hlocal]⟩
  rw [← hrest, List.getElem?_append_right (Nat.le_refl _), Nat.sub_self] at hnext
  cases rest with
  | nil => cases hnext
  | cons first rest =>
      obtain rfl := Option.some.inj hnext
      exact ⟨rest, by rw [← hrest, List.append_assoc, List.singleton_append]⟩

theorem inv_reply (h : Inv net cntxt table s) {k : α × ServerChan} {reply : Reply V}
    {rtr' : Router V} (hnext : (s.servers k).sent[(s.taken k).length]? = some reply)
    (hstep : (s.transport.routers k.1).Step (.routerEvent reply.event) rtr') :
    Inv net cntxt table
      { s with transport := s.transport.worked k.1 rtr', came := s.came ++ [(k, reply)] } := by
  obtain ⟨htaken, hresp, hsrc⟩ := h.next hnext
  have hsends : (s.transport.routers k.1).Sends [reply.event] rtr' :=
    processRouterEvent_sends hstep.2
  have hmade : (s.transport.worked k.1 rtr').made = s.transport.made ++ [(k.1, reply.event)] :=
    made_worked hsends
  have hwork : Transport.Step net s.transport (.work k.1 (.routerEvent reply.event))
      (s.transport.worked k.1 rtr') := by
    refine .work (fun re hre => ?_) hstep
    rw [← Router.Label.routerEvent.inj hre]
    exact hsrc
  refine h.router hstep.2 hsends rfl rfl rfl (h.continues hwork) (fun k' => ?_) ?_ ?_
  · by_cases hk : k = k'
    · subst hk
      rw [Service.taken, eventsFor_append_self]
      exact htaken
    · rw [Service.taken, eventsFor_append_ne _ _ hk]
      exact h.taken k'
  · rw [hmade, List.filter_append, h.replies, List.map_append]
    simp [hresp]
  · intro e he hother
    rw [hmade] at he
    rcases List.mem_append.mp he with he | he
    · exact h.own e he hother
    · rw [List.mem_singleton.mp he] at hother
      exact absurd hresp hother

theorem Inv.server (h : Inv net cntxt table s) {k : α × ServerChan} {l : ServerState.Label V}
    {t : ServerState V} (hstep : (s.servers k).Step (cntxt k) l t) {n : Nat}
    (hn : n ≤ (s.written k).length)
    (hread : (((s.written k).take (s.read k)).filter isRequest) ++
        (l.request.toList.map (·.event)) = ((s.written k).take n).filter isRequest) :
    Inv net cntxt table
      { s with servers := update s.servers k t, read := update s.read k n } := by
  obtain ⟨t', ht', hconsistent, hreceived⟩ :=
    ServerState.exec_proceeds (h.consistent k) hstep.1
  obtain rfl := Option.some.inj (Except.ok.inj (hstep.2.symm.trans ht'))
  refine ⟨h.history, h.accounts, h.calls, h.routes, fun j => ?_, fun j => ?_, fun j => ?_,
    fun j => ?_, h.replies, h.own⟩
  · dsimp only
    by_cases hj : j = k
    · rw [hj, update_self]
      exact hconsistent
    · rw [update_of_ne hj]
      exact h.consistent j
  · dsimp only
    by_cases hj : j = k
    · rw [hj, update_self]
      exact hn
    · rw [update_of_ne hj]
      exact h.behind j
  · dsimp only
    by_cases hj : j = k
    · rw [hj, update_self, update_self, hreceived, List.map_append, h.received k, hread]
      rfl
    · rw [update_of_ne hj, update_of_ne hj]
      exact h.received j
  · dsimp only
    by_cases hj : j = k
    · rw [hj, update_self]
      exact (h.taken k).trans (ServerState.sent_exec hstep.2)
    · rw [update_of_ne hj]
      exact h.taken j

theorem inv_serve (h : Inv net cntxt table s) {k : α × ServerChan} {l : ServerState.Label V}
    {t : ServerState V} (hl : ∀ event chan key base id, l ≠ .routerEvent event chan key base id)
    (hstep : (s.servers k).Step (cntxt k) l t) :
    Inv net cntxt table { s with servers := update s.servers k t } := by
  have hrequest : l.request = none := by
    cases l with
    | routerEvent event chan key base id => exact absurd rfl (hl event chan key base id)
    | _ => rfl
  have hnext := h.server hstep (h.behind k) (by rw [hrequest]; exact List.append_nil _)
  rwa [update_eq_self] at hnext

theorem inv_deliver (h : Inv net cntxt table s) {k : α × ServerChan} {event : RouterEvent V}
    {chan base : Nat} {key : EventKey} {id : EventId} {t : ServerState V}
    (hevent : (s.written k)[s.read k]? = some event)
    (hstep : (s.servers k).Step (cntxt k) (.routerEvent event chan key base id) t) :
    Inv net cntxt table
      { s with servers := update s.servers k t, read := update s.read k (s.read k + 1) } := by
  obtain ⟨hlt, _⟩ := List.getElem?_eq_some_iff.mp hevent
  refine h.server hstep hlt ?_
  rw [List.take_add_one, hevent, List.filter_append]
  congr 1
  by_cases hrequest : isRequest event
  · have hsome : (Server.requests event.payload).isSome := hrequest
    simp [ServerState.Label.request, hsome, hrequest]
  · have hnone : ¬ (Server.requests event.payload).isSome := hrequest
    simp [ServerState.Label.request, hnone, hrequest]

theorem inv_step (s : Service α V) (l : Label α V) (s' : Service α V)
    (h : Inv net cntxt table s) (hstep : Step net cntxt s l s') : Inv net cntxt table s' := by
  cases hstep with
  | work hl hstep => exact inv_work h hl hstep
  | arrive hstep => exact inv_arrive h hstep
  | serve hl hstep => exact inv_serve h hl hstep
  | deliver hevent hstep => exact inv_deliver h hevent hstep
  | reply hnext hstep => exact inv_reply h hnext hstep

theorem inv_run {buf : α × ServerChan → Nat → V × PwrTime} {ls : List (Label α V)}
    (hrun : Run (Step net cntxt) (start net table buf) ls s) : Inv net cntxt table s :=
  hrun.invariant _ inv_step (inv_start table buf)

end Invariant

end Service

end PwrApi
