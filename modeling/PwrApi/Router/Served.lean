import PwrApi.Router.Replies
import PwrApi.Router.Singles

/-! The requests a router serves: what it accepts from its clients, and that every
accepted request is answered without a fault. -/

namespace PwrApi.Router

open Function Runs

variable {V : Type} {rtr rtr' : Router V}

section Requests

/-- An object of the route table whose server is here, not yet connected or on an open
channel, or on a router that can be reached from this one. -/
def Routable (rtr : Router V) (obj : ObjID) : Prop :=
  ∃ dest, rtr.routeTable obj = some dest ∧ dest ≠ unrouted ∧
    if rtrIdOf dest = rtr.rtrId then
      ∀ ec, rtr.localMap (serverIdOf dest) = some ec → rtr.serverMap ec ≠ none
    else rtr.getChannel (rtrIdOf dest) ≠ none

theorem routable_mail {obj : ObjID} (h : rtr.Routable obj) (hmail : MailOnly rtr rtr') :
    rtr'.Routable obj := by
  unfold Routable
  rw [hmail.routeTable, hmail.rtrId, hmail.localMap, hmail.serverMap, hmail.getChannel]
  exact h

theorem sendEventTo_total {obj : ObjID} (hroute : rtr.Routable obj)
    (ev : Payload V) : ∃ rtr', rtr.sendEventTo obj ev = .ok rtr' := by
  obtain ⟨dest, htable, hdest, hreach⟩ := hroute
  have hfind : rtr.findRoute obj = dest := by
    rw [findRoute, htable, Option.getD_some]
  unfold sendEventTo
  rw [hfind]
  dsimp only
  rw [if_neg hdest]
  by_cases hlocal : rtrIdOf dest = rtr.rtrId
  · rw [if_pos hlocal] at hreach
    have hchan : rtr.destChan dest =
        .ok ((rtr.findServerChan (serverIdOf dest)).map .server) := if_pos hlocal
    cases hserver : rtr.findServerChan (serverIdOf dest) with
    | none => simp [sendEvent, hchan, hserver, bind, Except.bind]
    | some ec =>
        have hfound : rtr.localMap (serverIdOf dest) = some ec := by
          unfold findServerChan at hserver
          split at hserver
          · cases hserver
          · exact hserver
        have hec := hreach ec hfound
        simp [sendEvent, hchan, hserver, writeEvent, newEvent, recordCall, require, hec, bind,
          Except.bind]
  · rw [if_neg hlocal] at hreach
    obtain ⟨ch, hch⟩ := Option.ne_none_iff_exists'.mp hreach
    have hchan : rtr.destChan dest = .ok (some (.router ch)) := by
      simp [destChan, hlocal, hch, bind, Except.bind]
    exact ⟨_, sendEvent_router hchan⟩

theorem sends_total {ι : Type} (obj : ι → ObjID) (ev : ι → Payload V) (xs : List ι)
    (hroute : ∀ x ∈ xs, rtr.Routable (obj x)) :
    ∃ rtr', xs.foldlM (fun rtr x => rtr.sendEventTo (obj x) (ev x)) rtr = .ok rtr' := by
  induction xs generalizing rtr with
  | nil => exact ⟨rtr, rfl⟩
  | cons x xs ih =>
      obtain ⟨mid, hmid⟩ := sendEventTo_total (hroute x List.mem_cons_self) (ev x)
      have hmail := sendEventTo_mailOnly hmid
      obtain ⟨rtr', hrest⟩ := ih fun y hy =>
        routable_mail (hroute y (List.mem_cons_of_mem x hy)) hmail
      refine ⟨rtr', ?_⟩
      rw [List.foldlM_cons, bind_eq_ok]
      exact ⟨mid, hmid, hrest⟩

theorem getCommList_of {ec : ClientChan} {id : CommID} {commList : List (List ObjID)}
    (h : commListOf rtr ec id = some commList) :
    ∃ client, rtr.clientMap ec = some client ∧ client.getCommList id = .ok commList := by
  unfold commListOf at h
  cases hclient : rtr.clientMap ec with
  | none => simp [hclient] at h
  | some client =>
      refine ⟨client, rfl, ?_⟩
      cases hlookup : client.commMap.lookup id with
      | none => simp [hclient, hlookup] at h
      | some ev =>
          simp only [hclient, hlookup, Option.bind_eq_bind, Option.bind_some,
            Option.some.injEq] at h
          simp [Client.getCommList, hlookup, h, bind, Except.bind]

theorem processCommReq_total {ec : ClientChan} {ev : CommReqEvent V} {p : EventId}
    {commList : List (List ObjID)}
    (hlist : commListOf rtr ec ev.commID = some commList)
    (hroute : ∀ group ∈ commList, ∀ obj ∈ group, rtr.Routable obj) :
    ∃ rtr', rtr.processCommReq ec ev p = .ok rtr' := by
  obtain ⟨client, hclient, hcomm⟩ := getCommList_of hlist
  simp only [processCommReq, getClient, hclient, orFault_some, hcomm, bind, Except.bind]
  refine sends_total Prod.fst (fun sent => Payload.commReq sent.2) _ ?_
  intro sent hsent
  obtain ⟨group, hgroup, hobj⟩ := mem_fanOut hsent
  exact hroute group hgroup sent.1 hobj

theorem processSingle_total {ec : ClientChan} {comm : CommEvent} {obj : ObjID} (p : EventId)
    (ev resp : Payload V) (hlist : commListOf rtr ec comm.commID = some [[obj]])
    (hroute : rtr.Routable obj) :
    ∃ rtr', rtr.processSingle ec comm p ev resp = .ok rtr' := by
  obtain ⟨client, hclient, hcomm⟩ := getCommList_of hlist
  simp only [processSingle, getClient, hclient, orFault_some, hcomm, bind, Except.bind]
  refine sends_total id (fun _ => ev) [obj] ?_
  intro other hother
  obtain rfl := List.mem_singleton.mp hother
  exact hroute

theorem processSingle_shape {ec : ClientChan} {comm : CommEvent}
    {commList : List (List ObjID)} (p : EventId) (ev resp : Payload V)
    (hlist : commListOf rtr ec comm.commID = some commList)
    (hshape : ¬ ∃ obj, commList = [[obj]]) :
    rtr.processSingle ec comm p ev resp = .error .assertFailed := by
  obtain ⟨client, hclient, hcomm⟩ := getCommList_of hlist
  simp only [processSingle, getClient, hclient, orFault_some, hcomm, bind, Except.bind]
  by_cases hgroups : commList.length = 1
  · obtain ⟨group, rfl⟩ := List.length_eq_one_iff.mp hgroups
    have hgroup : ¬ group.length = 1 := by
      intro hone
      obtain ⟨obj, rfl⟩ := List.length_eq_one_iff.mp hone
      exact hshape ⟨obj, rfl⟩
    simp [require, hgroup]
  · simp [require, hgroups]

/-- A request on a communicator of its client whose sources can be reached; a request
of the kinds for one object has one source. -/
def Askable (rtr : Router V) (ec : ClientChan) : Payload V → Prop
  | .commReq ev => ∃ commList, commListOf rtr ec ev.commID = some commList ∧
      ∀ group ∈ commList, ∀ obj ∈ group, rtr.Routable obj
  | .commLogReq ev => ∃ obj, commListOf rtr ec ev.commID = some [[obj]] ∧ rtr.Routable obj
  | .commGetSamplesReq ev =>
      ∃ obj, commListOf rtr ec ev.commID = some [[obj]] ∧ rtr.Routable obj
  | _ => False

theorem request_total [Zero V] [Add V] {ec : ClientChan} {ev : Payload V} (p : EventId)
    (hask : rtr.Askable ec ev) : ∃ rtr', rtr.dispatch (.clientEvent ec ev p) = .ok rtr' := by
  cases ev with
  | commReq req =>
      obtain ⟨commList, hlist, hroute⟩ := hask
      exact processCommReq_total hlist hroute
  | commLogReq req =>
      obtain ⟨obj, hlist, hroute⟩ := hask
      exact processSingle_total p _ _ hlist hroute
  | commGetSamplesReq req =>
      obtain ⟨obj, hlist, hroute⟩ := hask
      exact processSingle_total p _ _ hlist hroute
  | _ => exact hask.elim

end Requests

namespace Net

/-- The steps for which the router is made: a `Get` adds, and its answers cover the
attributes. -/
structure Supported (net : Net V) (l : Label V) : Prop where
  adds : ∀ ec ev p, requestOf l = some (ec, .commReq ev, p) → ev.op = .get →
    ∀ op ∈ ev.valueOp, op = .fpAdd
  covers : ∀ r req, net.rtr.responseOf l = some (.commResp r) → net.current r.id = some req →
    req.ev.op = .get → Covers req.ev.valueOp.length r

/-- Every `Get` under way adds, and its answers so far cover the attributes. -/
def Covered (net : Net V) : Prop :=
  ∀ p req, net.current p = some req → req.ev.op = .get →
    (∀ op ∈ req.ev.valueOp, op = .fpAdd) ∧
    ∀ g, ∀ r ∈ req.answers g, Covers req.ev.valueOp.length r

section Supported

variable {net net' : Net V} {l : Label V}

theorem covered_request (h : net.Covered) {ec : ClientChan} {ev : Payload V} {p : EventId}
    (hreq : requestOf l = some (ec, ev, p)) (hsupported : net.Supported l) :
    (net.afterRequest ec ev p).Covered := by
  cases ev with
  | commReq req =>
      simp only [afterRequest]
      cases commListOf net.rtr ec req.commID with
      | none => exact h
      | some commList =>
          intro q other hq hop
          rcases Table.update_some hq with ⟨rfl, rfl⟩ | ⟨_, hq⟩
          · exact ⟨hsupported.adds ec req q hreq hop, by simp⟩
          · exact h q other hq hop
  | _ => exact h

theorem covered_response (h : net.Covered) {ev : Payload V}
    (hresp : net.rtr.responseOf l = some ev) (hsupported : net.Supported l) :
    (net.afterResponse ev).Covered := by
  cases ev with
  | commResp r =>
      simp only [afterResponse]
      cases hp : net.current r.id with
      | none => exact h
      | some req =>
          dsimp only
          split
          · intro q other hq hop
            exact h q other (Table.update_none hq).2 hop
          · intro q other hq hop
            rcases Table.update_some hq with ⟨rfl, rfl⟩ | ⟨_, hq⟩
            · rw [Request.answer_ev] at hop ⊢
              obtain ⟨hadds, hcovers⟩ := h r.id req hp hop
              refine ⟨hadds, ?_⟩
              intro g r' hr'
              by_cases hg : g = r.grpIndex.toNat
              · subst hg
                rw [Request.answers_self, List.mem_append, List.mem_singleton] at hr'
                rcases hr' with hold | rfl
                · exact hcovers _ r' hold
                · exact hsupported.covers r' req hresp hp hop
              · rw [Request.answers_ne req r hg] at hr'
                exact hcovers g r' hr'
            · exact h q other hq hop
  | _ => exact h

theorem servable_of_covered (h : net.Covered) {r : CommRespEvent V}
    (hresp : net.rtr.responseOf l = some (.commResp r)) (hsupported : net.Supported l) :
    net.Servable r := by
  intro req hp hop
  obtain ⟨hadds, hcovers⟩ := h r.id req hp hop
  refine ⟨hadds, ?_⟩
  intro r' hr'
  rw [List.mem_append, List.mem_singleton] at hr'
  rcases hr' with hold | rfl
  · exact hcovers _ r' hold
  · exact hsupported.covers r' req hresp hp hop

variable [AddMonoid V]

theorem covered_step (h : net.Covered) (hstep : net.Step l net') (hsupported : net.Supported l) :
    net'.Covered := by
  have hcurrent : ∀ mid : Net V, mid.Covered → ({ mid with rtr := net'.rtr } : Net V).Covered :=
    fun mid hmid => hmid
  obtain ⟨_, _, hnet⟩ := hstep
  rw [hnet]
  unfold after
  apply hcurrent
  cases hresp : net.rtr.responseOf l with
  | some ev => exact covered_response h hresp hsupported
  | none =>
      cases hreq : requestOf l with
      | some req => exact covered_request h hreq hsupported
      | none => exact h

theorem awaited_single (hinv : net.Inv) (h : net.SinglesInv) {p : EventId} {tag : Tag}
    (hmem : tag ∈ net.inFlight) (htag : SingleTag p tag) :
    ∃ s info, net.single p = some s ∧ s.tag = tag ∧ net.rtr.infos p = some info ∧
      info.src = s.src ∧ s.Prepared info.resp ∧ net.rtr.clientMap info.src ≠ none := by
  obtain ⟨s, hs, hstag⟩ := h.known p tag hmem htag
  obtain ⟨_, info, hinfo, hsrc, hprepared⟩ := h.prepared p s hs
  exact ⟨s, info, hs, hstag, hinfo, hsrc, hprepared, hinv.registered p info hinfo⟩

theorem dispatch_reply {ev reply : Payload V} {src : ClientChan} {p : EventId}
    (hl : net.rtr.responseOf l = some ev)
    (hserver : ∀ rtr₀, SameRequests net.rtr rtr₀ → rtr₀.processServer none ev = .ok { rtr₀ with
      infos := update rtr₀.infos p none
      replies := rtr₀.replies ++ [(src, reply)] }) :
    ∃ rtr', net.rtr.dispatch l = .ok rtr' ∧ rtr'.replies = net.rtr.replies ++ [(src, reply)] := by
  obtain ⟨_, rtr₀, f, hsame, hf, hmap⟩ := dispatch_response hl
  rw [hserver rtr₀ hsame] at hmap
  refine ⟨_, hmap, ?_⟩
  rw [(hf _).replies, hsame.replies]

theorem logResp_total (hinv : net.Inv) (h : net.SinglesInv) {r : CommLogRespEvent}
    (hl : net.rtr.responseOf l = some (.commLogResp r)) (hmem : .log r.id ∈ net.inFlight) :
    ∃ s rtr', net.single r.id = some s ∧ net.rtr.dispatch l = .ok rtr' ∧
      rtr'.replies = net.rtr.replies ++ [(s.src, .commLogResp
        { r with toCommEvent := newCommEvent .commLogResp s.id 0 })] := by
  obtain ⟨s, info, hs, htag, hinfo, hsrc, hprepared, hclient⟩ :=
    awaited_single hinv h hmem (.inl rfl)
  simp only [Single.Prepared, htag] at hprepared
  obtain ⟨resp, hresp, hevent⟩ := hprepared
  have hserver (rtr₀ : Router V) (hsame : SameRequests net.rtr rtr₀) :
      rtr₀.processServer none (.commLogResp r) = .ok { rtr₀ with
        infos := update rtr₀.infos r.id none
        replies := rtr₀.replies ++ [(info.src, .commLogResp
          { r with toCommEvent := resp.toCommEvent })] } := by
    rw [← hsame.infos] at hinfo
    rw [← hsame.clientMap] at hclient
    simp [processServer, processCommLogResp, hinfo, hresp, sendResp,
      require_of .deadChannel hclient, bind, Except.bind]
  obtain ⟨rtr', hdispatch, hreplies⟩ := dispatch_reply hl hserver
  exact ⟨s, rtr', hs, hdispatch, by rw [hreplies, hsrc, hevent]⟩

theorem samplesResp_total (hinv : net.Inv) (h : net.SinglesInv) {r : CommGetSamplesRespEvent V}
    (hl : net.rtr.responseOf l = some (.commGetSamplesResp r))
    (hmem : .samples r.id ∈ net.inFlight) :
    ∃ s rtr', net.single r.id = some s ∧ net.rtr.dispatch l = .ok rtr' ∧
      rtr'.replies = net.rtr.replies ++ [(s.src, .commGetSamplesResp
        { r with toCommEvent := newCommEvent .commGetSamplesResp s.id 0 })] := by
  obtain ⟨s, info, hs, htag, hinfo, hsrc, hprepared, hclient⟩ :=
    awaited_single hinv h hmem (.inr rfl)
  simp only [Single.Prepared, htag] at hprepared
  obtain ⟨resp, hresp, hevent⟩ := hprepared
  have hserver (rtr₀ : Router V) (hsame : SameRequests net.rtr rtr₀) :
      rtr₀.processServer none (.commGetSamplesResp r) = .ok { rtr₀ with
        infos := update rtr₀.infos r.id none
        replies := rtr₀.replies ++ [(info.src, .commGetSamplesResp
          { r with toCommEvent := resp.toCommEvent })] } := by
    rw [← hsame.infos] at hinfo
    rw [← hsame.clientMap] at hclient
    simp [processServer, processCommGetSamplesResp, hinfo, hresp, sendResp,
      require_of .deadChannel hclient, bind, Except.bind]
  obtain ⟨rtr', hdispatch, hreplies⟩ := dispatch_reply hl hserver
  exact ⟨s, rtr', hs, hdispatch, by rw [hreplies, hsrc, hevent]⟩

/-- What holds in every state that supported steps reach. -/
structure Ready (net : Net V) : Prop where
  inv : net.Inv
  singles : net.SinglesInv
  covered : net.Covered

theorem ready_run {rtrId : RouterID} {routeTable : ObjID → Option AppID}
    {getChannel : RouterID → Option RtrChan} {ls : List (Label V)} {net : Net V}
    (hrun : Run (Restrict Step Supported) (start rtrId routeTable getChannel) ls net) :
    net.Ready := by
  refine hrun.invariant Ready ?_ ⟨inv_start rtrId routeTable getChannel, ?_, ?_⟩
  · intro s l t hs hstep
    exact ⟨inv_step hs.inv hstep.1, singles_step hs.singles hs.inv hstep.1,
      covered_step hs.covered hstep.1 hstep.2⟩
  · exact ⟨by simp [start], by simp [start], by simp [start]⟩
  · intro p req hp
    cases hp

/-- In every state that supported steps reach, in any order: a request on a communicator
of its client is accepted; the answer to any forwarded request is processed without a
fault, and that of a log or samples request is the response to its client; a `Get` or
`Set` whose sources have all answered is closed, and every closed one has got its response,
with the sum of the values of its sources for each attribute. A log or samples request on
any other communicator fails an assertion, and so does, in every state that any steps
reach, the last answer of a group of a `Get` that does more than add. -/
theorem supported_requests_served (rtrId : RouterID) (routeTable : ObjID → Option AppID)
    (getChannel : RouterID → Option RtrChan) (ls : List (Label V)) (net : Net V)
    (hrun : Run (Restrict Step Supported) (start rtrId routeTable getChannel) ls net) :
    (∀ ec ev p, net.rtr.Askable ec ev →
      ∃ rtr', net.rtr.dispatch (.clientEvent ec ev p) = .ok rtr') ∧
    (∀ l r, net.rtr.responseOf l = some (.commResp r) →
      .comm r.id r.grpIndex ∈ net.inFlight → net.Supported l →
      ∃ rtr', net.rtr.dispatch l = .ok rtr') ∧
    (∀ l r, net.rtr.responseOf l = some (.commLogResp r) → .log r.id ∈ net.inFlight →
      ∃ s rtr', net.single r.id = some s ∧ net.rtr.dispatch l = .ok rtr' ∧
        rtr'.replies = net.rtr.replies ++ [(s.src, .commLogResp
          { r with toCommEvent := newCommEvent .commLogResp s.id 0 })]) ∧
    (∀ l r, net.rtr.responseOf l = some (.commGetSamplesResp r) → .samples r.id ∈ net.inFlight →
      ∃ s rtr', net.single r.id = some s ∧ net.rtr.dispatch l = .ok rtr' ∧
        rtr'.replies = net.rtr.replies ++ [(s.src, .commGetSamplesResp
          { r with toCommEvent := newCommEvent .commGetSamplesResp s.id 0 })]) ∧
    (∀ p, (∀ g, .comm p g ∉ net.inFlight) → p ∉ net.live) ∧
    net.asked.Perm
      ((commReplies net.rtr.replies).map (fun reply => (reply.1, reply.2.id)) ++
        net.liveKeys) ∧
    List.Forall₂ Answered net.closed (commReplies net.rtr.replies) ∧
    (∀ ec p commList, (¬ ∃ obj, commList = [[obj]]) →
      (∀ ev : CommLogReqEvent, commListOf net.rtr ec ev.commID = some commList →
        net.rtr.dispatch (.clientEvent ec (.commLogReq ev) p) = .error .assertFailed) ∧
      ∀ ev : CommGetSamplesReqEvent V, commListOf net.rtr ec ev.commID = some commList →
        net.rtr.dispatch (.clientEvent ec (.commGetSamplesReq ev) p) = .error .assertFailed) ∧
    ∀ (ls : List (Label V)) (net : Net V), Run Step (start rtrId routeTable getChannel) ls net →
      ∀ l r req, net.rtr.responseOf l = some (.commResp r) →
        .comm r.id r.grpIndex ∈ net.inFlight → net.Refused r req →
        net.rtr.dispatch l = .error .assertFailed := by
  have h : net.Ready := ready_run hrun
  refine ⟨fun ec ev p => request_total p, ?_, fun l r => logResp_total h.inv h.singles,
    fun l r => samplesResp_total h.inv h.singles, ?_, ?_, h.inv.answered,
    fun ec p commList hshape => ⟨fun ev hlist => processSingle_shape p _ _ hlist hshape,
      fun ev hlist => processSingle_shape p _ _ hlist hshape⟩,
    fun ls net hrun l r req => response_refused (inv_run hrun)⟩
  · intro l r hl hmem hsupported
    exact response_total h.inv hl hmem (servable_of_covered h.covered hl hsupported)
  · intro p hnone hlive
    obtain ⟨req, hp⟩ := Option.ne_none_iff_exists'.mp ((h.inv.mem_live p).mp hlive)
    obtain ⟨g, hg⟩ := live_awaits h.inv hp
    exact hnone g hg
  · rw [replies_keys h.inv]
    exact h.inv.asked

def averageOfOne : List (Label Int) :=
  [.acceptServer 7,
    .serverEvent 7 (.serverConnect { toEvent := Event.ofType .serverConnect, name := [110] }),
    .acceptClient 4,
    .clientEvent 4 (.commCreate
      { toCommEvent := newCommEvent .commCreate 0 9, members := [[[110]]] }) 0,
    .clientEvent 4 (.commReq
      { toCommEvent := { newCommEvent .commReq 1 9 with op := .get }, grpIndex := 0
        attrName := [.power], setValues := [], valueOp := [.fpAvg] }) 100]

theorem averageOfOne_run : ∃ net : Net Int,
    Run Step (start 1 oneServer fun _ => none) averageOfOne net ∧
      net.inFlight = [.comm 100 0] ∧ ∃ req, net.Refused (powerResp 20 5) req := by
  refine ⟨_, .cons (step_of rfl rfl (admissible_other (by simp) (by simp [requestOf]) rfl))
    (.cons (step_of trivial rfl (admissible_other (by simp) (by simp [requestOf]) rfl))
    (.cons (step_of rfl rfl (admissible_other (by simp) (by simp [requestOf]) rfl))
    (.cons (step_of rfl rfl (admissible_other (by simp) (by simp [requestOf]) rfl))
    (.cons (step_of rfl rfl (admissible_commReq rfl (by decide) (by decide) (by decide)))
    (.nil _))))), rfl, _, rfl, rfl, ⟨.fpAvg, List.mem_singleton_self _, by decide⟩, rfl, ?_⟩
  intro r hr
  obtain rfl := List.mem_singleton.mp hr
  exact ⟨by decide, by decide⟩

/-- The only answer to an average fails an assertion, and so does the request for a log
on a communicator of two objects. -/
theorem average_is_not_served :
    (∃ net : Net Int, Run Step (start 1 oneServer fun _ => none) averageOfOne net ∧
      net.inFlight = [.comm 100 0] ∧
      net.rtr.dispatch (powerAnswer 20 5) = .error .assertFailed) ∧
    ∃ net : Net Int, Run Step (start 1 oneServer fun _ => none) (twoSources.take 4) net ∧
      net.rtr.dispatch (.clientEvent 4 (.commLogReq
        { toCommEvent := { newCommEvent .commLogReq 1 9 with op := .start }
          attrName := .power }) 100) = .error .assertFailed := by
  constructor
  · obtain ⟨net, hrun, hflight, req, hrefused⟩ := averageOfOne_run
    refine ⟨net, hrun, hflight, response_refused (inv_run hrun) rfl ?_ hrefused⟩
    simp [hflight, powerResp, newCommEvent]
  · refine ⟨_, .cons (step_of rfl rfl (admissible_other (by simp) (by simp [requestOf]) rfl))
      (.cons (step_of trivial rfl (admissible_other (by simp) (by simp [requestOf]) rfl))
      (.cons (step_of rfl rfl (admissible_other (by simp) (by simp [requestOf]) rfl))
      (.cons (step_of rfl rfl (admissible_other (by simp) (by simp [requestOf]) rfl))
      (.nil _)))), ?_⟩
    rfl

theorem supported_other {V : Type} {net : Net V} {l : Label V}
    (hreq : ∀ ec ev p, requestOf l ≠ some (ec, .commReq ev, p))
    (hresp : net.rtr.responseOf l = none) : net.Supported l := by
  constructor
  · intro ec ev p h
    exact (hreq ec ev p h).elim
  · intro r req h
    rw [hresp] at h
    cases h

theorem twoSources_supported :
    ∃ net : Net Int, Run (Restrict Step Supported) (start 1 oneServer fun _ => none)
      (twoSources ++ [powerAnswer 20 5]) net ∧ net.inFlight = [.comm 100 0] ∧
      net.Supported (powerAnswer 22 6) ∧
      commListOf net.rtr 4 9 = some [[[110], [110]]] := by
  refine ⟨_, .cons ⟨step_of rfl rfl (admissible_other (by simp) (by simp [requestOf]) rfl),
      supported_other (by simp [requestOf]) rfl⟩
    (.cons ⟨step_of trivial rfl (admissible_other (by simp) (by simp [requestOf]) rfl),
      supported_other (by simp [requestOf]) rfl⟩
    (.cons ⟨step_of rfl rfl (admissible_other (by simp) (by simp [requestOf]) rfl),
      supported_other (by simp [requestOf]) rfl⟩
    (.cons ⟨step_of rfl rfl (admissible_other (by simp) (by simp [requestOf]) rfl),
      supported_other (by simp [requestOf]) rfl⟩
    (.cons ⟨step_of rfl rfl (admissible_commReq rfl (by decide) (by decide) (by decide)), ?_⟩
    (.cons ⟨step_of trivial rfl (admissible_response rfl (by decide)), ?_⟩ (.nil _)))))),
    rfl, ?_, rfl⟩
  · refine ⟨?_, by simp [responseOf]⟩
    intro ec ev p h
    cases h
    simp
  · refine ⟨by simp [requestOf, powerAnswer], ?_⟩
    intro r req h hp hop
    cases h
    cases hp
    exact ⟨by decide, by decide⟩
  · refine ⟨by simp [requestOf, powerAnswer], ?_⟩
    intro r req h hp hop
    cases h
    cases hp
    exact ⟨by decide, by decide⟩

theorem supported_requests_served_twoSources :
    ∃ net refusing : Net Int, net.inFlight = [.comm 100 0] ∧
      (∃ rtr', net.rtr.dispatch (powerAnswer 22 6) = .ok rtr') ∧
      net.rtr.dispatch (.clientEvent 4 (.commLogReq
        { toCommEvent := { newCommEvent .commLogReq 1 9 with op := .start }
          attrName := .power }) 101) = .error .assertFailed ∧
      refusing.inFlight = [.comm 100 0] ∧
      refusing.rtr.dispatch (powerAnswer 20 5) = .error .assertFailed := by
  obtain ⟨net, hrun, hflight, hsupported, hlist⟩ := twoSources_supported
  obtain ⟨refusing, hrun', hflight', req, hrefused⟩ := averageOfOne_run
  obtain ⟨_, hanswer, _, _, _, _, _, hshape, hrefuse⟩ :=
    supported_requests_served 1 oneServer (fun _ => none) _ net hrun
  refine ⟨net, refusing, hflight, ?_, (hshape 4 101 _ (by simp)).1 _ hlist, hflight', ?_⟩
  · apply hanswer _ _ rfl _ hsupported
    simp [hflight, powerResp, newCommEvent]
  · apply hrefuse _ refusing hrun' _ _ req rfl _ hrefused
    simp [hflight', powerResp, newCommEvent]

end Supported

end Net

end PwrApi.Router
