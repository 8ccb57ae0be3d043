import PwrApi.Router.Dispatch

/-! What sending and the handlers built on it leave unchanged. Sending touches the
mail of a router and none of its tables. -/

namespace PwrApi.Router

open Function Runs

variable {V : Type}

/-- The two states differ in their mail only. -/
def MailOnly (rtr rtr' : Router V) : Prop := rtr' = { rtr with mail := rtr'.mail }

section Mail

variable {rtr rtr' : Router V}

theorem MailOnly.refl (rtr : Router V) : MailOnly rtr rtr := rfl

theorem MailOnly.trans {mid : Router V} (h : MailOnly rtr mid) (k : MailOnly mid rtr') :
    MailOnly rtr rtr' := by
  unfold MailOnly at h k ⊢
  rw [k, h]

theorem MailOnly.infos (h : MailOnly rtr rtr') : rtr'.infos = rtr.infos := by
  rw [show rtr' = _ from h]

theorem MailOnly.clientMap (h : MailOnly rtr rtr') : rtr'.clientMap = rtr.clientMap := by
  rw [show rtr' = _ from h]

theorem MailOnly.serverMap (h : MailOnly rtr rtr') : rtr'.serverMap = rtr.serverMap := by
  rw [show rtr' = _ from h]

theorem MailOnly.localMap (h : MailOnly rtr rtr') : rtr'.localMap = rtr.localMap := by
  rw [show rtr' = _ from h]

theorem MailOnly.routeTable (h : MailOnly rtr rtr') : rtr'.routeTable = rtr.routeTable := by
  rw [show rtr' = _ from h]

theorem MailOnly.getChannel (h : MailOnly rtr rtr') : rtr'.getChannel = rtr.getChannel := by
  rw [show rtr' = _ from h]

theorem MailOnly.rtrId (h : MailOnly rtr rtr') : rtr'.rtrId = rtr.rtrId := by
  rw [show rtr' = _ from h]

theorem MailOnly.replies (h : MailOnly rtr rtr') : rtr'.replies = rtr.replies := by
  rw [show rtr' = _ from h]

theorem writeEvent_ok {ch : Chan} {ptr : EventPtr} (h : rtr.writeEvent ch ptr = .ok rtr') :
    ∃ re, rtr.mail.events ptr = some re ∧
      rtr' = { rtr with mail := { rtr.mail with written := rtr.mail.written ++ [(ch, re)] } } := by
  cases ch with
  | server ec =>
      simp only [writeEvent, bind_eq_ok, orFault_eq_ok, require_eq_ok, Except.ok.injEq] at h
      obtain ⟨re, hre, _, _, hrtr⟩ := h
      exact ⟨re, hre, hrtr.symm⟩
  | router ec =>
      simp only [writeEvent, bind_eq_ok, orFault_eq_ok, Except.ok.injEq] at h
      obtain ⟨re, hre, _, _, hrtr⟩ := h
      exact ⟨re, hre, hrtr.symm⟩

theorem destChan_ok {dest : AppID} {ec : Option Chan} (h : rtr.destChan dest = .ok ec) :
    (rtrIdOf dest = rtr.rtrId ∧ ec = (rtr.findServerChan (serverIdOf dest)).map .server) ∨
    (rtrIdOf dest ≠ rtr.rtrId ∧ ∃ ch, rtr.getChannel (rtrIdOf dest) = some ch ∧
      ec = some (.router ch)) := by
  unfold destChan at h
  by_cases hlocal : rtrIdOf dest = rtr.rtrId
  · rw [if_pos hlocal] at h
    exact .inl ⟨hlocal, (Except.ok.inj h).symm⟩
  · rw [if_neg hlocal, bind_eq_ok] at h
    obtain ⟨ch, hch, hec⟩ := h
    exact .inr ⟨hlocal, ch, orFault_eq_ok.mp hch, (Except.ok.inj hec).symm⟩

/-- The state in which a new event has been written and deleted. -/
def sentOn (rtr : Router V) (dest : AppID) (re : RouterEvent V) (ch : Chan) : Router V :=
  { rtr with mail := { rtr.mail with
    events := update rtr.mail.events rtr.mail.nextEvent none
    nextEvent := rtr.mail.nextEvent + 1
    written := rtr.mail.written ++ [(ch, re)]
    calls := rtr.mail.calls ++ [(dest, re)] } }

theorem sendEvent_ok {dest : AppID} {ev : Payload V} (h : rtr.sendEvent dest ev = .ok rtr') :
    let re : RouterEvent V := ⟨appId rtr.rtrId noServer, dest, ev⟩
    (rtr.destChan dest = .ok none ∧
      rtr' = ((rtr.recordCall dest re).newEvent re).pushPending (serverIdOf dest)
        rtr.mail.nextEvent) ∨
    (∃ ch, rtr.destChan dest = .ok (some ch) ∧ rtr' = rtr.sentOn dest re ch) := by
  intro re
  simp only [sendEvent, bind_eq_ok] at h
  obtain ⟨ec, hec, h⟩ := h
  cases ec with
  | none => exact .inl ⟨hec, (Except.ok.inj h).symm⟩
  | some ch =>
      refine .inr ⟨ch, hec, ?_⟩
      simp only [bind_eq_ok] at h
      obtain ⟨mid, hmid, hrtr⟩ := h
      obtain ⟨re', hre', rfl⟩ := writeEvent_ok hmid
      have : re' = re := by
        simpa [newEvent, recordCall, eq_comm] using hre'
      subst this
      rw [← Except.ok.inj hrtr]
      simp only [sentOn, deleteEvent, newEvent, recordCall, update_idem]
      rfl

theorem sendEvent_router {dest : AppID} {ev : Payload V} {ch : RtrChan}
    (h : rtr.destChan dest = .ok (some (.router ch))) :
    rtr.sendEvent dest ev =
      .ok (rtr.sentOn dest ⟨appId rtr.rtrId noServer, dest, ev⟩ (.router ch)) := by
  simp [sendEvent, h, writeEvent, sentOn, deleteEvent, newEvent, recordCall, bind, Except.bind]

theorem sendEvent_mailOnly {dest : AppID} {ev : Payload V}
    (h : rtr.sendEvent dest ev = .ok rtr') : MailOnly rtr rtr' := by
  rcases sendEvent_ok h with ⟨_, rfl⟩ | ⟨ch, _, rfl⟩ <;> rfl

theorem sendEventTo_cases {obj : ObjID} {ev : Payload V}
    (h : rtr.sendEventTo obj ev = .ok rtr') :
    (rtr.findRoute obj = unrouted ∧ rtr' = rtr) ∨
    (rtr.findRoute obj ≠ unrouted ∧ rtr.sendEvent (rtr.findRoute obj) ev = .ok rtr') := by
  unfold sendEventTo at h
  by_cases hroute : rtr.findRoute obj = unrouted
  · simp only [hroute, if_true] at h
    exact .inl ⟨hroute, (Except.ok.inj h).symm⟩
  · simp only [hroute, if_false] at h
    exact .inr ⟨hroute, h⟩

theorem sendEventTo_mailOnly {obj : ObjID} {ev : Payload V}
    (h : rtr.sendEventTo obj ev = .ok rtr') : MailOnly rtr rtr' := by
  rcases sendEventTo_cases h with ⟨_, rfl⟩ | ⟨_, h⟩
  · exact .refl _
  · exact sendEvent_mailOnly h

theorem sends_mailOnly {ι : Type} {f : Router V → ι → Except Fault (Router V)} {xs : List ι}
    (hf : ∀ rtr x rtr', f rtr x = .ok rtr' → MailOnly rtr rtr')
    (h : xs.foldlM f rtr = .ok rtr') : MailOnly rtr rtr' :=
  foldlM_preserves (MailOnly rtr) xs (fun s x s' _ hs hstep => hs.trans (hf s x s' hstep))
    (.refl rtr) h

theorem doPending_mailOnly {id : ServerID} (h : rtr.doPending id = .ok rtr') :
    MailOnly rtr rtr' := by
  unfold doPending at h
  split at h
  · exact Except.ok.inj h ▸ .refl rtr
  · simp only [bind_eq_ok] at h
    obtain ⟨ec, _, mid, hmid, hrtr⟩ := h
    have hwrites : MailOnly rtr mid := by
      refine sends_mailOnly (fun s ptr s' hs => ?_) hmid
      obtain ⟨re, _, rfl⟩ := writeEvent_ok hs
      rfl
    exact Except.ok.inj hrtr ▸ hwrites.trans rfl

end Mail

section Handlers

variable {rtr rtr' : Router V}

theorem processCommCreate_ok {ec : ClientChan} {ev : CommCreateEvent}
    (h : rtr.processCommCreate ec ev = .ok rtr') :
    ∃ client client', rtr.clientMap ec = some client ∧
      client.addComm ev.commID ev = .ok client' ∧
      MailOnly { rtr with clientMap := update rtr.clientMap ec (some client') } rtr' := by
  simp only [processCommCreate, bind_eq_ok, getClient, orFault_eq_ok] at h
  obtain ⟨client, hclient, client', hadd, hsends⟩ := h
  exact ⟨client, client', hclient, hadd,
    sends_mailOnly (fun _ _ _ => sendEventTo_mailOnly) hsends⟩

theorem processCommReq_ok {ec : ClientChan} {ev : CommReqEvent V} {info : EventId}
    (h : rtr.processCommReq ec ev info = .ok rtr') :
    ∃ client commList, rtr.clientMap ec = some client ∧
      client.getCommList ev.commID = .ok commList ∧
      MailOnly { rtr with
        infos := update rtr.infos info (some (newCommReqInfo ec ev info commList)) } rtr' := by
  simp only [processCommReq, bind_eq_ok, getClient, orFault_eq_ok] at h
  obtain ⟨client, hclient, commList, hcomm, hsends⟩ := h
  exact ⟨client, commList, hclient, hcomm,
    sends_mailOnly (fun _ _ _ => sendEventTo_mailOnly) hsends⟩

theorem processSingle_ok {ec : ClientChan} {comm : CommEvent} {info : EventId}
    {ev resp : Payload V} (h : rtr.processSingle ec comm info ev resp = .ok rtr') :
    ∃ new : CommReqInfo V, new.src = ec ∧ new.grpInfo = [] ∧ new.respQ = [] ∧
      new.resp = resp ∧ rtr.clientMap ec ≠ none ∧
      MailOnly { rtr with infos := update rtr.infos info (some new) } rtr' := by
  simp only [processSingle, bind_eq_ok, getClient, orFault_eq_ok, require_eq_ok] at h
  obtain ⟨client, hclient, commList, _, _, _, _, _, hsends⟩ := h
  refine ⟨_, rfl, rfl, rfl, rfl, ?_,
    sends_mailOnly (fun _ _ _ => sendEventTo_mailOnly) hsends⟩
  simp [hclient]

theorem destroyComms_mailOnly {client : Client} (h : rtr.destroyComms client = .ok rtr') :
    MailOnly rtr rtr' := by
  refine sends_mailOnly (fun s comm s' hs => ?_) h
  simp only [bind_eq_ok, orFault_eq_ok] at hs
  obtain ⟨group, _, hsends⟩ := hs
  exact sends_mailOnly (fun _ _ _ => sendEventTo_mailOnly) hsends

theorem delClientChan_ok {ec : ClientChan} (h : rtr.delClientChan ec = .ok rtr') :
    rtr'.clientMap = update rtr.clientMap ec none ∧ rtr'.infos = rtr.infos ∧
      rtr'.replies = rtr.replies ∧ rtr'.localMap = rtr.localMap ∧
      rtr'.serverMap = rtr.serverMap := by
  unfold delClientChan at h
  split at h
  next hnone =>
    obtain rfl := Except.ok.inj h
    refine ⟨?_, rfl, rfl, rfl, rfl⟩
    rw [← hnone, update_eq_self]
  next client hsome =>
    simp only [bind_eq_ok] at h
    obtain ⟨mid, hmid, hrtr⟩ := h
    have hmail := destroyComms_mailOnly hmid
    obtain rfl := Except.ok.inj hrtr
    exact ⟨by rw [← hmail.clientMap], hmail.infos, hmail.replies, hmail.localMap,
      hmail.serverMap⟩

theorem addServer_ok {name : ObjID} {ec : Option ServerChan} {id : ServerID}
    (h : rtr.addServer name ec = .ok (id, rtr')) :
    ∃ ch, ec = some ch ∧ rtr.findRoute name ≠ unrouted ∧ rtr.serverMap ch ≠ none ∧
      id = serverIdOf (rtr.findRoute name) ∧
      rtr' = { rtr with
        localMap := update rtr.localMap id (some ch)
        serverMap := update rtr.serverMap ch (some { name }) } := by
  simp only [addServer, bind_eq_ok, require_eq_ok, orFault_eq_ok, Except.ok.injEq,
    Prod.mk.injEq] at h
  obtain ⟨_, hroute, ch, hch, server, hserver, hid, hrtr⟩ := h
  subst hid
  exact ⟨ch, hch, hroute, by simp [hserver], rfl, hrtr.symm⟩

theorem processServerConnect_ok {ec : Option ServerChan} {ev : ServerConnectEvent}
    (h : rtr.processServerConnect ec ev = .ok rtr') :
    ∃ ch mid, ec = some ch ∧ rtr.findRoute ev.name ≠ unrouted ∧ rtr.serverMap ch ≠ none ∧
      mid = { rtr with
        localMap := update rtr.localMap (serverIdOf (rtr.findRoute ev.name)) (some ch)
        serverMap := update rtr.serverMap ch (some { name := ev.name }) } ∧
      mid.doPending (serverIdOf (rtr.findRoute ev.name)) = .ok rtr' := by
  simp only [processServerConnect, bind_eq_ok] at h
  obtain ⟨⟨id, mid⟩, hadd, hpending⟩ := h
  obtain ⟨ch, hch, hroute, hserver, rfl, hmid⟩ := addServer_ok hadd
  exact ⟨ch, mid, hch, hroute, hserver, hmid, hpending⟩

end Handlers

section Responses

variable {rtr rtr' : Router V}

/-- The two states differ in the requests under way and the responses sent. -/
def ReplyOnly (rtr rtr' : Router V) : Prop :=
  rtr' = { rtr with infos := rtr'.infos, replies := rtr'.replies }

theorem sendResp_ok {id : EventId} {info : CommReqInfo V} {resp : Payload V}
    (h : rtr.sendResp id info resp = .ok rtr') :
    rtr.clientMap info.src ≠ none ∧
      rtr' = { rtr with
        infos := update rtr.infos id none
        replies := rtr.replies ++ [(info.src, resp)] } := by
  simp only [sendResp, bind_eq_ok, require_eq_ok, Except.ok.injEq] at h
  obtain ⟨_, hsrc, hrtr⟩ := h
  exact ⟨hsrc, hrtr.symm⟩

theorem sendResp_replyOnly {id : EventId} {info : CommReqInfo V} {resp : Payload V}
    (h : rtr.sendResp id info resp = .ok rtr') : ReplyOnly rtr rtr' := by
  rw [(sendResp_ok h).2]
  rfl

theorem processCommLogResp_ok {r : CommLogRespEvent} (h : rtr.processCommLogResp r = .ok rtr') :
    ∃ info resp, rtr.infos r.id = some info ∧ info.resp = .commLogResp resp ∧
      rtr.sendResp r.id info (.commLogResp { r with toCommEvent := resp.toCommEvent }) =
        .ok rtr' := by
  simp only [processCommLogResp, bind_eq_ok, orFault_eq_ok] at h
  obtain ⟨info, hinfo, h⟩ := h
  split at h
  next resp hresp => exact ⟨info, resp, hinfo, hresp, h⟩
  next => cases h

theorem processCommGetSamplesResp_ok {r : CommGetSamplesRespEvent V}
    (h : rtr.processCommGetSamplesResp r = .ok rtr') :
    ∃ info resp, rtr.infos r.id = some info ∧ info.resp = .commGetSamplesResp resp ∧
      rtr.sendResp r.id info
        (.commGetSamplesResp { r with toCommEvent := resp.toCommEvent }) = .ok rtr' := by
  simp only [processCommGetSamplesResp, bind_eq_ok, orFault_eq_ok] at h
  obtain ⟨info, hinfo, h⟩ := h
  split at h
  next resp hresp => exact ⟨info, resp, hinfo, hresp, h⟩
  next => cases h

variable [Zero V] [Add V]

theorem processCommResp_ok {r : CommRespEvent V} (h : rtr.processCommResp r = .ok rtr') :
    ∃ info rs, rtr.infos r.id = some info ∧ info.respQ[r.grpIndex.toNat]? = some rs ∧
      let queued := { info with respQ := info.respQ.set r.grpIndex.toNat (rs ++ [r]) }
      (info.grpInfo[r.grpIndex.toNat]? ≠ none ∧
        info.grpInfo[r.grpIndex.toNat]? ≠ some (rs.length + 1) ∧
        rtr' = { rtr with infos := update rtr.infos r.id (some queued) }) ∨
      (info.grpInfo[r.grpIndex.toNat]? = some (rs.length + 1) ∧
        ∃ resp merged, info.resp = .commResp resp ∧
          mergeGroup queued resp r.grpIndex.toNat (rs ++ [r]) = .ok merged ∧
          let done := { queued with resp := .commResp merged, pending := info.pending - 1 }
          ((info.pending - 1 ≠ 0 ∧
              rtr' = { rtr with infos := update rtr.infos r.id (some done) }) ∨
            (info.pending - 1 = 0 ∧
              rtr.sendResp r.id done (.commResp merged) = .ok rtr'))) := by
  simp only [processCommResp, bind_eq_ok, orFault_eq_ok] at h
  obtain ⟨info, hinfo, rs, hrs, size, hsize, h⟩ := h
  refine ⟨info, rs, hinfo, hrs, ?_⟩
  intro queued
  by_cases hfull : (rs ++ [r]).length = size
  · rw [if_pos hfull] at h
    split at h
    next resp hresp =>
      simp only [bind_eq_ok] at h
      obtain ⟨merged, hmerged, h⟩ := h
      refine .inr ⟨by rw [hsize, ← hfull]; simp, resp, merged, hresp, hmerged, ?_⟩
      intro done
      by_cases hlast : info.pending - 1 = 0
      · rw [if_pos hlast] at h
        exact .inr ⟨hlast, h⟩
      · rw [if_neg hlast] at h
        exact .inl ⟨hlast, (Except.ok.inj h).symm⟩
    next => cases h
  · rw [if_neg hfull] at h
    refine .inl ⟨by simp [hsize], ?_, (Except.ok.inj h).symm⟩
    intro heq
    rw [hsize, Option.some.injEq] at heq
    exact hfull (by simp [heq])

theorem processCommResp_replyOnly {r : CommRespEvent V} (h : rtr.processCommResp r = .ok rtr') :
    ReplyOnly rtr rtr' := by
  obtain ⟨info, rs, _, _, h⟩ := processCommResp_ok h
  rcases h with ⟨_, _, rfl⟩ | ⟨_, resp, merged, _, _, ⟨_, rfl⟩ | ⟨_, h⟩⟩
  · rfl
  · rfl
  · exact sendResp_replyOnly h

theorem processServer_ok {ec : Option ServerChan} {ev : Payload V}
    (h : rtr.processServer ec ev = .ok rtr') :
    ReplyOnly rtr rtr' ∨
      ∃ connect, ev = .serverConnect connect ∧ rtr.processServerConnect ec connect = .ok rtr' := by
  cases ev with
  | commResp r => exact .inl (processCommResp_replyOnly h)
  | commLogResp r =>
      obtain ⟨info, resp, _, _, h⟩ := processCommLogResp_ok h
      exact .inl (sendResp_replyOnly h)
  | commGetSamplesResp r =>
      obtain ⟨info, resp, _, _, h⟩ := processCommGetSamplesResp_ok h
      exact .inl (sendResp_replyOnly h)
  | serverConnect connect => exact .inr ⟨connect, rfl, h⟩
  | commCreate ev => cases h
  | commDestroy ev => cases h
  | commReq ev => cases h
  | commLogReq ev => cases h
  | commGetSamplesReq ev => cases h

theorem processServer_none {ev : Payload V} (h : rtr.processServer none ev = .ok rtr') :
    ReplyOnly rtr rtr' := by
  rcases processServer_ok h with h | ⟨connect, _, h⟩
  · exact h
  · obtain ⟨ch, _, hch, _⟩ := processServerConnect_ok h
    cases hch

theorem processRouterEvent_ok {re : RouterEvent V} (h : rtr.processRouterEvent re = .ok rtr') :
    let ptr := rtr.mail.nextEvent
    let read := (rtr.newEvent re).recordCall re.dest re
    (rtrIdOf re.dest = rtr.rtrId ∧ serverIdOf re.dest = noServer ∧
      ∃ mid, read.processServer none re.payload = .ok mid ∧ rtr' = mid.deleteEvent ptr) ∨
    (¬ (rtrIdOf re.dest = rtr.rtrId ∧ serverIdOf re.dest = noServer) ∧
      rtr.destChan re.dest = .ok none ∧
      rtr' = (read.pushPending (serverIdOf re.dest) ptr).deleteEvent ptr) ∨
    (¬ (rtrIdOf re.dest = rtr.rtrId ∧ serverIdOf re.dest = noServer) ∧
      ∃ ch, rtr.destChan re.dest = .ok (some ch) ∧ rtr' = rtr.sentOn re.dest re ch) := by
  intro ptr read
  simp only [processRouterEvent, forwardEvent, bind_eq_ok, orFault_eq_ok] at h
  obtain ⟨mid, ⟨ec, hec, re', hre', hmid⟩, hrtr⟩ := h
  obtain rfl := Except.ok.inj hrtr
  have : re' = re := by simpa [newEvent, eq_comm] using hre'
  subst this
  have hdest : (rtr.newEvent re').destChan re'.dest = rtr.destChan re'.dest := rfl
  rw [hdest] at hec
  by_cases hown : rtrIdOf re'.dest = rtr.rtrId ∧ serverIdOf re'.dest = noServer
  · rw [if_pos (by exact hown)] at hmid
    exact .inl ⟨hown.1, hown.2, mid, hmid, rfl⟩
  · rw [if_neg (by exact hown)] at hmid
    cases ec with
    | none => exact .inr (.inl ⟨hown, hec, by rw [← Except.ok.inj hmid]⟩)
    | some ch =>
        obtain ⟨re, hre, rfl⟩ := writeEvent_ok hmid
        have : re = re' := by simpa [newEvent, recordCall, eq_comm] using hre
        subst this
        refine .inr (.inr ⟨hown, ch, hec, ?_⟩)
        simp [sentOn, deleteEvent, newEvent, recordCall]

theorem processRouterEvent_router {re : RouterEvent V} {ch : RtrChan}
    (hremote : rtrIdOf re.dest ≠ rtr.rtrId)
    (h : rtr.destChan re.dest = .ok (some (.router ch))) :
    rtr.processRouterEvent re = .ok (rtr.sentOn re.dest re (.router ch)) := by
  have hnew : (rtr.newEvent re).destChan re.dest = .ok (some (.router ch)) := h
  simp only [processRouterEvent, forwardEvent, hnew, bind, Except.bind]
  simp [hremote, newEvent, recordCall, writeEvent, deleteEvent, sentOn, bind, Except.bind]

end Responses

section Dispatch

variable {rtr rtr' : Router V}

/-- The two states agree on the servers and on what the daemon was started with. -/
structure SameServers (rtr rtr' : Router V) : Prop where
  localMap : rtr'.localMap = rtr.localMap
  serverMap : rtr'.serverMap = rtr.serverMap
  routeTable : rtr'.routeTable = rtr.routeTable
  rtrId : rtr'.rtrId = rtr.rtrId
  getChannel : rtr'.getChannel = rtr.getChannel

theorem MailOnly.sameServers (h : MailOnly rtr rtr') : SameServers rtr rtr' :=
  ⟨h.localMap, h.serverMap, h.routeTable, h.rtrId, h.getChannel⟩

theorem ReplyOnly.sameServers (h : ReplyOnly rtr rtr') : SameServers rtr rtr' := by
  rw [show rtr' = _ from h]
  exact ⟨rfl, rfl, rfl, rfl, rfl⟩

section Clients

variable (P : Router V → Prop)
  (hsend : ∀ rtr obj ev rtr', P rtr → rtr.sendEventTo obj ev = .ok rtr' → P rtr')
  (hclients : ∀ rtr clientMap, P rtr → P { rtr with clientMap })
  (hinfos : ∀ rtr infos, P rtr → P { rtr with infos })

include hsend

theorem sends_preserve {ι : Type} (obj : ι → ObjID) (ev : ι → Payload V) (xs : List ι)
    (hs : P rtr) (h : xs.foldlM (fun rtr x => rtr.sendEventTo (obj x) (ev x)) rtr = .ok rtr') :
    P rtr' :=
  foldlM_preserves P xs (fun s x s' _ => hsend s (obj x) (ev x) s') hs h

include hclients

theorem delClientChan_preserves {ec : ClientChan} (hs : P rtr)
    (h : rtr.delClientChan ec = .ok rtr') : P rtr' := by
  unfold delClientChan at h
  split at h
  · exact Except.ok.inj h ▸ hs
  · simp only [bind_eq_ok] at h
    obtain ⟨mid, hmid, hrtr⟩ := h
    have hdestroyed : P mid := by
      refine foldlM_preserves P _ (fun s comm s' _ hs hstep => ?_) hs hmid
      simp only [bind_eq_ok] at hstep
      obtain ⟨group, _, hsends⟩ := hstep
      exact sends_preserve P hsend cStr _ group hs hsends
    exact Except.ok.inj hrtr ▸ hclients mid _ hdestroyed

include hinfos

theorem processClient_preserves {ec : ClientChan} {ev : Payload V} {info : EventId}
    (hs : P rtr) (h : rtr.processClient ec ev info = .ok rtr') : P rtr' := by
  have single : ∀ comm ev resp, rtr.processSingle ec comm info ev resp = .ok rtr' → P rtr' := by
    intro comm ev resp h
    simp only [processSingle, bind_eq_ok] at h
    obtain ⟨client, _, commList, _, _, _, _, _, hsends⟩ := h
    exact sends_preserve P hsend id _ _ (hinfos rtr _ hs) hsends
  cases ev with
  | commCreate ev =>
      simp only [processClient, processCommCreate, bind_eq_ok] at h
      obtain ⟨client, _, client', _, hsends⟩ := h
      exact sends_preserve P hsend id _ _ (hclients rtr _ hs) hsends
  | commReq ev =>
      simp only [processClient, processCommReq, bind_eq_ok] at h
      obtain ⟨client, _, commList, _, hsends⟩ := h
      exact sends_preserve P hsend Prod.fst _ _ (hinfos rtr _ hs) hsends
  | commLogReq ev => exact single _ _ _ h
  | commGetSamplesReq ev => exact single _ _ _ h
  | serverConnect ev => cases h
  | commDestroy ev => cases h
  | commResp ev => cases h
  | commLogResp ev => cases h
  | commGetSamplesResp ev => cases h

end Clients

theorem sendEventTo_sameServers {start : Router V} {obj : ObjID} {ev : Payload V}
    (hs : SameServers start rtr) (h : rtr.sendEventTo obj ev = .ok rtr') :
    SameServers start rtr' := by
  have hmail := sendEventTo_mailOnly h
  exact ⟨hmail.localMap.trans hs.localMap, hmail.serverMap.trans hs.serverMap,
    hmail.routeTable.trans hs.routeTable, hmail.rtrId.trans hs.rtrId,
    hmail.getChannel.trans hs.getChannel⟩

theorem SameServers.refl (rtr : Router V) : SameServers rtr rtr := ⟨rfl, rfl, rfl, rfl, rfl⟩

theorem processClient_sameServers {ec : ClientChan} {ev : Payload V} {info : EventId}
    (h : rtr.processClient ec ev info = .ok rtr') : SameServers rtr rtr' :=
  processClient_preserves (SameServers rtr) (fun _ _ _ _ => sendEventTo_sameServers)
    (fun _ _ hs => ⟨hs.localMap, hs.serverMap, hs.routeTable, hs.rtrId, hs.getChannel⟩)
    (fun _ _ hs => ⟨hs.localMap, hs.serverMap, hs.routeTable, hs.rtrId, hs.getChannel⟩)
    (.refl rtr) h

theorem delClientChan_sameServers {ec : ClientChan} (h : rtr.delClientChan ec = .ok rtr') :
    SameServers rtr rtr' :=
  delClientChan_preserves (SameServers rtr) (fun _ _ _ _ => sendEventTo_sameServers)
    (fun _ _ hs => ⟨hs.localMap, hs.serverMap, hs.routeTable, hs.rtrId, hs.getChannel⟩)
    (.refl rtr) h

/-- The tables of the servers after a step: three kinds of steps change them. -/
def serversAfter (rtr : Router V) :
    Label V → (ServerID → Option ServerChan) × (ServerChan → Option Server)
  | .acceptServer ec => (rtr.localMap, update rtr.serverMap ec (some { name := [] }))
  | .serverEvent ec (.serverConnect ev) =>
      (update rtr.localMap (serverIdOf (rtr.findRoute ev.name)) (some ec),
        update rtr.serverMap ec (some { name := ev.name }))
  | .serverClosed ec =>
      if rtr.serverMap ec = none then (rtr.localMap, rtr.serverMap)
      else (update rtr.localMap 0 none, update rtr.serverMap ec none)
  | _ => (rtr.localMap, rtr.serverMap)

theorem SameServers.tables (h : SameServers rtr rtr') :
    (rtr'.localMap, rtr'.serverMap) = (rtr.localMap, rtr.serverMap) := by
  rw [h.localMap, h.serverMap]

theorem delServerChan_tables (rtr : Router V) (ec : ServerChan) :
    ((rtr.delServerChan ec).localMap, (rtr.delServerChan ec).serverMap) =
      rtr.serversAfter (.serverClosed ec) := by
  unfold delServerChan serversAfter
  cases hserver : rtr.serverMap ec with
  | none => simp [hserver]
  | some server => simp [hserver, delServer]

variable [Zero V] [Add V]

theorem processRouterEvent_sameServers {re : RouterEvent V}
    (h : rtr.processRouterEvent re = .ok rtr') : SameServers rtr rtr' := by
  rcases processRouterEvent_ok h with ⟨_, _, mid, hmid, rfl⟩ | ⟨_, _, rfl⟩ | ⟨_, ch, _, rfl⟩
  · have hsame := (processServer_none hmid).sameServers
    exact ⟨hsame.localMap, hsame.serverMap, hsame.routeTable, hsame.rtrId, hsame.getChannel⟩
  · constructor <;> simp only [deleteEvent, pushPending, recordCall, newEvent]
  · exact ⟨rfl, rfl, rfl, rfl, rfl⟩

theorem dispatch_servers {l : Label V} (h : rtr.dispatch l = .ok rtr') :
    (rtr'.localMap, rtr'.serverMap) = rtr.serversAfter l := by
  cases l with
  | acceptClient ec => exact Except.ok.inj h ▸ rfl
  | acceptServer ec => exact Except.ok.inj h ▸ rfl
  | clientEvent ec ev info => exact (processClient_sameServers h).tables
  | clientClosed ec => exact (delClientChan_sameServers h).tables
  | serverEvent ec ev =>
      rcases processServer_ok h with hreply | ⟨connect, rfl, hconnect⟩
      · cases ev with
        | serverConnect connect =>
            obtain ⟨ch, mid, hch, _, _, rfl, hpending⟩ := processServerConnect_ok h
            cases hch
            exact (doPending_mailOnly hpending).sameServers.tables
        | _ => exact hreply.sameServers.tables
      · obtain ⟨ch, mid, hch, _, _, rfl, hpending⟩ := processServerConnect_ok hconnect
        cases hch
        exact (doPending_mailOnly hpending).sameServers.tables
  | serverClosed ec => exact Except.ok.inj h ▸ delServerChan_tables rtr ec
  | routerEvent re => exact (processRouterEvent_sameServers h).tables

theorem dispatch_config {l : Label V} (h : rtr.dispatch l = .ok rtr') :
    rtr'.routeTable = rtr.routeTable ∧ rtr'.rtrId = rtr.rtrId ∧
      rtr'.getChannel = rtr.getChannel := by
  have of_same : SameServers rtr rtr' → _ := fun hsame =>
    (⟨hsame.routeTable, hsame.rtrId, hsame.getChannel⟩ :
      rtr'.routeTable = rtr.routeTable ∧ rtr'.rtrId = rtr.rtrId ∧
        rtr'.getChannel = rtr.getChannel)
  cases l with
  | acceptClient ec => exact Except.ok.inj h ▸ ⟨rfl, rfl, rfl⟩
  | acceptServer ec => exact Except.ok.inj h ▸ ⟨rfl, rfl, rfl⟩
  | clientEvent ec ev info => exact of_same (processClient_sameServers h)
  | clientClosed ec => exact of_same (delClientChan_sameServers h)
  | serverEvent ec ev =>
      rcases processServer_ok h with hreply | ⟨connect, rfl, hconnect⟩
      · exact of_same hreply.sameServers
      · obtain ⟨ch, mid, _, _, _, rfl, hpending⟩ := processServerConnect_ok hconnect
        have hmail := doPending_mailOnly hpending
        exact ⟨hmail.routeTable, hmail.rtrId, hmail.getChannel⟩
  | serverClosed ec =>
      obtain rfl := Except.ok.inj h
      unfold delServerChan
      split <;> exact ⟨rfl, rfl, rfl⟩
  | routerEvent re => exact of_same (processRouterEvent_sameServers h)

end Dispatch

end PwrApi.Router
