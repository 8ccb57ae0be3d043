import PwrApi.Lib.Stages
import PwrApi.Router.Backlog
import PwrApi.Router.Messages
import PwrApi.Router.Served

/-! What a router has asked servers for and what it was answered: the requests that it still
awaits are those asked for that were not answered. -/

namespace PwrApi.Router

open Function Runs PwrApi.Server

variable {V : Type}

def askedTag (ev : Payload V) : Option Tag :=
  if (requests ev).isSome then tagOf ev else none

def answeredTag (ev : Payload V) : Option Tag :=
  if isResponse ev then tagOf ev else none

def ownCalls (rtr : Router V) : List (RouterEvent V) :=
  (rtr.mail.calls.map Prod.snd).filter fun re => re.dest = appId rtr.rtrId noServer

def answeredTags (rtr : Router V) : List Tag :=
  rtr.ownCalls.filterMap fun re => answeredTag re.payload

section Requests

variable {re : RouterEvent V}

theorem isRequest_of_askedTag {t : Tag} (h : askedTag re.payload = some t) :
    isRequest re = true :=
  (Option.ite_none_right_eq_some.mp h).1

theorem exists_askedTag (h : isRequest re = true) : ∃ t, askedTag re.payload = some t := by
  have hsome : (requests re.payload).isSome := h
  rw [askedTag, if_pos hsome]
  cases hpayload : re.payload with
  | commReq req => exact ⟨_, rfl⟩
  | commLogReq req => exact ⟨_, rfl⟩
  | commGetSamplesReq req => exact ⟨_, rfl⟩
  | _ =>
      rw [hpayload] at hsome
      cases hsome

end Requests

section Asking

variable {rtr rtr' : Router V}

theorem forwards_eq (sends : List (ObjID × Payload V)) :
    (rtr.forwards sends).map Prod.snd =
      (sends.filter fun sent => rtr.findRoute sent.1 ≠ unrouted).map fun sent =>
        ⟨appId rtr.rtrId noServer, rtr.findRoute sent.1, sent.2⟩ := by
  induction sends with
  | nil => rfl
  | cons sent sends ih =>
      rw [forwards] at ih
      rw [forwards, List.filterMap_cons, forwardedAs]
      by_cases hroute : rtr.findRoute sent.1 = unrouted
      · simpa [hroute] using ih
      · simpa [hroute] using ih

theorem forwards_asked (sends : List (ObjID × Payload V)) :
    Passes (∀ obj, rtr.findRoute obj ≠ unrouted) (sends.filterMap (askedTag ∘ Prod.snd))
      (((rtr.forwards sends).map Prod.snd).filterMap fun re => askedTag re.payload) := by
  have hout : (((rtr.forwards sends).map Prod.snd).filterMap fun re => askedTag re.payload) =
      (sends.filter fun sent => rtr.findRoute sent.1 ≠ unrouted).filterMap
        (askedTag ∘ Prod.snd) := by
    rw [forwards_eq, List.filterMap_map]
    rfl
  rw [hout]
  refine ⟨List.filter_sublist.filterMap _ |>.subperm, fun hrouted => ?_⟩
  rw [List.filter_eq_self.mpr fun sent _ => decide_eq_true (hrouted sent.1)]

theorem processSingle_one {ec : ClientChan} {comm : CommEvent} {p : EventId}
    {ev resp : Payload V} (h : rtr.processSingle ec comm p ev resp = .ok rtr') :
    ∃ obj, (commListOf rtr ec comm.commID).getD [] = [[obj]] := by
  have hopen := h
  simp only [processSingle, bind_eq_ok, getClient, orFault_eq_ok] at hopen
  obtain ⟨client, hclient, commList, hcomm, _⟩ := hopen
  have hlist := commListOf_eq hclient hcomm
  by_contra hshape
  rw [hlist, Option.getD_some] at hshape
  rw [processSingle_shape p ev resp hlist hshape] at h
  cases h

theorem clientSends_not_response {l : Label V} {obj : ObjID} {ev : Payload V}
    (hsent : (obj, ev) ∈ rtr.clientSends l) : ¬ isResponse ev := by
  cases l with
  | clientEvent other sent p =>
      cases sent with
      | commCreate create =>
          obtain ⟨_, _, heq⟩ := List.mem_map.mp hsent
          rw [← (Prod.mk.inj heq).2]
          exact Bool.false_ne_true
      | commReq req =>
          obtain ⟨_, _, heq⟩ := List.mem_map.mp hsent
          rw [← (Prod.mk.inj heq).2]
          exact Bool.false_ne_true
      | commLogReq req =>
          rw [(mem_sendsToAll.mp hsent).2]
          exact Bool.false_ne_true
      | commGetSamplesReq req =>
          rw [(mem_sendsToAll.mp hsent).2]
          exact Bool.false_ne_true
      | _ => exact absurd hsent List.not_mem_nil
  | clientClosed other =>
      obtain ⟨client, _, hsent⟩ := mem_clientSends_close.mp hsent
      obtain ⟨_, _, _, _, _, rfl⟩ := mem_sendsOfClose.mp hsent
      exact Bool.false_ne_true
  | _ => exact absurd hsent List.not_mem_nil

end Asking

/-- What clients and servers bring that stay connected: the events of clients, of which the
`Get` and `Set` requests have sources in every group, and the names of servers. -/
structure Orderly (rtr : Router V) (l : Label V) : Prop where
  stays : ∀ ec, l ≠ .clientClosed ec ∧ l ≠ .serverClosed ec
  shaped : ∀ ec ev p commList, requestOf l = some (ec, .commReq ev, p) →
    commListOf rtr ec ev.commID = some commList →
    commList ≠ [] ∧ (∀ group ∈ commList, group ≠ []) ∧ Wire.Fits commList
  connects : ∀ ec ev, l = .serverEvent ec ev → ∃ connect, ev = .serverConnect connect
  fromHere : ∀ re, l ≠ .routerEvent re

section Steps

variable {net : Net V} {rtr' : Router V}

theorem Orderly.responseOf {rtr : Router V} {l : Label V} (h : rtr.Orderly l) :
    rtr.responseOf l = none := by
  cases l with
  | serverEvent ec sent =>
      obtain ⟨connect, rfl⟩ := h.connects ec sent rfl
      rfl
  | routerEvent re => exact absurd rfl (h.fromHere re)
  | _ => rfl

theorem Orderly.admissible {l : Label V} (h : net.rtr.Orderly l) : net.Admissible l := by
  refine ⟨fun ec => (h.stays ec).1, h.shaped, fun ev hev => ?_⟩
  rw [h.responseOf] at hev
  cases hev

theorem inFlight_none {re : RouterEvent V} (hev : net.rtr.responseOf (.routerEvent re) = none) :
    (net.after (.routerEvent re) rtr').inFlight = net.inFlight := by
  simp only [Net.after, hev, requestOf]

theorem responseOf_routerEvent {rtr : Router V} {re : RouterEvent V} :
    rtr.responseOf (.routerEvent re) =
      if re.dest = appId rtr.rtrId noServer ∧ isResponse re.payload then some re.payload
      else none := by
  have hdest : re.dest = appId rtr.rtrId noServer ↔
      rtrIdOf re.dest = rtr.rtrId ∧ serverIdOf re.dest = noServer := by
    constructor
    · intro heq
      rw [heq, rtrIdOf_appId, serverIdOf_appId]
      exact ⟨rfl, rfl⟩
    · rintro ⟨hrtr, hserver⟩
      rw [← appId_eta re.dest, hrtr, hserver]
  simp only [responseOf, hdest, and_assoc]

variable [Zero V] [Add V]

theorem work_sends {rtr : Router V} {l : Label V} (hl : rtr.Orderly l)
    (h : rtr.dispatch l = .ok rtr') :
    rtr.Sends ((rtr.forwards (rtr.clientSends l)).map Prod.snd) rtr' := by
  obtain ⟨new, hsends, _⟩ := dispatch_own (fun re hre => absurd hre (hl.fromHere re)) h
  have hcalls : rtr'.mail.calls = rtr.mail.calls ++ rtr.forwards (rtr.clientSends l) := by
    cases l with
    | acceptClient ec => exact Except.ok.inj h ▸ (List.append_nil _).symm
    | acceptServer ec => exact Except.ok.inj h ▸ (List.append_nil _).symm
    | clientEvent ec ev p =>
        have hclient : clientOf (.clientEvent ec ev p : Label V) = some ec := rfl
        exact dispatch_calls hclient h
    | clientClosed ec => exact absurd rfl (hl.stays ec).1
    | serverEvent ec ev =>
        have hserver : rtr.processServer (some ec) ev = .ok rtr' := h
        exact (processServer_sends hserver).calls
    | serverClosed ec => exact absurd rfl (hl.stays ec).2
    | routerEvent re => exact absurd rfl (hl.fromHere re)
  rw [hsends.calls, List.append_cancel_left_eq] at hcalls
  rw [← hcalls, List.map_map]
  have hid : new.map (Prod.snd ∘ fun re => (re.dest, re)) = new := List.map_id new
  rwa [hid]

omit [Zero V] [Add V] in
theorem forwards_own {rtr : Router V} {l : Label V} {re : RouterEvent V}
    (h : re ∈ (rtr.forwards (rtr.clientSends l)).map Prod.snd) :
    re.src = appId rtr.rtrId noServer ∧ ¬ isResponse re.payload := by
  obtain ⟨⟨d, re'⟩, hmem, rfl⟩ := List.mem_map.mp h
  obtain ⟨obj, ev, hsent, _, _, rfl⟩ := mem_forwards.mp hmem
  exact ⟨rfl, clientSends_not_response hsent⟩

theorem work_inFlight {l : Label V} (hl : net.rtr.Orderly l) (h : net.rtr.dispatch l = .ok rtr') :
    (net.after l rtr').inFlight =
      net.inFlight ++ (net.rtr.clientSends l).filterMap (askedTag ∘ Prod.snd) := by
  cases l with
  | clientEvent ec ev p =>
      cases ev with
      | commCreate ev =>
          have hnone : (sendsOfCreate (V := V) ev).filterMap (askedTag ∘ Prod.snd) = [] := by
            simp [sendsOfCreate, askedTag, requests]
          simp only [Net.after, responseOf, requestOf, clientSends, hnone, List.append_nil]
      | commReq ev =>
          simp only [dispatch, processClient, processCommReq, bind_eq_ok, getClient,
            orFault_eq_ok] at h
          obtain ⟨client, hclient, commList, hcomm, _⟩ := h
          have hlist := commListOf_eq hclient hcomm
          simp [Net.after, responseOf, requestOf, Net.afterRequest, clientSends, hlist,
            fanOutTags, askedTag, requests, tagOf, List.filterMap_map, Function.comp_def]
      | commLogReq ev =>
          obtain ⟨obj, hobj⟩ := processSingle_one h
          simp [Net.after, responseOf, requestOf, Net.afterRequest, Net.addSingle, clientSends,
            hobj, sendsToAll, askedTag, requests, tagOf]
      | commGetSamplesReq ev =>
          obtain ⟨obj, hobj⟩ := processSingle_one h
          simp [Net.after, responseOf, requestOf, Net.afterRequest, Net.addSingle, clientSends,
            hobj, sendsToAll, askedTag, requests, tagOf]
      | _ => cases h
  | clientClosed ec => exact absurd rfl (hl.stays ec).1
  | serverEvent ec ev =>
      obtain ⟨connect, rfl⟩ := hl.connects ec ev rfl
      exact (List.append_nil _).symm
  | serverClosed ec => exact absurd rfl (hl.stays ec).2
  | routerEvent re => exact absurd rfl (hl.fromHere re)
  | _ => exact (List.append_nil _).symm

theorem inFlight_answer {l : Label V} {ev : Payload V} {t : Tag}
    (hev : net.rtr.responseOf l = some ev) (ht : tagOf ev = some t) :
    (net.after l rtr').inFlight = net.inFlight.erase t := by
  simp only [Net.after, hev]
  cases ev with
  | commResp r =>
      obtain rfl := Option.some.inj ht
      simp only [Net.afterResponse]
      split
      · rfl
      · split <;> rfl
  | commLogResp r =>
      obtain rfl := Option.some.inj ht
      rfl
  | commGetSamplesResp r =>
      obtain rfl := Option.some.inj ht
      rfl
  | _ =>
      have hresp := (dispatch_response hev).1
      cases hresp

end Steps

section Ledger

variable {net : Net V} {rtr' : Router V} {asks : List Tag}

/-- What the router awaits or was answered is what it has asked for, and what it has dropped. -/
def Ledger (routed : Prop) (net : Net V) (asks : List Tag) : Prop :=
  ∃ forwarded : List Tag, forwarded.Perm (net.inFlight ++ net.rtr.answeredTags) ∧
    Passes routed forwarded asks

theorem ownCalls_of_sends {rtr : Router V} {new : List (RouterEvent V)} (h : rtr.Sends new rtr') :
    rtr'.ownCalls = rtr.ownCalls ++ new.filter fun re => re.dest = appId rtr.rtrId noServer := by
  rw [ownCalls, ownCalls, h.calls, h.rtrId, List.map_append, List.filter_append]
  congr 2
  simp [Function.comp_def]

theorem answeredTags_of_sends {rtr : Router V} {new : List (RouterEvent V)}
    (h : rtr.Sends new rtr') :
    rtr'.answeredTags = rtr.answeredTags ++
      (new.filter fun re => re.dest = appId rtr.rtrId noServer).filterMap
        fun re => answeredTag re.payload := by
  rw [answeredTags, answeredTags, ownCalls_of_sends h, List.filterMap_append]

variable {routed : Prop}

theorem ledger_start (rtrId : RouterID) (routeTable : ObjID → Option AppID)
    (getChannel : RouterID → Option RtrChan) :
    Ledger routed (Net.start rtrId routeTable getChannel : Net V) [] :=
  ⟨[], .refl _, .of_perm (.refl _)⟩

theorem Ledger.at_rest (h : Ledger routed net asks) (hrouted : routed)
    (hasks : asks.Perm net.rtr.answeredTags) : net.inFlight = [] := by
  obtain ⟨forwarded, hperm, hpasses⟩ := h
  have hlength := ((hpasses.perm hrouted).trans hasks).length_eq
  rw [hperm.length_eq, List.length_append] at hlength
  exact List.length_eq_zero_iff.mp (by omega)

variable [Zero V] [Add V]

theorem Ledger.work (h : Ledger routed net asks)
    (hrouted : routed → ∀ obj, net.rtr.findRoute obj ≠ unrouted) {l : Label V}
    (hl : net.rtr.Orderly l) (hd : net.rtr.dispatch l = .ok rtr') :
    Ledger routed (net.after l rtr') (asks ++
      ((net.rtr.forwards (net.rtr.clientSends l)).map Prod.snd).filterMap
        fun re => askedTag re.payload) := by
  obtain ⟨forwarded, hperm, hbefore⟩ := h
  refine ⟨forwarded ++ _, ?_, hbefore.append ((forwards_asked _).mono hrouted)⟩
  have hnone : ((((net.rtr.forwards (net.rtr.clientSends l)).map Prod.snd).filter fun re =>
      re.dest = appId net.rtr.rtrId noServer).filterMap fun re => answeredTag re.payload) =
      [] := by
    refine List.filterMap_eq_nil_iff.mpr fun re hre => ?_
    exact if_neg (forwards_own (List.mem_of_mem_filter hre)).2
  have hanswered : (net.after l rtr').rtr.answeredTags = net.rtr.answeredTags := by
    have hsame := answeredTags_of_sends (work_sends hl hd)
    rw [hnone, List.append_nil] at hsame
    exact hsame
  rw [work_inFlight hl hd, hanswered]
  calc
    List.Perm (forwarded ++ _) (net.inFlight ++ net.rtr.answeredTags ++ _) := hperm.append_right _
    List.Perm _ (net.inFlight ++ _ ++ net.rtr.answeredTags) := by
      rw [List.append_assoc, List.append_assoc]
      exact List.perm_append_comm.append_left _

theorem Ledger.routerEvent (h : Ledger routed net asks) {re : RouterEvent V}
    (hd : net.rtr.dispatch (.routerEvent re) = .ok rtr')
    (hadm : net.Admissible (.routerEvent re)) :
    Ledger routed (net.after (.routerEvent re) rtr') asks := by
  obtain ⟨forwarded, hperm, hpasses⟩ := h
  refine ⟨forwarded, hperm.trans ?_, hpasses⟩
  have hsends : net.rtr.Sends [re] rtr' := processRouterEvent_sends hd
  have hanswered : (net.after (.routerEvent re) rtr').rtr.answeredTags = _ :=
    answeredTags_of_sends hsends
  rw [hanswered]
  cases hev : net.rtr.responseOf (.routerEvent re) with
  | none =>
      rw [inFlight_none hev]
      rw [responseOf_routerEvent, ite_eq_right_iff] at hev
      have hnone : (([re].filter fun re => re.dest = appId net.rtr.rtrId noServer).filterMap
          fun re => answeredTag re.payload) = [] := by
        by_cases hdest : re.dest = appId net.rtr.rtrId noServer
        · have hresp : ¬ isResponse re.payload := fun hresp => by cases hev ⟨hdest, hresp⟩
          simp [answeredTag, hresp]
        · simp [hdest]
      rw [hnone, List.append_nil]
  | some ev =>
      obtain ⟨t, hmem, ht⟩ := hadm.solicited ev hev
      rw [inFlight_answer hev ht]
      rw [responseOf_routerEvent, Option.ite_none_right_eq_some] at hev
      obtain ⟨⟨hdest, hresp⟩, hev⟩ := hev
      obtain rfl := Option.some.inj hev
      have hone : (([re].filter fun re => re.dest = appId net.rtr.rtrId noServer).filterMap
          fun re => answeredTag re.payload) = [t] := by
        simp [hdest, answeredTag, hresp, ht]
      rw [hone, ← List.append_assoc]
      calc
        List.Perm (net.inFlight ++ net.rtr.answeredTags)
            (t :: net.inFlight.erase t ++ net.rtr.answeredTags) :=
          (List.perm_cons_erase hmem).append_right _
        List.Perm _ (net.inFlight.erase t ++ net.rtr.answeredTags ++ [t]) :=
          (List.perm_append_singleton t _).symm

end Ledger

end PwrApi.Router
