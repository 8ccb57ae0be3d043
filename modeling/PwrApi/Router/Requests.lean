import PwrApi.Router.Reduction

/-! The requests under way across the steps of a router: which steps create, answer or
leave them, and the clients they belong to. -/

namespace PwrApi.Router

open Function Runs

variable {V : Type}

/-- The two states agree on the clients, their requests and the responses sent. -/
structure SameRequests (rtr rtr' : Router V) : Prop where
  clientMap : rtr'.clientMap = rtr.clientMap
  infos : rtr'.infos = rtr.infos
  replies : rtr'.replies = rtr.replies

theorem SameRequests.refl (rtr : Router V) : SameRequests rtr rtr := ⟨rfl, rfl, rfl⟩

def isResponse : Payload V → Bool
  | .commResp _ | .commLogResp _ | .commGetSamplesResp _ => true
  | _ => false

/-- The response that a step hands to its handler: one that a server sends as it is, or
inside a router event for this router. -/
def responseOf (rtr : Router V) : Label V → Option (Payload V)
  | .serverEvent _ ev => if isResponse ev then some ev else none
  | .routerEvent re =>
      if rtrIdOf re.dest = rtr.rtrId ∧ serverIdOf re.dest = noServer ∧ isResponse re.payload then
        some re.payload
      else none
  | _ => none

/-- The request that a step brings, with its client and address. -/
def requestOf : Label V → Option (ClientChan × Payload V × EventId)
  | .clientEvent _ (.commCreate _) _ => none
  | .clientEvent ec ev info => some (ec, ev, info)
  | _ => none

section Steps

variable [Zero V] [Add V] {rtr rtr' : Router V} {l : Label V}

theorem dispatch_response {ev : Payload V} (h : rtr.responseOf l = some ev) :
    isResponse ev = true ∧ ∃ (rtr₀ : Router V) (f : Router V → Router V),
      SameRequests rtr rtr₀ ∧ (∀ mid, SameRequests mid (f mid)) ∧
      rtr.dispatch l = (rtr₀.processServer none ev).map f := by
  cases l with
  | serverEvent ec sent =>
      simp only [responseOf, Option.ite_none_right_eq_some, Option.some.injEq] at h
      obtain ⟨hresp, rfl⟩ := h
      refine ⟨hresp, rtr, id, .refl rtr, .refl, ?_⟩
      rw [Except.map_id]
      cases sent <;> simp_all [isResponse, dispatch, processServer]
  | routerEvent re =>
      simp only [responseOf, Option.ite_none_right_eq_some, Option.some.injEq] at h
      obtain ⟨⟨hlocal, hself, hresp⟩, rfl⟩ := h
      refine ⟨hresp, (rtr.newEvent re).recordCall re.dest re,
        fun mid => mid.deleteEvent rtr.mail.nextEvent, ⟨rfl, rfl, rfl⟩,
        fun mid => ⟨rfl, rfl, rfl⟩, ?_⟩
      have hdest : (rtr.newEvent re).destChan re.dest =
          .ok ((rtr.findServerChan (serverIdOf re.dest)).map .server) :=
        if_pos hlocal
      have hown : rtrIdOf re.dest = ((rtr.newEvent re).recordCall re.dest re).rtrId ∧
          serverIdOf re.dest = noServer := ⟨hlocal, hself⟩
      have hread : (rtr.newEvent re).mail.events rtr.mail.nextEvent = some re := by
        simp [newEvent]
      simp only [dispatch, processRouterEvent, forwardEvent, hdest, hread, orFault_some, bind,
        Except.bind]
      rw [if_pos hown]
      cases processServer _ none re.payload <;> rfl
  | acceptClient ec => cases h
  | acceptServer ec => cases h
  | clientEvent ec ev info => cases h
  | clientClosed ec => cases h
  | serverClosed ec => cases h

theorem dispatch_other (hreq : requestOf l = none) (hresp : rtr.responseOf l = none)
    (h : rtr.dispatch l = .ok rtr') : rtr'.infos = rtr.infos ∧ rtr'.replies = rtr.replies := by
  cases l with
  | acceptClient ec => exact Except.ok.inj h ▸ ⟨rfl, rfl⟩
  | acceptServer ec => exact Except.ok.inj h ▸ ⟨rfl, rfl⟩
  | clientEvent ec ev info =>
      cases ev with
      | commCreate ev =>
          obtain ⟨_, _, _, _, hmail⟩ := processCommCreate_ok h
          exact ⟨hmail.infos, hmail.replies⟩
      | _ => cases hreq
  | clientClosed ec =>
      obtain ⟨_, hinfos, hreplies, _⟩ := delClientChan_ok h
      exact ⟨hinfos, hreplies⟩
  | serverEvent ec ev =>
      cases ev with
      | serverConnect connect =>
          obtain ⟨ch, mid, _, _, _, rfl, hpending⟩ := processServerConnect_ok h
          have hmail := doPending_mailOnly hpending
          exact ⟨hmail.infos, hmail.replies⟩
      | commResp r => simp [responseOf, isResponse] at hresp
      | commLogResp r => simp [responseOf, isResponse] at hresp
      | commGetSamplesResp r => simp [responseOf, isResponse] at hresp
      | _ => cases h
  | serverClosed ec =>
      obtain rfl := Except.ok.inj h
      unfold delServerChan
      split <;> exact ⟨rfl, rfl⟩
  | routerEvent re =>
      rcases processRouterEvent_ok h with ⟨hlocal, hself, mid, hmid, rfl⟩ | ⟨_, _, rfl⟩ |
        ⟨_, ch, _, rfl⟩
      · have hnot : ¬ isResponse re.payload := by
          intro hyes
          simp [responseOf, hlocal, hself, hyes] at hresp
        cases hev : re.payload with
        | serverConnect connect =>
            rw [hev] at hmid
            obtain ⟨ch, _, hch, _⟩ := processServerConnect_ok hmid
            cases hch
        | commResp r => simp [hev, isResponse] at hnot
        | commLogResp r => simp [hev, isResponse] at hnot
        | commGetSamplesResp r => simp [hev, isResponse] at hnot
        | _ =>
            rw [hev] at hmid
            cases hmid
      · exact ⟨rfl, rfl⟩
      · exact ⟨rfl, rfl⟩

/-- The table of the clients after a step: three kinds of steps change it. -/
def clientsAfter (rtr : Router V) : Label V → ClientChan → Option Client
  | .acceptClient ec => update rtr.clientMap ec (some { commMap := [] })
  | .clientEvent ec (.commCreate ev) _ =>
      update rtr.clientMap ec ((rtr.clientMap ec).map fun client =>
        { commMap := Client.insertComm ev.commID ev client.commMap })
  | .clientClosed ec => update rtr.clientMap ec none
  | _ => rtr.clientMap

theorem dispatch_clientMap (h : rtr.dispatch l = .ok rtr') :
    rtr'.clientMap = rtr.clientsAfter l := by
  have reply : ReplyOnly rtr rtr' → rtr'.clientMap = rtr.clientMap := fun hreply => by
    rw [show rtr' = _ from hreply]
  cases l with
  | acceptClient ec => exact Except.ok.inj h ▸ rfl
  | acceptServer ec => exact Except.ok.inj h ▸ rfl
  | clientEvent ec ev info =>
      cases ev with
      | commCreate ev =>
          obtain ⟨client, client', hclient, hadd, hmail⟩ := processCommCreate_ok h
          simp only [Client.addComm, bind_eq_ok, Except.ok.injEq] at hadd
          obtain ⟨_, _, rfl⟩ := hadd
          rw [hmail.clientMap, clientsAfter, hclient]
          rfl
      | commReq ev =>
          obtain ⟨_, _, _, _, hmail⟩ := processCommReq_ok h
          exact hmail.clientMap
      | commLogReq ev =>
          obtain ⟨_, _, _, _, _, _, hmail⟩ := processSingle_ok h
          exact hmail.clientMap
      | commGetSamplesReq ev =>
          obtain ⟨_, _, _, _, _, _, hmail⟩ := processSingle_ok h
          exact hmail.clientMap
      | _ => cases h
  | clientClosed ec => exact (delClientChan_ok h).1
  | serverEvent ec ev =>
      rcases processServer_ok h with hreply | ⟨connect, rfl, hconnect⟩
      · exact reply hreply
      · obtain ⟨ch, mid, _, _, _, rfl, hpending⟩ := processServerConnect_ok hconnect
        exact (doPending_mailOnly hpending).clientMap
  | serverClosed ec =>
      obtain rfl := Except.ok.inj h
      simp only [delServerChan, clientsAfter]
      split <;> rfl
  | routerEvent re =>
      rcases processRouterEvent_ok h with ⟨_, _, mid, hmid, rfl⟩ | ⟨_, _, rfl⟩ | ⟨_, ch, _, rfl⟩
      · have hreply := processServer_none hmid
        rw [show mid = _ from hreply]
        rfl
      · rfl
      · rfl

theorem dispatch_clients (h : rtr.dispatch l = .ok rtr') {ec : ClientChan}
    (hec : rtr.clientMap ec ≠ none) (hclose : l ≠ .clientClosed ec) :
    rtr'.clientMap ec ≠ none := by
  rw [dispatch_clientMap h]
  cases l with
  | acceptClient other =>
      by_cases hsame : ec = other
      · simp [clientsAfter, hsame]
      · rwa [clientsAfter, update_of_ne hsame]
  | clientEvent other ev info =>
      cases ev with
      | commCreate ev =>
          by_cases hsame : ec = other
          · subst hsame
            rw [clientsAfter, update_self]
            simpa using hec
          · rwa [clientsAfter, update_of_ne hsame]
      | _ => exact hec
  | clientClosed other =>
      have hne : ec ≠ other := fun heq => hclose (by rw [heq])
      rwa [clientsAfter, update_of_ne hne]
  | _ => exact hec

theorem dispatch_request {ec : ClientChan} {ev : Payload V} {info : EventId}
    (hreq : requestOf l = some (ec, ev, info)) (h : rtr.dispatch l = .ok rtr') :
    rtr.clientMap ec ≠ none ∧ ∃ new : CommReqInfo V, new.src = ec ∧
      rtr'.infos = update rtr.infos info (some new) ∧ rtr'.replies = rtr.replies ∧
      rtr'.clientMap = rtr.clientMap := by
  cases l with
  | clientEvent ec' ev' info' =>
      cases ev' with
      | commReq req =>
          cases hreq
          obtain ⟨client, commList, hclient, _, hmail⟩ := processCommReq_ok h
          exact ⟨by simp [hclient], _, rfl, hmail.infos, hmail.replies, hmail.clientMap⟩
      | commLogReq req =>
          cases hreq
          obtain ⟨new, hsrc, _, _, _, hclient, hmail⟩ := processSingle_ok h
          exact ⟨hclient, new, hsrc, hmail.infos, hmail.replies, hmail.clientMap⟩
      | commGetSamplesReq req =>
          cases hreq
          obtain ⟨new, hsrc, _, _, _, hclient, hmail⟩ := processSingle_ok h
          exact ⟨hclient, new, hsrc, hmail.infos, hmail.replies, hmail.clientMap⟩
      | commCreate req => cases hreq
      | _ => cases h
  | _ => cases hreq

theorem processServer_response {ev : Payload V} (hresp : isResponse ev = true)
    (h : rtr.processServer none ev = .ok rtr') :
    rtr'.clientMap = rtr.clientMap ∧ ∃ p info, rtr.infos p = some info ∧
      ((∃ info', rtr'.infos = update rtr.infos p (some info') ∧ info'.src = info.src) ∨
        rtr'.infos = update rtr.infos p none) := by
  cases ev with
  | commResp r =>
      obtain ⟨info, rs, hinfo, _, h⟩ := processCommResp_ok h
      rcases h with ⟨_, _, rfl⟩ | ⟨_, resp, merged, _, _, ⟨_, rfl⟩ | ⟨_, h⟩⟩
      · exact ⟨rfl, r.id, info, hinfo, .inl ⟨_, rfl, rfl⟩⟩
      · exact ⟨rfl, r.id, info, hinfo, .inl ⟨_, rfl, rfl⟩⟩
      · obtain ⟨_, rfl⟩ := sendResp_ok h
        exact ⟨rfl, r.id, info, hinfo, .inr rfl⟩
  | commLogResp r =>
      obtain ⟨info, resp, hinfo, _, h⟩ := processCommLogResp_ok h
      obtain ⟨_, rfl⟩ := sendResp_ok h
      exact ⟨rfl, r.id, info, hinfo, .inr rfl⟩
  | commGetSamplesResp r =>
      obtain ⟨info, resp, hinfo, _, h⟩ := processCommGetSamplesResp_ok h
      obtain ⟨_, rfl⟩ := sendResp_ok h
      exact ⟨rfl, r.id, info, hinfo, .inr rfl⟩
  | _ => cases hresp

end Steps

end PwrApi.Router
