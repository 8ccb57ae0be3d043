import PwrApi.Router.Replies
import PwrApi.Server.CommMap

/-! What a router sends on behalf of a client: the events that each of its own becomes,
and those of its disconnect. -/

namespace PwrApi.Router

open Function Runs PwrApi.Server

variable {V : Type}

def clientOf : Label V → Option ClientChan
  | .clientEvent ec _ _ => some ec
  | .clientClosed ec => some ec
  | _ => none

/-- The events for the sources of a communicator, one for each. -/
def sendsToAll (commList : List (List ObjID)) (ev : Payload V) : List (ObjID × Payload V) :=
  commList.flatten.map fun obj => (obj, ev)

/-- The events of `RtrCommCreateEvent::process`. -/
def sendsOfCreate (ev : CommCreateEvent) : List (ObjID × Payload V) :=
  ev.members.flatten.map fun obj => (obj, .commCreate
    { toCommEvent := newCommEvent .commCreate 0 ev.commID, members := [[obj]] })

/-- The events of `~Client` for one of its communicators. -/
def sendsOfDestroy (ev : CommCreateEvent) : List (ObjID × Payload V) :=
  (ev.members.headD []).map fun obj =>
    (cStr obj, .commDestroy { toCommEvent := newCommEvent .commDestroy 0 ev.commID })

def sendsOfClose (client : Client) : List (ObjID × Payload V) :=
  client.commMap.flatMap fun comm => sendsOfDestroy comm.2

/-- What the router sends for a client, with the objects it is addressed to. -/
def clientSends (rtr : Router V) : Label V → List (ObjID × Payload V)
  | .clientEvent ec ev info =>
      let commList := fun id => (commListOf rtr ec id).getD []
      match ev with
      | .commCreate ev => sendsOfCreate ev
      | .commReq ev => (fanOut { ev with id := info } (commList ev.commID)).map fun sent =>
          (sent.1, .commReq sent.2)
      | .commLogReq ev => sendsToAll (commList ev.commID) (.commLogReq { ev with id := info })
      | .commGetSamplesReq ev =>
          sendsToAll (commList ev.commID) (.commGetSamplesReq { ev with id := info })
      | _ => []
  | .clientClosed ec => ((rtr.clientMap ec).map sendsOfClose).getD []
  | _ => []

section Calls

variable {rtr rtr' : Router V}

def forwards (rtr : Router V) (sends : List (ObjID × Payload V)) :
    List (AppID × RouterEvent V) :=
  sends.filterMap fun sent => rtr.forwardedAs sent.1 sent.2

theorem mem_forwards {sends : List (ObjID × Payload V)} {d : AppID} {re : RouterEvent V} :
    (d, re) ∈ rtr.forwards sends ↔ ∃ obj ev, (obj, ev) ∈ sends ∧ rtr.findRoute obj = d ∧
      d ≠ unrouted ∧ re = ⟨appId rtr.rtrId noServer, d, ev⟩ := by
  rw [forwards, List.mem_filterMap]
  constructor
  · rintro ⟨⟨obj, ev⟩, hsent, hforward⟩
    rw [forwardedAs] at hforward
    split at hforward
    next => cases hforward
    next hroute =>
      obtain ⟨rfl, rfl⟩ := Prod.mk.inj (Option.some.inj hforward)
      exact ⟨obj, ev, hsent, rfl, hroute, rfl⟩
  · rintro ⟨obj, ev, hsent, rfl, hroute, rfl⟩
    exact ⟨(obj, ev), hsent, by rw [forwardedAs, if_neg hroute]⟩

theorem exists_forwards {P : Payload V → Prop} {sends : List (ObjID × Payload V)} {d : AppID} :
    (∃ re, (d, re) ∈ rtr.forwards sends ∧ P re.payload) ↔
      d ≠ unrouted ∧ ∃ obj, rtr.findRoute obj = d ∧ ∃ ev, (obj, ev) ∈ sends ∧ P ev := by
  constructor
  · rintro ⟨re, hre, hP⟩
    obtain ⟨obj, ev, hsent, hroute, hd, rfl⟩ := mem_forwards.mp hre
    exact ⟨hd, obj, hroute, ev, hsent, hP⟩
  · rintro ⟨hd, obj, hroute, ev, hsent, hP⟩
    exact ⟨_, mem_forwards.mpr ⟨obj, ev, hsent, hroute, hd, rfl⟩, hP⟩

theorem forwards_congr (htable : rtr'.routeTable = rtr.routeTable) (hid : rtr'.rtrId = rtr.rtrId)
    (sends : List (ObjID × Payload V)) : rtr'.forwards sends = rtr.forwards sends := by
  have hroute : ∀ obj, rtr'.findRoute obj = rtr.findRoute obj := fun obj => by
    rw [findRoute, findRoute, htable]
  simp only [forwards, forwardedAs, hroute, hid]

theorem commListOf_getD {ec : ClientChan} {id : CommID} {client : Client}
    {commList : List (List ObjID)} (hclient : rtr.clientMap ec = some client)
    (hcomm : client.getCommList id = .ok commList) :
    (commListOf rtr ec id).getD [] = commList := by
  rw [commListOf_eq hclient hcomm, Option.getD_some]

theorem processSingle_calls {ec : ClientChan} {comm : CommEvent} {info : EventId}
    {ev resp : Payload V} (h : rtr.processSingle ec comm info ev resp = .ok rtr') :
    rtr'.mail.calls = rtr.mail.calls ++
      rtr.forwards (sendsToAll ((commListOf rtr ec comm.commID).getD []) ev) := by
  simp only [processSingle, bind_eq_ok, getClient, orFault_eq_ok] at h
  obtain ⟨client, hclient, commList, hcomm, _, _, _, _, hsends⟩ := h
  rw [commListOf_getD hclient hcomm, sends_calls id (fun _ => ev) _ hsends, forwards, sendsToAll,
    List.filterMap_map]
  rfl

theorem destroyComms_calls {client : Client} (h : rtr.destroyComms client = .ok rtr') :
    rtr'.mail.calls = rtr.mail.calls ++ rtr.forwards (sendsOfClose client) := by
  rw [destroyComms] at h
  rw [sendsOfClose]
  generalize client.commMap = comms at h ⊢
  induction comms generalizing rtr with
  | nil =>
      obtain rfl := Except.ok.inj h
      exact (List.append_nil _).symm
  | cons comm comms ih =>
      obtain ⟨id, ev⟩ := comm
      rw [List.foldlM_cons, bind_eq_ok] at h
      obtain ⟨mid, hmid, hrest⟩ := h
      simp only [bind_eq_ok, orFault_eq_ok] at hmid
      obtain ⟨group, hgroup, hsends⟩ := hmid
      have hmail : MailOnly rtr mid := sends_mailOnly (fun _ _ _ => sendEventTo_mailOnly) hsends
      have hfirst : sendsOfDestroy (V := V) ev = group.map fun obj => (cStr obj,
          .commDestroy { toCommEvent := newCommEvent .commDestroy 0 ev.commID }) := by
        rw [sendsOfDestroy, List.headD_eq_head?_getD, hgroup, Option.getD_some]
      rw [ih hrest, sends_calls cStr _ _ hsends, forwards_congr hmail.routeTable hmail.rtrId,
        List.append_assoc, List.flatMap_cons, hfirst, forwards, forwards, List.filterMap_append,
        List.filterMap_map]
      rfl

theorem dispatch_calls [Zero V] [Add V] {l : Label V} {ec : ClientChan}
    (hclient : clientOf l = some ec) (h : rtr.dispatch l = .ok rtr') :
    rtr'.mail.calls = rtr.mail.calls ++ rtr.forwards (rtr.clientSends l) := by
  cases l with
  | clientEvent ec ev info =>
      cases ev with
      | commCreate ev =>
          simp only [dispatch, processClient, processCommCreate, bind_eq_ok, getClient,
            orFault_eq_ok] at h
          obtain ⟨client, _, client', _, hsends⟩ := h
          rw [sends_calls id _ _ hsends, clientSends, forwards, sendsOfCreate, List.filterMap_map]
          rfl
      | commReq ev =>
          simp only [dispatch, processClient, processCommReq, bind_eq_ok, getClient,
            orFault_eq_ok] at h
          obtain ⟨client, hclient, commList, hcomm, hsends⟩ := h
          simp only [clientSends, commListOf_getD hclient hcomm]
          rw [sends_calls Prod.fst (fun sent => .commReq sent.2) _ hsends, forwards,
            List.filterMap_map]
          rfl
      | commLogReq ev => exact processSingle_calls h
      | commGetSamplesReq ev => exact processSingle_calls h
      | _ => cases h
  | clientClosed ec =>
      simp only [dispatch, delClientChan] at h
      simp only [clientSends]
      split at h
      next hnone =>
        obtain rfl := Except.ok.inj h
        rw [hnone]
        exact (List.append_nil _).symm
      next client hsome =>
        rw [bind_eq_ok] at h
        obtain ⟨mid, hmid, h⟩ := h
        obtain rfl := Except.ok.inj h
        rw [hsome]
        have hcalls := destroyComms_calls hmid
        exact hcalls
  | _ => cases hclient

end Calls

section Communicators

variable {rtr : Router V} {l : Label V} {ec : ClientChan} {id : CommID} {obj : ObjID}

/-- The communicator that a client makes with an event. -/
def createOf (ec : ClientChan) : Label V → Option CommCreateEvent
  | .clientEvent other (.commCreate ev) _ => if other = ec then some ev else none
  | _ => none

theorem clientOf_createOf {ev : CommCreateEvent} (h : createOf ec l = some ev) :
    clientOf l = some ec := by
  cases l with
  | clientEvent other sent info =>
      cases sent with
      | commCreate sent =>
          simp only [createOf, Option.ite_none_right_eq_some] at h
          rw [clientOf, h.1]
      | _ => cases h
  | _ => cases h

theorem insertComm_perm (id : CommID) (ev : CommCreateEvent)
    (comms : List (CommID × CommCreateEvent)) :
    (Client.insertComm id ev comms).Perm ((id, ev) :: comms) := by
  induction comms with
  | nil => exact .refl _
  | cons comm comms ih =>
      obtain ⟨other, old⟩ := comm
      rw [Client.insertComm]
      split
      · exact .refl _
      · exact (ih.cons _).trans (.swap _ _ _)

theorem clientsAfter_some {client' : Client} (h : rtr.clientsAfter l ec = some client') :
    (l = .acceptClient ec ∧ client'.commMap = []) ∨
    (l ≠ .clientClosed ec ∧ ∃ client, rtr.clientMap ec = some client ∧
      match createOf ec l with
      | none => client' = client
      | some ev => client'.commMap = Client.insertComm ev.commID ev client.commMap) := by
  cases l with
  | acceptClient other =>
      by_cases hsame : ec = other
      · subst hsame
        rw [clientsAfter, update_self, Option.some.injEq] at h
        exact .inl ⟨rfl, by rw [← h]⟩
      · rw [clientsAfter, update_of_ne hsame] at h
        exact .inr ⟨by simp, client', h, rfl⟩
  | clientEvent other ev info =>
      cases ev with
      | commCreate ev =>
          by_cases hsame : other = ec
          · subst hsame
            rw [clientsAfter, update_self, Option.map_eq_some_iff] at h
            obtain ⟨client, hclient, rfl⟩ := h
            refine .inr ⟨by simp, client, hclient, ?_⟩
            rw [createOf, if_pos rfl]
          · rw [clientsAfter, update_of_ne (Ne.symm hsame)] at h
            refine .inr ⟨by simp, client', h, ?_⟩
            rw [createOf, if_neg hsame]
      | _ => exact .inr ⟨by simp, client', h, rfl⟩
  | clientClosed other =>
      by_cases hsame : ec = other
      · rw [clientsAfter, hsame, update_self] at h
        cases h
      · rw [clientsAfter, update_of_ne hsame] at h
        exact .inr ⟨by simpa [eq_comm] using hsame, client', h, rfl⟩
  | _ => exact .inr ⟨by simp, client', h, rfl⟩

theorem mem_of_commListOf {commList : List (List ObjID)}
    (h : commListOf rtr ec id = some commList) :
    ∃ client ev, rtr.clientMap ec = some client ∧ (id, ev) ∈ client.commMap ∧
      ev.members = commList := by
  simp only [commListOf, Option.bind_eq_bind, Option.bind_eq_some_iff, Option.some.injEq] at h
  obtain ⟨client, hclient, ev, hlookup, hmembers⟩ := h
  obtain ⟨before, after, hcomms, _⟩ := List.lookup_eq_some_iff.mp hlookup
  refine ⟨client, ev, hclient, ?_, hmembers⟩
  rw [hcomms]
  exact List.mem_append_right before List.mem_cons_self

theorem mem_sendsToAll {commList : List (List ObjID)} {ev ev' : Payload V} :
    (obj, ev') ∈ sendsToAll commList ev ↔ obj ∈ commList.flatten ∧ ev' = ev := by
  rw [sendsToAll, List.mem_map]
  constructor
  · rintro ⟨other, hother, heq⟩
    obtain ⟨rfl, rfl⟩ := Prod.mk.inj heq
    exact ⟨hother, rfl⟩
  · rintro ⟨hobj, rfl⟩
    exact ⟨obj, hobj, rfl⟩

theorem mem_sendsOfClose {client : Client} {ev : Payload V} :
    (obj, ev) ∈ sendsOfClose client ↔ ∃ comm ∈ client.commMap,
      ∃ first ∈ comm.2.members.headD [], cStr first = obj ∧
        .commDestroy { toCommEvent := newCommEvent .commDestroy 0 comm.2.commID } = ev := by
  simp only [sendsOfClose, sendsOfDestroy, List.mem_flatMap, List.mem_map, Prod.mk.injEq]

theorem mem_clientSends_close {ev : Payload V} :
    (obj, ev) ∈ rtr.clientSends (.clientClosed ec) ↔
      ∃ client, rtr.clientMap ec = some client ∧ (obj, ev) ∈ sendsOfClose client := by
  cases hclient : rtr.clientMap ec with
  | none => simp [clientSends, hclient]
  | some client => simp [clientSends, hclient]

theorem clientSends_creates (hclient : clientOf l = some ec) :
    (∃ ev, (obj, ev) ∈ rtr.clientSends l ∧ creates ev = some id) ↔
      ∃ ev, createOf ec l = some ev ∧ ev.commID = id ∧ obj ∈ ev.members.flatten := by
  cases l with
  | clientEvent other ev info =>
      obtain rfl := Option.some.inj hclient
      cases ev with
      | commCreate ev =>
          simp [clientSends, sendsOfCreate, createOf, creates, newCommEvent, and_comm]
      | commReq ev => simp [clientSends, createOf, creates]
      | commLogReq ev => simp [clientSends, createOf, creates, mem_sendsToAll]
      | commGetSamplesReq ev => simp [clientSends, createOf, creates, mem_sendsToAll]
      | _ => simp [clientSends, createOf]
  | clientClosed other =>
      apply iff_of_false
      · rintro ⟨ev, hsent, hcreates⟩
        obtain ⟨client, _, hsent⟩ := mem_clientSends_close.mp hsent
        obtain ⟨comm, _, first, _, _, rfl⟩ := mem_sendsOfClose.mp hsent
        cases hcreates
      · rintro ⟨ev, hev, _⟩
        cases hev
  | _ => cases hclient

theorem clientSends_members {create : CommCreateEvent}
    (hsent : (obj, .commCreate create) ∈ rtr.clientSends l) : create.members = [[obj]] := by
  cases l with
  | clientEvent other ev info =>
      cases ev with
      | commCreate ev =>
          simp only [clientSends, sendsOfCreate, List.mem_map, Prod.mk.injEq,
            Payload.commCreate.injEq] at hsent
          obtain ⟨_, _, rfl, rfl⟩ := hsent
          rfl
      | commReq ev => simp [clientSends] at hsent
      | commLogReq ev => simp [clientSends, mem_sendsToAll] at hsent
      | commGetSamplesReq ev => simp [clientSends, mem_sendsToAll] at hsent
      | _ => cases hsent
  | clientClosed other =>
      obtain ⟨client, _, hsent⟩ := mem_clientSends_close.mp hsent
      obtain ⟨_, _, _, _, _, heq⟩ := mem_sendsOfClose.mp hsent
      cases heq
  | _ => cases hsent

theorem clientSends_destroys (hclient : clientOf l = some ec) :
    (∃ ev, (obj, ev) ∈ rtr.clientSends l ∧ destroys ev = some id) ↔
      l = .clientClosed ec ∧ ∃ client, rtr.clientMap ec = some client ∧
        ∃ comm ∈ client.commMap, comm.2.commID = id ∧
          ∃ first ∈ comm.2.members.headD [], cStr first = obj := by
  cases l with
  | clientEvent other ev info =>
      apply iff_of_false
      · rintro ⟨sent, hsent, hdestroys⟩
        cases ev with
        | commCreate ev =>
            simp only [clientSends, sendsOfCreate, List.mem_map, Prod.mk.injEq] at hsent
            obtain ⟨_, _, _, rfl⟩ := hsent
            cases hdestroys
        | commReq ev =>
            simp only [clientSends, List.mem_map, Prod.mk.injEq] at hsent
            obtain ⟨_, _, _, rfl⟩ := hsent
            cases hdestroys
        | commLogReq ev =>
            obtain ⟨_, rfl⟩ := mem_sendsToAll.mp hsent
            cases hdestroys
        | commGetSamplesReq ev =>
            obtain ⟨_, rfl⟩ := mem_sendsToAll.mp hsent
            cases hdestroys
        | _ => cases hsent
      · rintro ⟨hclose, _⟩
        cases hclose
  | clientClosed other =>
      obtain rfl := Option.some.inj hclient
      constructor
      · rintro ⟨ev, hsent, hdestroys⟩
        obtain ⟨client, hmap, hsent⟩ := mem_clientSends_close.mp hsent
        obtain ⟨comm, hcomm, first, hfirst, hobj, rfl⟩ := mem_sendsOfClose.mp hsent
        exact ⟨rfl, client, hmap, comm, hcomm, Option.some.inj hdestroys, first, hfirst, hobj⟩
      · rintro ⟨_, client, hmap, comm, hcomm, hid, first, hfirst, hobj⟩
        refine ⟨_, mem_clientSends_close.mpr ⟨client, hmap, mem_sendsOfClose.mpr
          ⟨comm, hcomm, first, hfirst, hobj, rfl⟩⟩, ?_⟩
        exact congrArg some hid
  | _ => cases hclient

theorem clientSends_requests (hclient : clientOf l = some ec) {ev : Payload V}
    (hsent : (obj, ev) ∈ rtr.clientSends l) (hrequests : requests ev = some id) :
    ∃ commList, commListOf rtr ec id = some commList ∧ obj ∈ commList.flatten := by
  have found : ∀ {other : CommID}, obj ∈ ((commListOf rtr ec other).getD []).flatten →
      ∃ commList, commListOf rtr ec other = some commList ∧ obj ∈ commList.flatten := by
    intro other hobj
    cases hlist : commListOf rtr ec other with
    | none =>
        rw [hlist] at hobj
        cases hobj
    | some commList =>
        rw [hlist] at hobj
        exact ⟨commList, rfl, hobj⟩
  cases l with
  | clientEvent other ev' info =>
      obtain rfl := Option.some.inj hclient
      cases ev' with
      | commCreate ev' =>
          simp only [clientSends, sendsOfCreate, List.mem_map, Prod.mk.injEq] at hsent
          obtain ⟨_, _, _, rfl⟩ := hsent
          cases hrequests
      | commReq ev' =>
          simp only [clientSends, List.mem_map, Prod.mk.injEq] at hsent
          obtain ⟨sent, hsent, rfl, rfl⟩ := hsent
          obtain ⟨group, hgroup, hobj⟩ := mem_fanOut hsent
          have hid : ev'.commID = id :=
            (fanOut_commID hsent).symm.trans (Option.some.inj hrequests)
          rw [← hid]
          exact found (List.mem_flatten.mpr ⟨group, hgroup, hobj⟩)
      | commLogReq ev' =>
          obtain ⟨hobj, rfl⟩ := mem_sendsToAll.mp hsent
          obtain rfl := Option.some.inj hrequests
          exact found hobj
      | commGetSamplesReq ev' =>
          obtain ⟨hobj, rfl⟩ := mem_sendsToAll.mp hsent
          obtain rfl := Option.some.inj hrequests
          exact found hobj
      | _ => cases hsent
  | clientClosed other =>
      obtain ⟨client, _, hsent⟩ := mem_clientSends_close.mp hsent
      obtain ⟨comm, _, first, _, _, rfl⟩ := mem_sendsOfClose.mp hsent
      cases hrequests
  | _ => cases hclient

end Communicators

end PwrApi.Router
