import PwrApi.Router.Collecting

/-! Where the exchanges of a router come from: each is for a `Get` or `Set` of a client, on a
communicator that this client has made. -/

namespace PwrApi.Router

open Function Runs

variable {V : Type}

def askedOf : Label V → Option (ClientChan × EventId)
  | .clientEvent ec (.commReq ev) _ => some (ec, ev.id)
  | _ => none

/-- The steps by which a client has made the communicator of a request, and then has asked. -/
structure FromClient (ls : List (Label V)) (req : Request V) : Prop where
  asked : .clientEvent req.src (.commReq req.ev) req.info ∈ ls
  members : ∃ l ∈ ls, ∃ create, createOf req.src l = some create ∧
    create.commID = req.ev.commID ∧ create.members = req.commList

/-- What the steps for the clients of a router tell of its exchanges and its communicators. -/
structure Recorded (ls : List (Label V)) (net : Net V) : Prop where
  asked : net.asked = ls.filterMap askedOf
  comms : ∀ ec client comm, net.rtr.clientMap ec = some client → comm ∈ client.commMap →
    comm.1 = comm.2.commID ∧ ∃ l ∈ ls, createOf ec l = some comm.2
  closed : ∀ req ∈ net.closed, FromClient ls req
  current : ∀ p req, net.current p = some req → FromClient ls req

theorem FromClient.mono {ls ls' : List (Label V)} {req : Request V} (h : FromClient ls req)
    (hls : ls ⊆ ls') : FromClient ls' req := by
  obtain ⟨hasked, l, hl, hmembers⟩ := h
  exact ⟨hls hasked, l, hls hl, hmembers⟩

section Steps

variable {ls : List (Label V)} {net : Net V} {rtr' : Router V} {l : Label V}

theorem recorded_start (rtrId : RouterID) (routeTable : ObjID → Option AppID)
    (getChannel : RouterID → Option RtrChan) :
    Recorded [] (Net.start rtrId routeTable getChannel : Net V) where
  asked := rfl
  comms := fun _ _ _ hclient => by cases hclient
  closed := fun _ hreq => absurd hreq List.not_mem_nil
  current := fun _ _ hp => by cases hp

theorem Recorded.answered (h : Recorded ls net) (rtr' : Router V) {ev : Payload V}
    (hev : net.rtr.responseOf l = some ev) :
    (∀ req ∈ (net.after l rtr').closed, FromClient ls req) ∧
      ∀ p req, (net.after l rtr').current p = some req → FromClient ls req := by
  by_cases hcomm : ∃ r req, ev = .commResp r ∧ net.current r.id = some req
  · obtain ⟨r, req, rfl, hreq⟩ := hcomm
    have hanswer : FromClient ls (req.answer r.grpIndex.toNat r) := by
      obtain ⟨hasked, hmembers⟩ := h.current r.id req hreq
      exact ⟨hasked, hmembers⟩
    rcases after_commResp rtr' hev hreq with ⟨hafter, hold⟩ | ⟨hafter, hold⟩
    · rw [hafter, hold]
      refine ⟨fun other hother => ?_, fun q other hq => ?_⟩
      · rcases List.mem_append.mp hother with hother | hother
        · exact h.closed other hother
        · exact List.mem_singleton.mp hother ▸ hanswer
      · exact h.current q other (Table.update_none hq).2
    · rw [hafter, hold]
      refine ⟨h.closed, fun q other hq => ?_⟩
      rcases Table.update_some hq with ⟨_, rfl⟩ | ⟨_, hq⟩
      · exact hanswer
      · exact h.current q other hq
  · have hsame : (net.after l rtr').current = net.current ∧
        (net.after l rtr').closed = net.closed := by
      simp only [Net.after, hev]
      cases ev with
      | commResp r =>
          cases hreq : net.current r.id with
          | none => simp only [Net.afterResponse, hreq, and_self]
          | some req => exact absurd ⟨r, req, rfl, hreq⟩ hcomm
      | _ => exact ⟨rfl, rfl⟩
    rw [hsame.1, hsame.2]
    exact ⟨h.closed, h.current⟩

variable [Zero V] [Add V]

theorem Recorded.comms_after (h : Recorded ls net) (hd : net.rtr.dispatch l = .ok rtr')
    {ec : ClientChan} {client : Client} {comm : CommID × CommCreateEvent}
    (hclient : rtr'.clientMap ec = some client) (hcomm : comm ∈ client.commMap) :
    comm.1 = comm.2.commID ∧ ∃ l' ∈ ls ++ [l], createOf ec l' = some comm.2 := by
  rw [dispatch_clientMap hd] at hclient
  rcases clientsAfter_some hclient with ⟨_, hempty⟩ | ⟨_, old, hold, hcreate⟩
  · rw [hempty] at hcomm
    exact absurd hcomm List.not_mem_nil
  · have hbefore : comm ∈ old.commMap →
        comm.1 = comm.2.commID ∧ ∃ l' ∈ ls ++ [l], createOf ec l' = some comm.2 := by
      intro hmem
      obtain ⟨hid, l', hl', hmade⟩ := h.comms ec old comm hold hmem
      exact ⟨hid, l', List.mem_append_left _ hl', hmade⟩
    cases hmade : createOf ec l with
    | none =>
        rw [hmade] at hcreate
        exact hbefore (hcreate ▸ hcomm)
    | some ev =>
        rw [hmade] at hcreate
        rw [hcreate, (insertComm_perm _ _ _).mem_iff, List.mem_cons] at hcomm
        rcases hcomm with rfl | hcomm
        · exact ⟨rfl, l, List.mem_append_right _ (List.mem_singleton_self l), hmade⟩
        · exact hbefore hcomm

theorem work_asked (hl : net.rtr.Orderly l) (hd : net.rtr.dispatch l = .ok rtr') :
    (net.after l rtr').asked = net.asked ++ (askedOf l).toList := by
  cases l with
  | clientEvent ec ev p =>
      cases ev with
      | commReq ev =>
          simp only [dispatch, processClient, processCommReq, bind_eq_ok, getClient,
            orFault_eq_ok] at hd
          obtain ⟨client, hclient, commList, hcomm, _⟩ := hd
          have hlist := commListOf_eq hclient hcomm
          simp [Net.after, responseOf, requestOf, Net.afterRequest, hlist, askedOf]
      | commCreate ev => exact (List.append_nil _).symm
      | commLogReq ev => exact (List.append_nil _).symm
      | commGetSamplesReq ev => exact (List.append_nil _).symm
      | _ => cases hd
  | clientClosed ec => exact absurd rfl (hl.stays ec).1
  | serverEvent ec ev =>
      obtain ⟨connect, rfl⟩ := hl.connects ec ev rfl
      exact (List.append_nil _).symm
  | serverClosed ec => exact absurd rfl (hl.stays ec).2
  | routerEvent re => exact absurd rfl (hl.fromHere re)
  | _ => exact (List.append_nil _).symm

theorem Recorded.work (h : Recorded ls net) (hl : net.rtr.Orderly l)
    (hd : net.rtr.dispatch l = .ok rtr') : Recorded (ls ++ [l]) (net.after l rtr') := by
  have hmore : ls ⊆ ls ++ [l] := List.subset_append_left ls [l]
  refine ⟨?_, fun _ _ _ => h.comms_after hd, ?_, ?_⟩
  · rw [work_asked hl hd, h.asked, List.filterMap_append, List.filterMap_cons]
    cases askedOf l <;> rfl
  · rcases work_current hl hd with ⟨_, _, _, _, _, _, _, hold⟩ | ⟨_, hold, _⟩ <;>
      exact hold ▸ fun req hreq => (h.closed req hreq).mono hmore
  · intro q req hq
    rcases work_current hl hd with ⟨ec, ev, p, commList, rfl, hlist, hafter, _⟩ | ⟨hafter, _, _⟩
    · rw [hafter] at hq
      rcases Table.update_some hq with ⟨rfl, rfl⟩ | ⟨_, hq⟩
      · obtain ⟨client, create, hclient, hcomm, hmembers⟩ := mem_of_commListOf hlist
        obtain ⟨hid, l', hl', hmade⟩ := h.comms ec client _ hclient hcomm
        exact ⟨List.mem_append_right _ (List.mem_singleton_self _),
          l', hmore hl', create, hmade, hid.symm, hmembers⟩
      · exact (h.current q req hq).mono hmore
    · rw [hafter] at hq
      exact (h.current q req hq).mono hmore

theorem Recorded.routerEvent (h : Recorded ls net) {re : RouterEvent V}
    (hd : net.rtr.dispatch (.routerEvent re) = .ok rtr') :
    Recorded ls (net.after (.routerEvent re) rtr') := by
  have hclients : rtr'.clientMap = net.rtr.clientMap := dispatch_clientMap hd
  have hcomms : ∀ ec client comm, rtr'.clientMap ec = some client → comm ∈ client.commMap →
      comm.1 = comm.2.commID ∧ ∃ l ∈ ls, createOf ec l = some comm.2 := by
    rw [hclients]
    exact h.comms
  cases hev : net.rtr.responseOf (.routerEvent re) with
  | none =>
      have hafter : net.after (.routerEvent re) rtr' = { net with rtr := rtr' } := by
        simp only [Net.after, hev, requestOf]
      rw [hafter]
      exact ⟨h.asked, hcomms, h.closed, h.current⟩
  | some ev =>
      obtain ⟨hclosed, hcurrent⟩ := h.answered rtr' hev
      refine ⟨?_, hcomms, hclosed, hcurrent⟩
      rw [← h.asked]
      simp only [Net.after, hev]
      cases ev with
      | commResp r =>
          simp only [Net.afterResponse]
          split
          · rfl
          · split <;> rfl
      | _ => rfl

end Steps

end PwrApi.Router
