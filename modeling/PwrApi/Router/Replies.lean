import PwrApi.Router.FanIn

/-! What the clients get: one response for each request, when its answers are in. -/

namespace PwrApi.Router

open Function Runs

variable {V : Type}

section Calls

def forwardedAs (rtr : Router V) (obj : ObjID) (ev : Payload V) :
    Option (AppID × RouterEvent V) :=
  if rtr.findRoute obj = unrouted then none
  else some (rtr.findRoute obj, ⟨appId rtr.rtrId noServer, rtr.findRoute obj, ev⟩)

theorem sendEventTo_calls {rtr rtr' : Router V} {obj : ObjID} {ev : Payload V}
    (h : rtr.sendEventTo obj ev = .ok rtr') :
    rtr'.mail.calls = rtr.mail.calls ++ (rtr.forwardedAs obj ev).toList := by
  rcases sendEventTo_cases h with ⟨hroute, rfl⟩ | ⟨hroute, h⟩
  · simp [forwardedAs, hroute]
  · rw [forwardedAs, if_neg hroute]
    rcases sendEvent_ok h with ⟨_, rfl⟩ | ⟨ch, _, rfl⟩ <;> rfl

theorem sends_calls {ι : Type} (obj : ι → ObjID) (ev : ι → Payload V) (xs : List ι)
    {rtr rtr' : Router V}
    (h : xs.foldlM (fun rtr x => rtr.sendEventTo (obj x) (ev x)) rtr = .ok rtr') :
    rtr'.mail.calls = rtr.mail.calls ++ xs.filterMap fun x => rtr.forwardedAs (obj x) (ev x) := by
  induction xs generalizing rtr with
  | nil =>
      obtain rfl := Except.ok.inj h
      simp
  | cons x xs ih =>
      rw [List.foldlM_cons, bind_eq_ok] at h
      obtain ⟨mid, hmid, hrest⟩ := h
      have hmail := sendEventTo_mailOnly hmid
      have hsame : ∀ obj ev, mid.forwardedAs obj ev = rtr.forwardedAs obj ev := by
        intro obj ev
        have hroute : mid.findRoute obj = rtr.findRoute obj := by
          rw [findRoute, findRoute, hmail.routeTable]
        rw [forwardedAs, forwardedAs, hroute, hmail.rtrId]
      rw [ih hrest, sendEventTo_calls hmid]
      simp only [hsame, List.append_assoc, List.filterMap_cons]
      cases rtr.forwardedAs (obj x) (ev x) <;> rfl

theorem mem_fanOut {ev : CommReqEvent V} {commList : List (List ObjID)}
    {sent : ObjID × CommReqEvent V} (h : sent ∈ fanOut ev commList) :
    ∃ group ∈ commList, sent.1 ∈ group := by
  obtain ⟨⟨group, i⟩, hgroup, hsent⟩ := List.mem_flatMap.mp h
  obtain ⟨obj, hobj, rfl⟩ := List.mem_map.mp hsent
  exact ⟨group, (List.mem_zipIdx hgroup).2.2 ▸ List.getElem_mem _, hobj⟩

theorem fanOut_commID {ev : CommReqEvent V} {commList : List (List ObjID)}
    {sent : ObjID × CommReqEvent V} (h : sent ∈ fanOut ev commList) :
    sent.2.commID = ev.commID := by
  obtain ⟨⟨group, i⟩, _, hsent⟩ := List.mem_flatMap.mp h
  obtain ⟨obj, _, rfl⟩ := List.mem_map.mp hsent
  rfl

theorem processCommReq_calls {rtr rtr' : Router V} {ec : ClientChan} {ev : CommReqEvent V}
    {p : EventId} {commList : List (List ObjID)}
    (hlist : commListOf rtr ec ev.commID = some commList)
    (h : rtr.processCommReq ec ev p = .ok rtr') :
    rtr'.mail.calls = rtr.mail.calls ++
      (fanOut { ev with id := p } commList).filterMap fun sent =>
        rtr.forwardedAs sent.1 (.commReq sent.2) := by
  simp only [processCommReq, bind_eq_ok, getClient, orFault_eq_ok] at h
  obtain ⟨client, hclient, commList', hcomm, hsends⟩ := h
  have hsame := commListOf_eq hclient hcomm
  rw [hlist, Option.some.injEq] at hsame
  subst hsame
  have hcalls := sends_calls Prod.fst (fun sent => Payload.commReq sent.2) _ hsends
  exact hcalls

end Calls

section Progress

variable [AddMonoid V]

theorem processCommResp_total {rtr : Router V} {r : CommRespEvent V} {info : CommReqInfo V}
    {rs : List (CommRespEvent V)} {size : Nat} {resp : CommRespEvent V}
    (hinfo : rtr.infos r.id = some info) (hrs : info.respQ[r.grpIndex.toNat]? = some rs)
    (hsize : info.grpInfo[r.grpIndex.toNat]? = some size) (hresp : info.resp = .commResp resp)
    (hsrc : rtr.clientMap info.src ≠ none)
    (hops : info.ev.op = .get → ∀ op ∈ info.valueOp, op = .fpAdd)
    (hcover : info.ev.op = .get → ∀ r' ∈ rs ++ [r], Covers info.valueOp.length r') :
    ∃ rtr', rtr.processCommResp r = .ok rtr' := by
  simp only [processCommResp, hinfo, hrs, hsize, orFault_some, bind, Except.bind]
  split
  · obtain ⟨merged, hmerged⟩ := mergeGroup_total
      { info with respQ := info.respQ.set r.grpIndex.toNat (rs ++ [r]) } resp
      r.grpIndex.toNat hops hcover
    rw [hresp]
    simp only [hresp] at hmerged
    simp only [hmerged]
    split
    · simp [sendResp, require_of .deadChannel hsrc, bind, Except.bind]
    · exact ⟨_, rfl⟩
  · exact ⟨_, rfl⟩

theorem processCommResp_refused {rtr : Router V} {r : CommRespEvent V} {info : CommReqInfo V}
    {rs : List (CommRespEvent V)} {resp : CommRespEvent V}
    (hinfo : rtr.infos r.id = some info) (hrs : info.respQ[r.grpIndex.toNat]? = some rs)
    (hsize : info.grpInfo[r.grpIndex.toNat]? = some (rs.length + 1))
    (hresp : info.resp = .commResp resp) (hget : info.ev.op = .get)
    (hop : ∃ op ∈ info.valueOp, op ≠ .fpAdd)
    (hcover : ∀ r' ∈ rs ++ [r], Covers info.valueOp.length r') :
    rtr.processCommResp r = .error .assertFailed := by
  have hmerge : mergeGroup { info with respQ := info.respQ.set r.grpIndex.toNat (rs ++ [r]) }
      resp r.grpIndex.toNat (rs ++ [r]) = .error .assertFailed :=
    mergeGroup_refused resp r.grpIndex.toNat hget hop (by simp) hcover
  simp only [processCommResp, hinfo, hrs, hsize, orFault_some, bind, Except.bind]
  rw [if_pos (by simp), hresp]
  simp only [hresp] at hmerge
  simp only [hmerge]

end Progress

namespace Net

theorem pending_count {req : Request V} (h : req.Consistent) :
    ((List.range req.groups).countP fun g => (req.answers g).length ≠ req.size g) +
      req.done.length = req.groups := by
  have hdone : req.done.Perm ((List.range req.groups).filter fun g =>
      (req.answers g).length = req.size g) := by
    apply (List.perm_ext_iff_of_nodup h.nodup (List.nodup_range.filter _)).mpr
    intro g
    rw [h.mem_done g]
    simp
  have hlength := List.length_eq_countP_add_countP (l := List.range req.groups)
    (fun g => decide ((req.answers g).length = req.size g))
  rw [List.length_range, List.countP_eq_length_filter, ← hdone.length_eq] at hlength
  simpa [Nat.add_comm, eq_comm] using hlength

variable [AddMonoid V] {net : Net V}

theorem counts (h : net.Inv) {p : EventId} {info : CommReqInfo V} {resp : CommRespEvent V}
    (hinfo : net.rtr.infos p = some info) (hresp : info.resp = .commResp resp) :
    info.respQ.length = info.grpInfo.length ∧
    (∀ g < info.grpInfo.length,
      (info.respQ.getD g []).length + net.inFlight.count (.comm p (UInt64.ofNat g)) =
        info.grpInfo.getD g 0) ∧
    info.pending = (List.range info.grpInfo.length).countP fun g =>
      (info.respQ.getD g []).length ≠ info.grpInfo.getD g 0 := by
  cases hp : net.current p with
  | none => exact ((h.other p hp).2 info resp hinfo hresp).elim
  | some req =>
      obtain ⟨hid, info', hinfo', hmirrors⟩ := h.mirrored p req hp
      rw [hinfo, Option.some.injEq] at hinfo'
      subst hinfo'
      obtain ⟨hconsistent, _, hawaits⟩ := h.consistent p req hp
      have hlength : info.grpInfo.length = req.groups := by simp [hmirrors.grpInfo]
      refine ⟨by simp [hmirrors.grpInfo, hmirrors.respQ], ?_, ?_⟩
      · intro g hg
        rw [hlength] at hg
        rw [hmirrors.respQ, hmirrors.grpInfo, range_map_getD _ _ hg, range_map_getD _ _ hg,
          ← hid]
        exact hawaits.outstanding g hg
      · have hcount := pending_count hconsistent
        have hpending := hmirrors.pending
        have hsame : ((List.range info.grpInfo.length).countP fun g =>
            (info.respQ.getD g []).length ≠ info.grpInfo.getD g 0) =
            (List.range req.groups).countP fun g => (req.answers g).length ≠ req.size g := by
          rw [hlength]
          apply List.countP_congr
          intro g hg
          rw [List.mem_range] at hg
          rw [hmirrors.respQ, hmirrors.grpInfo, range_map_getD _ _ hg, range_map_getD _ _ hg]
        rw [hsame]
        omega

theorem live_waits (h : net.Inv) {p : EventId} {req : Request V}
    (hp : net.current p = some req) : ∃ g < req.groups, (req.answers g).length < req.size g := by
  obtain ⟨hconsistent, hmore, hawaits⟩ := h.consistent p req hp
  obtain ⟨g, hg, hnot⟩ : ∃ g, g < req.groups ∧ g ∉ req.done := by
    by_contra hall
    push Not at hall
    have hsub : (List.range req.groups).Subperm req.done :=
      List.subperm_of_subset List.nodup_range fun g hg => hall g (List.mem_range.mp hg)
    have := hsub.length_le
    rw [List.length_range] at this
    omega
  have hout := hawaits.outstanding g hg
  have hne : (req.answers g).length ≠ req.size g := fun heq =>
    hnot ((hconsistent.mem_done g).mpr ⟨hg, heq⟩)
  exact ⟨g, hg, by omega⟩

theorem live_awaits (h : net.Inv) {p : EventId} {req : Request V}
    (hp : net.current p = some req) : ∃ g, .comm p g ∈ net.inFlight := by
  obtain ⟨g, hg, hless⟩ := live_waits h hp
  have hout := (h.consistent p req hp).2.2.outstanding g hg
  rw [(h.mirrored p req hp).1] at hout
  exact ⟨UInt64.ofNat g, List.count_pos_iff.mp (by omega)⟩

theorem replies_keys (h : net.Inv) :
    (commReplies net.rtr.replies).map (fun reply => (reply.1, reply.2.id)) =
      net.closed.map Request.key := by
  have hall := h.answered
  generalize net.closed = closed at hall
  generalize commReplies net.rtr.replies = replies at hall
  induction hall with
  | nil => rfl
  | cons hfirst _ ih =>
      rw [List.map_cons, List.map_cons, ih, Request.key, hfirst.src, hfirst.id]

/-- For a `Get` the router can go on: its operations are additions and the answers of
the group, with the one that comes, cover its attributes. -/
def Servable (net : Net V) (r : CommRespEvent V) : Prop :=
  ∀ req, net.current r.id = some req → req.ev.op = .get →
    (∀ op ∈ req.ev.valueOp, op = .fpAdd) ∧
    ∀ r' ∈ req.answers r.grpIndex.toNat ++ [r], Covers req.ev.valueOp.length r'

theorem response_total (h : net.Inv) {l : Label V} {r : CommRespEvent V}
    (hl : net.rtr.responseOf l = some (.commResp r))
    (hmem : .comm r.id r.grpIndex ∈ net.inFlight) (hserve : net.Servable r) :
    ∃ rtr', net.rtr.dispatch l = .ok rtr' := by
  obtain ⟨_, rtr₀, f, hsame, _, hmap⟩ := dispatch_response hl
  cases hp : net.current r.id with
  | none => exact ((h.other r.id hp).1 _ hmem).elim
  | some req =>
      obtain ⟨hid, info, hinfo, hmirrors⟩ := h.mirrored r.id req hp
      obtain ⟨_, _, hawaits⟩ := h.consistent r.id req hp
      have hg := hawaits.inRange r.grpIndex (by rwa [hid])
      obtain ⟨resp, hresp, _⟩ := hmirrors.resp
      have hqueue : info.respQ[r.grpIndex.toNat]? = some (req.answers r.grpIndex.toNat) := by
        rw [hmirrors.respQ, range_map_getElem?, if_pos hg]
      have hops : info.ev.op = .get → info.valueOp = req.ev.valueOp := by
        intro hop
        rw [hmirrors.valueOp, Request.ops, if_pos (hmirrors.op ▸ hop)]
      have hinfo₀ : rtr₀.infos r.id = some info := by rw [hsame.infos]; exact hinfo
      obtain ⟨mid, hmid⟩ := processCommResp_total hinfo₀ hqueue (mirrors_size hmirrors hg) hresp
        (by rw [hsame.clientMap]; exact h.registered r.id info hinfo)
        (fun hop => by rw [hops hop]; exact (hserve req hp (hmirrors.op ▸ hop)).1)
        (fun hop => by rw [hops hop]; exact (hserve req hp (hmirrors.op ▸ hop)).2)
      refine ⟨f mid, ?_⟩
      rw [hmap]
      change (rtr₀.processCommResp r).map f = _
      rw [hmid]
      rfl

/-- `r` is the last answer of its group in a `Get` that does more than add, and the answers
of the group cover its attributes. -/
structure Refused (net : Net V) (r : CommRespEvent V) (req : Request V) : Prop where
  current : net.current r.id = some req
  get : req.ev.op = .get
  op : ∃ op ∈ req.ev.valueOp, op ≠ .fpAdd
  last : (req.answers r.grpIndex.toNat).length + 1 = req.size r.grpIndex.toNat
  covers : ∀ r' ∈ req.answers r.grpIndex.toNat ++ [r], Covers req.ev.valueOp.length r'

theorem response_refused (h : net.Inv) {l : Label V} {r : CommRespEvent V} {req : Request V}
    (hl : net.rtr.responseOf l = some (.commResp r))
    (hmem : .comm r.id r.grpIndex ∈ net.inFlight) (hrefused : net.Refused r req) :
    net.rtr.dispatch l = .error .assertFailed := by
  obtain ⟨_, rtr₀, f, hsame, _, hmap⟩ := dispatch_response hl
  obtain ⟨hid, info, hinfo, hmirrors⟩ := h.mirrored r.id req hrefused.current
  obtain ⟨_, _, hawaits⟩ := h.consistent r.id req hrefused.current
  have hg := hawaits.inRange r.grpIndex (by rwa [hid])
  obtain ⟨resp, hresp, _⟩ := hmirrors.resp
  have hqueue : info.respQ[r.grpIndex.toNat]? = some (req.answers r.grpIndex.toNat) := by
    rw [hmirrors.respQ, range_map_getElem?, if_pos hg]
  have hops : info.valueOp = req.ev.valueOp := by
    rw [hmirrors.valueOp, Request.ops, if_pos hrefused.get]
  have hfails : rtr₀.processCommResp r = .error .assertFailed :=
    processCommResp_refused (by rw [hsame.infos]; exact hinfo) hqueue
      (by rw [mirrors_size hmirrors hg, hrefused.last]) hresp (hmirrors.op.trans hrefused.get)
      (by rw [hops]; exact hrefused.op) (by rw [hops]; exact hrefused.covers)
  rw [hmap]
  change (rtr₀.processCommResp r).map f = _
  rw [hfails]
  rfl

/-- In every state that requests and responses can reach, in any order: the queues and
the forwarded requests of a group add up to its sources and `pending` counts the groups
that wait; a request that is gone is awaited by nobody; the responses sent are those of
the closed requests, each built from the answers of all sources of its own groups; and
each request asked is under way or was answered once, on its channel and with its id.
When no forwarded request is left, each has been answered. No answer to a forwarded
request fails, and a request is forwarded once to every source of every group. -/
theorem fan_out_fan_in (rtrId : RouterID) (routeTable : ObjID → Option AppID)
    (getChannel : RouterID → Option RtrChan) (ls : List (Label V)) (net : Net V)
    (hrun : Run Step (start rtrId routeTable getChannel) ls net) :
    (∀ p info resp, net.rtr.infos p = some info → info.resp = .commResp resp →
      info.respQ.length = info.grpInfo.length ∧
      (∀ g < info.grpInfo.length,
        (info.respQ.getD g []).length + net.inFlight.count (.comm p (UInt64.ofNat g)) =
          info.grpInfo.getD g 0) ∧
      info.pending = (List.range info.grpInfo.length).countP fun g =>
        (info.respQ.getD g []).length ≠ info.grpInfo.getD g 0) ∧
    (∀ p, net.rtr.infos p = none → ∀ g, .comm p g ∉ net.inFlight) ∧
    List.Forall₂ Answered net.closed (commReplies net.rtr.replies) ∧
    net.asked.Perm
      ((commReplies net.rtr.replies).map (fun reply => (reply.1, reply.2.id)) ++
        net.liveKeys) ∧
    ((∀ p g, .comm p g ∉ net.inFlight) →
      net.asked.Perm
        ((commReplies net.rtr.replies).map fun reply => (reply.1, reply.2.id))) ∧
    (∀ l r, net.rtr.responseOf l = some (.commResp r) →
      .comm r.id r.grpIndex ∈ net.inFlight → net.Servable r →
      ∃ rtr', net.rtr.dispatch l = .ok rtr') ∧
    ∀ ec ev p commList rtr', commListOf net.rtr ec ev.commID = some commList →
      net.rtr.dispatch (.clientEvent ec (.commReq ev) p) = .ok rtr' →
      rtr'.mail.calls = net.rtr.mail.calls ++
        (fanOut { ev with id := p } commList).filterMap fun sent =>
          net.rtr.forwardedAs sent.1 (.commReq sent.2) := by
  have h : net.Inv := inv_run hrun
  have hasked : net.asked.Perm
      ((commReplies net.rtr.replies).map (fun reply => (reply.1, reply.2.id)) ++
        net.liveKeys) := by
    rw [replies_keys h]
    exact h.asked
  refine ⟨fun p info resp => counts h, ?_, h.answered, hasked, ?_,
    fun l r => response_total h, fun ec ev p commList rtr' => processCommReq_calls⟩
  · intro p hp
    cases hcur : net.current p with
    | none => exact (h.other p hcur).1
    | some req =>
        obtain ⟨_, info, hinfo, _⟩ := h.mirrored p req hcur
        rw [hp] at hinfo
        cases hinfo
  · intro hnone
    have hempty : net.liveKeys = [] := by
      rw [liveKeys, List.filterMap_eq_nil_iff]
      intro p hp
      cases hcur : net.current p with
      | none => rfl
      | some req =>
          obtain ⟨g, hg⟩ := live_awaits h hcur
          exact (hnone p g hg).elim
    rwa [hempty, List.append_nil] at hasked

/-- Server 3 connects, and a client that makes a communicator of one group with two
sources and asks for the power of both. -/
def twoSources : List (Label Int) :=
  [.acceptServer 7,
    .serverEvent 7 (.serverConnect { toEvent := Event.ofType .serverConnect, name := [110] }),
    .acceptClient 4,
    .clientEvent 4 (.commCreate
      { toCommEvent := newCommEvent .commCreate 0 9, members := [[[110], [110]]] }) 0,
    .clientEvent 4 (.commReq
      { toCommEvent := { newCommEvent .commReq 1 9 with op := .get }, grpIndex := 0
        attrName := [.power], setValues := [], valueOp := [.fpAdd] }) 100]

/-- The answer of one source, with its value and its time. -/
def powerResp (value : Int) (time : PwrTime) : CommRespEvent Int :=
  { toCommEvent := newCommEvent .commResp 100 9, timeStamp := [[time]], value := [[value]]
    grpIndex := 0, errObj := [], errAttr := [], errValue := [] }

def powerAnswer (value : Int) (time : PwrTime) : Label Int :=
  .serverEvent 7 (.commResp (powerResp value time))

theorem twoSources_run :
    ∃ net : Net Int, Run Step (start 1 oneServer fun _ => none)
      (twoSources ++ [powerAnswer 20 5, powerAnswer 22 6]) net ∧
      (commReplies net.rtr.replies).map (fun reply => (reply.1, reply.2.id, reply.2.value)) =
        [(4, 1, [[42]])] ∧ net.inFlight = [] := by
  refine ⟨_, .cons (step_of rfl rfl (admissible_other (by simp) (by simp [requestOf]) rfl))
    (.cons (step_of trivial rfl (admissible_other (by simp) (by simp [requestOf]) rfl))
    (.cons (step_of rfl rfl (admissible_other (by simp) (by simp [requestOf]) rfl))
    (.cons (step_of rfl rfl (admissible_other (by simp) (by simp [requestOf]) rfl))
    (.cons (step_of rfl rfl (admissible_commReq rfl (by decide) (by decide) (by decide)))
    (.cons (step_of trivial rfl (admissible_response rfl (by decide)))
    (.cons (step_of trivial rfl (admissible_response rfl (by decide))) (.nil _))))))), ?_, ?_⟩
  · rfl
  · rfl

theorem fan_out_fan_in_twoSources :
    ∃ net : Net Int, List.Forall₂ Answered net.closed (commReplies net.rtr.replies) ∧
      net.asked.Perm
        ((commReplies net.rtr.replies).map fun reply => (reply.1, reply.2.id)) ∧
      (commReplies net.rtr.replies).map (fun reply => (reply.1, reply.2.id, reply.2.value)) =
        [(4, 1, [[42]])] := by
  obtain ⟨net, hrun, hreply, hnone⟩ := twoSources_run
  obtain ⟨_, _, hanswered, _, hasked, _, _⟩ := fan_out_fan_in 1 oneServer (fun _ => none) _ net hrun
  exact ⟨net, hanswered, hasked (by simp [hnone]), hreply⟩

end Net

end PwrApi.Router
