import PwrApi.Deploy.Answering
import PwrApi.Router.Asking
import PwrApi.Router.Replies

/-! The clients of a tree of routers: each router conducts the exchanges of its clients, whose
answers the servers of the tree have given. -/

namespace PwrApi.Service

open Function Runs Router

variable {α V : Type}

section Following

variable [DecidableEq α]

def worksAt (x : α) : Label α V → Option (Router.Label V)
  | .work z l => if z = x then some l else none
  | _ => none

theorem requestsOf_append {s : Service α V} (s' : Service α V) {z : α}
    {new : List (RouterEvent V)}
    (hmade : s'.transport.made = s.transport.made ++ new.map fun re => (z, re)) (x : α) :
    s'.requestsOf x = s.requestsOf x ++ if z = x then new.filter isRequest else [] := by
  rw [requestsOf, requestsOf, hmade, List.filter_append, List.map_append, List.filter_append]
  congr 1
  by_cases hz : z = x
  · simp [hz, List.filter_map, List.map_map, Function.comp_def]
  · simp [hz, List.filter_map, Function.comp_def]

variable [Zero V] [Add V] {net : TreeNetwork α}
  {cntxt : α × ServerChan → Cntxt V} {table : α → ObjID → Option AppID} {s s' : Service α V}
  {x : α} {exchange : Net V} {came : List ((α × ServerChan) × Reply V)}
  {fresh : List (RouterEvent V)} {rtr' : Router V}

/-- The exchanges of the router at `x`, the replies that have come for them, and its requests
that were not answered. -/
structure Follows (net : TreeNetwork α) (table : α → ObjID → Option AppID) (s : Service α V)
    (x : α) (exchange : Net V) (came : List ((α × ServerChan) × Reply V))
    (fresh : List (RouterEvent V)) : Prop where
  history : ∃ ls, Run Net.Step (Net.start (net.id x) (table x) (treeChannel (net.links x))) ls
    exchange
  rtr : exchange.rtr = s.transport.routers x
  ledger : Ledger (∀ obj, table x obj ≠ some unrouted) exchange
    ((s.requestsOf x).filterMap fun re => askedTag re.payload)
  traced : Traced net s x came
  requests : (s.requestsOf x).Perm ((came.map fun c => c.2.entry.event) ++ fresh)

theorem Follows.answered (h : Follows net table s x exchange came fresh)
    (hinv : Inv net cntxt table s) :
    exchange.rtr.answeredTags =
      (came.map fun c => c.2.entry.event).filterMap fun re => askedTag re.payload := by
  have hanswers : exchange.rtr.answeredTags =
      (s.answersOf x).filterMap fun re => answeredTag re.payload := by
    rw [h.rtr, answeredTags, answersOf, List.filterMap_filter]
    refine List.filterMap_congr fun re _ => ?_
    rw [answeredTag]
    cases isResponse re.payload <;> rfl
  rw [hanswers, ← h.traced.events, List.filterMap_map, List.filterMap_map]
  refine List.filterMap_congr fun c hc => ?_
  exact answeredTag_reply (hinv.came_answers (h.traced.mem hc)).1

theorem Follows.awaited (h : Follows net table s x exchange came fresh)
    (hinv : Inv net cntxt table s) {re : RouterEvent V} (hre : re ∈ fresh) {t : Tag}
    (ht : askedTag re.payload = some t) : t ∈ exchange.inFlight := by
  obtain ⟨forwarded, hperm, hpasses⟩ := h.ledger
  have hasked := h.requests.filterMap fun re => askedTag re.payload
  rw [List.filterMap_append, ← h.answered hinv] at hasked
  have hcount := hpasses.once.count_le t
  rw [hperm.count_eq, hasked.count_eq, List.count_append, List.count_append] at hcount
  have hmem : t ∈ fresh.filterMap fun re => askedTag re.payload :=
    List.mem_filterMap.mpr ⟨re, hre, ht⟩
  have hpos := List.count_pos_iff.mpr hmem
  exact List.count_pos_iff.mp (by omega)

theorem follows_start (buf : α × ServerChan → Nat → V × PwrTime) :
    Follows net table (start net table buf) x
      (Net.start (net.id x) (table x) (treeChannel (net.links x))) [] [] where
  history := ⟨[], .nil _⟩
  rtr := rfl
  ledger := ledger_start _ _ _
  traced := traced_start buf
  requests := .refl _

theorem Follows.congr (h : Follows net table s x exchange came fresh)
    (hrouter : s'.transport.routers x = s.transport.routers x)
    (hrequests : s'.requestsOf x = s.requestsOf x) (hcame : s.came <+: s'.came) :
    Follows net table s' x exchange came fresh :=
  ⟨h.history, h.rtr.trans hrouter.symm, hrequests ▸ h.ledger,
    h.traced.mono (by rw [answersOf, answersOf, hrouter]) hcame, hrequests ▸ h.requests⟩

omit [DecidableEq α] [Zero V] [Add V] in
theorem findRoute_ne_unrouted {rtr : Router V} (hroutes : rtr.routeTable = table x)
    (h : ∀ obj, table x obj ≠ some unrouted) (obj : ObjID) : rtr.findRoute obj ≠ unrouted := by
  rw [findRoute, hroutes]
  cases hobj : table x obj with
  | none => decide
  | some id =>
      rintro rfl
      exact h obj hobj

theorem follows_work (hinv : Inv net cntxt table s)
    (h : Follows net table s x exchange came fresh) {l : Router.Label V}
    (hl : (s.transport.routers x).Orderly l) (hstep : (s.transport.routers x).Step l rtr') :
    Follows net table { s with transport := s.transport.worked x rtr' } x
      (exchange.after l rtr') came (fresh ++ (newEvents exchange.rtr l).filter isRequest) := by
  obtain ⟨⟨ls, hrun⟩, hrtr, hledger, htraced, hrequests⟩ := h
  have hsends := work_sends hl hstep.2
  have hall := requestsOf_append { s with transport := s.transport.worked x rtr' }
    (made_worked hsends) x
  rw [if_pos rfl] at hall
  have hanswers : ({ s with transport := s.transport.worked x rtr' } : Service α V).answersOf x =
      s.answersOf x := by
    have hnone : ((((s.transport.routers x).forwards ((s.transport.routers x).clientSends l)).map
        Prod.snd).filter fun re => isResponse re.payload) = [] :=
      List.filter_eq_nil_iff.mpr fun re hre => (forwards_own hre).2
    rw [answersOf, answersOf, Transport.worked_self, ownCalls_of_sends hsends,
      List.filter_append, List.filter_comm, hnone]
    exact List.append_nil _
  have hroutes := hinv.routes x
  have hasked : (newEvents exchange.rtr l).filterMap (fun re => askedTag re.payload) =
      ((newEvents exchange.rtr l).filter isRequest).filterMap fun re => askedTag re.payload := by
    rw [List.filterMap_filter]
    refine List.filterMap_congr fun re _ => ?_
    rw [askedTag]
    cases hrequest : isRequest re with
    | false => exact if_neg fun hsome => by cases hrequest.symm.trans hsome
    | true => rfl
  rw [← hrtr] at hl hstep hroutes hall
  refine ⟨⟨ls ++ [l], hrun.snoc (Net.step_of hstep.1 hstep.2 hl.admissible)⟩,
    Transport.worked_self.symm, ?_, htraced.mono hanswers List.prefix_rfl, ?_⟩
  · rw [hall, List.filterMap_append]
    have hnext := hledger.work (findRoute_ne_unrouted hroutes) hl hstep.2
    rwa [← newEvents, hasked] at hnext
  · rw [hall, ← List.append_assoc]
    exact hrequests.append_right _

theorem follows_other (h : Follows net table s x exchange came fresh) {re : RouterEvent V}
    (hstep : (s.transport.routers x).Step (.routerEvent re) rtr')
    (hrouter : s'.transport.routers x = rtr') (hrequests : s'.requestsOf x = s.requestsOf x)
    (hcame : s.came <+: s'.came)
    (hev : (s.transport.routers x).responseOf (.routerEvent re) = none) :
    Follows net table s' x (exchange.after (.routerEvent re) rtr') came fresh := by
  obtain ⟨⟨ls, hrun⟩, hrtr, hledger, htraced, hperm⟩ := h
  have hsends : (s.transport.routers x).Sends [re] rtr' := processRouterEvent_sends hstep.2
  have hanswers : s'.answersOf x = s.answersOf x := by
    rw [responseOf_routerEvent, ite_eq_right_iff] at hev
    rw [answersOf, answersOf, hrouter, ownCalls_of_sends hsends, List.filter_append]
    have hnone : (([re].filter fun re =>
        re.dest = appId (s.transport.routers x).rtrId noServer).filter
          fun re => isResponse re.payload) = [] := by
      refine List.filter_eq_nil_iff.mpr fun re' hre' hresp => ?_
      obtain ⟨hre', hdest⟩ := List.mem_filter.mp hre'
      obtain rfl := List.mem_singleton.mp hre'
      cases hev ⟨of_decide_eq_true hdest, hresp⟩
    rw [hnone, List.append_nil]
  rw [← hrtr] at hstep hev
  have hadm : exchange.Admissible (.routerEvent re) := by
    refine ⟨by simp, by simp [requestOf], fun ev h => ?_⟩
    rw [hev] at h
    cases h
  refine ⟨⟨ls ++ [_], hrun.snoc (Net.step_of hstep.1 hstep.2 hadm)⟩, hrouter.symm, ?_,
    htraced.mono hanswers hcame, hrequests ▸ hperm⟩
  rw [hrequests]
  exact hledger.routerEvent hstep.2 hadm

theorem follows_answer (hinv : Inv net cntxt table s) (hinv' : Inv net cntxt table s')
    (h : Follows net table s x exchange came fresh) {re : RouterEvent V}
    (hstep : (s.transport.routers x).Step (.routerEvent re) rtr')
    (hrouter : s'.transport.routers x = rtr') (hrequests : s'.requestsOf x = s.requestsOf x)
    (hcame : s.came <+: s'.came)
    (hev : (s.transport.routers x).responseOf (.routerEvent re) = some re.payload) :
    ∃ c fresh', c.2.event = re ∧ fresh.Perm (c.2.entry.event :: fresh') ∧
      askedTag c.2.entry.event.payload = tagOf re.payload ∧
      Follows net table s' x (exchange.after (.routerEvent re) rtr') (came ++ [c]) fresh' := by
  have hsends : (s.transport.routers x).Sends [re] rtr' := processRouterEvent_sends hstep.2
  have hown := hev
  rw [responseOf_routerEvent, Option.ite_none_right_eq_some] at hown
  obtain ⟨⟨hdest, hresp⟩, _⟩ := hown
  have hanswers : s'.answersOf x = s.answersOf x ++ [re] := by
    rw [answersOf, answersOf, hrouter, ownCalls_of_sends hsends, List.filter_append]
    simp [hdest, hresp]
  obtain ⟨c, rfl, htraced⟩ := h.traced.take hinv' hcame hanswers
  have hc := hinv'.came_answers (htraced.mem (List.mem_append_right _ (List.mem_singleton_self c)))
  have htag : askedTag c.2.entry.event.payload = tagOf c.2.event.payload := by
    rw [← answeredTag_reply hc.1, answeredTag, if_pos hresp]
  have hfresh : c.2.entry.event ∈ fresh := by
    have hsub := (htraced.passes hinv').once
    rw [hrequests, List.map_append] at hsub
    have hone := (List.subperm_append_left _).mp (hsub.trans h.requests.subperm)
    exact List.singleton_subperm_iff.mp hone
  obtain ⟨front, back, hsplit⟩ := List.append_of_mem hfresh
  have hperm : fresh.Perm (c.2.entry.event :: (front ++ back)) := hsplit ▸ List.perm_middle
  obtain ⟨t, ht⟩ := exists_askedTag hc.2.1
  have hawaited : t ∈ exchange.inFlight := h.awaited hinv hfresh ht
  obtain ⟨⟨ls, hrun⟩, hrtr, hledger, _, hrequested⟩ := h
  rw [← hrtr] at hstep hev
  have hadm : exchange.Admissible (.routerEvent c.2.event) := by
    refine ⟨by simp, by simp [requestOf], fun ev h => ?_⟩
    obtain rfl := Option.some.inj (hev.symm.trans h)
    exact ⟨t, hawaited, htag.symm.trans ht⟩
  refine ⟨c, front ++ back, rfl, hperm, htag,
    ⟨ls ++ [_], hrun.snoc (Net.step_of hstep.1 hstep.2 hadm)⟩, hrouter.symm, ?_, htraced, ?_⟩
  · rw [hrequests]
    exact hledger.routerEvent hstep.2 hadm
  · rw [hrequests, List.map_append, List.append_assoc]
    exact hrequested.trans (hperm.append_left _)

end Following

section Conducting

variable [DecidableEq α] [AddMonoid V] {net : TreeNetwork α}
  {cntxt : α × ServerChan → Cntxt V} {table : α → ObjID → Option AppID} {s s' : Service α V}
  {x : α} {exchange : Net V} {came : List ((α × ServerChan) × Reply V)}
  {fresh : List (RouterEvent V)} {acts : List (Router.Label V)} {rtr' : Router V}

/-- The exchanges of the router at `x`, with what its clients have asked and the replies that
were collected. -/
def Conducts (net : TreeNetwork α) (table : α → ObjID → Option AppID) (s : Service α V) (x : α)
    (acts : List (Router.Label V)) (exchange : Net V) : Prop :=
  Recorded acts exchange ∧
    ∃ came fresh, Follows net table s x exchange came fresh ∧ Collected s.came exchange fresh

theorem conducts_start (buf : α × ServerChan → Nat → V × PwrTime) :
    Conducts net table (start net table buf) x []
      (Net.start (net.id x) (table x) (treeChannel (net.links x))) :=
  ⟨recorded_start _ _ _, [], [], follows_start buf, collected_start _ _ _⟩

theorem Conducts.congr (h : Conducts net table s x acts exchange)
    (hrouter : s'.transport.routers x = s.transport.routers x)
    (hrequests : s'.requestsOf x = s.requestsOf x) (hcame : s.came <+: s'.came) :
    Conducts net table s' x acts exchange := by
  obtain ⟨hrecorded, came, fresh, hfollows, hcollected⟩ := h
  exact ⟨hrecorded, came, fresh, hfollows.congr hrouter hrequests hcame, hcollected.mono hcame⟩

theorem Follows.inv (h : Follows net table s x exchange came fresh) : exchange.Inv := by
  obtain ⟨ls, hrun⟩ := h.history
  exact Net.inv_run hrun

theorem Follows.unanswered_other (h : Follows net table s x exchange came fresh)
    (hinv : Inv net cntxt table s) (p : EventId) (hp : exchange.current p = none) (g : Nat) :
    unanswered fresh p g = [] := by
  refine unanswered_nil fun re hre htag => ?_
  have hawaited : .comm p (UInt64.ofNat g) ∈ exchange.inFlight := h.awaited hinv hre htag
  exact (h.inv.other p hp).1 _ hawaited

theorem conducts_work (hinv : Inv net cntxt table s) (h : Conducts net table s x acts exchange)
    {l : Router.Label V} (hl : (s.transport.routers x).Orderly l)
    (hstep : (s.transport.routers x).Step l rtr') :
    Conducts net table { s with transport := s.transport.worked x rtr' } x (acts ++ [l])
      (exchange.after l rtr') := by
  obtain ⟨hrecorded, came, fresh, hfollows, hcollected⟩ := h
  have hnext := follows_work hinv hfollows hl hstep
  rw [← hfollows.rtr] at hl hstep
  exact ⟨hrecorded.work hl hstep.2, came, _, hnext,
    hcollected.work hfollows.inv hl hstep (hfollows.unanswered_other hinv)⟩

theorem conducts_routerEvent (hinv : Inv net cntxt table s) (hinv' : Inv net cntxt table s')
    (h : Conducts net table s x acts exchange) {re : RouterEvent V}
    (hstep : (s.transport.routers x).Step (.routerEvent re) rtr')
    (hrouter : s'.transport.routers x = rtr') (hrequests : s'.requestsOf x = s.requestsOf x)
    (hcame : s.came <+: s'.came) :
    Conducts net table s' x acts (exchange.after (.routerEvent re) rtr') := by
  obtain ⟨hrecorded, came, fresh, hfollows, hcollected⟩ := h
  refine ⟨hrecorded.routerEvent (hfollows.rtr ▸ hstep.2), ?_⟩
  have hevents : Request.groupEvents rtr' = Request.groupEvents exchange.rtr := by
    rw [hfollows.rtr]
    exact groupEvents_dispatch hstep.2
  cases hev : (s.transport.routers x).responseOf (.routerEvent re) with
  | none =>
      refine ⟨came, fresh, follows_other hfollows hstep hrouter hrequests hcame hev, ?_⟩
      rw [← hfollows.rtr] at hev
      exact (hcollected.mono hcame).routerEvent hev hevents
  | some ev =>
      obtain ⟨rfl, hresp⟩ : re.payload = ev ∧ isResponse re.payload = true := by
        rw [responseOf_routerEvent, Option.ite_none_right_eq_some] at hev
        exact ⟨Option.some.inj hev.2, hev.1.2⟩
      obtain ⟨c, fresh', rfl, hperm, htag, hnext⟩ :=
        follows_answer hinv hinv' hfollows hstep hrouter hrequests hcame hev
      refine ⟨came ++ [c], fresh', hnext, ?_⟩
      have hc : c ∈ s'.came :=
        hnext.traced.mem (List.mem_append_right _ (List.mem_singleton_self c))
      rw [← hfollows.rtr] at hev
      by_cases hcomm : ∃ r, c.2.event.payload = .commResp r
      · obtain ⟨r, hr⟩ := hcomm
        rw [hr] at hev htag
        have hawaited : .comm r.id r.grpIndex ∈ exchange.inFlight :=
          hfollows.awaited hinv (hperm.symm.subset List.mem_cons_self) htag
        obtain ⟨req, hreq⟩ : ∃ req, exchange.current r.id = some req := by
          cases hreq : exchange.current r.id with
          | none => exact absurd hawaited ((hfollows.inv.other r.id hreq).1 _)
          | some req => exact ⟨req, rfl⟩
        have hsmall := (hfollows.inv.consistent r.id req hreq).2.2.small
        exact (hcollected.mono hcame).answer hev hreq hsmall hc hr hperm htag hevents
          (hnext.unanswered_other hinv')
      · refine (hcollected.mono hcame).single hev (fun r hr => hcomm ⟨r, hr⟩) hperm
          (fun p grp heq => hcomm ?_) hevents
        exact commResp_of_tag hresp (htag.symm.trans heq)

theorem conducts_step (hinv : Inv net cntxt table s) {l : Label α V}
    (hstep : Step net cntxt s l s') (h : Conducts net table s x acts exchange) :
    ∃ exchange', Conducts net table s' x (acts ++ (worksAt x l).toList) exchange' := by
  have hnext := inv_step s l s' hinv hstep
  have hidle : ∀ exchange', worksAt x l = none → Conducts net table s' x acts exchange' →
      ∃ exchange', Conducts net table s' x (acts ++ (worksAt x l).toList) exchange' := by
    intro exchange' hnone h'
    exact ⟨exchange', by rwa [hnone, Option.toList_none, List.append_nil]⟩
  cases hstep with
  | @work z l rtr' hl hstep =>
      by_cases hz : z = x
      · subst hz
        refine ⟨exchange.after l rtr', ?_⟩
        rw [worksAt, if_pos rfl]
        exact conducts_work hinv h hl hstep
      · have hrequests := requestsOf_append { s with transport := s.transport.worked z rtr' }
          (made_worked (work_sends hl hstep.2)) x
        rw [if_neg hz, List.append_nil] at hrequests
        exact hidle exchange (if_neg hz)
          (h.congr (update_of_ne (Ne.symm hz) _ _) hrequests List.prefix_rfl)
  | arrive hstep =>
      cases hstep with
      | @arrive z y ch re front back rtr' hflight hfront hpeer hstep =>
          by_cases hy : y = x
          · subst hy
            exact hidle (exchange.after (.routerEvent re) rtr') rfl
              (conducts_routerEvent hinv hnext h hstep (update_self _ _ _) rfl List.prefix_rfl)
          · exact hidle exchange rfl
              (h.congr (update_of_ne (Ne.symm hy) _ _) rfl List.prefix_rfl)
  | serve hl hstep => exact hidle exchange rfl (h.congr rfl rfl List.prefix_rfl)
  | deliver hevent hstep => exact hidle exchange rfl (h.congr rfl rfl List.prefix_rfl)
  | @reply k reply rtr' hreply hstep =>
      have hsends : (s.transport.routers k.1).Sends [reply.event] rtr' :=
        processRouterEvent_sends hstep.2
      have hresp := (hinv.next hreply).2.1
      have hrequest : isRequest reply.event = false := by
        by_contra hrequest
        exact not_isResponse_of_isRequest (eq_true_of_ne_false hrequest) hresp
      have hrequests : ({ s with
          transport := s.transport.worked k.1 rtr'
          came := s.came ++ [(k, reply)] } : Service α V).requestsOf x = s.requestsOf x := by
        rw [requestsOf_append _ (made_worked hsends) x]
        simp [hrequest]
      have hcame : s.came <+: s.came ++ [(k, reply)] := List.prefix_append _ _
      by_cases hk : k.1 = x
      · subst hk
        exact hidle (exchange.after (.routerEvent reply.event) rtr') rfl
          (conducts_routerEvent hinv hnext h hstep Transport.worked_self hrequests hcame)
      · exact hidle exchange rfl (h.congr (update_of_ne (Ne.symm hk) _ _) hrequests hcame)

theorem conducts_run {ls : List (Label α V)} (hrun : Run (Step net cntxt) s ls s')
    (hinv : Inv net cntxt table s) (h : Conducts net table s x acts exchange) :
    ∃ exchange', Conducts net table s' x (acts ++ ls.filterMap (worksAt x)) exchange' := by
  induction hrun generalizing acts exchange with
  | nil => exact ⟨exchange, by rwa [List.filterMap_nil, List.append_nil]⟩
  | @cons s mid s' l ls hstep _ ih =>
      obtain ⟨next, hnext⟩ := conducts_step hinv hstep h
      obtain ⟨last, hlast⟩ := ih (inv_step _ _ _ hinv hstep) hnext
      refine ⟨last, ?_⟩
      rw [List.append_assoc] at hlast
      rw [List.filterMap_cons]
      cases hact : worksAt x l with
      | none => rwa [hact] at hlast
      | some act => rwa [hact] at hlast

/-- How a request of a client of the router at `x` came to its answers: the client has asked it,
on a communicator that it had made, and the answers of each group are those of servers to the
events of the request for the sources of the group, one for each source. -/
structure Serves (s : Service α V) (x : α) (acts : List (Router.Label V)) (req : Request V) :
    Prop where
  client : FromClient acts req
  sources : ∀ g < req.groups, ∃ given : List ((α × ServerChan) × Reply V),
    (∀ c ∈ given, c.2 ∈ (s.servers c.1).sent) ∧
    (given.map fun c => c.2.event.payload) = (req.answers g).map .commResp ∧
    (given.map fun c => c.2.entry.event).Perm ((req.commList.getD g []).map fun obj =>
      ⟨appId (s.transport.routers x).rtrId noServer, (s.transport.routers x).findRoute obj,
        .commReq (req.forGroup g)⟩)

theorem serves_of (hinv : Inv net cntxt table s) {req : Request V} (hclient : FromClient acts req)
    (hcomplete : ∀ g < req.groups, (req.answers g).length = req.size g)
    (hcollects : ∀ g < req.groups,
      Collects s.came req g (req.groupEvents (s.transport.routers x) g) []) :
    s.Serves x acts req := by
  refine ⟨hclient, fun g hg => ?_⟩
  obtain ⟨given, hgiven, hanswers, hevents⟩ := hcollects g hg
  rw [List.append_nil] at hevents
  refine ⟨given, fun c hc => hinv.mem_came (hgiven c hc), hanswers, ?_⟩
  have hlength : (req.groupEvents (s.transport.routers x) g).length = req.size g := by
    have hcount := congrArg List.length hanswers
    rw [List.length_map, List.length_map] at hcount
    rw [hevents.length_eq, List.length_map, hcount, hcomplete g hg]
  rw [← Request.groupEvents_eq hlength]
  exact hevents.symm

/-- How far a request of a client of the router at `x` is that is not answered yet: the router
keeps it with the answers it has, some group lacks one, and the answers of each group are those
of servers to some of its events. The other events of the group are `fresh` still, the requests
of the router that nothing was read for. -/
structure Pends (s : Service α V) (x : α) (acts : List (Router.Label V))
    (fresh : List (RouterEvent V)) (req : Request V) : Prop where
  client : FromClient acts req
  kept : ∃ info, (s.transport.routers x).infos req.info = some info ∧ Mirrors info req
  waits : ∃ g < req.groups, (req.answers g).length < req.size g
  sources : ∀ g < req.groups, ∃ (given : List ((α × ServerChan) × Reply V))
    (rest : List (RouterEvent V)),
    (∀ c ∈ given, c.2 ∈ (s.servers c.1).sent) ∧
    (given.map fun c => c.2.event.payload) = (req.answers g).map .commResp ∧
    ((given.map fun c => c.2.entry.event) ++ rest).Perm
      (req.groupEvents (s.transport.routers x) g) ∧ rest ⊆ fresh

theorem pends_of (hinv : Inv net cntxt table s) (hrecorded : Recorded acts exchange)
    (hfollows : Follows net table s x exchange came fresh)
    (hcollected : Collected s.came exchange fresh) {p : EventId} {req : Request V}
    (hp : exchange.current p = some req) : s.Pends x acts fresh req := by
  obtain ⟨hinfo, info, hkept, hmirrors⟩ := hfollows.inv.mirrored p req hp
  rw [hfollows.rtr, ← hinfo] at hkept
  refine ⟨hrecorded.current p req hp, ⟨info, hkept, hmirrors⟩, Net.live_waits hfollows.inv hp,
    fun g hg => ?_⟩
  obtain ⟨given, hgiven, hanswers, hevents⟩ := hcollected.current p req hp g hg
  rw [hfollows.rtr] at hevents
  exact ⟨given, _, fun c hc => hinv.mem_came (hgiven c hc), hanswers, hevents.symm,
    List.filter_subset_self _⟩

def underWay (exchange : Net V) : List (Request V) := exchange.live.filterMap exchange.current

omit [AddMonoid V] in
theorem keys_underWay : (underWay exchange).map Request.key = exchange.liveKeys :=
  List.map_filterMap ..

theorem infos_underWay (h : exchange.Inv) :
    (underWay exchange).map Request.info = exchange.live := by
  have hinfo : ∀ p ∈ exchange.live, (exchange.current p).map Request.info = some p := by
    intro p hlive
    obtain ⟨req, hp⟩ := Option.ne_none_iff_exists'.mp ((h.mem_live p).mp hlive)
    rw [hp, Option.map_some, (h.mirrored p req hp).1]
  rw [underWay, List.map_filterMap, List.filterMap_congr hinfo, List.filterMap_some]

variable {buf : α × ServerChan → Nat → V × PwrTime} {ls : List (Label α V)}

/-- In a tree of routers with servers, each `Get` or `Set` of a client is answered or is under
way. An answer is made of what servers have replied to this request: to each event of it once,
and these are one event for each source of each group. A request under way is kept by the router
and has the answers of some of its events; the other ones were sent and nothing was read for
them. -/
theorem clients_answered (hrun : Run (Step net cntxt) (start net table buf) ls s) (x : α) :
    ∃ (closed live : List (Request V)) (came : List ((α × ServerChan) × Reply V))
      (fresh : List (RouterEvent V)),
      ((ls.filterMap (worksAt x)).filterMap askedOf).Perm
        (closed.map Request.key ++ live.map Request.key) ∧
      List.Forall₂ Answered closed (commReplies (s.transport.routers x).replies) ∧
      (∀ req ∈ closed, s.Serves x (ls.filterMap (worksAt x)) req) ∧
      (live.map Request.info).Nodup ∧
      (∀ req ∈ live, s.Pends x (ls.filterMap (worksAt x)) fresh req) ∧
      (∀ c ∈ came, c.2 ∈ (s.servers c.1).sent) ∧
      (came.map fun c => c.2.event) = s.answersOf x ∧
      (s.requestsOf x).Perm ((came.map fun c => c.2.entry.event) ++ fresh) := by
  have hinv := inv_run hrun
  obtain ⟨exchange, hrecorded, came, fresh, hfollows, hcollected⟩ :=
    conducts_run hrun (inv_start table buf) (conducts_start (x := x) buf)
  have hexchange := hfollows.inv
  have hasked := hexchange.asked
  have hanswered := hexchange.answered
  rw [hrecorded.asked, ← keys_underWay] at hasked
  rw [hfollows.rtr] at hanswered
  refine ⟨exchange.closed, underWay exchange, came, fresh, hasked, hanswered, fun req hreq => ?_,
    ?_, fun req hreq => ?_, fun c hc => hinv.mem_came (hfollows.traced.mem hc),
    hfollows.traced.events, hfollows.requests⟩
  · obtain ⟨hlength, hall⟩ := List.forall₂_iff_get.mp hanswered
    obtain ⟨i, rfl⟩ := List.mem_iff_get.mp hreq
    have hreply := hall i i.2 (hlength ▸ i.2)
    refine serves_of hinv (hrecorded.closed _ hreq) hreply.complete fun g hg => ?_
    rw [← hfollows.rtr]
    exact hcollected.closed _ hreq g hg
  · rw [infos_underWay hexchange]
    exact hexchange.nodup
  · obtain ⟨p, _, hp⟩ := List.mem_filterMap.mp hreq
    exact pends_of hinv hrecorded hfollows hcollected hp

/-- When nothing is under way, every `Get` or `Set` of a client was answered once, and every
request to a server too. -/
theorem answered_at_rest (hrun : Run (Step net cntxt) (start net table buf) ls s)
    (hrest : s.AtRest) (hrouted : ∀ e ∈ s.transport.made, ∃ y, rtrIdOf e.2.dest = net.id y)
    (x : α) (hroutes : ∀ obj, table x obj ≠ some unrouted) :
    ((ls.filterMap (worksAt x)).filterMap askedOf).Perm
      ((commReplies (s.transport.routers x).replies).map fun reply => (reply.1, reply.2.id)) ∧
    ∃ came : List ((α × ServerChan) × Reply V), (∀ c ∈ came, c.2 ∈ (s.servers c.1).sent) ∧
      (came.map fun c => c.2.event) = s.answersOf x ∧
      (came.map fun c => c.2.entry.event).Perm (s.requestsOf x) := by
  have hinv := inv_run hrun
  obtain ⟨exchange, hrecorded, came, fresh, hfollows, _⟩ :=
    conducts_run hrun (inv_start table buf) (conducts_start (x := x) buf)
  have hperm := (hfollows.traced.passes hinv).perm ⟨hrest, hrouted⟩
  have hempty : exchange.inFlight = [] := by
    refine hfollows.ledger.at_rest hroutes ?_
    rw [hfollows.answered hinv]
    exact hperm.filterMap _
  refine ⟨?_, came, fun c hc => hinv.mem_came (hfollows.traced.mem hc), hfollows.traced.events,
    hperm.symm⟩
  have hnone : exchange.liveKeys = [] := by
    refine List.filterMap_eq_nil_iff.mpr fun p _ => ?_
    cases hp : exchange.current p with
    | none => rfl
    | some req =>
        obtain ⟨g, hg⟩ := Net.live_awaits hfollows.inv hp
        rw [hempty] at hg
        exact absurd hg List.not_mem_nil
  have hasked := hfollows.inv.asked
  rw [hrecorded.asked, hnone, List.append_nil, ← Net.replies_keys hfollows.inv, hfollows.rtr]
    at hasked
  exact hasked

end Conducting

section Sides

variable [DecidableEq α] [Zero V] [Add V] {net : TreeNetwork α}
  {cntxt : α × ServerChan → Cntxt V} {s s' : Service α V} {l : Label α V}

def Label.server : Label α V → Option (α × ServerChan)
  | .serve k _ => some k
  | .reply k => some k
  | _ => none

/-- What a server is, what it has read and what was read of it. -/
def side (s : Service α V) (k : α × ServerChan) : ServerState V × Nat × List (Reply V) :=
  (s.servers k, s.read k, s.taken k)

theorem side_step (hstep : Step net cntxt s l s') {k : α × ServerChan} (hk : l.server ≠ some k) :
    s'.side k = s.side k := by
  cases hstep with
  | work horderly hstep => rfl
  | arrive hstep => rfl
  | serve hl hstep =>
      have hne := fun heq => hk (congrArg some heq)
      simp only [side, taken, update_of_ne (Ne.symm hne)]
  | deliver hevent hstep =>
      have hne := fun heq => hk (congrArg some heq)
      simp only [side, taken, update_of_ne (Ne.symm hne)]
  | reply hreply hstep =>
      have hne := fun heq => hk (congrArg some heq)
      simpa [side, taken, eventsFor] using hne

theorem side_run {ls : List (Label α V)} (hrun : Run (Step net cntxt) s ls s')
    {k : α × ServerChan} (hk : k ∉ ls.filterMap Label.server) : s'.side k = s.side k := by
  induction hrun with
  | nil => rfl
  | @cons s mid s' l ls hstep _ ih =>
      have hl : l.server ≠ some k := fun heq =>
        hk (List.mem_filterMap.mpr ⟨l, List.mem_cons_self, heq⟩)
      have hls : k ∉ ls.filterMap Label.server := fun hmem => by
        obtain ⟨l', hl', heq⟩ := List.mem_filterMap.mp hmem
        exact hk (List.mem_filterMap.mpr ⟨l', List.mem_cons_of_mem _ hl', heq⟩)
      exact (ih hls).trans (side_step hstep hl)

end Sides

section Reading

/-- The object `[112]` is served at leaf 1. -/
def leafRoute (obj : ObjID) : Option AppID := if obj = [112] then some (appId 1 3) else none

def powerRequest (id : EventId) : CommReqEvent Int :=
  { DistComm.getValues [.power] [.fpAdd] with
    toCommEvent := { newCommEvent .commReq id 9 with op := .get } }

/-- What comes to the server at leaf 1 from leaf 0. -/
def fromLeaf (payload : Payload Int) : RouterEvent Int :=
  ⟨appId 0 noServer, appId 1 3, payload⟩

def powerCreate : Payload Int :=
  .commCreate { toCommEvent := newCommEvent .commCreate 0 9, members := [[[112]]] }

/-- A client at `x` reads the power of the object at `y`. -/
def reading (x y : Option (Fin 2)) : List (Label (Option (Fin 2)) Int) :=
  [.work y (.acceptServer 7),
    .work y (.serverEvent 7
      (.serverConnect { toEvent := Event.ofType .serverConnect, name := [112] })),
    .work x (.acceptClient 4),
    .work x (.clientEvent 4 powerCreate 0),
    .arrive x 0, .arrive none 1,
    .serve (y, 7) (.routerEvent (fromLeaf powerCreate) 5 20 0 100),
    .work x (.clientEvent 4 (.commReq (powerRequest 1)) 50),
    .arrive x 0, .arrive none 1,
    .serve (y, 7) (.routerEvent (fromLeaf (.commReq (powerRequest 50))) 5 30 30 300),
    .reply (y, 7),
    .arrive y 0, .arrive none 0]

theorem orderly_other {rtr : Router Int} {l : Router.Label Int}
    (hstays : ∀ ec, l ≠ .clientClosed ec ∧ l ≠ .serverClosed ec)
    (hreq : ∀ ec ev p, requestOf l ≠ some (ec, .commReq ev, p))
    (hconnects : ∀ ec ev, l = .serverEvent ec ev → ∃ connect, ev = .serverConnect connect)
    (hfrom : ∀ re, l ≠ .routerEvent re) : rtr.Orderly l :=
  ⟨hstays, fun ec ev p _ h => absurd h (hreq ec ev p), hconnects, hfrom⟩

theorem reading_run : ∃ s : Service (Option (Fin 2)) Int,
    Run (Step Transport.twoLeaves fun _ => ServerState.pairCntxt 1)
      (start Transport.twoLeaves (fun _ => leafRoute) fun _ _ => (0, 0))
      (reading (some 0) (some 1)) s ∧
      (commReplies (s.transport.routers (some 0)).replies).map (fun reply =>
        (reply.1, reply.2.id, reply.2.value)) = [(4, 1, [[3]])] ∧
      s.transport.flight = [] ∧
      (∀ x id, (s.transport.routers x).mail.pendingEvents id = []) ∧
      (∀ k ≠ (some 1, 7), s.written k = []) ∧
      (s.read (some 1, 7) = (s.written (some 1, 7)).length ∧
        (s.servers (some 1, 7)).finiMap = [] ∧
        s.taken (some 1, 7) = (s.servers (some 1, 7)).sent) ∧
      ∀ e ∈ s.transport.made, ∃ y, rtrIdOf e.2.dest = Transport.twoLeaves.id y := by
  refine ⟨_, .cons (.work ?_ ⟨rfl, rfl⟩) (.cons (.work ?_ ⟨trivial, rfl⟩)
    (.cons (.work ?_ ⟨rfl, rfl⟩) (.cons (.work ?_ ⟨rfl, rfl⟩)
    (.cons (.arrive (.arrive (show _ = [] ++ _ from rfl) (by simp) rfl ⟨trivial, rfl⟩))
    (.cons (.arrive (.arrive (show _ = [] ++ _ from rfl) (by simp) rfl ⟨trivial, rfl⟩))
    (.cons (.deliver rfl ⟨⟨?_, rfl, ?_⟩, rfl⟩)
    (.cons (.work ?_ ⟨rfl, rfl⟩)
    (.cons (.arrive (.arrive (show _ = [] ++ _ from rfl) (by simp) rfl ⟨trivial, rfl⟩))
    (.cons (.arrive (.arrive (show _ = [] ++ _ from rfl) (by simp) rfl ⟨trivial, rfl⟩))
    (.cons (.deliver rfl ⟨⟨?_, rfl, ?_⟩, rfl⟩)
    (.cons (.reply rfl ⟨trivial, rfl⟩)
    (.cons (.arrive (.arrive (show _ = [] ++ _ from rfl) (by simp) rfl ⟨trivial, rfl⟩))
    (.cons (.arrive (.arrive (show _ = [] ++ _ from rfl) (by simp) rfl ⟨trivial, rfl⟩))
    (.nil _)))))))))))))), rfl, rfl, ?_, ?_, ⟨rfl, rfl, rfl⟩, ?_⟩
  · exact orderly_other (by simp) (by simp [requestOf]) (by simp) (by simp)
  · exact orderly_other (by simp) (by simp [requestOf]) (by simp) (by simp)
  · exact orderly_other (by simp) (by simp [requestOf]) (by simp) (by simp)
  · exact orderly_other (by simp) (by simp [requestOf, powerCreate]) (by simp) (by simp)
  · exact List.not_mem_nil
  · exact ⟨[112], [], ServerState.localObject 1, rfl, rfl⟩
  · refine ⟨by simp, fun ec ev p commList h hlist => ?_, by simp, by simp⟩
    cases h
    obtain rfl := Option.some.inj hlist
    exact ⟨by simp, by simp, by decide⟩
  · exact List.not_mem_nil
  · refine ⟨.inl rfl, _, _, _, [112], rfl, rfl, ?_⟩
    rintro obj ⟨⟩
    exact ⟨.inl fun _ => rfl, List.cons_ne_nil _ _, .inl fun _ _ => .inl (List.cons_ne_nil _ _)⟩
  · intro x id
    rcases x with _ | ⟨_ | _ | n, hn⟩
    · rfl
    · rfl
    · rfl
    · omega
  · rintro ⟨x, ec⟩ hk
    rcases x with _ | ⟨_ | _ | n, hn⟩
    · rfl
    · rfl
    · have hec : (7 : ServerChan) ≠ ec := fun heq => hk (by rw [← heq]; rfl)
      show eventsFor [(Chan.server 7, _), (.server 7, _), (.router 0, _)] _ = []
      simp [eventsFor, hec]
    · omega
  · intro e he
    rcases List.mem_cons.mp he with rfl | he
    · exact ⟨some 1, rfl⟩
    · rcases List.mem_cons.mp he with rfl | he
      · exact ⟨some 1, rfl⟩
      · obtain rfl := List.mem_singleton.mp he
        exact ⟨some 0, rfl⟩

theorem reading_rests : ∃ s : Service (Option (Fin 2)) Int,
    Run (Step Transport.twoLeaves fun _ => ServerState.pairCntxt 1)
      (start Transport.twoLeaves (fun _ => leafRoute) fun _ _ => (0, 0))
      (reading (some 0) (some 1)) s ∧ s.AtRest ∧
      ∀ e ∈ s.transport.made, ∃ y, rtrIdOf e.2.dest = Transport.twoLeaves.id y := by
  obtain ⟨s, hrun, _, hflight, hqueues, hwritten, ⟨hread, hfini, htaken⟩, hmade⟩ := reading_run
  have hside : ∀ k ≠ (some 1, 7), s.side k =
      (start Transport.twoLeaves (fun _ => leafRoute) fun _ _ => ((0 : Int), 0)).side k := by
    intro k hk
    refine side_run hrun fun hmem => hk ?_
    have hservers : (reading (some 0) (some 1)).filterMap Label.server =
        List.replicate 3 (some 1, 7) := rfl
    rw [hservers] at hmem
    exact List.eq_of_mem_replicate hmem
  refine ⟨s, hrun, ⟨hflight, hqueues, fun k => ?_, fun k => ?_, fun k => ?_⟩, hmade⟩
  all_goals by_cases hk : k = (some 1, 7)
  · rw [hk, hread]
  · rw [hwritten k hk]
    exact congrArg (fun p => p.2.1) (hside k hk)
  · rw [hk, hfini]
  · exact congrArg (fun p => p.1.finiMap) (hside k hk)
  · rw [hk, htaken]
  · have h := hside k hk
    calc s.taken k = [] := congrArg (fun p => p.2.2) h
      _ = (s.servers k).sent := (congrArg (fun p => p.1.sent) h).symm

theorem asking_run : ∃ s : Service (Option (Fin 2)) Int,
    Run (Step Transport.twoLeaves fun _ => ServerState.pairCntxt 1)
      (start Transport.twoLeaves (fun _ => leafRoute) fun _ _ => (0, 0))
      ((reading (some 0) (some 1)).take 8) s ∧
      commReplies (s.transport.routers (some 0)).replies = [] := by
  refine ⟨_, .cons (.work ?_ ⟨rfl, rfl⟩) (.cons (.work ?_ ⟨trivial, rfl⟩)
    (.cons (.work ?_ ⟨rfl, rfl⟩) (.cons (.work ?_ ⟨rfl, rfl⟩)
    (.cons (.arrive (.arrive (show _ = [] ++ _ from rfl) (by simp) rfl ⟨trivial, rfl⟩))
    (.cons (.arrive (.arrive (show _ = [] ++ _ from rfl) (by simp) rfl ⟨trivial, rfl⟩))
    (.cons (.deliver rfl ⟨⟨?_, rfl, ?_⟩, rfl⟩)
    (.cons (.work ?_ ⟨rfl, rfl⟩) (.nil _)))))))), rfl⟩
  · exact orderly_other (by simp) (by simp [requestOf]) (by simp) (by simp)
  · exact orderly_other (by simp) (by simp [requestOf]) (by simp) (by simp)
  · exact orderly_other (by simp) (by simp [requestOf]) (by simp) (by simp)
  · exact orderly_other (by simp) (by simp [requestOf, powerCreate]) (by simp) (by simp)
  · exact List.not_mem_nil
  · exact ⟨[112], [], ServerState.localObject 1, rfl, rfl⟩
  · refine ⟨by simp, fun ec ev p commList h hlist => ?_, by simp, by simp⟩
    cases h
    obtain rfl := Option.some.inj hlist
    exact ⟨by simp, by simp, by decide⟩

/-- The request of the client while it is under way, and with the answer that it got. -/
theorem clients_answered_reading : ∃ (asking s : Service (Option (Fin 2)) Int)
    (pending req : Request Int) (fresh : List (RouterEvent Int)),
    asking.Pends (some 0)
        (((reading (some 0) (some 1)).take 8).filterMap (worksAt (some 0))) fresh pending ∧
      pending.key = (4, 1) ∧
      s.Serves (some 0) ((reading (some 0) (some 1)).filterMap (worksAt (some 0))) req ∧
      req.key = (4, 1) ∧ commReplies (s.transport.routers (some 0)).replies ≠ [] := by
  obtain ⟨asking, hasking, hnone⟩ := asking_run
  obtain ⟨s, hrun, hreplies, _⟩ := reading_run
  obtain ⟨early, live, _, fresh, hkeys, hearly, _, _, hpends, _⟩ :=
    clients_answered hasking (some 0)
  obtain ⟨closed, later, _, _, hasked, hanswered, hserves, _⟩ := clients_answered hrun (some 0)
  rw [hnone, List.forall₂_nil_right_iff] at hearly
  obtain ⟨pending, rfl⟩ : ∃ pending, live = [pending] := by
    have hlength := hkeys.length_eq
    rw [hearly, List.map_nil, List.nil_append, List.length_map] at hlength
    exact List.length_eq_one_iff.mp hlength.symm
  have hlength := congrArg List.length hreplies
  rw [List.length_map, ← hanswered.length_eq] at hlength
  obtain ⟨req, rfl⟩ := List.length_eq_one_iff.mp hlength
  have hpending : pending.key ∈ [((4, 1) : ClientChan × EventId)] :=
    hkeys.mem_iff.mpr (List.mem_append_right _ List.mem_cons_self)
  have hmem : req.key ∈ [((4, 1) : ClientChan × EventId)] :=
    hasked.mem_iff.mpr (List.mem_append_left _ List.mem_cons_self)
  refine ⟨asking, s, pending, req, fresh, hpends pending List.mem_cons_self,
    List.mem_singleton.mp hpending, hserves req List.mem_cons_self, List.mem_singleton.mp hmem, ?_⟩
  intro hnil
  rw [hnil] at hreplies
  cases hreplies

theorem answered_at_rest_reading : ∃ s : Service (Option (Fin 2)) Int,
    [((4, 1) : ClientChan × EventId)].Perm
      ((commReplies (s.transport.routers (some 0)).replies).map fun reply =>
        (reply.1, reply.2.id)) := by
  obtain ⟨s, hrun, hrest, hmade⟩ := reading_rests
  refine ⟨s, (answered_at_rest hrun hrest hmade (some 0) fun obj => ?_).1⟩
  rw [leafRoute]
  split
  · decide
  · exact Option.some_ne_none _ |>.symm

end Reading

end PwrApi.Service
