import PwrApi.Router.Ledger
import PwrApi.Server.Fini

/-! What a request becomes: the events of a group, one for each of its sources, and the answers
that the router collects for them. -/

namespace PwrApi.Router

open Function Runs PwrApi.Server

variable {V : Type}

namespace Request

def forGroup (req : Request V) (g : Nat) : CommReqEvent V :=
  { req.ev with id := req.info, grpIndex := UInt64.ofNat g }

def groupEvents (rtr : Router V) (req : Request V) (g : Nat) : List (RouterEvent V) :=
  ((req.commList.getD g []).filter fun obj => rtr.findRoute obj ≠ unrouted).map fun obj =>
    ⟨appId rtr.rtrId noServer, rtr.findRoute obj, .commReq (req.forGroup g)⟩

theorem groupEvents_eq {rtr : Router V} {req : Request V} {g : Nat}
    (h : (req.groupEvents rtr g).length = req.size g) :
    req.groupEvents rtr g = (req.commList.getD g []).map fun obj =>
      ⟨appId rtr.rtrId noServer, rtr.findRoute obj, .commReq (req.forGroup g)⟩ := by
  rw [groupEvents, List.length_map, size] at h
  rw [groupEvents, List.filter_sublist.length_eq.mp h]

end Request

theorem groupEvents_dispatch [Zero V] [Add V] {rtr rtr' : Router V} {l : Label V}
    (h : rtr.dispatch l = .ok rtr') : Request.groupEvents rtr' = Request.groupEvents rtr := by
  obtain ⟨hroutes, hid, _⟩ := dispatch_config h
  have hroute : rtr'.findRoute = rtr.findRoute := by
    funext obj
    rw [findRoute, findRoute, hroutes]
  funext req g
  rw [Request.groupEvents, Request.groupEvents, hid, hroute]

section Tags

theorem askedTag_comm {ev : Payload V} {p : EventId} {grp : UInt64} :
    askedTag ev = some (.comm p grp) ↔
      ∃ req, ev = .commReq req ∧ req.id = p ∧ req.grpIndex = grp := by
  cases ev with
  | commReq req => simp [askedTag, requests, tagOf]
  | _ => simp [askedTag, requests, tagOf]

theorem commResp_of_tag {ev : Payload V} (hresp : isResponse ev = true) {p : EventId}
    {grp : UInt64} (htag : tagOf ev = some (.comm p grp)) : ∃ r, ev = .commResp r := by
  cases ev with
  | commResp r => exact ⟨r, rfl⟩
  | commLogResp r => cases htag
  | commGetSamplesResp r => cases htag
  | _ => cases hresp

theorem group_injective {g g' : Nat} (hg : g < 2 ^ 64) (hg' : g' < 2 ^ 64) :
    UInt64.ofNat g = UInt64.ofNat g' ↔ g = g' := by
  constructor
  · intro h
    have hnat := congrArg UInt64.toNat h
    rwa [UInt64.toNat_ofNat_of_lt' hg, UInt64.toNat_ofNat_of_lt' hg'] at hnat
  · exact fun h => by rw [h]

theorem fanOut_group_from (ev : CommReqEvent V) (commList : List (List ObjID)) (k g : Nat)
    (hk : k + commList.length ≤ 2 ^ 64) (hg : g < 2 ^ 64) :
    (((commList.zipIdx k).flatMap fun (group, i) =>
      group.map fun obj => (obj, { ev with grpIndex := UInt64.ofNat i })).filter fun sent =>
        sent.2.grpIndex = UInt64.ofNat g) =
      (if k ≤ g then commList.getD (g - k) [] else []).map fun obj =>
        (obj, { ev with grpIndex := UInt64.ofNat g }) := by
  induction commList generalizing k with
  | nil => simp
  | cons group commList ih =>
      rw [List.length_cons] at hk
      have hfirst : ((group.map fun obj => (obj, { ev with grpIndex := UInt64.ofNat k })).filter
          fun sent => sent.2.grpIndex = UInt64.ofNat g) =
          (if k = g then group else []).map fun obj =>
            (obj, { ev with grpIndex := UInt64.ofNat g }) := by
        by_cases hkg : k = g
        · simp [hkg]
        · have hne : UInt64.ofNat k ≠ UInt64.ofNat g :=
            fun heq => hkg ((group_injective (by omega) hg).mp heq)
          simp [hkg, hne]
      rw [List.zipIdx_cons, List.flatMap_cons, List.filter_append, ih (k + 1) (by omega), hfirst,
        ← List.map_append]
      congr 1
      rcases Nat.lt_trichotomy k g with hlt | heq | hgt
      · obtain ⟨d, rfl⟩ := Nat.exists_eq_add_of_lt hlt
        simp [show k + d + 1 - k = d + 1 by omega, show k + d + 1 - (k + 1) = d by omega,
          show k ≠ k + d + 1 by omega, show k + 1 ≤ k + d + 1 by omega,
          show k ≤ k + d + 1 by omega]
      · subst heq
        simp
      · simp [show ¬ k ≤ g by omega, show k ≠ g by omega, show ¬ k + 1 ≤ g by omega]

theorem fanOut_group (ev : CommReqEvent V) {commList : List (List ObjID)}
    (hsize : Wire.Fits commList) {g : Nat} (hg : g < 2 ^ 64) :
    ((fanOut ev commList).filter fun sent => sent.2.grpIndex = UInt64.ofNat g) =
      (commList.getD g []).map fun obj => (obj, { ev with grpIndex := UInt64.ofNat g }) := by
  have hsize' : commList.length < 2 ^ 32 := hsize
  have hgroup := fanOut_group_from ev commList 0 g (by omega) hg
  simpa [fanOut] using hgroup

variable {rtr : Router V}

theorem forwards_group (ec : ClientChan) (ev : CommReqEvent V) (p : EventId)
    {commList : List (List ObjID)} (hsize : Wire.Fits commList) {g : Nat} (hg : g < 2 ^ 64) :
    (((rtr.forwards ((fanOut { ev with id := p } commList).map fun sent =>
      (sent.1, .commReq sent.2))).map Prod.snd).filter fun re =>
        askedTag re.payload = some (.comm p (UInt64.ofNat g))) =
      Request.groupEvents rtr ⟨ec, p, ev, commList, fun _ => [], []⟩ g := by
  have hgroup : ((fanOut { ev with id := p } commList).filter fun sent =>
      sent.2.id = p ∧ sent.2.grpIndex = UInt64.ofNat g) =
      (commList.getD g []).map fun obj =>
        (obj, { ev with id := p, grpIndex := UInt64.ofNat g }) := by
    rw [← fanOut_group { ev with id := p } hsize hg]
    refine List.filter_congr fun sent hsent => ?_
    obtain ⟨⟨group, i⟩, _, hsent⟩ := List.mem_flatMap.mp hsent
    obtain ⟨obj, _, rfl⟩ := List.mem_map.mp hsent
    simp
  have htag : ∀ req : CommReqEvent V, askedTag (.commReq req) = some (.comm p (UInt64.ofNat g)) ↔
      req.id = p ∧ req.grpIndex = UInt64.ofNat g := by
    intro req
    rw [askedTag_comm]
    constructor
    · rintro ⟨_, heq, h⟩
      cases heq
      exact h
    · exact fun h => ⟨req, rfl, h⟩
  have hrouted : ((fanOut { ev with id := p } commList).filter fun sent =>
      askedTag (.commReq sent.2 : Payload V) = some (.comm p (UInt64.ofNat g)) ∧
        rtr.findRoute sent.1 ≠ unrouted) =
      ((commList.getD g []).filter fun obj => rtr.findRoute obj ≠ unrouted).map fun obj =>
        (obj, { ev with id := p, grpIndex := UInt64.ofNat g }) := by
    have hfilter := congrArg (List.filter fun sent => rtr.findRoute sent.1 ≠ unrouted) hgroup
    rw [List.filter_filter, List.filter_map] at hfilter
    refine Eq.trans ?_ hfilter
    refine List.filter_congr fun sent _ => ?_
    simp [htag, Bool.and_comm]
  have hall := congrArg (List.map fun sent =>
    (⟨appId rtr.rtrId noServer, rtr.findRoute sent.1, .commReq sent.2⟩ : RouterEvent V)) hrouted
  rw [List.map_map] at hall
  refine Eq.trans ?_ hall
  rw [forwards_eq, List.filter_map, List.filter_map, List.filter_map, List.filter_filter,
    List.map_map]
  congr 1
  exact List.filter_congr fun sent _ => (Bool.decide_and _ _).symm

end Tags

section Steps

variable {net : Net V} {l : Label V} {rtr' : Router V}

theorem after_other (rtr' : Router V) {ev : Payload V} (hev : net.rtr.responseOf l = some ev)
    (hother : ∀ r, ev ≠ .commResp r) :
    (net.after l rtr').current = net.current ∧ (net.after l rtr').closed = net.closed := by
  simp only [Net.after, hev]
  cases ev with
  | commResp r => exact absurd rfl (hother r)
  | _ => exact ⟨rfl, rfl⟩

theorem after_commResp (rtr' : Router V) {r : CommRespEvent V} {req : Request V}
    (hev : net.rtr.responseOf l = some (.commResp r)) (hreq : net.current r.id = some req) :
    ((net.after l rtr').current = update net.current r.id none ∧
      (net.after l rtr').closed = net.closed ++ [req.answer r.grpIndex.toNat r]) ∨
    ((net.after l rtr').current =
        update net.current r.id (some (req.answer r.grpIndex.toNat r)) ∧
      (net.after l rtr').closed = net.closed) := by
  simp only [Net.after, hev, Net.afterResponse, hreq]
  split
  · exact .inl ⟨rfl, rfl⟩
  · exact .inr ⟨rfl, rfl⟩

variable [Zero V] [Add V]

theorem work_current (hl : net.rtr.Orderly l) (hd : net.rtr.dispatch l = .ok rtr') :
    (∃ ec ev p commList, l = .clientEvent ec (.commReq ev) p ∧
      commListOf net.rtr ec ev.commID = some commList ∧
      (net.after l rtr').current =
        update net.current p (some ⟨ec, p, ev, commList, fun _ => [], []⟩) ∧
      (net.after l rtr').closed = net.closed) ∨
    ((net.after l rtr').current = net.current ∧ (net.after l rtr').closed = net.closed ∧
      ∀ sent ∈ net.rtr.clientSends l, ∀ req, sent.2 ≠ .commReq req) := by
  cases l with
  | clientEvent ec ev p =>
      cases ev with
      | commReq ev =>
          simp only [dispatch, processClient, processCommReq, bind_eq_ok, getClient,
            orFault_eq_ok] at hd
          obtain ⟨client, hclient, commList, hcomm, _⟩ := hd
          have hlist := commListOf_eq hclient hcomm
          refine .inl ⟨ec, ev, p, commList, rfl, hlist, ?_, ?_⟩ <;>
            simp [Net.after, responseOf, requestOf, Net.afterRequest, hlist]
      | commCreate ev =>
          refine .inr ⟨rfl, rfl, fun sent hsent req => ?_⟩
          obtain ⟨_, _, rfl⟩ := List.mem_map.mp hsent
          exact fun heq => by cases heq
      | commLogReq ev =>
          refine .inr ⟨rfl, rfl, fun sent hsent req => ?_⟩
          rw [(mem_sendsToAll.mp hsent).2]
          exact fun heq => by cases heq
      | commGetSamplesReq ev =>
          refine .inr ⟨rfl, rfl, fun sent hsent req => ?_⟩
          rw [(mem_sendsToAll.mp hsent).2]
          exact fun heq => by cases heq
      | _ => cases hd
  | clientClosed ec => exact absurd rfl (hl.stays ec).1
  | serverEvent ec ev =>
      obtain ⟨connect, rfl⟩ := hl.connects ec ev rfl
      exact .inr ⟨rfl, rfl, fun _ hsent => absurd hsent List.not_mem_nil⟩
  | serverClosed ec => exact absurd rfl (hl.stays ec).2
  | routerEvent re => exact absurd rfl (hl.fromHere re)
  | _ => exact .inr ⟨rfl, rfl, fun _ hsent => absurd hsent List.not_mem_nil⟩

end Steps

section Collecting

variable {κ : Type}

def newEvents (rtr : Router V) (l : Router.Label V) : List (RouterEvent V) :=
  (rtr.forwards (rtr.clientSends l)).map Prod.snd

/-- The answers of a group are those of replies that have come, which answer `events` apart from
the `rest` of them. -/
def Collects (came : List (κ × Reply V)) (req : Request V) (g : Nat)
    (events rest : List (RouterEvent V)) : Prop :=
  ∃ given : List (κ × Reply V), (∀ c ∈ given, c ∈ came) ∧
    (given.map fun c => c.2.event.payload) = (req.answers g).map .commResp ∧
    events.Perm ((given.map fun c => c.2.entry.event) ++ rest)

def unanswered (fresh : List (RouterEvent V)) (p : EventId) (g : Nat) : List (RouterEvent V) :=
  fresh.filter fun re => askedTag re.payload = some (.comm p (UInt64.ofNat g))

variable {came : List (κ × Reply V)} {req : Request V} {g : Nat}
  {events rest fresh : List (RouterEvent V)} {p : EventId}

theorem Collects.mono (h : Collects came req g events rest)
    {came' : List (κ × Reply V)} (hcame : came <+: came') :
    Collects came' req g events rest := by
  obtain ⟨given, hgiven, hanswers⟩ := h
  exact ⟨given, fun c hc => hcame.subset (hgiven c hc), hanswers⟩

theorem Collects.take (h : Collects came req g events rest) {c : κ × Reply V}
    (hc : c ∈ came) {r : CommRespEvent V} (hr : c.2.event.payload = .commResp r)
    {rest' : List (RouterEvent V)} (hrest : rest.Perm (c.2.entry.event :: rest')) :
    Collects came (req.answer g r) g events rest' := by
  obtain ⟨given, hgiven, hanswers, hevents⟩ := h
  refine ⟨given ++ [c], fun c' hc' => ?_, ?_, ?_⟩
  · rcases List.mem_append.mp hc' with hc' | hc'
    · exact hgiven c' hc'
    · exact List.mem_singleton.mp hc' ▸ hc
  · rw [List.map_append, hanswers, Request.answers_self, List.map_append, List.map_singleton, hr]
    rfl
  · rw [List.map_append, List.append_assoc]
    exact hevents.trans (hrest.append_left _)

theorem Collects.other (h : Collects came req g events rest) {g' : Nat} {r : CommRespEvent V}
    (hg : g ≠ g') : Collects came (req.answer g' r) g events rest := by
  obtain ⟨given, hgiven, hanswers, hevents⟩ := h
  exact ⟨given, hgiven, by rw [hanswers, Request.answers_ne req r hg], hevents⟩

theorem unanswered_append (fresh new : List (RouterEvent V)) (p : EventId) (g : Nat) :
    unanswered (fresh ++ new) p g = unanswered fresh p g ++ unanswered new p g :=
  List.filter_append _ _

theorem unanswered_nil {fresh : List (RouterEvent V)} {p : EventId} {g : Nat}
    (h : ∀ re ∈ fresh, askedTag re.payload ≠ some (.comm p (UInt64.ofNat g))) :
    unanswered fresh p g = [] :=
  List.filter_eq_nil_iff.mpr fun re hre htag => h re hre (of_decide_eq_true htag)

theorem newEvents_tag {rtr : Router V} {ec : ClientChan} {ev : CommReqEvent V} {p q : EventId}
    {re : RouterEvent V} (hre : re ∈ newEvents rtr (.clientEvent ec (.commReq ev) p)) {g : UInt64}
    (htag : askedTag re.payload = some (.comm q g)) : q = p := by
  obtain ⟨⟨d, re⟩, hmem, rfl⟩ := List.mem_map.mp hre
  obtain ⟨obj, payload, hsent, _, _, rfl⟩ := mem_forwards.mp hmem
  obtain ⟨sent, hfan, heq⟩ := List.mem_map.mp hsent
  obtain ⟨rfl, rfl⟩ := Prod.mk.inj heq
  obtain ⟨req, hreq, rfl, _⟩ := askedTag_comm.mp htag
  obtain rfl := Payload.commReq.inj hreq
  obtain ⟨⟨group, i⟩, _, hfan⟩ := List.mem_flatMap.mp hfan
  obtain ⟨_, _, rfl⟩ := List.mem_map.mp hfan
  rfl

theorem unanswered_requests (new : List (RouterEvent V)) (p : EventId) (g : Nat) :
    unanswered (new.filter isRequest) p g = unanswered new p g := by
  rw [unanswered, unanswered, List.filter_filter]
  refine List.filter_congr fun re _ => ?_
  by_cases htag : askedTag re.payload = some (.comm p (UInt64.ofNat g))
  · simp [htag, isRequest_of_askedTag htag]
  · simp [htag]

theorem unanswered_take {c : κ × Reply V} {rest : List (RouterEvent V)}
    (hperm : fresh.Perm (c.2.entry.event :: rest)) (p : EventId) (g : Nat) :
    (unanswered fresh p g).Perm
      (if askedTag c.2.entry.event.payload = some (.comm p (UInt64.ofNat g)) then
        c.2.entry.event :: unanswered rest p g else unanswered rest p g) := by
  have hall := hperm.filter fun re => askedTag re.payload = some (.comm p (UInt64.ofNat g))
  rw [List.filter_cons] at hall
  simpa [unanswered] using hall

/-- What is known of the exchanges of a router: the answers of a request are those of replies to
the events that it has become. -/
structure Collected (came : List (κ × Reply V)) (net : Net V) (fresh : List (RouterEvent V)) :
    Prop where
  current : ∀ p req, net.current p = some req → ∀ g < req.groups,
    Collects came req g (req.groupEvents net.rtr g) (unanswered fresh p g)
  closed : ∀ req ∈ net.closed, ∀ g < req.groups,
    Collects came req g (req.groupEvents net.rtr g) []

variable {net : Net V} {rtr' : Router V} {l : Label V}

theorem collected_start (rtrId : RouterID) (routeTable : ObjID → Option AppID)
    (getChannel : RouterID → Option RtrChan) :
    Collected came (Net.start rtrId routeTable getChannel) [] :=
  ⟨fun _ _ hp => by (cases hp), fun _ hreq => absurd hreq List.not_mem_nil⟩

theorem Collected.mono (h : Collected came net fresh) {came' : List (κ × Reply V)}
    (hcame : came <+: came') : Collected came' net fresh :=
  ⟨fun p req hp g hg => (h.current p req hp g hg).mono hcame,
    fun req hreq g hg => (h.closed req hreq g hg).mono hcame⟩

theorem Collected.work [AddMonoid V] (h : Collected came net fresh) (hinv : net.Inv)
    (hl : net.rtr.Orderly l) (hstep : net.rtr.Step l rtr')
    (hfree : ∀ p, net.current p = none → ∀ g, unanswered fresh p g = []) :
    Collected came (net.after l rtr') (fresh ++ (newEvents net.rtr l).filter isRequest) := by
  have hevents : Request.groupEvents (net.after l rtr').rtr = Request.groupEvents net.rtr :=
    groupEvents_dispatch hstep.2
  have hmore : ∀ p g, unanswered (fresh ++ (newEvents net.rtr l).filter isRequest) p g =
      unanswered fresh p g ++ unanswered (newEvents net.rtr l) p g := by
    intro p g
    rw [unanswered_append, unanswered_requests]
  rcases work_current hl hstep.2 with ⟨ec, ev, p, commList, rfl, hlist, hafter, hold⟩ |
    ⟨hafter, hold, hsends⟩
  · have hnew : net.current p = none := by
      cases hp : net.current p with
      | none => rfl
      | some req =>
          obtain ⟨_, info, hinfo, _⟩ := hinv.mirrored p req hp
          cases hinfo.symm.trans hstep.1
    have hfits : Wire.Fits commList := (hl.shaped ec ev p commList rfl hlist).2.2
    refine ⟨fun q req hq g hg => ?_, fun req hreq g hg => ?_⟩
    · rw [hafter] at hq
      rw [hevents, hmore]
      rcases Table.update_some hq with ⟨rfl, rfl⟩ | ⟨hne, hq⟩
      · have hsize : g < 2 ^ 64 := Nat.lt_trans (Nat.lt_trans hg hfits) (by decide)
        have hgroup : unanswered (newEvents net.rtr (.clientEvent ec (.commReq ev) q)) q g =
            Request.groupEvents net.rtr ⟨ec, q, ev, commList, fun _ => [], []⟩ g := by
          rw [← forwards_group ec ev q hfits hsize, newEvents, clientSends]
          dsimp only
          rw [hlist]
          rfl
        rw [hfree q hnew, hgroup]
        exact ⟨[], fun _ hc => absurd hc List.not_mem_nil, rfl, .refl _⟩
      · rw [unanswered_nil fun re hre htag => hne (newEvents_tag hre htag), List.append_nil]
        exact h.current q req hq g hg
    · rw [hold] at hreq
      rw [hevents]
      exact h.closed req hreq g hg
  · refine ⟨fun q req hq g hg => ?_, fun req hreq g hg => ?_⟩
    · rw [hafter] at hq
      have hnone : unanswered (newEvents net.rtr l) q g = [] := by
        refine unanswered_nil fun re hre htag => ?_
        obtain ⟨⟨d, re⟩, hmem, rfl⟩ := List.mem_map.mp hre
        obtain ⟨obj, payload, hsent, _, _, rfl⟩ := mem_forwards.mp hmem
        obtain ⟨ask, hask, _⟩ := askedTag_comm.mp htag
        exact hsends _ hsent ask hask
      rw [hevents, hmore, hnone, List.append_nil]
      exact h.current q req hq g hg
    · rw [hold] at hreq
      rw [hevents]
      exact h.closed req hreq g hg

theorem Collected.routerEvent (h : Collected came net fresh) {re : RouterEvent V}
    (hev : net.rtr.responseOf (.routerEvent re) = none)
    (hevents : Request.groupEvents rtr' = Request.groupEvents net.rtr) :
    Collected came (net.after (.routerEvent re) rtr') fresh := by
  have hafter : net.after (.routerEvent re) rtr' = { net with rtr := rtr' } := by
    simp only [Net.after, hev, requestOf]
  rw [hafter]
  refine ⟨?_, ?_⟩
  · dsimp only
    rw [hevents]
    exact h.current
  · dsimp only
    rw [hevents]
    exact h.closed

section Answering

variable {c : κ × Reply V} {fresh' : List (RouterEvent V)}

theorem Collects.keep (h : Collects came req g events (unanswered fresh p g))
    (hperm : fresh.Perm (c.2.entry.event :: fresh'))
    (hother : askedTag c.2.entry.event.payload ≠ some (.comm p (UInt64.ofNat g))) :
    Collects came req g events (unanswered fresh' p g) := by
  obtain ⟨given, hgiven, hanswers, hall⟩ := h
  have hrest := unanswered_take hperm p g
  rw [if_neg hother] at hrest
  exact ⟨given, hgiven, hanswers, hall.trans (hrest.append_left _)⟩

theorem Collected.single (h : Collected came net fresh) {ev : Payload V}
    (hev : net.rtr.responseOf l = some ev) (hother : ∀ r, ev ≠ .commResp r)
    (hperm : fresh.Perm (c.2.entry.event :: fresh'))
    (htag : ∀ p grp, askedTag c.2.entry.event.payload ≠ some (.comm p grp))
    (hevents : Request.groupEvents rtr' = Request.groupEvents net.rtr) :
    Collected came (net.after l rtr') fresh' := by
  obtain ⟨hafter, hold⟩ := after_other rtr' hev hother
  refine ⟨fun p req hp g hg => ?_, fun req hreq g hg => ?_⟩
  · rw [hafter] at hp
    have hkept := (h.current p req hp g hg).keep hperm (htag p _)
    rwa [← hevents] at hkept
  · rw [hold] at hreq
    have hkept := h.closed req hreq g hg
    rwa [← hevents] at hkept

theorem Collected.answer (h : Collected came net fresh) {r : CommRespEvent V}
    (hev : net.rtr.responseOf l = some (.commResp r)) (hreq : net.current r.id = some req)
    (hsmall : req.groups < 2 ^ 32) (hc : c ∈ came) (hr : c.2.event.payload = .commResp r)
    (hperm : fresh.Perm (c.2.entry.event :: fresh'))
    (htag : askedTag c.2.entry.event.payload = some (.comm r.id r.grpIndex))
    (hevents : Request.groupEvents rtr' = Request.groupEvents net.rtr)
    (hended : ∀ p, (net.after l rtr').current p = none → ∀ g, unanswered fresh' p g = []) :
    Collected came (net.after l rtr') fresh' := by
  have hcollects : ∀ g < req.groups, Collects came (req.answer r.grpIndex.toNat r) g
      (req.groupEvents rtr' g) (unanswered fresh' r.id g) := by
    intro g hg
    have hold := h.current r.id req hreq g hg
    rw [← hevents] at hold
    by_cases hgroup : r.grpIndex.toNat = g
    · have hrest := unanswered_take hperm r.id g
      subst hgroup
      rw [UInt64.ofNat_toNat, if_pos htag] at hrest
      exact hold.take hc hr hrest
    · refine (hold.keep hperm fun heq => hgroup ?_).other (Ne.symm hgroup)
      have hindex := (Tag.comm.inj (Option.some.inj (htag.symm.trans heq))).2
      have hlt : g < 2 ^ 64 := by omega
      rw [hindex, UInt64.toNat_ofNat_of_lt' hlt]
  have hothers : ∀ p other, p ≠ r.id → net.current p = some other → ∀ g < other.groups,
      Collects came other g (other.groupEvents rtr' g) (unanswered fresh' p g) := by
    intro p other hne hp g hg
    rw [hevents]
    refine (h.current p other hp g hg).keep hperm fun heq => hne ?_
    exact (Tag.comm.inj (Option.some.inj (htag.symm.trans heq))).1.symm
  have hclosed : ∀ other ∈ net.closed, ∀ g < other.groups,
      Collects came other g (other.groupEvents rtr' g) [] := by
    rw [hevents]
    exact h.closed
  rcases after_commResp rtr' hev hreq with ⟨hafter, hnew⟩ | ⟨hafter, hnew⟩
  · refine ⟨fun p other hp g hg => ?_, fun other hother g hg => ?_⟩
    · rw [hafter] at hp
      obtain ⟨hne, hp⟩ := Table.update_none hp
      exact hothers p other hne hp g hg
    · rw [hnew] at hother
      rcases List.mem_append.mp hother with hother | hother
      · exact hclosed other hother g hg
      · obtain rfl := List.mem_singleton.mp hother
        have hlast := hcollects g hg
        rw [hended r.id (by rw [hafter, update_self])] at hlast
        exact hlast
  · refine ⟨fun p other hp g hg => ?_, fun other hother g hg => ?_⟩
    · rw [hafter] at hp
      rcases Table.update_some hp with ⟨rfl, rfl⟩ | ⟨hne, hp⟩
      · exact hcollects g hg
      · exact hothers p other hne hp g hg
    · rw [hnew] at hother
      exact hclosed other hother g hg

end Answering

end Collecting

end PwrApi.Router
