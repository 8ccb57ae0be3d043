import PwrApi.Router.FanIn

/-! The requests that address one object: starting and stopping a log, and reading its
samples. The router keeps the prepared response of each until its only answer comes. -/

namespace PwrApi.Router

open Function Runs

variable {V : Type}

def Single.Prepared (s : Single) (resp : Payload V) : Prop :=
  match s.tag with
  | .log _ => ∃ r, resp = .commLogResp r ∧ r.toCommEvent = newCommEvent .commLogResp s.id 0
  | .samples _ => ∃ r, resp = .commGetSamplesResp r ∧
      r.toCommEvent = newCommEvent .commGetSamplesResp s.id 0
  | .comm _ _ => False

namespace Net

def SingleTag (p : EventId) (tag : Tag) : Prop := tag = .log p ∨ tag = .samples p

theorem singleTag_ne_comm {p : EventId} {tag : Tag} (h : SingleTag p tag) (q : EventId)
    (g : UInt64) : tag ≠ .comm q g := by
  rcases h with rfl | rfl <;> simp

theorem singleTag_ne {p q : EventId} {tag tag' : Tag} (h : SingleTag p tag)
    (h' : SingleTag q tag') (hne : q ≠ p) : tag' ≠ tag := by
  rcases h with rfl | rfl <;> rcases h' with rfl | rfl <;> simp [hne]

/-- Each request of one source has its prepared response and one forwarded request,
and nothing else is awaited under such a tag. -/
structure SinglesInv (net : Net V) : Prop where
  prepared : ∀ p s, net.single p = some s → SingleTag p s.tag ∧
    ∃ info, net.rtr.infos p = some info ∧ info.src = s.src ∧ s.Prepared info.resp
  once : ∀ p s, net.single p = some s → net.inFlight.count s.tag = 1
  known : ∀ p tag, tag ∈ net.inFlight → SingleTag p tag →
    ∃ s, net.single p = some s ∧ s.tag = tag

section Updates

variable {net net' : Net V} {p : EventId}

theorem singles_unrelated (h : net.SinglesInv) (hsingle : net'.single = net.single)
    (hcount : ∀ q tag, SingleTag q tag → net'.inFlight.count tag = net.inFlight.count tag)
    (hinfos : ∀ q s, net.single q = some s → net'.rtr.infos q = net.rtr.infos q) :
    net'.SinglesInv := by
  refine ⟨?_, ?_, ?_⟩
  · intro q s hq
    rw [hsingle] at hq
    rw [hinfos q s hq]
    exact h.prepared q s hq
  · intro q s hq
    rw [hsingle] at hq
    rw [hcount q s.tag (h.prepared q s hq).1]
    exact h.once q s hq
  · intro q tag hmem htag
    rw [hsingle]
    apply h.known q tag _ htag
    rwa [← List.count_pos_iff, hcount q tag htag, List.count_pos_iff] at hmem

theorem singles_add (h : net.SinglesInv) {s : Single} {info : CommReqInfo V}
    (htag : SingleTag p s.tag) (hfresh : net.rtr.infos p = none)
    (hsrc : info.src = s.src) (hprepared : s.Prepared info.resp)
    (hsingle : net'.single = update net.single p (some s))
    (hflight : net'.inFlight = net.inFlight ++ [s.tag])
    (hinfos : net'.rtr.infos = update net.rtr.infos p (some info)) : net'.SinglesInv := by
  have hnone : net.single p = none := by
    cases hp : net.single p with
    | none => rfl
    | some old =>
        obtain ⟨_, other, hother, _⟩ := h.prepared p old hp
        rw [hfresh] at hother
        cases hother
  have hnew : ∀ tag, SingleTag p tag → tag ∉ net.inFlight := by
    intro tag htag' hmem
    obtain ⟨old, hold, _⟩ := h.known p tag hmem htag'
    rw [hnone] at hold
    cases hold
  refine ⟨?_, ?_, ?_⟩
  · intro q s' hq
    rw [hsingle] at hq
    rw [hinfos]
    rcases Table.update_some hq with ⟨rfl, rfl⟩ | ⟨hqp, hq⟩
    · exact ⟨htag, info, update_self .., hsrc, hprepared⟩
    · rw [update_of_ne hqp]
      exact h.prepared q s' hq
  · intro q s' hq
    rw [hsingle] at hq
    rw [hflight, List.count_append]
    rcases Table.update_some hq with ⟨rfl, rfl⟩ | ⟨hqp, hq⟩
    · rw [List.count_eq_zero.mpr (hnew _ htag), List.count_singleton_self]
    · have hne := singleTag_ne htag (h.prepared q s' hq).1 hqp
      rw [h.once q s' hq, List.count_eq_zero.mpr (by simpa using hne)]
  · intro q tag hmem htag'
    rw [hsingle]
    rw [hflight, List.mem_append, List.mem_singleton] at hmem
    by_cases hqp : q = p
    · subst hqp
      rcases hmem with hmem | heq
      · exact (hnew tag htag' hmem).elim
      · exact ⟨s, update_self .., heq.symm⟩
    · rw [update_of_ne hqp]
      rcases hmem with hmem | heq
      · exact h.known q tag hmem htag'
      · exact (singleTag_ne htag htag' hqp heq).elim

theorem singles_end (h : net.SinglesInv) {s : Single} (hp : net.single p = some s)
    (hsingle : net'.single = update net.single p none)
    (hflight : net'.inFlight = net.inFlight.erase s.tag)
    (hinfos : net'.rtr.infos = update net.rtr.infos p none) : net'.SinglesInv := by
  have htag := (h.prepared p s hp).1
  refine ⟨?_, ?_, ?_⟩
  · intro q s' hq
    rw [hsingle] at hq
    obtain ⟨hqp, hq⟩ := Table.update_none hq
    rw [hinfos, update_of_ne hqp]
    exact h.prepared q s' hq
  · intro q s' hq
    rw [hsingle] at hq
    obtain ⟨hqp, hq⟩ := Table.update_none hq
    have hne := singleTag_ne htag (h.prepared q s' hq).1 hqp
    rw [hflight, List.count_erase_of_ne hne]
    exact h.once q s' hq
  · intro q tag hmem htag'
    rw [hflight] at hmem
    rw [hsingle]
    by_cases hqp : q = p
    · subst hqp
      obtain ⟨s', hs', rfl⟩ := h.known q tag (List.mem_of_mem_erase hmem) htag'
      rw [hp, Option.some.injEq] at hs'
      subst hs'
      have hcount : (net.inFlight.erase s.tag).count s.tag = net.inFlight.count s.tag - 1 :=
        List.count_erase_self
      have honce := h.once q s hp
      have hpos := List.count_pos_iff.mpr hmem
      omega
    · rw [update_of_ne hqp]
      exact h.known q tag (List.mem_of_mem_erase hmem) htag'

theorem single_of_fresh (h : net.SinglesInv) {q : EventId} {s : Single}
    (hfresh : net.rtr.infos p = none) (hq : net.single q = some s) : q ≠ p := by
  intro heq
  subst heq
  obtain ⟨_, info, hinfo, _⟩ := h.prepared q s hq
  rw [hfresh] at hinfo
  cases hinfo

end Updates

section Steps

variable [AddMonoid V] {net net' : Net V} {l : Label V} {p : EventId}

theorem singles_request (h : net.SinglesInv) {ec : ClientChan} {ev : Payload V}
    (hreq : requestOf l = some (ec, ev, p)) (hstep : net.rtr.Step l net'.rtr)
    (hnet : net' = { net.afterRequest ec ev p with rtr := net'.rtr }) : net'.SinglesInv := by
  obtain ⟨hfresh, hdispatch⟩ := hstep
  cases l with
  | clientEvent ec' ev' p' =>
      cases ev' with
      | commReq req =>
          cases hreq
          obtain ⟨client, commList, hclient, hcomm, hmail⟩ := processCommReq_ok hdispatch
          have hlist := commListOf_eq hclient hcomm
          simp only [afterRequest, hlist] at hnet
          refine singles_unrelated h (by rw [hnet]) ?_ ?_
          · intro q tag htag
            rw [hnet, List.count_append, Nat.add_eq_left, List.count_eq_zero]
            intro hmem
            obtain ⟨g, hg⟩ := mem_fanOutTags hmem
            exact singleTag_ne_comm htag p g hg
          · intro q s hq
            rw [hmail.infos]
            exact update_of_ne (single_of_fresh h hfresh hq) _ _
      | commLogReq req =>
          cases hreq
          obtain ⟨new, hsrc, _, _, hresp, _, hmail⟩ := processSingle_ok hdispatch
          refine singles_add h (s := ⟨ec, req.id, .log p⟩) (.inl rfl) hfresh hsrc ?_
            (by rw [hnet]; rfl) (by rw [hnet]; rfl) hmail.infos
          rw [hresp]
          exact ⟨_, rfl, rfl⟩
      | commGetSamplesReq req =>
          cases hreq
          obtain ⟨new, hsrc, _, _, hresp, _, hmail⟩ := processSingle_ok hdispatch
          refine singles_add h (s := ⟨ec, req.id, .samples p⟩) (.inr rfl) hfresh hsrc ?_
            (by rw [hnet]; rfl) (by rw [hnet]; rfl) hmail.infos
          rw [hresp]
          exact ⟨_, rfl, rfl⟩
      | commCreate req => cases hreq
      | _ => cases hdispatch
  | _ => cases hreq

theorem singles_commResp (h : net.SinglesInv) (hinv : net.Inv) {r : CommRespEvent V}
    {rtr₀ mid : Router V} (hmem : .comm r.id r.grpIndex ∈ net.inFlight)
    (hsame : SameRequests net.rtr rtr₀) (hproc : rtr₀.processCommResp r = .ok mid)
    (hmid : SameRequests mid net'.rtr)
    (hnet : net' = { net.afterResponse (.commResp r) with rtr := net'.rtr }) :
    net'.SinglesInv := by
  have hcurrent : ∃ info resp, net.rtr.infos r.id = some info ∧ info.resp = .commResp resp := by
    cases hp : net.current r.id with
    | none => exact ((hinv.other r.id hp).1 _ hmem).elim
    | some req =>
        obtain ⟨_, info, hinfo, hmirrors⟩ := hinv.mirrored r.id req hp
        obtain ⟨resp, hresp, _⟩ := hmirrors.resp
        exact ⟨info, resp, hinfo, hresp⟩
  have hflight : net'.inFlight = net.inFlight.erase (.comm r.id r.grpIndex) ∧
      net'.single = net.single := by
    rw [hnet]
    unfold afterResponse
    dsimp only
    split
    · exact ⟨rfl, rfl⟩
    · split <;> exact ⟨rfl, rfl⟩
  refine singles_unrelated h hflight.2 ?_ ?_
  · intro q tag htag
    rw [hflight.1, List.count_erase_of_ne (singleTag_ne_comm htag r.id r.grpIndex)]
  · intro q s hq
    have hne : q ≠ r.id := by
      intro heq
      subst heq
      obtain ⟨info, resp, hinfo, hresp⟩ := hcurrent
      obtain ⟨htag, other, hother, _, hprepared⟩ := h.prepared _ s hq
      rw [hinfo, Option.some.injEq] at hother
      subst hother
      rw [hresp] at hprepared
      rcases htag with htag | htag <;>
        · simp only [Single.Prepared, htag] at hprepared
          obtain ⟨_, hkind, _⟩ := hprepared
          cases hkind
    obtain ⟨info, rs, _, _, hcases⟩ := processCommResp_ok hproc
    have hkept : mid.infos q = rtr₀.infos q := by
      rcases hcases with ⟨_, _, rfl⟩ | ⟨_, _, _, _, _, ⟨_, rfl⟩ | ⟨_, hsend⟩⟩
      · exact update_of_ne hne _ _
      · exact update_of_ne hne _ _
      · obtain ⟨_, rfl⟩ := sendResp_ok hsend
        exact update_of_ne hne _ _
    rw [hmid.infos, hkept, hsame.infos]

theorem singles_response (h : net.SinglesInv) (hinv : net.Inv) {ev : Payload V}
    (hev : net.rtr.responseOf l = some ev) (hadm : net.Admissible l)
    (hdispatch : net.rtr.dispatch l = .ok net'.rtr)
    (hnet : net' = { net.afterResponse ev with rtr := net'.rtr }) : net'.SinglesInv := by
  obtain ⟨hisResp, rtr₀, f, hsame, hf, hmap⟩ := dispatch_response hev
  obtain ⟨tag, hmem, htag⟩ := hadm.solicited ev hev
  rw [hmap, map_eq_ok] at hdispatch
  obtain ⟨mid, hserver, hdispatch⟩ := hdispatch
  have hmid : SameRequests mid net'.rtr := hdispatch ▸ hf mid
  cases ev with
  | commResp r =>
      obtain rfl := Option.some.inj htag
      exact singles_commResp h hinv hmem hsame hserver hmid hnet
  | commLogResp r =>
      obtain rfl := Option.some.inj htag
      obtain ⟨info, resp, _, _, hsend⟩ := processCommLogResp_ok hserver
      obtain ⟨_, rfl⟩ := sendResp_ok hsend
      obtain ⟨s, hs, hstag⟩ := h.known r.id _ hmem (.inl rfl)
      refine singles_end h hs (by rw [hnet]; rfl) (by rw [hnet, hstag]; rfl) ?_
      rw [hmid.infos, ← hsame.infos]
  | commGetSamplesResp r =>
      obtain rfl := Option.some.inj htag
      obtain ⟨info, resp, _, _, hsend⟩ := processCommGetSamplesResp_ok hserver
      obtain ⟨_, rfl⟩ := sendResp_ok hsend
      obtain ⟨s, hs, hstag⟩ := h.known r.id _ hmem (.inr rfl)
      refine singles_end h hs (by rw [hnet]; rfl) (by rw [hnet, hstag]; rfl) ?_
      rw [hmid.infos, ← hsame.infos]
  | _ => cases hisResp

theorem singles_step (h : net.SinglesInv) (hinv : net.Inv) (hstep : net.Step l net') :
    net'.SinglesInv := by
  obtain ⟨hrtr, hadm, hnet⟩ := hstep
  unfold after at hnet
  cases hresp : net.rtr.responseOf l with
  | some ev =>
      simp only [hresp] at hnet
      exact singles_response h hinv hresp hadm hrtr.2 hnet
  | none =>
      cases hreq : requestOf l with
      | some req =>
          simp only [hresp, hreq] at hnet
          exact singles_request h hreq hrtr hnet
      | none =>
          simp only [hresp, hreq] at hnet
          obtain ⟨hinfos, _⟩ := dispatch_other hreq hresp hrtr.2
          refine singles_unrelated h (by rw [hnet]) (fun _ _ _ => by rw [hnet]) ?_
          intro q s _
          rw [hinfos]

end Steps

end Net

end PwrApi.Router
