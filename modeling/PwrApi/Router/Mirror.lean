import PwrApi.Router.Exchange

/-! The state the router keeps for a request, as the image of its exchange. -/

namespace PwrApi.Router

open Function Runs

variable {V : Type}

section Ranges

variable {α : Type}

theorem range_map_getElem? (n g : Nat) (f : Nat → α) :
    ((List.range n).map f)[g]? = if g < n then some (f g) else none := by
  by_cases hg : g < n <;> simp [hg]

theorem range_map_getD {n g : Nat} (f : Nat → α) (d : α) (hg : g < n) :
    ((List.range n).map f).getD g d = f g := by
  simp [List.getD_eq_getElem?_getD, hg]

theorem range_map_set (n g : Nat) (f : Nat → α) (x : α) :
    ((List.range n).map f).set g x = (List.range n).map (update f g x) := by
  apply List.ext_getElem?
  intro i
  rw [List.getElem?_set, range_map_getElem?, range_map_getElem?]
  by_cases hi : g = i
  · subst hi
    by_cases hg : g < n <;> simp [hg]
  · simp [hi, update_of_ne (Ne.symm hi)]

end Ranges

namespace Request

/-- What the completed groups of a request contribute, in the order of completion. -/
def collect {α : Type} (req : Request V) (f : CommRespEvent V → List α) : List α :=
  req.done.flatMap fun g => (req.answers g).flatMap f

variable {α : Type} {req : Request V} {g : Nat} {r : CommRespEvent V}

theorem flatMap_answers_ne (hnot : g ∉ req.done) (f : CommRespEvent V → List α) :
    (req.done.flatMap fun g' => ((req.answer g r).answers g').flatMap f) = req.collect f := by
  apply List.flatMap_congr
  intro g' hg'
  have hne : g' ≠ g := fun heq => hnot (heq ▸ hg')
  rw [answers_ne req r hne]

theorem collect_wait (hnot : g ∉ req.done) (hwait : (req.answers g).length + 1 ≠ req.size g)
    (f : CommRespEvent V → List α) : (req.answer g r).collect f = req.collect f := by
  rw [collect, answer_done, if_neg hwait]
  exact flatMap_answers_ne hnot f

theorem collect_full (hnot : g ∉ req.done) (hfull : (req.answers g).length + 1 = req.size g)
    (f : CommRespEvent V → List α) :
    (req.answer g r).collect f = req.collect f ++ (req.answers g ++ [r]).flatMap f := by
  rw [collect, answer_done, if_pos hfull, List.flatMap_append, flatMap_answers_ne hnot f,
    List.flatMap_singleton, answers_self]

end Request

section Mirror

variable [Zero V] [Add V]

/-- The response under construction holds what the completed groups contribute. -/
structure Merged (req : Request V) (resp : CommRespEvent V) : Prop where
  id : resp.id = req.ev.id
  errObj : resp.errObj = req.collect (·.errObj)
  errAttr : resp.errAttr = req.collect (·.errAttr)
  errValue : resp.errValue = req.collect (·.errValue)
  get : req.ev.op = .get →
    resp.value.length = req.groups ∧ resp.timeStamp.length = req.groups ∧
      ∀ g ∈ req.done,
        resp.value[g]? = some (sumValues req.ev.valueOp.length (req.answers g)) ∧
        resp.timeStamp[g]? = some (lastTimes req.ev.valueOp.length (req.answers g))
  other : req.ev.op ≠ .get → resp.value = [] ∧ resp.timeStamp = []

/-- The state the router keeps for a request is the state of its exchange. -/
structure Mirrors (info : CommReqInfo V) (req : Request V) : Prop where
  src : info.src = req.src
  op : info.ev.op = req.ev.op
  valueOp : info.valueOp = req.ops
  grpInfo : info.grpInfo = (List.range req.groups).map req.size
  respQ : info.respQ = (List.range req.groups).map req.answers
  pending : info.pending + req.done.length = req.groups
  resp : ∃ resp, info.resp = .commResp resp ∧ Merged req resp

/-- A completed exchange and the response that the client got for it. -/
structure Answered (req : Request V) (reply : ClientChan × CommRespEvent V) : Prop where
  src : reply.1 = req.src
  id : reply.2.id = req.ev.id
  complete : ∀ g < req.groups, (req.answers g).length = req.size g
  own : ∀ g, ∀ r ∈ req.answers g, r.id = req.info ∧ r.grpIndex.toNat = g
  get : req.ev.op = .get →
    reply.2.value =
      (List.range req.groups).map (fun g => sumValues req.ev.valueOp.length (req.answers g)) ∧
    reply.2.timeStamp =
      (List.range req.groups).map fun g => lastTimes req.ev.valueOp.length (req.answers g)
  other : req.ev.op ≠ .get → reply.2.value = [] ∧ reply.2.timeStamp = []
  errors : req.done.Perm (List.range req.groups) ∧ reply.2.errObj = req.collect (·.errObj) ∧
    reply.2.errAttr = req.collect (·.errAttr) ∧ reply.2.errValue = req.collect (·.errValue)

end Mirror

section Answers

variable [AddMonoid V] {req : Request V} {g : Nat} {r : CommRespEvent V}

theorem merged_wait {resp : CommRespEvent V} (h : Merged req resp) (hnot : g ∉ req.done)
    (hwait : (req.answers g).length + 1 ≠ req.size g) : Merged (req.answer g r) resp := by
  refine ⟨h.id, ?_, ?_, ?_, ?_, h.other⟩
  · rw [h.errObj, Request.collect_wait hnot hwait]
  · rw [h.errAttr, Request.collect_wait hnot hwait]
  · rw [h.errValue, Request.collect_wait hnot hwait]
  · intro hop
    obtain ⟨hvalue, htime, hdone⟩ := h.get hop
    refine ⟨hvalue, htime, ?_⟩
    intro g' hg'
    rw [Request.answer_done, if_neg hwait] at hg'
    have hne : g' ≠ g := fun heq => hnot (heq ▸ hg')
    rw [Request.answers_ne req r hne]
    exact hdone g' hg'

theorem merged_full {info : CommReqInfo V} {resp merged : CommRespEvent V}
    (h : Merged req resp) (hg : g < req.groups) (hnot : g ∉ req.done)
    (hfull : (req.answers g).length + 1 = req.size g) (hop : info.ev.op = req.ev.op)
    (hvalueOp : info.valueOp = req.ops)
    (hmerge : mergeGroup info resp g (req.answers g ++ [r]) = .ok merged) :
    Merged (req.answer g r) merged := by
  obtain ⟨hid, hobj, hattr, herr, hget, hother⟩ := mergeGroup_ok hmerge
  refine ⟨hid.trans h.id, ?_, ?_, ?_, ?_, ?_⟩
  · rw [hobj, h.errObj, Request.collect_full hnot hfull]
  · rw [hattr, h.errAttr, Request.collect_full hnot hfull]
  · rw [herr, h.errValue, Request.collect_full hnot hfull]
  · intro hisGet
    rw [Request.answer_ev] at hisGet
    obtain ⟨hvalue, htime, hdone⟩ := h.get hisGet
    obtain ⟨hnewValue, hnewTime⟩ := hget (hop.trans hisGet)
    have hops : info.valueOp.length = req.ev.valueOp.length := by
      rw [hvalueOp, Request.ops, if_pos hisGet]
    rw [hops] at hnewValue hnewTime
    refine ⟨by simp [hnewValue, hvalue], by simp [hnewTime, htime], ?_⟩
    intro g' hg'
    rw [Request.answer_done, if_pos hfull, List.mem_append, List.mem_singleton] at hg'
    rw [hnewValue, hnewTime, Request.answer_ev]
    by_cases hsame : g' = g
    · subst hsame
      rw [Request.answers_self, List.getElem?_set_self (by omega),
        List.getElem?_set_self (by omega)]
      exact ⟨rfl, rfl⟩
    · rw [Request.answers_ne req r hsame, List.getElem?_set_ne (Ne.symm hsame),
        List.getElem?_set_ne (Ne.symm hsame)]
      exact hdone g' (hg'.resolve_right hsame)
  · intro hnotGet
    obtain ⟨hvalue, htime⟩ := hother (by rwa [hop])
    obtain ⟨hvalue', htime'⟩ := h.other hnotGet
    exact ⟨hvalue.trans hvalue', htime.trans htime'⟩

theorem mirrors_new (ec : ClientChan) (ev : CommReqEvent V) (p : EventId)
    (commList : List (List ObjID)) :
    Mirrors (newCommReqInfo ec ev p commList) ⟨ec, p, ev, commList, fun _ => [], []⟩ := by
  refine ⟨rfl, rfl, rfl, ?_, ?_, rfl, _, rfl, rfl, rfl, rfl, rfl, ?_, ?_⟩
  · apply List.ext_getElem
    · simp [newCommReqInfo, Request.groups]
    · intro i h₁ h₂
      have hi : i < commList.length := by simpa [newCommReqInfo] using h₁
      simp [newCommReqInfo, Request.size, List.getD_eq_getElem?_getD, hi]
  · apply List.ext_getElem <;> simp [newCommReqInfo, Request.groups]
  · intro hop
    replace hop : ev.op = .get := hop
    simp [hop, Request.groups]
  · intro hop
    replace hop : ev.op ≠ .get := hop
    simp [hop]

theorem mirrors_queue {info : CommReqInfo V} (h : Mirrors info req)
    {rs : List (CommRespEvent V)} (hrs : info.respQ[g]? = some rs) :
    g < req.groups ∧ rs = req.answers g := by
  rw [h.respQ, range_map_getElem?] at hrs
  by_cases hg : g < req.groups
  · rw [if_pos hg, Option.some.injEq] at hrs
    exact ⟨hg, hrs.symm⟩
  · rw [if_neg hg] at hrs
    cases hrs

theorem mirrors_size {info : CommReqInfo V} (h : Mirrors info req) (hg : g < req.groups) :
    info.grpInfo[g]? = some (req.size g) := by
  rw [h.grpInfo, range_map_getElem?, if_pos hg]

theorem mirrors_wait {info : CommReqInfo V} (h : Mirrors info req) (hnot : g ∉ req.done)
    (hwait : (req.answers g).length + 1 ≠ req.size g) :
    Mirrors { info with respQ := info.respQ.set g (req.answers g ++ [r]) }
      (req.answer g r) := by
  obtain ⟨resp, hresp, hmerged⟩ := h.resp
  refine ⟨h.src, h.op, h.valueOp, h.grpInfo, ?_, ?_, resp, hresp,
    merged_wait hmerged hnot hwait⟩
  · rw [h.respQ, range_map_set]
    rfl
  · rw [Request.answer_done, if_neg hwait]
    exact h.pending

theorem mirrors_full {info : CommReqInfo V} {resp merged : CommRespEvent V}
    (h : Mirrors info req) (hg : g < req.groups) (hnot : g ∉ req.done)
    (hfull : (req.answers g).length + 1 = req.size g) (hmore : req.done.length < req.groups)
    (hresp : info.resp = .commResp resp)
    (hmerge : mergeGroup { info with respQ := info.respQ.set g (req.answers g ++ [r]) } resp g
      (req.answers g ++ [r]) = .ok merged) :
    Mirrors { info with
      respQ := info.respQ.set g (req.answers g ++ [r])
      resp := .commResp merged
      pending := info.pending - 1 } (req.answer g r) := by
  obtain ⟨resp', hresp', hmerged⟩ := h.resp
  rw [hresp, Payload.commResp.injEq] at hresp'
  subst hresp'
  refine ⟨h.src, h.op, h.valueOp, h.grpInfo, ?_, ?_, merged, rfl,
    merged_full hmerged hg hnot hfull h.op h.valueOp hmerge⟩
  · rw [h.respQ, range_map_set]
    rfl
  · have hpending := h.pending
    rw [Request.answer_done, if_pos hfull, List.length_append, List.length_singleton,
      Request.answer_groups]
    change info.pending - 1 + _ = _
    omega

theorem answered_of_merged {resp : CommRespEvent V} (hmerged : Merged req resp)
    (hconsistent : req.Consistent) (hall : req.done.length = req.groups) :
    Answered req (req.src, resp) := by
  have hperm := Request.done_perm hconsistent hall
  have hdone : ∀ g, g < req.groups → g ∈ req.done := fun g hg =>
    hperm.mem_iff.mpr (List.mem_range.mpr hg)
  refine ⟨rfl, hmerged.id, fun g hg => ((hconsistent.mem_done g).mp (hdone g hg)).2,
    hconsistent.own, ?_, hmerged.other, hperm, hmerged.errObj, hmerged.errAttr,
    hmerged.errValue⟩
  intro hop
  dsimp only
  obtain ⟨hvalue, htime, hgroups⟩ := hmerged.get hop
  refine ⟨?_, ?_⟩
  · apply List.ext_getElem?
    intro g
    rw [range_map_getElem?]
    by_cases hg : g < req.groups
    · rw [if_pos hg, (hgroups g (hdone g hg)).1]
    · rw [if_neg hg, List.getElem?_eq_none (Nat.le_of_not_lt fun h => hg (hvalue ▸ h))]
  · apply List.ext_getElem?
    intro g
    rw [range_map_getElem?]
    by_cases hg : g < req.groups
    · rw [if_pos hg, (hgroups g (hdone g hg)).2]
    · rw [if_neg hg, List.getElem?_eq_none (Nat.le_of_not_lt fun h => hg (htime ▸ h))]

end Answers

end PwrApi.Router
