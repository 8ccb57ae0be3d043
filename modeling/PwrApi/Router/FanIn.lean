import PwrApi.Router.Mirror
import PwrApi.Lib.Table
import Mathlib.Data.List.Forall2

/-! Fan-out and fan-in: the router conducts every exchange, over all interleavings of
requests and responses. -/

namespace PwrApi.Router

open Function Runs

variable {V : Type}

section Tags

theorem count_fanOut_from (ev : CommReqEvent V) (commList : List (List ObjID)) (k g : Nat)
    (hk : k + commList.length ≤ 2 ^ 64) (hg : g < 2 ^ 64) :
    (((commList.zipIdx k).flatMap fun (group, i) =>
      group.map fun obj => (obj, { ev with grpIndex := UInt64.ofNat i })).map fun sent =>
        Tag.comm sent.2.id sent.2.grpIndex).count (.comm ev.id (UInt64.ofNat g)) =
      if k ≤ g then (commList.getD (g - k) []).length else 0 := by
  induction commList generalizing k with
  | nil => simp
  | cons group commList ih =>
      rw [List.length_cons] at hk
      rw [List.zipIdx_cons, List.flatMap_cons, List.map_append, List.count_append,
        ih (k + 1) (by omega), List.map_map]
      have hinj : UInt64.ofNat k = UInt64.ofNat g ↔ k = g := by
        constructor
        · intro h
          have := congrArg UInt64.toNat h
          rwa [UInt64.toNat_ofNat_of_lt' (show k < 2 ^ 64 by omega),
            UInt64.toNat_ofNat_of_lt' hg] at this
        · exact fun h => by rw [h]
      have hfirst : (group.map ((fun sent : ObjID × CommReqEvent V =>
          Tag.comm sent.2.id sent.2.grpIndex) ∘ fun obj =>
            (obj, { ev with grpIndex := UInt64.ofNat k }))).count
          (.comm ev.id (UInt64.ofNat g)) = if k = g then group.length else 0 := by
        simp only [Function.comp_def, List.map_const', List.count_replicate, beq_iff_eq,
          Tag.comm.injEq, true_and, hinj]
      rw [hfirst]
      rcases Nat.lt_trichotomy k g with hlt | heq | hgt
      · obtain ⟨d, rfl⟩ := Nat.exists_eq_add_of_lt hlt
        simp [show k + d + 1 - k = d + 1 by omega, show k + d + 1 - (k + 1) = d by omega,
          show k ≠ k + d + 1 by omega, show k + 1 ≤ k + d + 1 by omega,
          show k ≤ k + d + 1 by omega]
      · subst heq
        simp
      · simp [show ¬ k ≤ g by omega, show k ≠ g by omega, show ¬ k + 1 ≤ g by omega]

theorem count_fanOutTags (ev : CommReqEvent V) (p : EventId) (commList : List (List ObjID))
    (hsize : Wire.Fits commList) {g : Nat} (hg : g < 2 ^ 64) :
    (fanOutTags ev p commList).count (.comm p (UInt64.ofNat g)) =
      (commList.getD g []).length := by
  have hsize' : commList.length < 2 ^ 32 := hsize
  have := count_fanOut_from { ev with id := p } commList 0 g (by omega) hg
  simpa [fanOutTags, fanOut] using this

theorem mem_fanOutTags {ev : CommReqEvent V} {p : EventId} {commList : List (List ObjID)}
    {tag : Tag} (h : tag ∈ fanOutTags ev p commList) : ∃ g, tag = .comm p g := by
  obtain ⟨sent, hsent, rfl⟩ := List.mem_map.mp h
  obtain ⟨⟨group, i⟩, _, hsent⟩ := List.mem_flatMap.mp hsent
  obtain ⟨obj, _, rfl⟩ := List.mem_map.mp hsent
  exact ⟨_, rfl⟩

end Tags

/-- The forwarded requests of an exchange that are not answered yet. -/
structure Awaits (inFlight : List Tag) (req : Request V) : Prop where
  outstanding : ∀ g < req.groups,
    (req.answers g).length + inFlight.count (.comm req.info (UInt64.ofNat g)) = req.size g
  inRange : ∀ g, .comm req.info g ∈ inFlight → g.toNat < req.groups
  small : req.groups < 2 ^ 32

theorem awaits_answer {inFlight : List Tag} {req : Request V} (h : Awaits inFlight req)
    {r : CommRespEvent V} (hmem : .comm req.info r.grpIndex ∈ inFlight) :
    Awaits (inFlight.erase (.comm req.info r.grpIndex))
      (req.answer r.grpIndex.toNat r) := by
  have hcount := List.count_pos_iff.mpr hmem
  refine ⟨?_, fun g hg => h.inRange g (List.mem_of_mem_erase hg), h.small⟩
  intro g hg
  have hold := h.outstanding g hg
  by_cases hsame : g = r.grpIndex.toNat
  · subst hsame
    rw [UInt64.ofNat_toNat] at hold ⊢
    have herase : (inFlight.erase (.comm req.info r.grpIndex)).count
        (.comm req.info r.grpIndex) = inFlight.count (.comm req.info r.grpIndex) - 1 :=
      List.count_erase_self
    rw [Request.answers_self, List.length_append, List.length_singleton, Request.answer_info,
      Request.answer_size, herase]
    omega
  · have hne : Tag.comm req.info (UInt64.ofNat g) ≠ .comm req.info r.grpIndex := by
      intro heq
      rw [Tag.comm.injEq] at heq
      apply hsame
      have hsmall := h.small
      rw [← heq.2, UInt64.toNat_ofNat_of_lt' (by
        change g < 2 ^ 64
        have : g < req.groups := hg
        omega)]
    rw [Request.answers_ne req r hsame, Request.answer_info, List.count_erase_of_ne hne]
    exact hold

theorem Awaits.congr {inFlight inFlight' : List Tag} {req : Request V} (h : Awaits inFlight req)
    (hcount : ∀ g, inFlight'.count (.comm req.info g) = inFlight.count (.comm req.info g)) :
    Awaits inFlight' req := by
  refine ⟨?_, ?_, h.small⟩
  · intro g hg
    rw [hcount]
    exact h.outstanding g hg
  · intro g hg
    apply h.inRange g
    rwa [← List.count_pos_iff, ← hcount g, List.count_pos_iff]

theorem count_fanOutTags_other {inFlight : List Tag} (ev : CommReqEvent V) {p q : EventId}
    (hq : q ≠ p) (commList : List (List ObjID)) (g : UInt64) :
    (inFlight ++ fanOutTags ev p commList).count (.comm q g) = inFlight.count (.comm q g) := by
  rw [List.count_append, Nat.add_eq_left, List.count_eq_zero]
  intro hmem
  obtain ⟨g', hg'⟩ := mem_fanOutTags hmem
  rw [Tag.comm.injEq] at hg'
  exact hq hg'.1

theorem awaits_new {inFlight : List Tag} {p : EventId} (ec : ClientChan) (ev : CommReqEvent V)
    {commList : List (List ObjID)} (hfits : commList.length < 2 ^ 32)
    (hnotags : ∀ g, Tag.comm p g ∉ inFlight) :
    Awaits (inFlight ++ fanOutTags ev p commList)
      (⟨ec, p, ev, commList, fun _ => [], []⟩ : Request V) := by
  refine ⟨?_, ?_, hfits⟩
  · intro g hg
    replace hg : g < commList.length := hg
    simp only [List.length_nil, Nat.zero_add, List.count_append, Request.size]
    rw [count_fanOutTags ev p commList hfits (by omega), List.count_eq_zero.mpr (hnotags _),
      Nat.zero_add]
  · intro g hg
    rcases List.mem_append.mp hg with hold | hnew
    · exact (hnotags g hold).elim
    · have hcount := count_fanOutTags ev p commList hfits g.toNat_lt
      rw [UInt64.ofNat_toNat] at hcount
      have hpos := List.count_pos_iff.mpr hnew
      by_contra hout
      rw [hcount, List.getD_eq_getElem?_getD, List.getElem?_eq_none
        (Nat.le_of_not_lt hout)] at hpos
      simp at hpos

theorem consistent_new (ec : ClientChan) (p : EventId) (ev : CommReqEvent V)
    {commList : List (List ObjID)} (hne : commList ≠ [])
    (hgroups : ∀ group ∈ commList, group ≠ []) :
    (⟨ec, p, ev, commList, fun _ => [], []⟩ : Request V).Consistent ∧
      0 < (⟨ec, p, ev, commList, fun _ => [], []⟩ : Request V).groups := by
  refine ⟨⟨by simp, ?_, by simp⟩, ?_⟩
  · intro g
    simp only [List.not_mem_nil, List.length_nil, false_iff, not_and, Request.size,
      Request.groups]
    intro hg hzero
    have hmem : commList.getD g [] ∈ commList := by
      simp [List.getD_eq_getElem?_getD, hg]
    exact hgroups _ hmem (List.length_eq_zero_iff.mp hzero.symm)
  · simpa [Request.groups, List.length_pos_iff] using hne

def commReplies (replies : List (ClientChan × Payload V)) :
    List (ClientChan × CommRespEvent V) :=
  replies.filterMap fun reply =>
    match reply.2 with
    | .commResp r => some (reply.1, r)
    | _ => none

theorem commReplies_append_other (replies : List (ClientChan × Payload V)) (src : ClientChan)
    {ev : Payload V} (h : ∀ r, ev ≠ .commResp r) :
    commReplies (replies ++ [(src, ev)]) = commReplies replies := by
  cases ev with
  | commResp r => exact (h r rfl).elim
  | _ => simp [commReplies]

theorem commListOf_eq {rtr : Router V} {ec : ClientChan} {client : Client} {id : CommID}
    {commList : List (List ObjID)} (hclient : rtr.clientMap ec = some client)
    (hcomm : client.getCommList id = .ok commList) :
    commListOf rtr ec id = some commList := by
  simp only [Client.getCommList, bind_eq_ok, orFault_eq_ok, Except.ok.injEq] at hcomm
  obtain ⟨ev, hlookup, rfl⟩ := hcomm
  simp [commListOf, hclient, hlookup]

namespace Net

def liveKeys (net : Net V) : List (ClientChan × EventId) :=
  net.live.filterMap fun p => (net.current p).map Request.key

/-- The invariant of the exchanges: the current ones are mirrored by the router and
await their answers, no other state of the router is that of a `Get` or `Set`, and
every request asked is under way or closed and answered. -/
structure Inv [Zero V] [Add V] (net : Net V) : Prop where
  mirrored : ∀ p req, net.current p = some req →
    req.info = p ∧ ∃ info, net.rtr.infos p = some info ∧ Mirrors info req
  consistent : ∀ p req, net.current p = some req →
    req.Consistent ∧ req.done.length < req.groups ∧ Awaits net.inFlight req
  other : ∀ p, net.current p = none → (∀ g, .comm p g ∉ net.inFlight) ∧
    ∀ info resp, net.rtr.infos p = some info → info.resp ≠ .commResp resp
  nodup : net.live.Nodup
  mem_live : ∀ p, p ∈ net.live ↔ net.current p ≠ none
  asked : net.asked.Perm (net.closed.map Request.key ++ net.liveKeys)
  answered : List.Forall₂ Answered net.closed (commReplies net.rtr.replies)
  registered : net.rtr.ClientsRegistered

section Keys

variable {net : Net V} {p : EventId}

theorem filterMap_update {live : List EventId} (current : EventId → Option (Request V))
    {p : EventId} (x : Option (Request V)) (hp : p ∉ live) :
    (live.filterMap fun q => (update current p x q).map Request.key) =
      live.filterMap fun q => (current q).map Request.key := by
  apply List.filterMap_congr
  intro q hq
  have hne : q ≠ p := fun heq => hp (heq ▸ hq)
  rw [update_of_ne hne]

theorem liveKeys_answer (live : List EventId) {current : EventId → Option (Request V)}
    {p : EventId} {req req' : Request V} (hp : current p = some req) (hkey : req'.key = req.key) :
    (live.filterMap fun q => (update current p (some req') q).map Request.key) =
      live.filterMap fun q => (current q).map Request.key := by
  apply List.filterMap_congr
  intro q _
  by_cases hq : q = p
  · rw [hq, update_self, hp, Option.map_some, Option.map_some, hkey]
  · rw [update_of_ne hq]

theorem liveKeys_close {live : List EventId} {current : EventId → Option (Request V)}
    {p : EventId} {req : Request V} (hnodup : live.Nodup) (hmem : p ∈ live)
    (hp : current p = some req) :
    (live.filterMap fun q => (current q).map Request.key).Perm
      (req.key :: (live.erase p).filterMap fun q =>
        (update current p none q).map Request.key) := by
  have hnot : p ∉ live.erase p := hnodup.not_mem_erase
  have hperm := (List.perm_cons_erase hmem).filterMap fun q => (current q).map Request.key
  rw [filterMap_update current none hnot]
  simpa [hp] using hperm

end Keys

section Steps

variable [AddMonoid V] {net : Net V} {p : EventId} {rtr' : Router V}

theorem inv_unrelated (h : net.Inv) {rtr' : Router V} {inFlight : List Tag}
    {single : EventId → Option Single}
    (hcount : ∀ p g, inFlight.count (.comm p g) = net.inFlight.count (.comm p g))
    (hinfos : ∀ p req, net.current p = some req → rtr'.infos p = net.rtr.infos p)
    (hother : ∀ p info resp, net.current p = none → rtr'.infos p = some info →
      info.resp ≠ .commResp resp)
    (hreplies : commReplies rtr'.replies = commReplies net.rtr.replies)
    (hregistered : rtr'.ClientsRegistered) :
    ({ net with rtr := rtr', inFlight, single } : Net V).Inv := by
  have hmem : ∀ p g, Tag.comm p g ∈ inFlight ↔ Tag.comm p g ∈ net.inFlight := by
    intro p g
    rw [← List.count_pos_iff, hcount, List.count_pos_iff]
  refine ⟨?_, ?_, ?_, h.nodup, h.mem_live, h.asked, ?_, hregistered⟩
  · intro p req hp
    obtain ⟨hinfo, info, hsome, hmirrors⟩ := h.mirrored p req hp
    exact ⟨hinfo, info, (hinfos p req hp).trans hsome, hmirrors⟩
  · intro p req hp
    obtain ⟨hconsistent, hmore, hawaits⟩ := h.consistent p req hp
    exact ⟨hconsistent, hmore, hawaits.congr fun g => hcount _ g⟩
  · intro p hp
    refine ⟨fun g hg => (h.other p hp).1 g ((hmem p g).mp hg), ?_⟩
    exact fun info resp hinfo => hother p info resp hp hinfo
  · rw [hreplies]
    exact h.answered

theorem Inv.elsewhere (h : net.Inv) {x : Option (CommReqInfo V)} {inFlight : List Tag}
    (hinfos : rtr'.infos = update net.rtr.infos p x)
    (hcount : ∀ q g, q ≠ p → inFlight.count (.comm q g) = net.inFlight.count (.comm q g))
    {q : EventId} (hqp : q ≠ p) :
    (∀ req, net.current q = some req →
      (req.info = q ∧ ∃ info, rtr'.infos q = some info ∧ Mirrors info req) ∧
        req.Consistent ∧ req.done.length < req.groups ∧ Awaits inFlight req) ∧
    (net.current q = none → (∀ g, .comm q g ∉ inFlight) ∧
      ∀ info resp, rtr'.infos q = some info → info.resp ≠ .commResp resp) := by
  rw [hinfos, update_of_ne hqp]
  constructor
  · intro req hq
    have hmirrored := h.mirrored q req hq
    obtain ⟨hconsistent, hmore, hawaits⟩ := h.consistent q req hq
    refine ⟨hmirrored, hconsistent, hmore, hawaits.congr fun g => ?_⟩
    rw [hmirrored.1]
    exact hcount q g hqp
  · intro hq
    obtain ⟨htags, hresp⟩ := h.other q hq
    refine ⟨?_, hresp⟩
    intro g hg
    apply htags g
    rwa [← List.count_pos_iff, hcount q g hqp, List.count_pos_iff] at hg

theorem count_erase_other {inFlight : List Tag} {p : EventId} (grp : UInt64) (q : EventId)
    (g : UInt64) (hqp : q ≠ p) :
    (inFlight.erase (.comm p grp)).count (.comm q g) = inFlight.count (.comm q g) :=
  List.count_erase_of_ne (by simp [hqp])

theorem inv_commReq (h : net.Inv) {ec : ClientChan} {ev : CommReqEvent V}
    {commList : List (List ObjID)} (hfresh : net.rtr.infos p = none)
    (hshape : commList ≠ [] ∧ (∀ group ∈ commList, group ≠ []) ∧ Wire.Fits commList)
    (hinfos : rtr'.infos = update net.rtr.infos p (some (newCommReqInfo ec ev p commList)))
    (hreplies : rtr'.replies = net.rtr.replies) (hregistered : rtr'.ClientsRegistered) :
    ({ net with
      rtr := rtr'
      inFlight := net.inFlight ++ fanOutTags ev p commList
      asked := net.asked ++ [(ec, ev.id)]
      current := update net.current p (some ⟨ec, p, ev, commList, fun _ => [], []⟩)
      live := net.live ++ [p] } : Net V).Inv := by
  obtain ⟨hne, hgroups, hfits⟩ := hshape
  have hp : net.current p = none := by
    cases hcur : net.current p with
    | none => rfl
    | some req =>
        obtain ⟨_, info, hinfo, _⟩ := h.mirrored p req hcur
        rw [hfresh] at hinfo
        cases hinfo
  have hnolive : p ∉ net.live := fun hmem => (h.mem_live p).mp hmem hp
  have hnotags : ∀ g, Tag.comm p g ∉ net.inFlight := (h.other p hp).1
  have helsewhere {q : EventId} (hqp : q ≠ p) := h.elsewhere hinfos
    (fun q g hq => count_fanOutTags_other ev hq commList g) hqp
  refine ⟨?_, ?_, ?_, ?_, ?_, ?_, ?_, hregistered⟩
  · intro q req hq
    rcases Table.update_some hq with ⟨rfl, rfl⟩ | ⟨hqp, hq⟩
    · exact ⟨rfl, _, by simp [hinfos], mirrors_new ec ev q commList⟩
    · exact ((helsewhere hqp).1 req hq).1
  · intro q req hq
    rcases Table.update_some hq with ⟨rfl, rfl⟩ | ⟨hqp, hq⟩
    · obtain ⟨hconsistent, hmore⟩ := consistent_new ec q ev hne hgroups
      exact ⟨hconsistent, hmore, awaits_new ec ev hfits hnotags⟩
    · exact ((helsewhere hqp).1 req hq).2
  · intro q hq
    obtain ⟨hqp, hq⟩ := Table.update_some_none hq
    exact (helsewhere hqp).2 hq
  · refine List.nodup_append.mpr ⟨h.nodup, by simp, ?_⟩
    intro a ha b hb
    rw [List.mem_singleton] at hb
    exact fun heq => hnolive (by rw [← hb, ← heq]; exact ha)
  · intro q
    by_cases hqp : q = p
    · simp [hqp]
    · simp [hqp, h.mem_live q]
  · have hkeys := filterMap_update net.current
      (some ⟨ec, p, ev, commList, fun _ => [], []⟩) hnolive
    simp only [liveKeys, List.filterMap_append, List.filterMap_cons, List.filterMap_nil,
      update_self, Option.map_some]
    rw [hkeys, ← List.append_assoc]
    exact h.asked.append_right [(ec, ev.id)]
  · rw [hreplies]
    exact h.answered

theorem inv_continue (h : net.Inv) {req req' : Request V} {info : CommReqInfo V}
    (grp : UInt64) (hp : net.current p = some req) (hkey : req'.key = req.key)
    (hinfo : req'.info = p) (hmirrors : Mirrors info req') (hconsistent : req'.Consistent)
    (hmore : req'.done.length < req'.groups)
    (hawaits : Awaits (net.inFlight.erase (.comm p grp)) req')
    (hinfos : rtr'.infos = update net.rtr.infos p (some info))
    (hreplies : rtr'.replies = net.rtr.replies) (hregistered : rtr'.ClientsRegistered) :
    ({ net with
      rtr := rtr'
      inFlight := net.inFlight.erase (.comm p grp)
      current := update net.current p (some req') } : Net V).Inv := by
  have helsewhere {q : EventId} (hqp : q ≠ p) := h.elsewhere hinfos (count_erase_other grp) hqp
  refine ⟨?_, ?_, ?_, h.nodup, ?_, ?_, ?_, hregistered⟩
  · intro q other hq
    rcases Table.update_some hq with ⟨rfl, rfl⟩ | ⟨hqp, hq⟩
    · exact ⟨hinfo, info, by simp [hinfos], hmirrors⟩
    · exact ((helsewhere hqp).1 other hq).1
  · intro q other hq
    rcases Table.update_some hq with ⟨rfl, rfl⟩ | ⟨hqp, hq⟩
    · exact ⟨hconsistent, hmore, hawaits⟩
    · exact ((helsewhere hqp).1 other hq).2
  · intro q hq
    obtain ⟨hqp, hq⟩ := Table.update_some_none hq
    exact (helsewhere hqp).2 hq
  · intro q
    by_cases hqp : q = p
    · have hlive := (h.mem_live p).mpr (by simp [hp])
      simp [hqp, hlive]
    · simp [update_of_ne hqp, h.mem_live q]
  · have hkeys := liveKeys_answer net.live hp hkey
    simp only [liveKeys]
    rw [hkeys]
    exact h.asked
  · rw [hreplies]
    exact h.answered

theorem inv_close (h : net.Inv) {req req' : Request V} {resp : CommRespEvent V}
    (grp : UInt64) (hp : net.current p = some req) (hkey : req'.key = req.key)
    (hanswered : Answered req' (req'.src, resp))
    (hnone : ∀ g, .comm p g ∉ net.inFlight.erase (.comm p grp))
    (hinfos : rtr'.infos = update net.rtr.infos p none)
    (hreplies : rtr'.replies = net.rtr.replies ++ [(req'.src, .commResp resp)])
    (hregistered : rtr'.ClientsRegistered) :
    ({ net with
      rtr := rtr'
      inFlight := net.inFlight.erase (.comm p grp)
      current := update net.current p none
      live := net.live.erase p
      closed := net.closed ++ [req'] } : Net V).Inv := by
  have hlive : p ∈ net.live := (h.mem_live p).mpr (by simp [hp])
  have helsewhere {q : EventId} (hqp : q ≠ p) := h.elsewhere hinfos (count_erase_other grp) hqp
  refine ⟨?_, ?_, ?_, h.nodup.erase p, ?_, ?_, ?_, hregistered⟩
  · intro q other hq
    obtain ⟨hqp, hq⟩ := Table.update_none hq
    exact ((helsewhere hqp).1 other hq).1
  · intro q other hq
    obtain ⟨hqp, hq⟩ := Table.update_none hq
    exact ((helsewhere hqp).1 other hq).2
  · intro q hq
    dsimp only at hq ⊢
    by_cases hqp : q = p
    · subst hqp
      refine ⟨hnone, ?_⟩
      intro other resp' hother
      simp [hinfos] at hother
    · rw [update_of_ne hqp] at hq
      exact (helsewhere hqp).2 hq
  · intro q
    by_cases hqp : q = p
    · simp [hqp, h.nodup.not_mem_erase]
    · simp [update_of_ne hqp, List.mem_erase_of_ne hqp, h.mem_live q]
  · have hkeys := liveKeys_close h.nodup hlive hp
    simp only [liveKeys, List.map_append, List.map_cons, List.map_nil, List.append_assoc,
      List.singleton_append]
    rw [hkey]
    exact h.asked.trans (hkeys.append_left _)
  · rw [hreplies, commReplies, List.filterMap_append]
    exact List.rel_append h.answered (.cons hanswered .nil)

theorem inv_commResp (h : net.Inv) {r : CommRespEvent V} {rtr₀ mid : Router V}
    (hmem : .comm r.id r.grpIndex ∈ net.inFlight) (hsame : SameRequests net.rtr rtr₀)
    (hproc : rtr₀.processCommResp r = .ok mid) (hmid : SameRequests mid rtr')
    (hregistered : rtr'.ClientsRegistered) :
    ({ net.afterResponse (.commResp r) with rtr := rtr' } : Net V).Inv := by
  cases hp : net.current r.id with
  | none => exact ((h.other r.id hp).1 _ hmem).elim
  | some req =>
      obtain ⟨hinfo, info, hsome, hmirrors⟩ := h.mirrored r.id req hp
      obtain ⟨hconsistent, hmore, hawaits⟩ := h.consistent r.id req hp
      have hg := hawaits.inRange r.grpIndex (by rwa [hinfo])
      have hfree : (req.answers r.grpIndex.toNat).length < req.size r.grpIndex.toNat := by
        have hout := hawaits.outstanding _ hg
        rw [UInt64.ofNat_toNat, hinfo] at hout
        have := List.count_pos_iff.mpr hmem
        omega
      have hnot : r.grpIndex.toNat ∉ req.done := fun hdone => by
        have := ((hconsistent.mem_done _).mp hdone).2
        omega
      have hconsistent' := Request.consistent_answer hconsistent hg hfree hinfo.symm rfl
      have hawaits' : Awaits (net.inFlight.erase (.comm r.id r.grpIndex))
          (req.answer r.grpIndex.toNat r) := by
        rw [← hinfo] at hmem ⊢
        exact awaits_answer hawaits hmem
      obtain ⟨info', rs, hinfo', hrs, hcases⟩ := processCommResp_ok hproc
      rw [hsame.infos, hsome, Option.some.injEq] at hinfo'
      subst hinfo'
      obtain ⟨_, rfl⟩ := mirrors_queue hmirrors hrs
      rw [mirrors_size hmirrors hg] at hcases
      simp only [afterResponse, hp]
      rcases hcases with ⟨_, hwait, rfl⟩ | ⟨hfull, resp, merged, hresp, hmerge, hcases⟩
      · have hwait' : (req.answers r.grpIndex.toNat).length + 1 ≠ req.size r.grpIndex.toNat :=
          fun heq => hwait (by rw [heq])
        have hdone : (req.answer r.grpIndex.toNat r).done = req.done := by
          rw [Request.answer_done, if_neg hwait']
        rw [hdone, Request.answer_groups, if_neg hmore.ne]
        refine inv_continue h r.grpIndex hp rfl hinfo (mirrors_wait hmirrors hnot hwait')
          hconsistent' (by rwa [hdone]) hawaits' ?_ ?_ hregistered
        · rw [hmid.infos, ← hsame.infos]
        · rw [hmid.replies, ← hsame.replies]
      · have hfull' : (req.answers r.grpIndex.toNat).length + 1 = req.size r.grpIndex.toNat :=
          (Option.some.inj hfull).symm
        have hdone : (req.answer r.grpIndex.toNat r).done.length = req.done.length + 1 := by
          rw [Request.answer_done, if_pos hfull', List.length_append, List.length_singleton]
        have hmirrors' := mirrors_full hmirrors hg hnot hfull' hmore hresp hmerge
        have hpending := hmirrors.pending
        rw [Request.answer_groups]
        rcases hcases with ⟨hnext, rfl⟩ | ⟨hlast, hsend⟩
        · have hless : (req.answer r.grpIndex.toNat r).done.length < req.groups := by omega
          rw [if_neg hless.ne]
          refine inv_continue h r.grpIndex hp rfl hinfo hmirrors' hconsistent' hless hawaits' ?_ ?_
            hregistered
          · rw [hmid.infos, ← hsame.infos]
          · rw [hmid.replies, ← hsame.replies]
        · have hall : (req.answer r.grpIndex.toNat r).done.length = req.groups := by omega
          obtain ⟨_, rfl⟩ := sendResp_ok hsend
          obtain ⟨resp', hresp', hmerged⟩ := hmirrors'.resp
          obtain rfl := Payload.commResp.inj hresp'
          have hanswered := answered_of_merged hmerged hconsistent' hall
          rw [if_pos hall]
          refine inv_close h r.grpIndex hp rfl hanswered ?_ ?_ ?_ hregistered
          · intro g hg'
            have hrange := hawaits'.inRange g (by rwa [Request.answer_info, hinfo])
            have hcomplete := hanswered.complete g.toNat hrange
            have hout := hawaits'.outstanding g.toNat hrange
            rw [UInt64.ofNat_toNat, Request.answer_info, hinfo] at hout
            have hpos := List.count_pos_iff.mpr hg'
            omega
          · rw [hmid.infos, ← hsame.infos]
          · rw [hmid.replies, ← hsame.replies, hmirrors.src]
            rfl

theorem inv_single (h : net.Inv) {tag : Tag} {info : CommReqInfo V} {resp : Payload V}
    (reply : Payload V)
    (htag : ∀ q g, tag ≠ .comm q g)
    (hinfo : net.rtr.infos p = some info) (hresp : info.resp = resp)
    (hkind : ∀ r, resp ≠ .commResp r) (hreply : ∀ r, reply ≠ .commResp r)
    (hinfos : rtr'.infos = update net.rtr.infos p none)
    (hreplies : rtr'.replies = net.rtr.replies ++ [(info.src, reply)])
    (hregistered : rtr'.ClientsRegistered) :
    ({ net.endSingle p tag with rtr := rtr' } : Net V).Inv := by
  refine inv_unrelated h ?_ ?_ ?_ ?_ hregistered
  · intro q g
    exact List.count_erase_of_ne (fun heq => htag q g heq.symm)
  · intro q req hq
    have hne : q ≠ p := by
      intro heq
      subst heq
      obtain ⟨_, other, hother, hmirrors⟩ := h.mirrored q req hq
      obtain ⟨r, hr, _⟩ := hmirrors.resp
      rw [hinfo, Option.some.injEq] at hother
      subst hother
      exact hkind r (hresp ▸ hr)
    rw [hinfos, update_of_ne hne]
  · intro q other r hq hother
    rw [hinfos] at hother
    by_cases hqp : q = p
    · simp [hqp] at hother
    · rw [update_of_ne hqp] at hother
      exact (h.other q hq).2 other r hother
  · rw [hreplies, commReplies_append_other _ _ hreply]

theorem inv_other_request (h : net.Inv) {s : Single} {info : CommReqInfo V}
    (htag : ∀ q g, s.tag ≠ .comm q g) (hfresh : net.rtr.infos p = none)
    (hkind : ∀ r, info.resp ≠ .commResp r)
    (hinfos : rtr'.infos = update net.rtr.infos p (some info))
    (hreplies : rtr'.replies = net.rtr.replies) (hregistered : rtr'.ClientsRegistered) :
    ({ net.addSingle p s with rtr := rtr' } : Net V).Inv := by
  refine inv_unrelated h ?_ ?_ ?_ (by rw [hreplies]) hregistered
  · intro q g
    simp [addSingle, List.count_append, htag q g]
  · intro q req hq
    have hne : q ≠ p := by
      intro heq
      subst heq
      obtain ⟨_, other, hother, _⟩ := h.mirrored q req hq
      rw [hfresh] at hother
      cases hother
    rw [hinfos, update_of_ne hne]
  · intro q other r hq hother
    rw [hinfos] at hother
    rcases Table.update_some hother with ⟨rfl, rfl⟩ | ⟨_, hother⟩
    · exact hkind r
    · exact (h.other q hq).2 other r hother

variable {l : Label V} {net' : Net V}

theorem inv_response (h : net.Inv) {ev : Payload V} (hev : net.rtr.responseOf l = some ev)
    (hadm : net.Admissible l) (hdispatch : net.rtr.dispatch l = .ok rtr')
    (hregistered : rtr'.ClientsRegistered) :
    ({ net.afterResponse ev with rtr := rtr' } : Net V).Inv := by
  obtain ⟨hisResp, rtr₀, f, hsame, hf, hmap⟩ := dispatch_response hev
  obtain ⟨tag, hmem, htag⟩ := hadm.solicited ev hev
  rw [hmap, map_eq_ok] at hdispatch
  obtain ⟨mid, hserver, rfl⟩ := hdispatch
  cases ev with
  | commResp r =>
      obtain rfl := Option.some.inj htag
      exact inv_commResp h hmem hsame hserver (hf mid) hregistered
  | commLogResp r =>
      obtain ⟨info, resp, hinfo, hresp, hsend⟩ := processCommLogResp_ok hserver
      obtain ⟨_, rfl⟩ := sendResp_ok hsend
      refine inv_single h (p := r.id) (.commLogResp { r with toCommEvent := resp.toCommEvent })
        (by simp) (hsame.infos ▸ hinfo) hresp (by simp) (by simp) ?_ ?_ hregistered
      · rw [(hf _).infos, ← hsame.infos]
      · rw [(hf _).replies, ← hsame.replies]
  | commGetSamplesResp r =>
      obtain ⟨info, resp, hinfo, hresp, hsend⟩ := processCommGetSamplesResp_ok hserver
      obtain ⟨_, rfl⟩ := sendResp_ok hsend
      refine inv_single h (p := r.id)
        (.commGetSamplesResp { r with toCommEvent := resp.toCommEvent })
        (by simp) (hsame.infos ▸ hinfo) hresp (by simp) (by simp) ?_ ?_ hregistered
      · rw [(hf _).infos, ← hsame.infos]
      · rw [(hf _).replies, ← hsame.replies]
  | _ => cases hisResp

theorem inv_request (h : net.Inv) {ec : ClientChan} {ev : Payload V}
    (hreq : requestOf l = some (ec, ev, p)) (hadm : net.Admissible l)
    (hstep : net.rtr.Step l rtr') (hregistered : rtr'.ClientsRegistered) :
    ({ net.afterRequest ec ev p with rtr := rtr' } : Net V).Inv := by
  obtain ⟨hfresh, hdispatch⟩ := hstep
  cases l with
  | clientEvent ec' ev' p' =>
      cases ev' with
      | commReq req =>
          cases hreq
          obtain ⟨client, commList, hclient, hcomm, hmail⟩ := processCommReq_ok hdispatch
          have hlist := commListOf_eq hclient hcomm
          have hshape := hadm.shaped ec req p commList rfl hlist
          simp only [afterRequest, hlist]
          exact inv_commReq h hfresh hshape hmail.infos hmail.replies hregistered
      | commLogReq req =>
          cases hreq
          obtain ⟨new, _, _, _, hresp, _, hmail⟩ := processSingle_ok hdispatch
          exact inv_other_request h (by simp) hfresh (by simp [hresp]) hmail.infos hmail.replies
            hregistered
      | commGetSamplesReq req =>
          cases hreq
          obtain ⟨new, _, _, _, hresp, _, hmail⟩ := processSingle_ok hdispatch
          exact inv_other_request h (by simp) hfresh (by simp [hresp]) hmail.infos hmail.replies
            hregistered
      | commCreate req => cases hreq
      | _ => cases hdispatch
  | _ => cases hreq

theorem inv_step (h : net.Inv) (hstep : net.Step l net') : net'.Inv := by
  obtain ⟨hrtr, hadm, hnet⟩ := hstep
  have hidle : net.rtr.ClosesIdle l := by
    cases l with
    | clientClosed ec => exact (hadm.stays ec rfl).elim
    | _ => trivial
  have hregistered := (registered_step h.registered hrtr).mpr hidle
  rw [hnet, after]
  cases hresp : net.rtr.responseOf l with
  | some ev => exact inv_response h hresp hadm hrtr.2 hregistered
  | none =>
      cases hreq : requestOf l with
      | some req => exact inv_request h hreq hadm hrtr hregistered
      | none =>
          obtain ⟨hinfos, hreplies⟩ := dispatch_other hreq hresp hrtr.2
          refine inv_unrelated h (fun _ _ => rfl) (fun _ _ _ => by rw [hinfos]) ?_
            (by rw [hreplies]) hregistered
          intro q info resp hq hinfo
          rw [hinfos] at hinfo
          exact (h.other q hq).2 info resp hinfo

theorem inv_start (rtrId : RouterID) (routeTable : ObjID → Option AppID)
    (getChannel : RouterID → Option RtrChan) :
    (start rtrId routeTable getChannel : Net V).Inv := by
  refine ⟨by simp [start], by simp [start], ?_, by simp [start], by simp [start],
    by simp [start, liveKeys], ?_, ?_⟩
  · intro p _
    refine ⟨by simp [start], ?_⟩
    intro info resp hinfo
    cases hinfo
  · exact .nil
  · intro p info hinfo
    cases hinfo

theorem inv_run {rtrId : RouterID} {routeTable : ObjID → Option AppID}
    {getChannel : RouterID → Option RtrChan} {ls : List (Label V)} {net : Net V}
    (hrun : Run Step (start rtrId routeTable getChannel) ls net) : net.Inv :=
  hrun.invariant Inv (fun _ _ _ => inv_step) (inv_start rtrId routeTable getChannel)

end Steps

end Net

end PwrApi.Router
