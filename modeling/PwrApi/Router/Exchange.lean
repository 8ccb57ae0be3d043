import PwrApi.Router.Lifetime
import Mathlib.Data.List.Perm.Subperm

/-! The exchange a router conducts for its clients, in its own terms: each request goes
out to the sources of its groups, collects their answers and is then closed. -/

namespace PwrApi.Router

open Function Runs

variable {V : Type}

/-- What a forwarded request and its answer have in common. -/
inductive Tag
  | comm (info : EventId) (grpIndex : UInt64)
  | log (info : EventId)
  | samples (info : EventId)
  deriving DecidableEq

def tagOf : Payload V → Option Tag
  | .commReq e => some (.comm e.id e.grpIndex)
  | .commResp e => some (.comm e.id e.grpIndex)
  | .commLogReq e => some (.log e.id)
  | .commLogResp e => some (.log e.id)
  | .commGetSamplesReq e => some (.samples e.id)
  | .commGetSamplesResp e => some (.samples e.id)
  | _ => none

/-- A `Get` or `Set` of a client: where it came from, the address it was given, the
answers of each group so far, and the groups in the order they were completed. -/
structure Request (V : Type) where
  src : ClientChan
  info : EventId
  ev : CommReqEvent V
  commList : List (List ObjID)
  answers : Nat → List (CommRespEvent V)
  done : List Nat

namespace Request

def groups (req : Request V) : Nat := req.commList.length

def size (req : Request V) (g : Nat) : Nat := (req.commList.getD g []).length

/-- The operations the router keeps, which it does for a `Get` only. -/
def ops (req : Request V) : List ValueOp := if req.ev.op = .get then req.ev.valueOp else []

def key (req : Request V) : ClientChan × EventId := (req.src, req.ev.id)

def answer (req : Request V) (g : Nat) (r : CommRespEvent V) : Request V :=
  { req with
    answers := update req.answers g (req.answers g ++ [r])
    done := if (req.answers g).length + 1 = req.size g then req.done ++ [g] else req.done }

/-- The groups counted as done are those with an answer of every source, and every
answer names this request and its group. -/
structure Consistent (req : Request V) : Prop where
  nodup : req.done.Nodup
  mem_done : ∀ g, g ∈ req.done ↔ g < req.groups ∧ (req.answers g).length = req.size g
  own : ∀ g, ∀ r ∈ req.answers g, r.id = req.info ∧ r.grpIndex.toNat = g

@[simp] theorem answer_groups (req : Request V) (g : Nat) (r : CommRespEvent V) :
    (req.answer g r).groups = req.groups := rfl

@[simp] theorem answer_size (req : Request V) (g : Nat) (r : CommRespEvent V) :
    (req.answer g r).size = req.size := rfl

@[simp] theorem answer_info (req : Request V) (g : Nat) (r : CommRespEvent V) :
    (req.answer g r).info = req.info := rfl

@[simp] theorem answer_ev (req : Request V) (g : Nat) (r : CommRespEvent V) :
    (req.answer g r).ev = req.ev := rfl

theorem answers_self (req : Request V) (g : Nat) (r : CommRespEvent V) :
    (req.answer g r).answers g = req.answers g ++ [r] := by
  simp [answer]

theorem answers_ne (req : Request V) {g g' : Nat} (r : CommRespEvent V) (h : g' ≠ g) :
    (req.answer g r).answers g' = req.answers g' := by
  simp [answer, update_of_ne h]

theorem answer_done (req : Request V) (g : Nat) (r : CommRespEvent V) :
    (req.answer g r).done =
      if (req.answers g).length + 1 = req.size g then req.done ++ [g] else req.done := rfl

theorem consistent_answer {req : Request V} (h : req.Consistent) {g : Nat}
    {r : CommRespEvent V} (hg : g < req.groups) (hfree : (req.answers g).length < req.size g)
    (hid : r.id = req.info) (hgrp : r.grpIndex.toNat = g) : (req.answer g r).Consistent := by
  have hnot : g ∉ req.done := fun hmem => by
    have := ((h.mem_done g).mp hmem).2
    omega
  refine ⟨?_, ?_, ?_⟩
  · rw [answer_done]
    split
    · refine List.nodup_append.mpr ⟨h.nodup, by simp, ?_⟩
      intro a ha b hb
      rw [List.mem_singleton] at hb
      exact fun heq => hnot (by rw [← hb, ← heq]; exact ha)
    · exact h.nodup
  · intro g'
    rw [answer_done, answer_groups, answer_size]
    by_cases hsame : g' = g
    · subst hsame
      rw [answers_self, List.length_append, List.length_singleton]
      by_cases hfull : (req.answers g').length + 1 = req.size g'
      · simp [hfull, hg]
      · simp [hfull, hnot]
    · rw [answers_ne req r hsame, ← h.mem_done g']
      split <;> simp [hsame]
  · intro g' r' hr'
    by_cases hsame : g' = g
    · subst hsame
      rw [answers_self, List.mem_append, List.mem_singleton] at hr'
      rcases hr' with hr' | rfl
      · exact h.own g' r' hr'
      · exact ⟨hid, hgrp⟩
    · rw [answers_ne req r hsame] at hr'
      exact h.own g' r' hr'

theorem done_perm {req : Request V} (h : req.Consistent) (hall : req.done.length = req.groups) :
    req.done.Perm (List.range req.groups) := by
  apply List.Subperm.perm_of_length_le
  · exact List.subperm_of_subset h.nodup fun g hg =>
      List.mem_range.mpr ((h.mem_done g).mp hg).1
  · simp [hall]

end Request

/-- A request of the kinds that address one object: its client, the id it came with and
the tag of its only forwarded request. -/
structure Single where
  src : ClientChan
  id : EventId
  tag : Tag

/-- A router with the requests forwarded and not yet answered, the `Get` and `Set`
requests its clients have made, and the state of each exchange. -/
structure Net (V : Type) where
  rtr : Router V
  inFlight : List Tag
  single : EventId → Option Single
  asked : List (ClientChan × EventId)
  current : EventId → Option (Request V)
  live : List EventId
  closed : List (Request V)

def commListOf (rtr : Router V) (ec : ClientChan) (commID : CommID) :
    Option (List (List ObjID)) := do
  let client ← rtr.clientMap ec
  let ev ← client.commMap.lookup commID
  some ev.members

def fanOutTags (ev : CommReqEvent V) (p : EventId) (commList : List (List ObjID)) : List Tag :=
  (fanOut { ev with id := p } commList).map fun sent => .comm sent.2.id sent.2.grpIndex

namespace Net

def start (rtrId : RouterID) (routeTable : ObjID → Option AppID)
    (getChannel : RouterID → Option RtrChan) : Net V where
  rtr := Router.start rtrId routeTable getChannel
  inFlight := []
  single := fun _ => none
  asked := []
  current := fun _ => none
  live := []
  closed := []

def addSingle (net : Net V) (p : EventId) (s : Single) : Net V :=
  { net with inFlight := net.inFlight ++ [s.tag], single := update net.single p (some s) }

def endSingle (net : Net V) (p : EventId) (tag : Tag) : Net V :=
  { net with inFlight := net.inFlight.erase tag, single := update net.single p none }

def afterRequest (net : Net V) (ec : ClientChan) (ev : Payload V) (p : EventId) : Net V :=
  match ev with
  | .commReq ev =>
      match commListOf net.rtr ec ev.commID with
      | none => net
      | some commList =>
          { net with
            inFlight := net.inFlight ++ fanOutTags ev p commList
            asked := net.asked ++ [(ec, ev.id)]
            current := update net.current p (some ⟨ec, p, ev, commList, fun _ => [], []⟩)
            live := net.live ++ [p] }
  | .commLogReq ev => net.addSingle p ⟨ec, ev.id, .log p⟩
  | .commGetSamplesReq ev => net.addSingle p ⟨ec, ev.id, .samples p⟩
  | _ => net

def afterResponse (net : Net V) (ev : Payload V) : Net V :=
  match ev with
  | .commResp r =>
      let inFlight := net.inFlight.erase (.comm r.id r.grpIndex)
      match net.current r.id with
      | none => { net with inFlight }
      | some req =>
          let req := req.answer r.grpIndex.toNat r
          if req.done.length = req.groups then
            { net with
              inFlight
              current := update net.current r.id none
              live := net.live.erase r.id
              closed := net.closed ++ [req] }
          else { net with inFlight, current := update net.current r.id (some req) }
  | .commLogResp r => net.endSingle r.id (.log r.id)
  | .commGetSamplesResp r => net.endSingle r.id (.samples r.id)
  | _ => net

def after (net : Net V) (l : Label V) (rtr' : Router V) : Net V :=
  let next := match net.rtr.responseOf l, requestOf l with
    | some ev, _ => net.afterResponse ev
    | none, some (ec, ev, p) => net.afterRequest ec ev p
    | none, none => net
  { next with rtr := rtr' }

/-- Clients stay connected and ask on communicators with sources in every group, of a
size that fits the counters, and every response answers a forwarded request. -/
structure Admissible (net : Net V) (l : Label V) : Prop where
  stays : ∀ ec, l ≠ .clientClosed ec
  shaped : ∀ ec ev p commList, requestOf l = some (ec, .commReq ev, p) →
    commListOf net.rtr ec ev.commID = some commList →
    commList ≠ [] ∧ (∀ group ∈ commList, group ≠ []) ∧ Wire.Fits commList
  solicited : ∀ ev, net.rtr.responseOf l = some ev → ∃ tag ∈ net.inFlight, tagOf ev = some tag

def Step [Zero V] [Add V] (net : Net V) (l : Label V) (net' : Net V) : Prop :=
  net.rtr.Step l net'.rtr ∧ net.Admissible l ∧ net' = net.after l net'.rtr

theorem admissible_other {net : Net V} {l : Label V} (hstays : ∀ ec, l ≠ .clientClosed ec)
    (hreq : ∀ ec ev p, requestOf l ≠ some (ec, .commReq ev, p))
    (hresp : net.rtr.responseOf l = none) : net.Admissible l := by
  refine ⟨hstays, ?_, ?_⟩
  · intro ec ev p commList h
    exact (hreq ec ev p h).elim
  · intro ev hev
    rw [hresp] at hev
    cases hev

theorem admissible_commReq {net : Net V} {ec : ClientChan} {ev : CommReqEvent V} {p : EventId}
    {commList : List (List ObjID)} (hlist : commListOf net.rtr ec ev.commID = some commList)
    (hne : commList ≠ []) (hgroups : ∀ group ∈ commList, group ≠ [])
    (hfits : Wire.Fits commList) : net.Admissible (.clientEvent ec (.commReq ev) p) := by
  refine ⟨by simp, ?_, by simp [responseOf]⟩
  intro ec' ev' p' commList' h hlist'
  cases h
  rw [hlist, Option.some.injEq] at hlist'
  exact hlist' ▸ ⟨hne, hgroups, hfits⟩

theorem admissible_response {net : Net V} {ec : ServerChan} {ev : Payload V} {tag : Tag}
    (htag : tagOf ev = some tag) (hmem : tag ∈ net.inFlight) :
    net.Admissible (.serverEvent ec ev) := by
  refine ⟨by simp, by simp [requestOf], ?_⟩
  intro ev' hev
  simp only [responseOf, Option.ite_none_right_eq_some, Option.some.injEq] at hev
  obtain ⟨_, rfl⟩ := hev
  exact ⟨tag, hmem, htag⟩

theorem step_of [Zero V] [Add V] {net : Net V} {l : Label V} {rtr' : Router V}
    (hfresh : net.rtr.Fresh l) (hdispatch : net.rtr.dispatch l = .ok rtr')
    (hadm : net.Admissible l) : net.Step l (net.after l rtr') :=
  ⟨⟨hfresh, hdispatch⟩, hadm, rfl⟩

end Net

end PwrApi.Router
