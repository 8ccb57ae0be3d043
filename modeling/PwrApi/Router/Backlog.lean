import Mathlib.Algebra.Order.Group.Multiset
import Mathlib.Tactic.Abel
import PwrApi.Lib.Stages
import PwrApi.Router.Delivery
import PwrApi.Router.Transport
import PwrApi.Server.CommMap

/-! What becomes of the requests for the servers of a router: each is written to a server once,
or still waits for it, or is lost in a queue that can never be written. -/

namespace PwrApi.Router

open Function Runs PwrApi.Server

variable {V : Type}

def Chan.toServer : Chan → Option ServerChan
  | .router _ => none
  | .server ec => some ec

def toServers (rtr : Router V) : List (ServerChan × RouterEvent V) :=
  rtr.mail.written.filterMap fun (ch, re) => ch.toServer.map fun ec => (ec, re)

def isRequest (re : RouterEvent V) : Bool := (requests re.payload).isSome

def writtenFor (rtr : Router V) (s : ServerID) : List (RouterEvent V) :=
  (rtr.toServers.map Prod.snd).filter fun re => serverIdOf re.dest = s

def backlog (rtr : Router V) (s : ServerID) : List (RouterEvent V) :=
  (rtr.mail.pendingEvents s).filterMap rtr.mail.events

def AllLive (rtr : Router V) (s : ServerID) : Prop :=
  ∀ ptr ∈ rtr.mail.pendingEvents s, rtr.mail.events ptr ≠ none

/-- The requests for `s` were written, or wait in the queue of `s`, or were deleted there. -/
structure Accounts (rtr : Router V) (s : ServerID) : Prop where
  old : ∀ ptr ∈ rtr.mail.pendingEvents s, ptr < rtr.mail.nextEvent
  queued : ∀ re ∈ rtr.backlog s, re.dest = appId rtr.rtrId s
  kept : ∃ lost : List (RouterEvent V),
    ((rtr.writtenFor s ++ rtr.backlog s ++ lost).filter isRequest).Perm
      ((rtr.callsFor s).filter isRequest) ∧ (rtr.AllLive s → lost = [])

/-- The mail with a new event in the queue of its server, or with what is left of it there. -/
def queued (rtr : Router V) (re : RouterEvent V) (left : Option (RouterEvent V)) : Mail V where
  pendingEvents := update rtr.mail.pendingEvents (serverIdOf re.dest)
    (rtr.mail.pendingEvents (serverIdOf re.dest) ++ [rtr.mail.nextEvent])
  events := update rtr.mail.events rtr.mail.nextEvent left
  nextEvent := rtr.mail.nextEvent + 1
  written := rtr.mail.written
  calls := rtr.mail.calls ++ [(re.dest, re)]

section Accounts

variable {rtr rtr' : Router V} {s : ServerID}

theorem writtenTo_eq (rtr : Router V) (ec : ServerChan) :
    rtr.writtenTo ec = (rtr.toServers.filter fun e => e.1 = ec).map Prod.snd := by
  rw [writtenTo, eventsFor, toServers]
  induction rtr.mail.written with
  | nil => rfl
  | cons e written ih =>
      obtain ⟨ch, re⟩ := e
      cases ch with
      | router c => simpa [Chan.toServer] using ih
      | server c =>
          by_cases hc : c = ec
          · simpa [Chan.toServer, hc] using ih
          · simpa [Chan.toServer, hc] using ih

theorem accounts_start (rtrId : RouterID) (routeTable : ObjID → Option AppID)
    (getChannel : RouterID → Option RtrChan) (s : ServerID) :
    (start rtrId routeTable getChannel : Router V).Accounts s :=
  ⟨fun _ h => absurd h List.not_mem_nil, fun _ h => absurd h List.not_mem_nil,
    [], .refl _, fun _ => rfl⟩

theorem Accounts.grow (h : rtr.Accounts s) {w b l c : List (RouterEvent V)}
    (hid : rtr'.rtrId = rtr.rtrId)
    (hold : ∀ ptr ∈ rtr'.mail.pendingEvents s, ptr < rtr'.mail.nextEvent)
    (hwritten : rtr'.writtenFor s = rtr.writtenFor s ++ w)
    (hbacklog : rtr'.backlog s = rtr.backlog s ++ b)
    (hcalls : rtr'.callsFor s = rtr.callsFor s ++ c)
    (hdest : ∀ re ∈ b, re.dest = appId rtr.rtrId s)
    (hnew : ((w ++ b ++ l).filter isRequest).Perm (c.filter isRequest))
    (hlive : rtr'.AllLive s → rtr.AllLive s ∧ l = []) : rtr'.Accounts s := by
  obtain ⟨lost, hperm, hlost⟩ := h.kept
  refine ⟨hold, fun re hre => ?_, lost ++ l, ?_, fun hall => ?_⟩
  · rw [hbacklog] at hre
    rw [hid]
    rcases List.mem_append.mp hre with hre | hre
    · exact h.queued re hre
    · exact hdest re hre
  · rw [hwritten, hbacklog, hcalls]
    have hsorted : ((rtr.writtenFor s ++ w) ++ (rtr.backlog s ++ b) ++ (lost ++ l)).Perm
        ((rtr.writtenFor s ++ rtr.backlog s ++ lost) ++ (w ++ b ++ l)) := by
      rw [← Multiset.coe_eq_coe]
      simp only [← Multiset.coe_add]
      abel
    refine (hsorted.filter isRequest).trans ?_
    rw [List.filter_append, List.filter_append (rtr.callsFor s)]
    exact hperm.append hnew
  · obtain ⟨hbefore, rfl⟩ := hlive hall
    rw [hlost hbefore, List.append_nil]

theorem Accounts.same (h : rtr.Accounts s) (hid : rtr'.rtrId = rtr.rtrId)
    (hpending : rtr'.mail.pendingEvents s = rtr.mail.pendingEvents s)
    (hnext : rtr.mail.nextEvent ≤ rtr'.mail.nextEvent)
    (hevents : ∀ ptr < rtr.mail.nextEvent, rtr'.mail.events ptr = rtr.mail.events ptr)
    (hwritten : rtr'.writtenFor s = rtr.writtenFor s)
    {c : List (RouterEvent V)} (hcalls : rtr'.callsFor s = rtr.callsFor s ++ c)
    (hc : ∀ re ∈ c, ¬ isRequest re) : rtr'.Accounts s := by
  have hqueue : ∀ ptr ∈ rtr.mail.pendingEvents s, rtr'.mail.events ptr = rtr.mail.events ptr :=
    fun ptr hptr => hevents ptr (h.old ptr hptr)
  refine h.grow (w := []) (b := []) (l := []) hid ?_ ?_ ?_ hcalls ?_ ?_ ?_
  · intro ptr hptr
    rw [hpending] at hptr
    exact (h.old ptr hptr).trans_le hnext
  · rw [hwritten, List.append_nil]
  · rw [backlog, backlog, hpending, List.append_nil]
    exact List.filterMap_congr hqueue
  · exact fun _ hre => absurd hre List.not_mem_nil
  · rw [List.filter_eq_nil_iff.mpr hc]
    rfl
  · intro hall
    refine ⟨fun ptr hptr => ?_, rfl⟩
    rw [← hqueue ptr hptr]
    exact hall ptr (hpending ▸ hptr)

theorem Accounts.congr (h : rtr.Accounts s) (hid : rtr'.rtrId = rtr.rtrId)
    (hmail : rtr'.mail = rtr.mail) : rtr'.Accounts s := by
  have hcalls : rtr'.callsFor s = rtr.callsFor s ++ [] := by
    rw [List.append_nil, callsFor, callsFor, hmail, hid]
  refine h.same hid (by rw [hmail]) (by rw [hmail]) (fun _ _ => by rw [hmail]) ?_ hcalls ?_
  · rw [writtenFor, writtenFor, toServers, toServers, hmail]
  · exact fun _ hre => absurd hre List.not_mem_nil

theorem writtenFor_sentOn {re : RouterEvent V} {ch : Chan} :
    (rtr.sentOn re.dest re ch).writtenFor s = rtr.writtenFor s ++
      if ch.toServer ≠ none ∧ serverIdOf re.dest = s then [re] else [] := by
  have hwritten : (rtr.sentOn re.dest re ch).toServers = rtr.toServers ++
      (ch.toServer.map fun ec => (ec, re)).toList := by
    rw [toServers, toServers, sentOn, List.filterMap_append]
    cases ch <;> rfl
  rw [writtenFor, writtenFor, hwritten, List.map_append, List.filter_append]
  congr 1
  cases ch with
  | router c => simp [Chan.toServer]
  | server c => by_cases hs : serverIdOf re.dest = s <;> simp [Chan.toServer, hs]

theorem callsFor_append (re : RouterEvent V) (hid : rtr'.rtrId = rtr.rtrId)
    (hcalls : rtr'.mail.calls = rtr.mail.calls ++ [(re.dest, re)]) :
    rtr'.callsFor s = rtr.callsFor s ++ if re.dest = appId rtr.rtrId s then [re] else [] := by
  rw [callsFor, callsFor, hid, hcalls]
  by_cases hs : re.dest = appId rtr.rtrId s
  · rw [if_pos hs, hs, eventsFor_append_self]
  · rw [if_neg hs, eventsFor_append_ne _ _ hs, List.append_nil]

theorem accounts_sentOn (h : rtr.Accounts s) {re : RouterEvent V} {ch : Chan}
    (hdest : rtr.destChan re.dest = .ok (some ch)) : (rtr.sentOn re.dest re ch).Accounts s := by
  have hcalls : (rtr.sentOn re.dest re ch).callsFor s = rtr.callsFor s ++ _ :=
    callsFor_append re rfl rfl
  have hevents : ∀ ptr < rtr.mail.nextEvent,
      (rtr.sentOn re.dest re ch).mail.events ptr = rtr.mail.events ptr :=
    fun ptr hptr => update_of_ne (Nat.ne_of_lt hptr) _ _
  have hqueue : ∀ ptr ∈ rtr.mail.pendingEvents s, _ = rtr.mail.events ptr :=
    fun ptr hptr => hevents ptr (h.old ptr hptr)
  refine h.grow (l := []) (b := []) rfl (fun ptr hptr => ?_) writtenFor_sentOn ?_ hcalls ?_ ?_ ?_
  · exact (h.old ptr hptr).trans (Nat.lt_succ_self _)
  · rw [List.append_nil]
    exact List.filterMap_congr hqueue
  · exact fun _ hre => absurd hre List.not_mem_nil
  · have hsame : (ch.toServer ≠ none ∧ serverIdOf re.dest = s) ↔
        re.dest = appId rtr.rtrId s := by
      rcases destChan_some hdest with ⟨s', ec, _, _, hre, rfl⟩ | ⟨hother, hch⟩
      · rw [hre, serverIdOf_appId]
        refine ⟨fun h => by rw [h.2], fun h => ⟨Option.some_ne_none _, ?_⟩⟩
        simpa using congrArg serverIdOf h
      · refine iff_of_false (fun h => h.1 ?_) (hother s)
        cases ch with
        | router c => rfl
        | server c => exact absurd rfl (hch c)
    simp only [hsame, List.append_nil]
    exact .refl _
  · intro hall
    exact ⟨fun ptr hptr => by rw [← hqueue ptr hptr]; exact hall ptr hptr, rfl⟩

theorem accounts_queued (h : rtr.Accounts s) {re : RouterEvent V}
    {left : Option (RouterEvent V)} (hleft : left = some re ∨ left = none)
    (hdest : rtr.destChan re.dest = .ok none) (hmail : rtr'.mail = rtr.queued re left)
    (hid : rtr'.rtrId = rtr.rtrId) : rtr'.Accounts s := by
  have hlocal := (destChan_none hdest).1
  have hevents : ∀ ptr < rtr.mail.nextEvent, rtr'.mail.events ptr = rtr.mail.events ptr := by
    intro ptr hptr
    rw [hmail]
    exact update_of_ne (Nat.ne_of_lt hptr) _ _
  have hwritten : rtr'.writtenFor s = rtr.writtenFor s := by
    rw [writtenFor, writtenFor, toServers, toServers, hmail]
    rfl
  have hcalls : rtr'.callsFor s = rtr.callsFor s ++ _ :=
    callsFor_append re hid (by rw [hmail]; rfl)
  by_cases hs : s = serverIdOf re.dest
  · have hqueue : rtr'.mail.pendingEvents s =
        rtr.mail.pendingEvents s ++ [rtr.mail.nextEvent] := by
      rw [hmail, hs]
      exact update_self _ _ _
    have hnew : rtr'.mail.events rtr.mail.nextEvent = left := by
      rw [hmail]
      exact update_self _ _ _
    have hre : re.dest = appId rtr.rtrId s := hs ▸ hlocal
    rw [if_pos hre] at hcalls
    refine h.grow (w := []) (b := left.toList) (l := if left = none then [re] else []) hid ?_ ?_ ?_
      hcalls ?_ ?_ ?_
    · intro ptr hptr
      rw [hqueue] at hptr
      rw [hmail]
      rcases List.mem_append.mp hptr with hptr | hptr
      · exact (h.old ptr hptr).trans (Nat.lt_succ_self _)
      · rw [List.mem_singleton.mp hptr]
        exact Nat.lt_succ_self _
    · rw [hwritten, List.append_nil]
    · rw [backlog, backlog, hqueue, List.filterMap_append]
      congr 1
      · exact List.filterMap_congr fun ptr hptr => hevents ptr (h.old ptr hptr)
      · rw [List.filterMap_cons, hnew]
        cases left <;> rfl
    · rcases hleft with rfl | rfl
      · simpa using hre
      · simp
    · rcases hleft with rfl | rfl <;> simp
    · intro hall
      have hlast : left ≠ none := by
        rw [← hnew]
        exact hall _ (hqueue ▸ List.mem_append_right _ (List.mem_singleton_self _))
      refine ⟨fun ptr hptr => ?_, if_neg hlast⟩
      rw [← hevents ptr (h.old ptr hptr)]
      exact hall ptr (hqueue ▸ List.mem_append_left _ hptr)
  · have hre : re.dest ≠ appId rtr.rtrId s := by
      intro heq
      apply hs
      rw [heq, serverIdOf_appId]
    rw [if_neg hre] at hcalls
    refine h.same hid ?_ ?_ hevents hwritten hcalls ?_
    · rw [hmail]
      exact update_of_ne hs _ _
    · rw [hmail]
      exact Nat.le_succ _
    · exact fun _ hre => absurd hre List.not_mem_nil

theorem backlog_of_live {id : ServerID} {res : List (RouterEvent V)}
    (hres : (rtr.mail.pendingEvents id).map rtr.mail.events = res.map some) :
    rtr.backlog id = res ∧ rtr.AllLive id := by
  constructor
  · have hmap : rtr.backlog id =
        ((rtr.mail.pendingEvents id).map rtr.mail.events).filterMap fun x => x := by
      rw [List.filterMap_map]
      rfl
    rw [hmap, hres, List.filterMap_map]
    exact List.filterMap_some
  · intro ptr hptr
    have hmem : rtr.mail.events ptr ∈ res.map some := hres ▸ List.mem_map_of_mem hptr
    obtain ⟨re, _, hre⟩ := List.mem_map.mp hmem
    rw [← hre]
    exact Option.some_ne_none re

theorem doPending_cases {id : ServerID} (h : rtr.doPending id = .ok rtr') :
    rtr' = rtr ∨ ∃ ec, ∃ res : List (RouterEvent V),
      (rtr.mail.pendingEvents id).map rtr.mail.events = res.map some ∧
        rtr' = { rtr with mail := { rtr.mail with
          pendingEvents := update rtr.mail.pendingEvents id []
          written := rtr.mail.written ++ res.map fun re => (.server ec, re) } } := by
  obtain ⟨res, hres, hrtr⟩ := doPending_ok h
  unfold doPending at h
  split at h
  next => exact .inl (Except.ok.inj h).symm
  next =>
    obtain ⟨ec, hec, _⟩ := bind_eq_ok.mp h
    exact .inr ⟨ec, res, hres, hrtr ec (orFault_eq_ok.mp hec)⟩

theorem accounts_pending (h : ∀ s, rtr.Accounts s) {id : ServerID}
    (hp : rtr.doPending id = .ok rtr') (s : ServerID) : rtr'.Accounts s := by
  rcases doPending_cases hp with rfl | ⟨ec, res, hres, hrtr⟩
  · exact h s
  · obtain ⟨hbacklog, hlive⟩ := backlog_of_live hres
    have hdest : ∀ re ∈ res, serverIdOf re.dest = id := by
      intro re hre
      rw [(h id).queued re (hbacklog ▸ hre), serverIdOf_appId]
    have hid : rtr'.rtrId = rtr.rtrId := by rw [hrtr]
    have hwritten : rtr'.writtenFor s = rtr.writtenFor s ++
        res.filter fun re => serverIdOf re.dest = s := by
      rw [hrtr, writtenFor, writtenFor, toServers, toServers, List.filterMap_append,
        List.map_append, List.filter_append]
      congr 2
      simp [List.filterMap_map, Function.comp_def, Chan.toServer]
    have hcalls : rtr'.callsFor s = rtr.callsFor s := by rw [hrtr, callsFor, callsFor]
    by_cases hs : s = id
    · subst hs
      have hpending : rtr'.mail.pendingEvents s = [] := by
        rw [hrtr]
        exact update_self _ _ _
      obtain ⟨lost, hperm, hlost⟩ := (h s).kept
      refine ⟨fun ptr hptr => ?_, fun re hre => ?_, [], ?_, fun _ => rfl⟩
      · rw [hpending] at hptr
        exact absurd hptr List.not_mem_nil
      · rw [backlog, hpending] at hre
        exact absurd hre List.not_mem_nil
      · have hall : (res.filter fun re => serverIdOf re.dest = s) = res :=
          List.filter_eq_self.mpr fun re hre => decide_eq_true (hdest re hre)
        rw [hlost hlive, hbacklog] at hperm
        rw [hcalls, hwritten, hall, backlog, hpending, List.filterMap_nil, List.append_nil]
        exact hperm
    · have hnone : (res.filter fun re => serverIdOf re.dest = s) = [] := by
        refine List.filter_eq_nil_iff.mpr fun re hre heq => ?_
        exact hs ((of_decide_eq_true heq).symm.trans (hdest re hre))
      rw [hnone, List.append_nil] at hwritten
      have hcalls : rtr'.callsFor s = rtr.callsFor s ++ [] := by rw [hcalls, List.append_nil]
      refine (h s).same hid ?_ ?_ ?_ hwritten hcalls ?_
      · rw [hrtr]
        exact update_of_ne hs _ _
      · rw [hrtr]
      · exact fun _ _ => by rw [hrtr]
      · exact fun _ hre => absurd hre List.not_mem_nil

theorem accounts_sendEventTo (rtr : Router V) (obj : ObjID) (ev : Payload V) (rtr' : Router V)
    (h : ∀ s, rtr.Accounts s) (hsend : rtr.sendEventTo obj ev = .ok rtr') (s : ServerID) :
    rtr'.Accounts s := by
  rcases sendEventTo_cases hsend with ⟨_, rfl⟩ | ⟨_, hsend⟩
  · exact h s
  · let re : RouterEvent V := ⟨appId rtr.rtrId noServer, rtr.findRoute obj, ev⟩
    rcases sendEvent_ok hsend with ⟨hdest, rfl⟩ | ⟨ch, hdest, rfl⟩
    · have hdest : rtr.destChan re.dest = .ok none := hdest
      exact accounts_queued (h s) (.inl rfl) hdest rfl rfl
    · have hdest : rtr.destChan re.dest = .ok (some ch) := hdest
      exact accounts_sentOn (h s) hdest

theorem requests_written (h : ∀ s, rtr.Accounts s) (hcalls : ∀ e ∈ rtr.mail.calls, e.1 = e.2.dest)
    {idle : Prop} (hidle : idle → ∀ s, rtr.mail.pendingEvents s = []) :
    Passes idle
      ((rtr.mail.calls.map Prod.snd).filter fun re => rtrIdOf re.dest = rtr.rtrId ∧ isRequest re)
      ((rtr.toServers.map Prod.snd).filter isRequest) := by
  refine .of_keys (fun re => serverIdOf re.dest) fun s => ?_
  have hinto : (((rtr.mail.calls.map Prod.snd).filter fun re =>
      rtrIdOf re.dest = rtr.rtrId ∧ isRequest re).filter fun re => serverIdOf re.dest = s) =
      (rtr.callsFor s).filter isRequest := by
    rw [callsFor, eventsFor, List.filter_filter, List.filter_map, List.filter_map,
      List.filter_filter]
    congr 1
    refine List.filter_congr fun e he => ?_
    have hdest : e.1 = appId rtr.rtrId s ↔
        rtrIdOf e.2.dest = rtr.rtrId ∧ serverIdOf e.2.dest = s := by
      rw [hcalls e he]
      constructor
      · intro heq
        rw [heq, rtrIdOf_appId, serverIdOf_appId]
        exact ⟨rfl, rfl⟩
      · rintro ⟨hrtr, hserver⟩
        rw [← appId_eta e.2.dest, hrtr, hserver]
    simp only [Function.comp_apply, hdest, Bool.decide_and, Bool.decide_eq_true]
    cases isRequest e.2 <;> simp [Bool.and_comm]
  have hout : (((rtr.toServers.map Prod.snd).filter isRequest).filter fun re =>
      serverIdOf re.dest = s) = (rtr.writtenFor s).filter isRequest := by
    rw [writtenFor, List.filter_filter, List.filter_filter]
    exact List.filter_congr fun re _ => Bool.and_comm _ _
  obtain ⟨lost, hperm, hlost⟩ := (h s).kept
  have hrest : ((rtr.callsFor s).filter isRequest).Perm
      ((rtr.writtenFor s).filter isRequest ++ (rtr.backlog s ++ lost).filter isRequest) := by
    rw [← List.filter_append, ← List.append_assoc]
    exact hperm.symm
  rw [hinto, hout]
  refine .of_rest hrest fun hi => ?_
  have hempty := hidle hi s
  have hlive : rtr.AllLive s := by
    intro ptr hptr
    rw [hempty] at hptr
    exact absurd hptr List.not_mem_nil
  rw [hlost hlive, backlog, hempty]
  rfl

variable [Zero V] [Add V]

theorem accounts_server (h : ∀ s, rtr.Accounts s) {ec : Option ServerChan} {ev : Payload V}
    (hp : rtr.processServer ec ev = .ok rtr') (s : ServerID) : rtr'.Accounts s := by
  rcases processServer_ok hp with hreply | ⟨connect, _, hconnect⟩
  · rw [show rtr' = _ from hreply]
    exact (h s).congr rfl rfl
  · obtain ⟨ch, mid, _, _, _, hmid, hpending⟩ := processServerConnect_ok hconnect
    have hbefore : ∀ s, mid.Accounts s := by
      rw [hmid]
      exact fun s => (h s).congr rfl rfl
    exact accounts_pending hbefore hpending s

theorem not_isRequest_of_processed {re : RouterEvent V} {ec : Option ServerChan}
    (h : rtr.processServer ec re.payload = .ok rtr') : ¬ isRequest re := by
  unfold isRequest
  cases hpayload : re.payload with
  | commReq ev =>
      rw [hpayload] at h
      cases h
  | commLogReq ev =>
      rw [hpayload] at h
      cases h
  | commGetSamplesReq ev =>
      rw [hpayload] at h
      cases h
  | _ => simp [requests]

theorem accounts_routerEvent (h : ∀ s, rtr.Accounts s) {re : RouterEvent V}
    (hp : rtr.processRouterEvent re = .ok rtr') (s : ServerID) : rtr'.Accounts s := by
  rcases processRouterEvent_ok hp with ⟨_, _, mid, hmid, rfl⟩ | ⟨_, hdest, rfl⟩ |
    ⟨_, ch, hdest, rfl⟩
  · have hrequest := not_isRequest_of_processed hmid
    rw [show mid = _ from processServer_none hmid]
    refine (h s).same rfl rfl (Nat.le_succ _) (fun ptr hptr => ?_) rfl
      (callsFor_append re rfl rfl) fun other hother => ?_
    · have hne := Nat.ne_of_lt hptr
      simp [deleteEvent, newEvent, recordCall, hne]
    · split at hother
      · rwa [List.mem_singleton.mp hother]
      · exact absurd hother List.not_mem_nil
  · refine accounts_queued (h s) (.inr rfl) hdest ?_ rfl
    simp [queued, deleteEvent, pushPending, newEvent, recordCall]
  · exact accounts_sentOn (h s) hdest

theorem accounts_dispatch (h : ∀ s, rtr.Accounts s) {l : Label V}
    (hd : rtr.dispatch l = .ok rtr') : ∀ s, rtr'.Accounts s := by
  have hsame : ∀ (rtr : Router V), (∀ s, rtr.Accounts s) → ∀ {rtr' : Router V},
      rtr'.mail = rtr.mail → rtr'.rtrId = rtr.rtrId → ∀ s, rtr'.Accounts s :=
    fun _ h _ hmail hid s => (h s).congr hid hmail
  cases l with
  | acceptClient ec => exact Except.ok.inj hd ▸ hsame rtr h rfl rfl
  | acceptServer ec => exact Except.ok.inj hd ▸ hsame rtr h rfl rfl
  | clientEvent ec ev info =>
      exact processClient_preserves (fun rtr => ∀ s, rtr.Accounts s) accounts_sendEventTo
        (fun s _ h => hsame s h rfl rfl) (fun s _ h => hsame s h rfl rfl) h hd
  | clientClosed ec =>
      exact delClientChan_preserves (fun rtr => ∀ s, rtr.Accounts s) accounts_sendEventTo
        (fun s _ h => hsame s h rfl rfl) h hd
  | serverEvent ec ev => exact accounts_server h hd
  | serverClosed ec =>
      obtain rfl := Except.ok.inj hd
      unfold delServerChan
      split
      · exact h
      · exact hsame rtr h rfl rfl
  | routerEvent re => exact accounts_routerEvent h hd

end Accounts

section Written

variable {rtr rtr' : Router V}

theorem written_pending {id : ServerID} (h : rtr.doPending id = .ok rtr') :
    rtr.mail.written <+: rtr'.mail.written := by
  rcases doPending_cases h with rfl | ⟨ec, res, _, rfl⟩
  · exact List.prefix_rfl
  · exact List.prefix_append _ _

theorem written_sendEventTo {start : Router V} (obj : ObjID) (ev : Payload V)
    (hs : start.mail.written <+: rtr.mail.written) (h : rtr.sendEventTo obj ev = .ok rtr') :
    start.mail.written <+: rtr'.mail.written := by
  rcases sendEventTo_cases h with ⟨_, rfl⟩ | ⟨_, h⟩
  · exact hs
  · rcases sendEvent_ok h with ⟨_, rfl⟩ | ⟨ch, _, rfl⟩
    · exact hs
    · exact hs.trans (List.prefix_append _ _)

variable [Zero V] [Add V]

theorem written_server {ec : Option ServerChan} {ev : Payload V}
    (h : rtr.processServer ec ev = .ok rtr') : rtr.mail.written <+: rtr'.mail.written := by
  rcases processServer_ok h with hreply | ⟨connect, _, hconnect⟩
  · rw [show rtr' = _ from hreply]
  · obtain ⟨ch, mid, _, _, _, rfl, hpending⟩ := processServerConnect_ok hconnect
    have hwritten := written_pending hpending
    exact hwritten

theorem written_dispatch {l : Label V} (h : rtr.dispatch l = .ok rtr') :
    rtr.mail.written <+: rtr'.mail.written := by
  cases l with
  | acceptClient ec => exact Except.ok.inj h ▸ List.prefix_rfl
  | acceptServer ec => exact Except.ok.inj h ▸ List.prefix_rfl
  | clientEvent ec ev info =>
      exact processClient_preserves (fun s => rtr.mail.written <+: s.mail.written)
        (fun _ obj ev _ => written_sendEventTo obj ev) (fun _ _ hs => hs) (fun _ _ hs => hs)
        List.prefix_rfl h
  | clientClosed ec =>
      exact delClientChan_preserves (fun s => rtr.mail.written <+: s.mail.written)
        (fun _ obj ev _ => written_sendEventTo obj ev) (fun _ _ hs => hs) List.prefix_rfl h
  | serverEvent ec ev => exact written_server h
  | serverClosed ec =>
      obtain rfl := Except.ok.inj h
      unfold delServerChan
      split <;> exact List.prefix_rfl
  | routerEvent re =>
      rcases processRouterEvent_ok h with ⟨_, _, mid, hmid, rfl⟩ | ⟨_, _, rfl⟩ | ⟨_, ch, _, rfl⟩
      · rw [show mid = _ from processServer_none hmid]
        exact List.prefix_rfl
      · exact List.prefix_rfl
      · exact List.prefix_append _ _

theorem writtenTo_dispatch {l : Label V} (h : rtr.dispatch l = .ok rtr') (ec : ServerChan) :
    rtr.writtenTo ec <+: rtr'.writtenTo ec :=
  ((written_dispatch h).filter _).map Prod.snd

end Written

end PwrApi.Router
