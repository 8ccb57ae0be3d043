import PwrApi.Router.Sending

/-! The events for a local server: queued until its `ServerConnect`, written to its
channel from then on. -/

namespace PwrApi.Router

open Function Runs

variable {V : Type}

section Logs

variable {κ α : Type} [DecidableEq κ]

def eventsFor (log : List (κ × α)) (k : κ) : List α :=
  (log.filter fun entry => entry.1 = k).map Prod.snd

theorem eventsFor_append (log more : List (κ × α)) (k : κ) :
    eventsFor (log ++ more) k = eventsFor log k ++ eventsFor more k := by
  simp [eventsFor]

@[simp] theorem eventsFor_append_self (log : List (κ × α)) (k : κ) (a : α) :
    eventsFor (log ++ [(k, a)]) k = eventsFor log k ++ [a] := by
  simp [eventsFor]

theorem eventsFor_append_ne (log : List (κ × α)) {k k' : κ} (a : α) (h : k' ≠ k) :
    eventsFor (log ++ [(k', a)]) k = eventsFor log k := by
  simp [eventsFor, h]

theorem eventsFor_map_self (xs : List α) (k : κ) :
    eventsFor (xs.map fun a => (k, a)) k = xs := by
  induction xs with
  | nil => rfl
  | cons a xs ih => simpa [eventsFor] using ih

theorem eventsFor_map_ne (xs : List α) {k k' : κ} (h : k' ≠ k) :
    eventsFor (xs.map fun a => (k', a)) k = [] := by
  induction xs with
  | nil => rfl
  | cons a xs ih => simp [eventsFor, h]

end Logs

def callsFor (rtr : Router V) (s : ServerID) : List (RouterEvent V) :=
  eventsFor rtr.mail.calls (appId rtr.rtrId s)

def writtenTo (rtr : Router V) (ec : ServerChan) : List (RouterEvent V) :=
  eventsFor rtr.mail.written (.server ec)

/-- The queue of `s` owns its events, and what was sent to `s` is, in order, in the
queue while `s` has not connected and on its channel once it has. -/
structure Delivers (rtr : Router V) (s : ServerID) : Prop where
  live : ∀ ptr ∈ rtr.mail.pendingEvents s, rtr.mail.events ptr ≠ none
  waiting : rtr.localMap s = none →
    (rtr.mail.pendingEvents s).map rtr.mail.events = (rtr.callsFor s).map some
  connected : ∀ ec, rtr.localMap s = some ec →
    rtr.mail.pendingEvents s = [] ∧ rtr.writtenTo ec = rtr.callsFor s

def DeliversAll (rtr : Router V) : Prop := ∀ s, s ≠ noServer → rtr.Delivers s

/-- No two servers share a channel, queues hold old addresses only, and nothing is on
the channel of a server that has not connected. -/
structure Tidy (rtr : Router V) : Prop where
  apart : ∀ s s' ec, rtr.localMap s = some ec → rtr.localMap s' = some ec → s = s'
  old : ∀ s, ∀ ptr ∈ rtr.mail.pendingEvents s, ptr < rtr.mail.nextEvent
  unwritten : ∀ ec, (∀ s, rtr.localMap s ≠ some ec) → rtr.writtenTo ec = []

/-- Each server connects once, on a channel of its own, and stays connected. -/
def ConnectsOnce (rtr : Router V) : Label V → Prop
  | .serverEvent ec (.serverConnect ev) =>
      ∃ s, s ≠ noServer ∧ rtr.findRoute ev.name = appId rtr.rtrId s ∧
        rtr.localMap s = none ∧ ∀ s', rtr.localMap s' ≠ some ec
  | .serverClosed _ => False
  | _ => True

/-- No event from another router is for a local server that has not connected. -/
def ForwardsToConnected (rtr : Router V) : Label V → Prop
  | .routerEvent re =>
      rtrIdOf re.dest = rtr.rtrId → serverIdOf re.dest ≠ noServer →
        rtr.localMap (serverIdOf re.dest) ≠ none
  | _ => True

/-- Both invariants, carried together through the handlers. -/
def Good (rtr : Router V) : Prop := rtr.Tidy ∧ rtr.DeliversAll

section Sends

variable {rtr rtr' : Router V}

theorem Delivers.congr {s : ServerID} (h : rtr.Delivers s)
    (hlocal : rtr'.localMap s = rtr.localMap s)
    (hpending : rtr'.mail.pendingEvents s = rtr.mail.pendingEvents s)
    (hevents : ∀ ptr ∈ rtr.mail.pendingEvents s, rtr'.mail.events ptr = rtr.mail.events ptr)
    (hcalls : rtr'.callsFor s = rtr.callsFor s)
    (hwritten : ∀ ec, rtr.localMap s = some ec → rtr'.writtenTo ec = rtr.writtenTo ec) :
    rtr'.Delivers s := by
  refine ⟨?_, ?_, ?_⟩
  · intro ptr hptr
    rw [hpending] at hptr
    rw [hevents ptr hptr]
    exact h.live ptr hptr
  · intro hwait
    rw [hpending, hcalls, List.map_congr_left hevents]
    exact h.waiting (hlocal ▸ hwait)
  · intro ec hec
    rw [hlocal] at hec
    rw [hpending, hcalls, hwritten ec hec]
    exact h.connected ec hec

theorem good_congr (h : rtr.Good) (hmail : rtr'.mail = rtr.mail)
    (hlocal : rtr'.localMap = rtr.localMap) (hid : rtr'.rtrId = rtr.rtrId) : rtr'.Good := by
  obtain ⟨htidy, hdelivers⟩ := h
  refine ⟨⟨?_, ?_, ?_⟩, fun s hs => (hdelivers s hs).congr ?_ ?_ ?_ ?_ ?_⟩
  · rw [hlocal]
    exact htidy.apart
  · rw [hmail]
    exact htidy.old
  · simp only [writtenTo, hmail, hlocal]
    exact htidy.unwritten
  · rw [hlocal]
  · rw [hmail]
  · exact fun ptr _ => by rw [hmail]
  · rw [callsFor, callsFor, hmail, hid]
  · exact fun ec _ => by rw [writtenTo, writtenTo, hmail]

theorem update_queued (h : rtr.Tidy) {s : ServerID} (x : Option (RouterEvent V))
    {ptr : EventPtr} (hptr : ptr ∈ rtr.mail.pendingEvents s) :
    update rtr.mail.events rtr.mail.nextEvent x ptr = rtr.mail.events ptr :=
  update_of_ne (Nat.ne_of_lt (h.old s ptr hptr)) _ _

theorem map_update_queued (h : rtr.Tidy) (s : ServerID) (x : Option (RouterEvent V)) :
    (rtr.mail.pendingEvents s).map (update rtr.mail.events rtr.mail.nextEvent x) =
      (rtr.mail.pendingEvents s).map rtr.mail.events :=
  List.map_congr_left fun _ => update_queued h x

theorem appId_ne (rtr : RouterID) {s s' : ServerID} (h : s ≠ s') :
    appId rtr s' ≠ appId rtr s := by
  intro heq
  have := congrArg serverIdOf heq
  rw [serverIdOf_appId, serverIdOf_appId] at this
  exact h this.symm

theorem destChan_none {dest : AppID} (h : rtr.destChan dest = .ok none) :
    dest = appId rtr.rtrId (serverIdOf dest) ∧
      (serverIdOf dest ≠ noServer → rtr.localMap (serverIdOf dest) = none) := by
  rcases destChan_ok h with ⟨hlocal, hec⟩ | ⟨_, ch, _, hec⟩
  · refine ⟨by rw [← hlocal, appId_eta], ?_⟩
    intro hs
    simpa [findServerChan, hs, eq_comm] using hec
  · cases hec

theorem destChan_some {dest : AppID} {ch : Chan} (h : rtr.destChan dest = .ok (some ch)) :
    (∃ s ec, s ≠ noServer ∧ rtr.localMap s = some ec ∧ dest = appId rtr.rtrId s ∧
      ch = .server ec) ∨
    ((∀ s, dest ≠ appId rtr.rtrId s) ∧ ∀ ec, ch ≠ .server ec) := by
  rcases destChan_ok h with ⟨hlocal, hec⟩ | ⟨hremote, rc, _, hec⟩
  · by_cases hs : serverIdOf dest = noServer
    · simp [findServerChan, hs] at hec
    · rw [findServerChan, if_neg hs, eq_comm, Option.map_eq_some_iff] at hec
      obtain ⟨ec, hmap, hch⟩ := hec
      exact .inl ⟨serverIdOf dest, ec, hs, hmap, by rw [← hlocal, appId_eta], hch.symm⟩
  · refine .inr ⟨?_, ?_⟩
    · intro s heq
      exact hremote (by rw [heq, rtrIdOf_appId])
    · intro ec heq
      rw [heq] at hec
      cases hec

theorem good_queue (h : rtr.Good) {dest : AppID} (re : RouterEvent V)
    (hdest : rtr.destChan dest = .ok none) :
    (((rtr.recordCall dest re).newEvent re).pushPending (serverIdOf dest)
      rtr.mail.nextEvent).Good := by
  obtain ⟨htidy, hdelivers⟩ := h
  obtain ⟨hid, hnone⟩ := destChan_none hdest
  generalize serverIdOf dest = sid at hid hnone
  subst hid
  refine ⟨⟨htidy.apart, ?_, htidy.unwritten⟩, ?_⟩
  · intro s ptr hptr
    simp only [pushPending, newEvent, recordCall] at hptr ⊢
    by_cases hs : s = sid
    · subst hs
      rw [update_self, List.mem_append, List.mem_singleton] at hptr
      rcases hptr with hptr | rfl
      · exact Nat.lt_succ_of_lt (htidy.old s ptr hptr)
      · exact Nat.lt_succ_self _
    · rw [update_of_ne hs] at hptr
      exact Nat.lt_succ_of_lt (htidy.old s ptr hptr)
  · intro s hs
    have hold := hdelivers s hs
    by_cases hsame : s = sid
    · subst hsame
      refine ⟨?_, ?_, ?_⟩
      · intro ptr hptr
        simp only [pushPending, newEvent, recordCall, update_self, List.mem_append,
          List.mem_singleton] at hptr ⊢
        rcases hptr with hptr | rfl
        · rw [update_queued htidy _ hptr]
          exact hold.live ptr hptr
        · simp
      · intro hwait
        simp only [pushPending, newEvent, recordCall, update_self, callsFor, List.map_append,
          eventsFor_append_self, map_update_queued htidy]
        rw [hold.waiting hwait]
        simp [callsFor]
      · intro ec hec
        rw [pushPending, newEvent, recordCall] at hec
        rw [hnone hs] at hec
        cases hec
    · have hcalls := eventsFor_append_ne rtr.mail.calls re (appId_ne rtr.rtrId hsame)
      exact hold.congr rfl (update_of_ne hsame _ _) (fun ptr => update_queued htidy _) hcalls
        fun _ _ => rfl

theorem good_write (h : rtr.Good) {dest : AppID} (re : RouterEvent V) {ch : Chan}
    (hdest : rtr.destChan dest = .ok (some ch)) :
    (rtr.sentOn dest re ch).Good := by
  obtain ⟨htidy, hdelivers⟩ := h
  have hfound := destChan_some hdest
  refine ⟨⟨htidy.apart, fun s ptr hptr => Nat.lt_succ_of_lt (htidy.old s ptr hptr), ?_⟩, ?_⟩
  · intro ec hec
    have hch : ch ≠ .server ec := by
      rcases hfound with ⟨s, ec', _, hmap, _, rfl⟩ | ⟨_, hch⟩
      · intro heq
        cases heq
        exact hec s hmap
      · exact hch ec
    simp only [sentOn, writtenTo, eventsFor_append_ne _ re hch]
    exact htidy.unwritten ec hec
  · intro s hs
    have hold := hdelivers s hs
    have hevents : ∀ ptr ∈ rtr.mail.pendingEvents s,
        (rtr.sentOn dest re ch).mail.events ptr = rtr.mail.events ptr :=
      fun ptr => update_queued htidy none
    rcases hfound with ⟨s', ec', _, hmap, rfl, rfl⟩ | ⟨hid, hch⟩
    · by_cases hsame : s = s'
      · subst hsame
        refine ⟨?_, ?_, ?_⟩
        · intro ptr hptr
          rw [hevents ptr hptr]
          exact hold.live ptr hptr
        · intro hwait
          rw [sentOn, hmap] at hwait
          cases hwait
        · intro ec hec
          rw [sentOn, hmap] at hec
          cases hec
          obtain ⟨hempty, hwritten⟩ := hold.connected ec' hmap
          refine ⟨hempty, ?_⟩
          simp only [sentOn, callsFor, writtenTo, eventsFor_append_self] at hwritten ⊢
          rw [hwritten]
      · have hcalls := eventsFor_append_ne rtr.mail.calls re (appId_ne rtr.rtrId hsame)
        refine hold.congr rfl rfl hevents hcalls fun ec hec => ?_
        have hch : Chan.server ec' ≠ .server ec := by
          intro heq
          cases heq
          exact hsame (htidy.apart s s' _ hec hmap)
        exact eventsFor_append_ne _ re hch
    · exact hold.congr rfl rfl hevents (eventsFor_append_ne _ re (hid s))
        fun ec _ => eventsFor_append_ne _ re (hch ec)

theorem good_sendEventTo (rtr : Router V) (obj : ObjID) (ev : Payload V) (rtr' : Router V)
    (hs : rtr.Good) (h : rtr.sendEventTo obj ev = .ok rtr') : rtr'.Good := by
  rcases sendEventTo_cases h with ⟨_, rfl⟩ | ⟨_, h⟩
  · exact hs
  · rcases sendEvent_ok h with ⟨hdest, rfl⟩ | ⟨ch, hdest, rfl⟩
    · exact good_queue hs _ hdest
    · exact good_write hs _ hdest

theorem writes_ok {ch : Chan} {ptrs : List EventPtr}
    (h : ptrs.foldlM (fun rtr ptr => rtr.writeEvent ch ptr) rtr = .ok rtr') :
    ∃ res : List (RouterEvent V), ptrs.map rtr.mail.events = res.map some ∧
      rtr' = { rtr with mail := { rtr.mail with
        written := rtr.mail.written ++ res.map fun re => (ch, re) } } := by
  induction ptrs generalizing rtr with
  | nil =>
      refine ⟨[], rfl, ?_⟩
      rw [← Except.ok.inj h]
      simp
  | cons ptr ptrs ih =>
      rw [List.foldlM_cons, bind_eq_ok] at h
      obtain ⟨mid, hmid, hrest⟩ := h
      obtain ⟨re, hre, rfl⟩ := writeEvent_ok hmid
      obtain ⟨res, hres, rfl⟩ := ih hrest
      refine ⟨re :: res, ?_, by simp⟩
      rw [List.map_cons, hre, List.map_cons]
      exact congrArg _ hres

theorem doPending_ok {id : ServerID} (h : rtr.doPending id = .ok rtr') :
    ∃ res : List (RouterEvent V),
      (rtr.mail.pendingEvents id).map rtr.mail.events = res.map some ∧
      ∀ ec, rtr.findServerChan id = some ec →
        rtr' = { rtr with mail := { rtr.mail with
          pendingEvents := update rtr.mail.pendingEvents id []
          written := rtr.mail.written ++ res.map fun re => (.server ec, re) } } := by
  unfold doPending at h
  split at h
  next hempty =>
    refine ⟨[], by simp [hempty], ?_⟩
    intro ec _
    rw [← Except.ok.inj h, ← hempty, update_eq_self]
    simp
  next ptrs hne =>
    simp only [bind_eq_ok, orFault_eq_ok] at h
    obtain ⟨ec, hec, mid, hmid, hrtr⟩ := h
    obtain ⟨res, hres, rfl⟩ := writes_ok hmid
    refine ⟨res, hres, ?_⟩
    intro ec' hec'
    rw [hec, Option.some.injEq] at hec'
    subst hec'
    exact (Except.ok.inj hrtr).symm

theorem good_connect (hgood : rtr.Good) {s : ServerID} {ec : ServerChan} (hs : s ≠ noServer)
    (hnew : rtr.localMap s = none) (hfree : ∀ s', rtr.localMap s' ≠ some ec)
    (serverMap : ServerChan → Option Server)
    (h : ({ rtr with localMap := update rtr.localMap s (some ec), serverMap } :
      Router V).doPending s = .ok rtr') : rtr'.Good := by
  obtain ⟨htidy, hdelivers⟩ := hgood
  obtain ⟨res, hres, hrtr⟩ := doPending_ok h
  rw [hrtr ec (by simp [findServerChan, hs])]
  have hwritten : ∀ ec', ec' ≠ ec → eventsFor
      (rtr.mail.written ++ res.map fun re => (Chan.server ec, re)) (.server ec') =
        rtr.writtenTo ec' := by
    intro ec' hne
    have hch : Chan.server ec ≠ .server ec' := by
      intro heq
      cases heq
      exact hne rfl
    rw [eventsFor_append, eventsFor_map_ne res hch, List.append_nil, writtenTo]
  refine ⟨⟨?_, ?_, ?_⟩, ?_⟩
  · intro s₁ s₂ ec' h₁ h₂
    by_cases hs₁ : s₁ = s <;> by_cases hs₂ : s₂ = s
    · rw [hs₁, hs₂]
    · simp only [hs₁, update_self, Option.some.injEq, update_of_ne hs₂] at h₁ h₂
      exact (hfree s₂ (h₁ ▸ h₂)).elim
    · simp only [hs₂, update_self, Option.some.injEq, update_of_ne hs₁] at h₁ h₂
      exact (hfree s₁ (h₂ ▸ h₁)).elim
    · simp only [update_of_ne hs₁, update_of_ne hs₂] at h₁ h₂
      exact htidy.apart s₁ s₂ ec' h₁ h₂
  · intro s' ptr hptr
    by_cases hsame : s' = s
    · simp [hsame] at hptr
    · simp only [update_of_ne hsame] at hptr
      exact htidy.old s' ptr hptr
  · intro ec' hec'
    have hne : ec' ≠ ec := by
      intro heq
      exact hec' s (by simp [heq])
    refine (hwritten ec' hne).trans (htidy.unwritten ec' ?_)
    intro s' hs'
    have hsame : s' ≠ s := by
      intro heq
      rw [heq, hnew] at hs'
      cases hs'
    exact hec' s' (by simpa [update_of_ne hsame] using hs')
  · intro s' hs'
    have hold := hdelivers s' hs'
    by_cases hsame : s' = s
    · subst hsame
      refine ⟨by simp, by simp, ?_⟩
      intro ec' hec'
      simp only [update_self, Option.some.injEq] at hec'
      subst hec'
      refine ⟨by simp, ?_⟩
      have hcalls : res = rtr.callsFor s' :=
        List.map_injective_iff.mpr (Option.some_injective _)
          (hres.symm.trans (hold.waiting hnew))
      have hfirst : eventsFor rtr.mail.written (.server ec) = [] :=
        htidy.unwritten ec hfree
      simp only [writtenTo, eventsFor_append, eventsFor_map_self, hfirst, List.nil_append]
      exact hcalls
    · refine hold.congr (update_of_ne hsame _ _) (update_of_ne hsame _ _) (fun _ _ => rfl) rfl
        fun ec' hec' => ?_
      have hne : ec' ≠ ec := by
        intro heq
        exact hfree s' (heq ▸ hec')
      exact hwritten ec' hne

theorem good_own (hgood : rtr.Good) {dest : AppID} (re : RouterEvent V)
    (hdest : serverIdOf dest = noServer) :
    (((rtr.newEvent re).recordCall dest re).deleteEvent rtr.mail.nextEvent).Good := by
  obtain ⟨htidy, hdelivers⟩ := hgood
  refine ⟨⟨htidy.apart, fun s ptr hptr => Nat.lt_succ_of_lt (htidy.old s ptr hptr),
    htidy.unwritten⟩, ?_⟩
  intro s hs
  have hold := hdelivers s hs
  have hne : dest ≠ appId rtr.rtrId s := by
    intro heq
    rw [heq, serverIdOf_appId] at hdest
    exact hs hdest
  refine hold.congr rfl rfl ?_ (eventsFor_append_ne _ re hne) fun _ _ => rfl
  intro ptr hptr
  simp only [deleteEvent, recordCall, newEvent, update_idem]
  exact update_queued htidy none hptr

theorem good_replyOnly (hgood : rtr.Good) (h : ReplyOnly rtr rtr') : rtr'.Good := by
  rw [show rtr' = _ from h]
  exact good_congr hgood rfl rfl rfl

end Sends

variable [Zero V] [Add V]

/-- The steps of a router whose servers connect once. -/
def DeliveryStep (rtr : Router V) (l : Label V) (rtr' : Router V) : Prop :=
  rtr.Step l rtr' ∧ rtr.ConnectsOnce l

variable {rtr rtr' : Router V} {l : Label V}

theorem good_routerEvent {re : RouterEvent V} (hgood : rtr.Good)
    (h : rtr.processRouterEvent re = .ok rtr') :
    (rtr.ForwardsToConnected (.routerEvent re) ∧ rtr'.Good) ∨
    (¬ rtr.ForwardsToConnected (.routerEvent re) ∧ ¬ rtr'.DeliversAll) := by
  rcases processRouterEvent_ok h with ⟨_, hself, mid, hmid, rfl⟩ | ⟨hself, hdest, rfl⟩ |
    ⟨_, ch, hdest, rfl⟩
  · refine .inl ⟨fun _ hne => (hne hself).elim, ?_⟩
    have hreply := processServer_none hmid
    rw [show mid = _ from hreply]
    exact good_congr (good_own hgood re hself) rfl rfl rfl
  · obtain ⟨hid, hnone⟩ := destChan_none hdest
    have hlocal : rtrIdOf re.dest = rtr.rtrId := by rw [hid, rtrIdOf_appId]
    have hs : serverIdOf re.dest ≠ noServer := fun hs => hself ⟨hlocal, hs⟩
    refine .inr ⟨fun hcond => hcond hlocal hs (hnone hs), ?_⟩
    intro hall
    apply (hall _ hs).live rtr.mail.nextEvent
    · simp [deleteEvent, pushPending]
    · simp [deleteEvent]
  · refine .inl ⟨?_, good_write hgood re hdest⟩
    intro hlocal _
    rcases destChan_some hdest with ⟨s, ec, _, hmap, hid, _⟩ | ⟨hid, _⟩
    · rw [hid, serverIdOf_appId, hmap]
      simp
    · exact (hid (serverIdOf re.dest) (by rw [← hlocal, appId_eta])).elim

theorem good_step (hgood : rtr.Good) (h : rtr.DeliveryStep l rtr') :
    (rtr.ForwardsToConnected l ∧ rtr'.Good) ∨
    (¬ rtr.ForwardsToConnected l ∧ ¬ rtr'.DeliversAll) := by
  obtain ⟨⟨_, hdispatch⟩, honce⟩ := h
  cases l with
  | acceptClient ec =>
      exact .inl ⟨trivial, Except.ok.inj hdispatch ▸ good_congr hgood rfl rfl rfl⟩
  | acceptServer ec =>
      exact .inl ⟨trivial, Except.ok.inj hdispatch ▸ good_congr hgood rfl rfl rfl⟩
  | clientEvent ec ev info =>
      exact .inl ⟨trivial, processClient_preserves Good good_sendEventTo
        (fun _ _ hs => good_congr hs rfl rfl rfl) (fun _ _ hs => good_congr hs rfl rfl rfl)
        hgood hdispatch⟩
  | clientClosed ec =>
      exact .inl ⟨trivial, delClientChan_preserves Good good_sendEventTo
        (fun _ _ hs => good_congr hs rfl rfl rfl) hgood hdispatch⟩
  | serverEvent ec ev =>
      refine .inl ⟨trivial, ?_⟩
      rcases processServer_ok hdispatch with hreply | ⟨connect, rfl, hconnect⟩
      · exact good_replyOnly hgood hreply
      · obtain ⟨ch, mid, hch, _, _, rfl, hpending⟩ := processServerConnect_ok hconnect
        cases hch
        obtain ⟨s, hs, hroute, hnew, hfree⟩ := honce
        rw [hroute, serverIdOf_appId] at hpending
        exact good_connect hgood hs hnew hfree _ hpending
  | serverClosed ec => exact honce.elim
  | routerEvent re => exact good_routerEvent hgood hdispatch

/-- Along a run from the start, every server gets what was sent to it, in order and
from live memory, exactly when no step forwards an event of another router to a server
that has not connected. -/
theorem server_delivery (rtrId : RouterID) (routeTable : ObjID → Option AppID)
    (getChannel : RouterID → Option RtrChan) (ls : List (Label V)) (rtr : Router V)
    (hrun : Run DeliveryStep (start rtrId routeTable getChannel) ls rtr) :
    Along DeliveryStep DeliversAll (start rtrId routeTable getChannel) ls ↔
      EachStep DeliveryStep ForwardsToConnected (start rtrId routeTable getChannel) ls := by
  refine Run.along_iff Tidy ?_ ?_ hrun (fun s l t t' h h' => step_det h.1 h'.1) ?_ ?_
  · intro s l t htidy hall hstep hcond
    rcases good_step ⟨htidy, hall⟩ hstep with ⟨_, hgood⟩ | ⟨hnot, _⟩
    · exact hgood.1
    · exact (hnot hcond).elim
  · intro s l t htidy hall hstep
    rcases good_step ⟨htidy, hall⟩ hstep with ⟨hcond, hgood⟩ | ⟨hcond, hbad⟩
    · exact iff_of_true hgood.2 hcond
    · exact iff_of_false hbad hcond
  · exact ⟨by simp [start], by simp [start], by simp [start, writtenTo, eventsFor]⟩
  · intro s _
    exact ⟨by simp [start], by simp [start, callsFor, eventsFor], by simp [start]⟩

/-- Another router forwards an event for server 3 before that server has connected. -/
def earlyForward : List (Label Int) :=
  [.routerEvent ⟨appId 2 noServer, appId 1 3,
    .commCreate { toCommEvent := newCommEvent .commCreate 0 5, members := [[[110]]] }⟩]

theorem earlyForward_run :
    ∃ rtr : Router Int, Run DeliveryStep (start 1 oneServer fun _ => none) earlyForward rtr ∧
      rtr.mail.pendingEvents 3 = [0] ∧ rtr.mail.events 0 = none :=
  ⟨_, .cons ⟨⟨trivial, rfl⟩, trivial⟩ (.nil _), rfl, rfl⟩

theorem server_delivery_earlyForward :
    Along DeliveryStep DeliversAll (start 1 oneServer fun _ => none) earlyForward ↔
      EachStep DeliveryStep ForwardsToConnected (start 1 oneServer fun _ => none)
        earlyForward := by
  obtain ⟨rtr, hrun, _⟩ := earlyForward_run
  exact server_delivery 1 oneServer (fun _ => none) earlyForward rtr hrun

theorem queued_event_is_deleted :
    ¬ ∀ rtr : Router Int,
      Run DeliveryStep (start 1 oneServer fun _ => none) earlyForward rtr →
        DeliversAll rtr := by
  intro hall
  obtain ⟨rtr, hrun, hqueue, hdeleted⟩ := earlyForward_run
  exact (hall rtr hrun 3 (by decide)).live 0 (by simp [hqueue]) hdeleted

end PwrApi.Router
