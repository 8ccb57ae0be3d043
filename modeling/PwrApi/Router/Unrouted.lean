import PwrApi.Router.TreeCore

/-! Events for names that the route table does not have: `findRoute` answers `-1` on 64
bits, and `sendEvent` drops the event for `-1` on 32 bits. -/

namespace PwrApi.Router

open Function Runs

variable {V : Type}

/-- The call drops the event and leaves channels, queues and the server table alone. -/
def Drops (rtr : Router V) (name : ObjID) (ev : Payload V) : Prop :=
  ∃ rtr', rtr.sendEventTo name ev = .ok rtr' ∧
    rtr'.mail.written = rtr.mail.written ∧
    rtr'.mail.pendingEvents = rtr.mail.pendingEvents ∧
    rtr'.localMap = rtr.localMap ∧ rtr'.serverMap = rtr.serverMap

/-- An event for `dest` stands at the end of what was written to its channel, or waits in
the queue of its server. -/
def SentOrQueued (rtr rtr' : Router V) (dest : AppID) (ev : Payload V) : Prop :=
  (∃ ch, rtr.destChan dest = .ok (some ch) ∧
    rtr'.mail.written =
      rtr.mail.written ++ [(ch, ⟨appId rtr.rtrId noServer, dest, ev⟩)] ∧
    rtr'.mail.pendingEvents = rtr.mail.pendingEvents) ∨
  (∃ ptr, rtr.destChan dest = .ok none ∧ rtr'.mail.written = rtr.mail.written ∧
    rtr'.mail.pendingEvents = update rtr.mail.pendingEvents (serverIdOf dest)
      (rtr.mail.pendingEvents (serverIdOf dest) ++ [ptr]) ∧
    rtr'.mail.events ptr = some ⟨appId rtr.rtrId noServer, dest, ev⟩)

/-- A name without a route is dropped cleanly, and one with a route is served by it. -/
def Routes (rtr : Router V) (name : ObjID) (ev : Payload V) : Prop :=
  (rtr.routeTable name = none → rtr.Drops name ev) ∧
  ∀ r s, rtr.routeTable name = some (appId r s) →
    ∃ rtr', rtr.sendEventTo name ev = .ok rtr' ∧ rtr.SentOrQueued rtr' (appId r s) ev

/-- A server of this router has no channel yet or one that is open, and the core has a
channel to any other router. -/
def Reachable (rtr : Router V) (dest : AppID) : Prop :=
  (rtrIdOf dest = rtr.rtrId → ∀ ec, rtr.findServerChan (serverIdOf dest) = some ec →
    rtr.serverMap ec ≠ none) ∧
  (rtrIdOf dest ≠ rtr.rtrId → rtr.getChannel (rtrIdOf dest) ≠ none)

variable {rtr : Router V}

theorem writeEvent_isOk {ch : Chan} {ptr : EventPtr} {re : RouterEvent V}
    (hre : rtr.mail.events ptr = some re)
    (hopen : ∀ ec, ch = .server ec → rtr.serverMap ec ≠ none) :
    ∃ rtr', rtr.writeEvent ch ptr = .ok rtr' := by
  cases ch with
  | server ec =>
      simp only [writeEvent, hre, orFault_some, require_of _ (hopen ec rfl), bind, Except.bind]
      exact ⟨_, rfl⟩
  | router ec =>
      simp only [writeEvent, hre, orFault_some, bind, Except.bind]
      exact ⟨_, rfl⟩

theorem destChan_reachable {dest : AppID} (h : rtr.Reachable dest) :
    ∃ ec, rtr.destChan dest = .ok ec ∧
      ∀ server, ec = some (.server server) → rtr.serverMap server ≠ none := by
  by_cases hlocal : rtrIdOf dest = rtr.rtrId
  · refine ⟨_, if_pos hlocal, fun server hserver => ?_⟩
    obtain ⟨ec, hec, heq⟩ := Option.map_eq_some_iff.mp hserver
    obtain rfl := Chan.server.inj heq
    exact h.1 hlocal ec hec
  · obtain ⟨ch, hch⟩ := Option.ne_none_iff_exists'.mp (h.2 hlocal)
    refine ⟨some (.router ch), ?_, fun server hserver => by cases hserver⟩
    simp [destChan, hlocal, hch, bind, Except.bind]

theorem sendEvent_isOk {dest : AppID} {ev : Payload V} :
    (∃ rtr', rtr.sendEvent dest ev = .ok rtr') ↔ rtr.Reachable dest := by
  constructor
  · intro ⟨rtr', h⟩
    simp only [sendEvent, bind_eq_ok] at h
    obtain ⟨ec, hec, h⟩ := h
    rcases destChan_ok hec with ⟨hlocal, rfl⟩ | ⟨hremote, ch, hch, rfl⟩
    · refine ⟨fun _ server hserver => ?_, fun hremote => absurd hlocal hremote⟩
      simp only [hserver, Option.map_some, bind_eq_ok] at h
      obtain ⟨mid, hmid, _⟩ := h
      simp only [writeEvent, bind_eq_ok, require_eq_ok] at hmid
      obtain ⟨_, _, _, hopen, _⟩ := hmid
      exact hopen
    · refine ⟨fun hlocal => absurd hlocal hremote, fun _ => ?_⟩
      rw [hch]
      exact Option.some_ne_none ch
  · intro h
    obtain ⟨ec, hec, hopen⟩ := destChan_reachable h
    cases ec with
    | none => exact ⟨_, by simp [sendEvent, hec, bind, Except.bind]; rfl⟩
    | some ch =>
        let re : RouterEvent V := ⟨appId rtr.rtrId noServer, dest, ev⟩
        have hevent : ((rtr.recordCall dest re).newEvent re).mail.events rtr.mail.nextEvent =
            some re := by simp [newEvent, recordCall]
        obtain ⟨mid, hmid⟩ := writeEvent_isOk hevent fun server hserver =>
          hopen server (congrArg some hserver)
        refine ⟨mid.deleteEvent rtr.mail.nextEvent, ?_⟩
        simp only [sendEvent, bind_eq_ok]
        exact ⟨_, hec, bind_eq_ok.mpr ⟨mid, hmid, rfl⟩⟩

theorem sendEvent_sentOrQueued {rtr' : Router V} {dest : AppID} {ev : Payload V}
    (h : rtr.sendEvent dest ev = .ok rtr') : rtr.SentOrQueued rtr' dest ev := by
  rcases sendEvent_ok h with ⟨hdest, rfl⟩ | ⟨ch, hdest, rfl⟩
  · exact .inr ⟨rtr.mail.nextEvent, hdest, rfl, rfl, by simp [pushPending, newEvent, recordCall]⟩
  · exact .inl ⟨ch, hdest, rfl, rfl⟩

theorem SentOrQueued.changes {rtr' : Router V} {dest : AppID} {ev : Payload V}
    (h : rtr.SentOrQueued rtr' dest ev) (hwritten : rtr'.mail.written = rtr.mail.written) :
    rtr'.mail.pendingEvents ≠ rtr.mail.pendingEvents := by
  intro hpending
  rcases h with ⟨ch, _, hsent, _⟩ | ⟨ptr, _, _, hqueued, _⟩
  · rw [hwritten] at hsent
    exact absurd hsent (by simp)
  · have hqueue := congrFun hqueued (serverIdOf dest)
    rw [hpending, update_self] at hqueue
    exact absurd hqueue (by simp)

/-- The answer of `findRoute` for a missing name is not what `sendEvent` compares with. -/
theorem not_drops {name : ObjID} {ev : Payload V} (hnone : rtr.routeTable name = none) :
    ¬ rtr.Drops name ev := by
  intro ⟨rtr', h, hwritten, hpending, _⟩
  have hroute : rtr.findRoute name ≠ unrouted := by
    rw [findRoute, hnone]
    decide
  rcases sendEventTo_cases h with ⟨heq, _⟩ | ⟨_, hsend⟩
  · exact hroute heq
  · exact (sendEvent_sentOrQueued hsend).changes hwritten hpending

theorem sendEventTo_routed {name : ObjID} {ev : Payload V} {id : AppID}
    (hroute : rtr.routeTable name = some id) :
    (∃ rtr', rtr.sendEventTo name ev = .ok rtr' ∧ rtr.SentOrQueued rtr' id ev) ↔
      id ≠ unrouted ∧ rtr.Reachable id := by
  have hid : rtr.findRoute name = id := by rw [findRoute, hroute, Option.getD_some]
  constructor
  · intro ⟨rtr', h, hsent⟩
    rcases sendEventTo_cases h with ⟨_, rfl⟩ | ⟨hne, hsend⟩
    · exact absurd rfl (hsent.changes rfl)
    · rw [hid] at hne hsend
      exact ⟨hne, sendEvent_isOk.mp ⟨rtr', hsend⟩⟩
  · intro ⟨hne, hreach⟩
    obtain ⟨rtr', hsend⟩ := sendEvent_isOk.mpr hreach
    refine ⟨rtr', ?_, sendEvent_sentOrQueued hsend⟩
    rw [sendEventTo, hid, if_neg hne, hsend]

/-- An event takes its route exactly when the table has one for the name, the route is not
the id of server `-1` of router 0, and the next channel is there. -/
theorem routes_iff (rtr : Router V) (name : ObjID) (ev : Payload V) :
    rtr.Routes name ev ↔
      ∃ id, rtr.routeTable name = some id ∧ id ≠ appId 0 noServer ∧ rtr.Reachable id := by
  have hunrouted : unrouted = appId 0 noServer := by decide
  rw [← hunrouted]
  cases hroute : rtr.routeTable name with
  | none =>
      refine iff_of_false (fun h => not_drops hroute (h.1 hroute)) ?_
      intro ⟨id, hid, _⟩
      cases hid
  | some id =>
      constructor
      · intro h
        have hid : rtr.routeTable name = some (appId (rtrIdOf id) (serverIdOf id)) := by
          rw [appId_eta, hroute]
        have hsent := h.2 _ _ hid
        rw [appId_eta] at hsent
        exact ⟨id, rfl, (sendEventTo_routed hroute).mp hsent⟩
      · intro ⟨id', hid', h⟩
        obtain rfl := Option.some.inj hid'
        refine ⟨fun hnone => ?_, fun r s hrs => ?_⟩
        · rw [hroute] at hnone
          cases hnone
        · rw [hroute] at hrs
          rw [← Option.some.inj hrs]
          exact (sendEventTo_routed hroute).mpr h

/-- Router 0 of a tree, with the link to its only child. -/
def leafRouter : Router Int :=
  Router.start 0 oneServer (treeChannel [⟨some 4, 0, 0⟩])

def unroutedRequest : Payload Int :=
  .commLogReq { newCommEvent .commLogReq 1 2 with attrName := .power }

/-- A request for a name without a route is written to link 0. -/
theorem unrouted_event_is_sent : ¬ leafRouter.Routes [120] unroutedRequest := by
  intro h
  obtain ⟨rtr', hsend, hwritten, _⟩ := h.1 rfl
  have hwrites : ∀ rtr', leafRouter.sendEventTo [120] unroutedRequest = .ok rtr' →
      rtr'.mail.written ≠ [] := by
    rintro rtr' ⟨⟩
    exact List.cons_ne_nil _ _
  exact hwrites rtr' hsend hwritten

end PwrApi.Router
