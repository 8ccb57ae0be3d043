import PwrApi.Router.Fleet

/-! Whether the communicators of a client are its own at the servers, which keep them by
their ids alone. -/

namespace PwrApi

open Function Runs Router Server

namespace Fleet

variable {V : Type}

/-- The communicators of every active connection are what it made of them. -/
def Refers (s : Fleet V) : Prop :=
  ∀ d o id name, s.made d o id = some name → s.Active d o id →
    commObj (s.servers d) id = .ok name

theorem isolated_iff_refers {table : ObjID → Option AppID} {s : Fleet V} (hinv : s.Inv table) :
    s.Isolated table ↔ s.Refers := by
  constructor
  · exact Isolated.refers
  · intro hrefers
    refine ⟨hrefers, ?_⟩
    intro r d o ev rest id _ hflight hrequests
    have hannounced := hinv.announced r d
    rw [hflight] at hannounced
    have hmade : s.made d o id ≠ none := by
      apply hannounced.1 (o, id)
      rw [uses, hrequests]
      rfl
    obtain ⟨name, hname⟩ := Option.ne_none_iff_exists'.mp hmade
    have hmem : (o, ev) ∈ s.flight r d := by
      rw [hflight]
      exact List.mem_cons_self
    have hrtr : o.rtr = r := (hinv.known r d (o, ev) hmem).1
    refine ⟨name, hname, hrefers d o id name hname (.inr ⟨ev, ?_, hrequests⟩)⟩
    rwa [hrtr]

theorem commObj_congr {map map' : CommMap} {id : CommID} (h : map' id = map id) :
    commObj map' id = commObj map id := by
  rw [commObj, commObj, h]

theorem commObj_of_none {map : CommMap} {id : CommID} {name : ObjID} (h : map id = none) :
    commObj map id ≠ .ok name := by
  rw [commObj, h]
  intro heq
  cases heq

section Deliver

variable {table : ObjID → Option AppID} {found : AppID → ObjID → Bool} {s t : Fleet V}
  {r : RouterID} {d : AppID} {x : Owner × Payload V} {rest : List (Owner × Payload V)}

theorem active_of_delivered (h : Delivered found s r d t x rest) {d' : AppID} {o : Owner}
    {id : CommID} (hactive : t.Active d' o id) : s.Active d' o id := by
  rcases hactive with hlive | ⟨ev, hev, hrequests⟩
  · exact .inl ((h.live o).mp hlive)
  · exact .inr ⟨ev, h.mem_flight.mpr (.inl hev), hrequests⟩

theorem not_active_of_destroys (hinv : s.Inv table) (h : Delivered found s r d t x rest)
    (hdestroys : destroys x.2 ≠ none) (id : CommID) : ¬ t.Active d x.1 id := by
  have hmem : x ∈ s.flight r d := by
    rw [h.next]
    exact List.mem_cons_self
  rintro (hlive | ⟨ev, hev, hrequests⟩)
  · exact hinv.ended r d x hmem hdestroys ((h.live x.1).mp hlive)
  · have hrest : (x.1, ev) ∈ rest := by
      rwa [(hinv.known r d x hmem).1, h.flight, update_self, update_self] at hev
    have hlast := hinv.last r d
    rw [h.next, List.pairwise_cons] at hlast
    have hnone : requests ev = none := hlast.1 (x.1, ev) hrest rfl hdestroys
    rw [hnone] at hrequests
    cases hrequests

theorem commObj_create (hinv : s.Inv table) (hd : Served table d)
    (h : Delivered found s r d t x rest) {create : CommCreateEvent}
    (hcreate : x.2 = .commCreate create) :
    ∃ name, create.members = [[name]] ∧ table name = some d ∧
      commObj (t.servers d) create.commID = .ok name := by
  have hmem : x ∈ s.flight r d := by
    rw [h.next]
    exact List.mem_cons_self
  obtain ⟨name, hmembers, hdest⟩ := hinv.named r d x hmem create hcreate
  have hserver := h.server
  rw [hcreate] at hserver
  exact ⟨name, hmembers, table_of_served hd hdest, createComm_self hmembers hserver⟩

theorem refers_deliver (hinv : s.Inv table)
    (hinj : ∀ a b d, Served table d → table a = some d → table b = some d → a = b)
    (hd : Served table d) (h : Delivered found s r d t x rest) (hrefers : s.Refers)
    (hown : s.DestroysOwn (.deliver r d)) : t.Refers := by
  intro d' o id name hmade hactive
  have hbefore := active_of_delivered h hactive
  rw [h.made] at hmade
  by_cases hd' : d' = d
  · subst hd'
    rw [update_self] at hmade
    rcases madeAfter_eq hmade with hmade | ⟨create, rfl, hid, hhead⟩
    · by_cases hcreates : creates x.2 = some id
      · -- another connection's create names the same object
        cases hev : x.2 with
        | commCreate create =>
            rw [hev] at hcreates
            obtain rfl := Option.some.inj hcreates
            obtain ⟨name', _, hname', hobj⟩ := commObj_create hinv hd h hev
            rw [hobj, hinj name name' d' hd (hinv.madeNamed d' o _ name hmade) hname']
        | _ =>
            rw [hev] at hcreates
            cases hcreates
      · by_cases hdestroys : destroys x.2 = some id
        · exfalso
          by_cases ho : o = x.1
          · rw [ho] at hactive
            exact not_active_of_destroys hinv h (by simp [hdestroys]) id hactive
          · exact hown x.1 x.2 rest id h.next hdestroys o ho (by simp [hmade]) hbefore
        · rw [commObj_congr (receive_other h.server hcreates hdestroys)]
          exact hrefers d' o id name hmade hbefore
    · obtain ⟨name', hmembers, _, hobj⟩ := commObj_create hinv hd h rfl
      rw [hmembers, List.flatten_singleton, List.head?_cons, Option.some.injEq] at hhead
      rw [← hid, hobj, hhead]
  · rw [update_of_ne hd'] at hmade
    rw [h.others d' hd']
    exact hrefers d' o id name hmade hbefore

theorem destroysOwn_of_refers (h : Delivered found s r d t x rest) (hrefers : t.Refers) :
    s.DestroysOwn (.deliver r d) := by
  intro o ev rest' id hflight hdestroys other hother hmade hactive
  obtain ⟨rfl, rfl⟩ := List.cons.inj (h.next.symm.trans hflight)
  have hsame : t.made d other id = s.made d other id := by
    rw [h.made, update_self]
    cases ev with
    | commDestroy ev => rfl
    | _ => cases hdestroys
  obtain ⟨name, hname⟩ := Option.ne_none_iff_exists'.mp hmade
  have hafter : t.Active d other id := by
    rcases hactive with hlive | ⟨sent, hsent, hrequests⟩
    · exact .inl ((h.live other).mpr hlive)
    · rcases h.mem_flight.mp hsent with hsent | ⟨_, _, heq⟩
      · exact .inr ⟨sent, hsent, hrequests⟩
      · exact absurd (Prod.mk.inj heq).1 hother
  have hgone : t.servers d id = none := receive_destroy h.server hdestroys
  exact commObj_of_none hgone (hrefers d other id name (hsame.trans hname) hafter)

end Deliver

section Runs

variable [Zero V] [Add V] {table : ObjID → Option AppID} {s t : Fleet V}

theorem refers_router (hinv : s.Inv table) {r : RouterID} {l : Label V} {rtr' : Router V}
    (hstep : (s.routers r).Step l rtr') (hrefers : s.Refers) :
    (s.afterRouter r l rtr').Refers := by
  intro d o id name hmade hactive
  apply hrefers d o id name hmade
  rcases hactive with hlive | ⟨ev, hev, hrequests⟩
  · apply Or.inl
    apply live_before hstep _ hlive
    apply hinv.madeKnown d o id
    rw [show s.made d o id = some name from hmade]
    exact Option.some_ne_none name
  · rcases mem_flight_after.mp hev with hev | ⟨_, hev⟩
    · exact .inr ⟨ev, hev, hrequests⟩
    · obtain ⟨ec, hclient, ho, _, obj, _, hsent⟩ := (mem_sent hinv hstep).mp hev
      apply Or.inl
      rw [show o = s.owner r ec from ho]
      exact live_of_sent hstep hclient hsent

variable {found : AppID → ObjID → Bool}

theorem isolated_step (hinv : s.Inv table)
    (hinj : ∀ a b d, Served table d → table a = some d → table b = some d → a = b)
    {l : FleetLabel V} (hisolated : s.Isolated table) (hstep : Step table found s l t) :
    t.Isolated table ↔ s.DestroysOwn l := by
  rw [isolated_iff_refers (inv_step hinv hstep)]
  cases l with
  | router r l =>
      rw [hstep.2]
      exact iff_of_true (refers_router hinv hstep.1 hisolated.refers) trivial
  | deliver r d =>
      obtain ⟨x, rest, h⟩ := deliver_ok hstep.2
      constructor
      · exact destroysOwn_of_refers h
      · exact refers_deliver hinv hinj hstep.1 h hisolated.refers

/-- In every run, the communicators of all clients stay isolated exactly if no server
destroys one while another client is active that made its own under the same id there. -/
theorem communicators_isolated_iff (table : ObjID → Option AppID)
    (getChannel : RouterID → RouterID → Option RtrChan) (found : AppID → ObjID → Bool)
    (hinj : ∀ a b d, Served table d → table a = some d → table b = some d → a = b)
    (ls : List (FleetLabel V)) (t : Fleet V)
    (hrun : Run (Step table found) (start table getChannel) ls t) :
    Along (Step table found) (Isolated table) (start table getChannel) ls ↔
      EachStep (Step table found) DestroysOwn (start table getChannel) ls := by
  have hstart : (start table getChannel : Fleet V).Isolated table := by
    rw [isolated_iff_refers (inv_start table getChannel)]
    intro d o id name hmade
    cases hmade
  have hinv : ∀ s l t, Inv table s → Isolated table s → Step table found s l t →
      DestroysOwn s l → Inv (V := V) table t := fun _ _ _ hinv _ hstep _ => inv_step hinv hstep
  have hstep : ∀ s l t, Inv table s → Isolated table s → Step table found s l t →
      (Isolated (V := V) table t ↔ DestroysOwn s l) :=
    fun _ _ _ hinv hisolated hstep => isolated_step hinv hinj hisolated hstep
  exact hrun.along_iff (Inv table) hinv hstep (fun _ _ _ _ => step_det)
    (inv_start table getChannel) hstart

theorem router_step_of {r : RouterID} {l : Label V} {rtr' : Router V}
    (hfresh : (s.routers r).Fresh l) (hdispatch : (s.routers r).dispatch l = .ok rtr') :
    Step table found s (.router r l) (s.afterRouter r l rtr') := by
  have hrouter : (s.afterRouter r l rtr').routers r = rtr' := update_self _ _ _
  rw [Step, hrouter]
  exact ⟨⟨hfresh, hdispatch⟩, rfl⟩

end Runs

/-- A client of router 1 and one of router 2 make a communicator of the node on server 3,
both under id 9: their threads have the same number, each on its host. The first
disconnects, and the second asks. -/
def twoHosts : List (FleetLabel Int) :=
  let create : Label Int := .clientEvent 4 (.commCreate
    { toCommEvent := newCommEvent .commCreate 0 9, members := [[[110]]] }) 0
  [.router 1 (.acceptClient 4), .router 2 (.acceptClient 4), .router 1 create, .router 2 create,
    .deliver 1 (appId 1 3), .deliver 2 (appId 1 3), .router 1 (.clientClosed 4),
    .deliver 1 (appId 1 3),
    .router 2 (.clientEvent 4 (.commReq
      { toCommEvent := { newCommEvent .commReq 1 9 with op := .get }, grpIndex := 0
        attrName := [.power], setValues := [], valueOp := [.fpAdd] }) 100)]

/-- Router 2 has a channel to router 1. -/
def toFirst : RouterID → RouterID → Option RtrChan :=
  fun r r' => if r = 2 ∧ r' = 1 then some 5 else none

theorem oneServer_served : Served oneServer (appId 1 3) := ⟨[110], rfl, by decide⟩

theorem oneServer_injective :
    ∀ a b d, Served oneServer d → oneServer a = some d → oneServer b = some d → a = b := by
  intro a b d _ ha hb
  simp only [oneServer, Option.ite_none_right_eq_some] at ha hb
  rw [ha.1, hb.1]

theorem twoHosts_run :
    ∃ s o ev, Run (Step oneServer fun _ _ => true) (start oneServer toFirst) twoHosts s ∧
      s.flight 2 (appId 1 3) = [(o, ev)] ∧ requests ev = some 9 ∧
      s.servers (appId 1 3) 9 = none :=
  ⟨_, _, _, .cons (router_step_of rfl rfl) (.cons (router_step_of rfl rfl)
    (.cons (router_step_of rfl rfl) (.cons (router_step_of rfl rfl)
    (.cons ⟨oneServer_served, rfl⟩ (.cons ⟨oneServer_served, rfl⟩
    (.cons (router_step_of trivial rfl) (.cons ⟨oneServer_served, rfl⟩
    (.cons (router_step_of rfl rfl) (.nil _))))))))), rfl, rfl, rfl⟩

theorem communicators_isolated_iff_twoHosts :
    Along (Step oneServer fun _ _ => true) (Isolated oneServer) (start oneServer toFirst)
        twoHosts ↔
      EachStep (Step oneServer fun _ _ => true) DestroysOwn (start oneServer toFirst)
        twoHosts := by
  obtain ⟨s, _, _, hrun, _⟩ := twoHosts_run
  exact communicators_isolated_iff oneServer toFirst _ oneServer_injective twoHosts s hrun

/-- The request of the second client is next at the server, and its communicator is gone. -/
theorem other_host_destroys :
    ∃ s, Run (Step oneServer fun _ _ => true) (start oneServer toFirst) twoHosts s ∧
      ¬ s.Isolated oneServer := by
  obtain ⟨s, o, ev, hrun, hflight, hrequests, hgone⟩ := twoHosts_run
  refine ⟨s, hrun, ?_⟩
  intro h
  obtain ⟨name, _, hobj⟩ := h.served 2 (appId 1 3) o ev [] 9 oneServer_served hflight hrequests
  exact commObj_of_none hgone hobj

end Fleet

end PwrApi
