import PwrApi.Router.Delivery
import PwrApi.Router.Messages
import Mathlib.Data.List.Nodup

/-! What a client leaves at the servers when it disconnects. -/

namespace PwrApi.Router

open Function Runs PwrApi.Server

variable {V : Type}

section Covers

/-- The sources of the first object of a communicator are at all servers that its sources
are at. -/
def FirstCovers (route : ObjID → AppID) (ev : CommCreateEvent) : Prop :=
  ∀ obj ∈ ev.members.flatten, route obj ≠ unrouted →
    ∃ first ∈ ev.members.headD [], route (cStr first) = route obj

theorem firstCovers_single {route : ObjID → AppID} {ev : CommCreateEvent}
    {sources : List ObjID} (hmembers : ev.members = [sources])
    (hnames : ∀ obj ∈ sources, cStr obj = obj) : FirstCovers route ev := by
  intro obj hobj _
  rw [hmembers, List.flatten_singleton] at hobj
  refine ⟨obj, ?_, by rw [hnames obj hobj]⟩
  rw [hmembers]
  exact hobj

end Covers

/-- A router with the events it has sent for one of its clients. -/
structure Watched (V : Type) where
  rtr : Router V
  mine : List (AppID × RouterEvent V)

namespace Watched

def sentTo (s : Watched V) (d : AppID) : List (Payload V) :=
  (eventsFor s.mine d).map (·.payload)

/-- Every server that was told of a communicator was told that it is gone, and has no
entry when it is through with what it was sent. -/
structure CleanedUp (s : Watched V) : Prop where
  told : ∀ d id, (∃ ev ∈ s.sentTo d, creates ev = some id) →
    ∃ ev ∈ s.sentTo d, destroys ev = some id
  gone : ∀ d found map, (s.sentTo d).foldlM (receive found) (fun _ => none) = .ok map →
    ∀ id, map id = none

def createdBy (ec : ClientChan) (ls : List (Label V)) : List CommCreateEvent :=
  ls.filterMap (createOf ec)

theorem mem_sentTo {s : Watched V} {d : AppID} {P : Payload V → Prop} :
    (∃ ev ∈ s.sentTo d, P ev) ↔ ∃ re, (d, re) ∈ s.mine ∧ P re.payload := by
  simp [sentTo, eventsFor]

variable [Zero V] [Add V]

/-- A step of the router, which adds to what was sent for the client. -/
def Step (ec : ClientChan) (s : Watched V) (l : Label V) (t : Watched V) : Prop :=
  s.rtr.Step l t.rtr ∧ t.mine = s.mine ++
    if clientOf l = some ec then t.rtr.mail.calls.drop s.rtr.mail.calls.length else []

section Steps

variable {ec : ClientChan} {s t : Watched V} {l : Label V}

theorem step_mine (h : Step ec s l t) (hclient : clientOf l = some ec) :
    t.mine = s.mine ++ s.rtr.forwards (s.rtr.clientSends l) := by
  rw [h.2, if_pos hclient, dispatch_calls hclient h.1.2, List.drop_left]

theorem step_mine_other (h : Step ec s l t) (hclient : clientOf l ≠ some ec) :
    t.mine = s.mine := by
  rw [h.2, if_neg hclient, List.append_nil]

theorem step_route (h : Step ec s l t) : t.rtr.findRoute = s.rtr.findRoute := by
  funext obj
  rw [findRoute, findRoute, (dispatch_config h.1.2).1]

theorem step_sentTo (h : Step ec s l t) (hclient : clientOf l = some ec) {d : AppID}
    {P : Payload V → Prop} :
    (∃ ev ∈ t.sentTo d, P ev) ↔ (∃ ev ∈ s.sentTo d, P ev) ∨
      d ≠ unrouted ∧ ∃ obj, s.rtr.findRoute obj = d ∧
        ∃ ev, (obj, ev) ∈ s.rtr.clientSends l ∧ P ev := by
  rw [mem_sentTo, mem_sentTo, ← exists_forwards, step_mine h hclient]
  simp only [List.mem_append, or_and_right, exists_or]

end Steps

/-- The communicators of a connected client, and what the servers know of them. -/
structure Inv (ec : ClientChan) (evs : List CommCreateEvent) (s : Watched V) : Prop where
  kept : ∃ client, s.rtr.clientMap ec = some client ∧
    client.commMap.Perm (evs.map fun ev => (ev.commID, ev))
  distinct : (evs.map (·.commID)).Nodup
  told : ∀ d id, (∃ ev ∈ s.sentTo d, creates ev = some id) ↔
    ∃ ev ∈ evs, ev.commID = id ∧ d ≠ unrouted ∧
      ∃ obj ∈ ev.members.flatten, s.rtr.findRoute obj = d
  undestroyed : ∀ d id, ¬ ∃ ev ∈ s.sentTo d, destroys ev = some id

section Invariant

variable {ec : ClientChan} {evs : List CommCreateEvent} {s t : Watched V} {l : Label V}

theorem step_creates (h : Step ec s l t) (d : AppID) (id : CommID) :
    (∃ ev ∈ t.sentTo d, creates ev = some id) ↔ (∃ ev ∈ s.sentTo d, creates ev = some id) ∨
      ∃ ev, createOf ec l = some ev ∧ ev.commID = id ∧ d ≠ unrouted ∧
        ∃ obj ∈ ev.members.flatten, s.rtr.findRoute obj = d := by
  by_cases hclient : clientOf l = some ec
  · rw [step_sentTo h hclient]
    simp only [clientSends_creates hclient]
    apply or_congr Iff.rfl
    constructor
    · rintro ⟨hd, obj, hroute, ev, hcreate, hid, hobj⟩
      exact ⟨ev, hcreate, hid, hd, obj, hobj, hroute⟩
    · rintro ⟨ev, hcreate, hid, hd, obj, hobj, hroute⟩
      exact ⟨hd, obj, hroute, ev, hcreate, hid, hobj⟩
  · rw [sentTo, step_mine_other h hclient]
    constructor
    · exact .inl
    · rintro (hsent | ⟨ev, hcreate, _⟩)
      · exact hsent
      · exact absurd (clientOf_createOf hcreate) hclient

theorem step_destroys (h : Step ec s l t) (hclose : l ≠ .clientClosed ec) (d : AppID)
    (id : CommID) :
    (∃ ev ∈ t.sentTo d, destroys ev = some id) ↔ ∃ ev ∈ s.sentTo d, destroys ev = some id := by
  by_cases hclient : clientOf l = some ec
  · rw [step_sentTo h hclient]
    simp only [clientSends_destroys hclient, hclose, false_and, and_false, exists_false, or_false]
  · rw [sentTo, step_mine_other h hclient]
    rfl

theorem step_client (hstep : s.rtr.Step l t.rtr) (hclose : l ≠ .clientClosed ec)
    {client : Client} (hclient : s.rtr.clientMap ec = some client) :
    ∃ client', t.rtr.clientMap ec = some client' ∧ match createOf ec l with
      | none => client' = client
      | some ev => client'.commMap = Client.insertComm ev.commID ev client.commMap := by
  have hstays : t.rtr.clientMap ec ≠ none :=
    dispatch_clients hstep.2 (by rw [hclient]; exact Option.some_ne_none client) hclose
  obtain ⟨client', hclient'⟩ := Option.ne_none_iff_exists'.mp hstays
  refine ⟨client', hclient', ?_⟩
  rw [dispatch_clientMap hstep.2] at hclient'
  rcases clientsAfter_some hclient' with ⟨rfl, _⟩ | ⟨_, old, hold, hcomms⟩
  · have hnew : s.rtr.clientMap ec = none := hstep.1
    rw [hnew] at hclient
    cases hclient
  · obtain rfl := Option.some.inj (hold.symm.trans hclient)
    exact hcomms

theorem create_fresh (hstep : s.rtr.Step l t.rtr) {client : Client}
    (hclient : s.rtr.clientMap ec = some client) {ev : CommCreateEvent}
    (hcreate : createOf ec l = some ev) : client.commMap.lookup ev.commID = none := by
  cases l with
  | clientEvent other sent info =>
      cases sent with
      | commCreate sent =>
          simp only [createOf, Option.ite_none_right_eq_some, Option.some.injEq] at hcreate
          obtain ⟨rfl, rfl⟩ := hcreate
          obtain ⟨client', _, hclient', hadd, _⟩ := processCommCreate_ok hstep.2
          obtain rfl := Option.some.inj (hclient'.symm.trans hclient)
          simp only [Client.addComm, bind_eq_ok, require_eq_ok] at hadd
          obtain ⟨_, hlookup, _⟩ := hadd
          exact hlookup
      | _ => cases hcreate
  | _ => cases hcreate

theorem inv_step (h : s.Inv ec evs) (hstep : Step ec s l t) (hclose : l ≠ .clientClosed ec) :
    t.Inv ec (evs ++ (createOf ec l).toList) := by
  obtain ⟨client, hclient, hperm⟩ := h.kept
  obtain ⟨client', hclient', hcomms⟩ := step_client hstep.1 hclose hclient
  have hroute := step_route hstep
  refine ⟨⟨client', hclient', ?_⟩, ?_, ?_, ?_⟩
  · cases hcreate : createOf ec l with
    | none =>
        rw [hcreate] at hcomms
        rw [hcomms, Option.toList_none, List.append_nil]
        exact hperm
    | some ev =>
        rw [hcreate] at hcomms
        rw [hcomms, Option.toList_some, List.map_append, List.map_singleton]
        calc
          List.Perm _ ((ev.commID, ev) :: client.commMap) := insertComm_perm _ _ _
          List.Perm _ ((ev.commID, ev) :: evs.map fun ev => (ev.commID, ev)) := hperm.cons _
          List.Perm _ _ := (List.perm_append_singleton _ _).symm
  · cases hcreate : createOf ec l with
    | none =>
        rw [Option.toList_none, List.append_nil]
        exact h.distinct
    | some ev =>
        have hfresh := create_fresh hstep.1 hclient hcreate
        rw [Option.toList_some, List.map_append, List.map_singleton,
          (List.perm_append_singleton _ _).nodup_iff, List.nodup_cons]
        refine ⟨?_, h.distinct⟩
        intro hmem
        obtain ⟨old, hold, hid⟩ := List.mem_map.mp hmem
        have hentry : (old.commID, old) ∈ client.commMap :=
          hperm.mem_iff.mpr (List.mem_map_of_mem hold)
        have hne := bne_iff_ne.mp (List.lookup_eq_none_iff.mp hfresh _ hentry)
        exact hne hid.symm
  · intro d id
    rw [step_creates hstep, h.told, hroute]
    cases createOf ec l with
    | none => simp
    | some ev => simp [or_and_right, exists_or]
  · intro d id
    rw [step_destroys hstep hclose]
    exact h.undestroyed d id

theorem inv_run {ls : List (Label V)} (h : s.Inv ec evs) (hrun : Run (Step ec) s ls t)
    (hopen : .clientClosed ec ∉ ls) : t.Inv ec (evs ++ createdBy ec ls) := by
  induction hrun generalizing evs with
  | nil => rwa [createdBy, List.filterMap_nil, List.append_nil]
  | @cons s mid t l ls hstep _ ih =>
      rw [List.mem_cons, not_or] at hopen
      have hmid := inv_step h hstep (Ne.symm hopen.1)
      have hall : evs ++ createdBy ec (l :: ls) =
          evs ++ (createOf ec l).toList ++ createdBy ec ls := by
        rw [createdBy, createdBy, List.filterMap_cons, List.append_assoc]
        cases createOf ec l <;> rfl
      rw [hall]
      exact ih hmid hopen.2

theorem inv_accept {rtr : Router V} (hstep : Step ec ⟨rtr, []⟩ (.acceptClient ec) t) :
    t.Inv ec [] := by
  have hempty : ∀ d, t.sentTo d = [] := by
    intro d
    rw [sentTo, step_mine_other hstep (by simp [clientOf])]
    rfl
  refine ⟨⟨{ commMap := [] }, ?_, .refl _⟩, List.nodup_nil, ?_, ?_⟩
  · rw [dispatch_clientMap hstep.1.2, clientsAfter, update_self]
  · intro d id
    simp [hempty]
  · intro d id
    simp [hempty]

theorem close_destroys (h : s.Inv ec evs) (hstep : Step ec s (.clientClosed ec) t) (d : AppID)
    (id : CommID) :
    (∃ ev ∈ t.sentTo d, destroys ev = some id) ↔ ∃ ev ∈ evs, ev.commID = id ∧ d ≠ unrouted ∧
      ∃ first ∈ ev.members.headD [], s.rtr.findRoute (cStr first) = d := by
  obtain ⟨client, hclient, hperm⟩ := h.kept
  rw [step_sentTo hstep rfl, or_iff_right (h.undestroyed d id)]
  simp only [clientSends_destroys (show clientOf (.clientClosed ec) = some ec from rfl)]
  constructor
  · rintro ⟨hd, obj, hroute, _, client', hclient', comm, hcomm, hid, first, hfirst, rfl⟩
    obtain rfl := Option.some.inj (hclient'.symm.trans hclient)
    obtain ⟨ev, hev, rfl⟩ := List.mem_map.mp (hperm.mem_iff.mp hcomm)
    exact ⟨ev, hev, hid, hd, first, hfirst, hroute⟩
  · rintro ⟨ev, hev, hid, hd, first, hfirst, hroute⟩
    have hcomm : (ev.commID, ev) ∈ client.commMap := hperm.mem_iff.mpr (List.mem_map_of_mem hev)
    exact ⟨hd, _, hroute, trivial, client, hclient, _, hcomm, hid, first, hfirst, rfl⟩

theorem close_creates (h : s.Inv ec evs) (hstep : Step ec s (.clientClosed ec) t) (d : AppID)
    (id : CommID) :
    (∃ ev ∈ t.sentTo d, creates ev = some id) ↔ ∃ ev ∈ evs, ev.commID = id ∧ d ≠ unrouted ∧
      ∃ obj ∈ ev.members.flatten, s.rtr.findRoute obj = d := by
  rw [step_creates hstep, h.told]
  apply or_iff_left
  rintro ⟨ev, hev, _⟩
  cases hev

theorem close_sentTo (hstep : Step ec s (.clientClosed ec) t) (d : AppID) :
    ∃ more, t.sentTo d = s.sentTo d ++ more ∧ ∀ ev ∈ more, ∀ id, creates ev ≠ some id := by
  refine ⟨(eventsFor (s.rtr.forwards (s.rtr.clientSends (.clientClosed ec))) d).map (·.payload),
    ?_, ?_⟩
  · rw [sentTo, sentTo, step_mine hstep rfl, eventsFor_append, List.map_append]
  · intro ev hev id hcreates
    simp only [eventsFor, List.mem_map, List.mem_filter, decide_eq_true_eq] at hev
    obtain ⟨re, ⟨⟨d', re'⟩, ⟨hmem, _⟩, rfl⟩, rfl⟩ := hev
    obtain ⟨_, obj, _, hsent⟩ := (exists_forwards (P := fun ev => creates ev = some id)).mp
      ⟨re', hmem, hcreates⟩
    obtain ⟨ev, hev, _⟩ := (clientSends_creates rfl).mp hsent
    cases hev

theorem gone_of_told (h : s.Inv ec evs) (hstep : Step ec s (.clientClosed ec) t)
    (htold : ∀ d id, (∃ ev ∈ t.sentTo d, creates ev = some id) →
      ∃ ev ∈ t.sentTo d, destroys ev = some id) (d : AppID) (found : ObjID → Bool)
    (map : CommMap) (hmap : (t.sentTo d).foldlM (receive found) (fun _ => none) = .ok map)
    (id : CommID) : map id = none := by
  obtain ⟨more, hmore, hnone⟩ := close_sentTo hstep d
  rw [hmore, List.foldlM_append, bind_eq_ok] at hmap
  obtain ⟨mid, hmid, hlast⟩ := hmap
  apply receives_destroyed hlast fun ev hev => hnone ev hev id
  by_cases hentry : mid id = none
  · exact .inr hentry
  · left
    obtain ⟨create, hcreate, hid⟩ := receives_entry hmid hentry rfl
    obtain ⟨ev, hev, hdestroys⟩ := htold d id
      ⟨create, by rw [hmore]; exact List.mem_append_left _ hcreate, hid⟩
    rw [hmore, List.mem_append] at hev
    rcases hev with hev | hev
    · exact absurd ⟨ev, hev, hdestroys⟩ (h.undestroyed d id)
    · exact ⟨ev, hev, hdestroys⟩

theorem cleanedUp_iff (h : s.Inv ec evs) (hstep : Step ec s (.clientClosed ec) t) :
    t.CleanedUp ↔ ∀ ev ∈ evs, FirstCovers s.rtr.findRoute ev := by
  have htold : (∀ d id, (∃ ev ∈ t.sentTo d, creates ev = some id) →
      ∃ ev ∈ t.sentTo d, destroys ev = some id) ↔
        ∀ ev ∈ evs, FirstCovers s.rtr.findRoute ev := by
    simp only [close_creates h hstep, close_destroys h hstep]
    constructor
    · intro hall ev hev obj hobj hroute
      obtain ⟨other, hother, hid, _, first, hfirst, heq⟩ :=
        hall _ ev.commID ⟨ev, hev, rfl, hroute, obj, hobj, rfl⟩
      obtain rfl := List.inj_on_of_nodup_map h.distinct hother hev hid
      exact ⟨first, hfirst, heq⟩
    · rintro hall d id ⟨ev, hev, hid, hd, obj, hobj, rfl⟩
      obtain ⟨first, hfirst, heq⟩ := hall ev hev obj hobj hd
      exact ⟨ev, hev, hid, hd, first, hfirst, heq⟩
  rw [← htold]
  exact ⟨CleanedUp.told, fun hall => ⟨hall, gone_of_told h hstep hall⟩⟩

end Invariant

/-- The servers are rid of a client that has disconnected exactly if, for every communicator
it made, the sources of the first object are at all the servers of the others. -/
theorem disconnect_cleans_up_iff (rtr : Router V) (ec : ClientChan) (ls : List (Label V))
    (s : Watched V)
    (hrun : Run (Step ec) ⟨rtr, []⟩ (.acceptClient ec :: ls ++ [.clientClosed ec]) s)
    (hopen : .clientClosed ec ∉ ls) :
    s.CleanedUp ↔ ∀ ev ∈ createdBy ec ls, FirstCovers rtr.findRoute ev := by
  rw [List.cons_append] at hrun
  cases hrun with
  | @cons _ first _ _ _ haccept hrest =>
      obtain ⟨last, hmiddle, hend⟩ := hrest.split
      have hinv : last.Inv ec (createdBy ec ls) := inv_run (inv_accept haccept) hmiddle hopen
      have hroute : last.rtr.findRoute = rtr.findRoute := by
        have hfirst : first.rtr.findRoute = rtr.findRoute := step_route haccept
        rw [← hfirst]
        exact hmiddle.invariant (fun t => t.rtr.findRoute = first.rtr.findRoute)
          (fun _ _ _ heq hstep => (step_route hstep).trans heq) rfl
      cases hend with
      | cons hclose hnil =>
          cases hnil
          rw [cleanedUp_iff hinv hclose, hroute]

theorem step_of {ec : ClientChan} {s : Watched V} {l : Label V} {rtr' : Router V}
    (hfresh : s.rtr.Fresh l) (hdispatch : s.rtr.dispatch l = .ok rtr') :
    Step ec s l ⟨rtr', s.mine ++
      if clientOf l = some ec then rtr'.mail.calls.drop s.rtr.mail.calls.length else []⟩ :=
  ⟨⟨hfresh, hdispatch⟩, rfl⟩

end Watched

def twoServers : ObjID → Option AppID := fun name =>
  if name = [97] then some (appId 1 3) else if name = [98] then some (appId 1 4) else none

/-- A client makes a communicator of some objects and disconnects. -/
def oneComm (members : List (List ObjID)) : List (Label Int) :=
  [.clientEvent 4 (.commCreate { toCommEvent := newCommEvent .commCreate 0 9, members }) 0]

namespace Watched

theorem oneObject_run :
    ∃ s : Watched Int, Run (Step 4) ⟨Router.start 1 twoServers fun _ => none, []⟩
      (.acceptClient 4 :: oneComm [[[97], [98]]] ++ [.clientClosed 4]) s :=
  ⟨_, .cons (step_of rfl rfl) (.cons (step_of rfl rfl)
    (.cons (step_of trivial rfl) (.nil _)))⟩

theorem disconnect_cleans_up_iff_oneObject : ∃ s : Watched Int, s.CleanedUp := by
  obtain ⟨s, hrun⟩ := oneObject_run
  refine ⟨s, (disconnect_cleans_up_iff _ 4 (oneComm [[[97], [98]]]) s hrun
    (by simp [oneComm])).mpr ?_⟩
  intro ev hev
  obtain rfl := List.mem_singleton.mp hev
  exact firstCovers_single rfl (by decide)

/-- A group of two objects on two servers: the second keeps its entry. -/
theorem group_member_is_left :
    ∃ s : Watched Int, Run (Step 4) ⟨Router.start 1 twoServers fun _ => none, []⟩
      (.acceptClient 4 :: oneComm [[[97]], [[98]]] ++ [.clientClosed 4]) s ∧ ¬ s.CleanedUp := by
  refine ⟨_, .cons (step_of rfl rfl) (.cons (step_of rfl rfl)
    (.cons (step_of trivial rfl) (.nil _))), ?_⟩
  intro h
  exact absurd (h.told (appId 1 4) 9 (by decide)) (by decide)

end Watched

end PwrApi.Router
