import PwrApi.Lib.Relay
import PwrApi.Router.TreeCore

/-! The events between routers: what one router writes for another is on its way from router
to router of the tree, whatever the routers do meanwhile. -/

namespace PwrApi

open Function Runs Router

/-- The routers of a tree and the events on the connections between them, the oldest first.
A connection is named by the router that writes to it and by its channel there. `made` is a
record of the events that come into being at a router or at one of its servers. -/
structure Transport (α V : Type) where
  routers : α → Router V
  flight : List ((α × RtrChan) × RouterEvent V)
  made : List (α × RouterEvent V)

namespace Router

variable {V : Type}

def Chan.toRouter : Chan → Option RtrChan
  | .router ch => some ch
  | .server _ => none

def toRouters (rtr : Router V) : List (RtrChan × RouterEvent V) :=
  rtr.mail.written.filterMap fun (ch, re) => ch.toRouter.map fun ch => (ch, re)

/-- The channel on which an event goes on to another router. -/
def onChannel (rtr : Router V) (re : RouterEvent V) : Option (RtrChan × RouterEvent V) :=
  if rtrIdOf re.dest = rtr.rtrId then none
  else (rtr.getChannel (rtrIdOf re.dest)).map fun ch => (ch, re)

/-- Between the two states the events `new` were passed to `sendEvent`, in this order. -/
structure Sends (rtr : Router V) (new : List (RouterEvent V)) (rtr' : Router V) : Prop where
  calls : rtr'.mail.calls = rtr.mail.calls ++ new.map fun re => (re.dest, re)
  routers : rtr'.toRouters = rtr.toRouters ++ new.filterMap rtr.onChannel
  rtrId : rtr'.rtrId = rtr.rtrId
  getChannel : rtr'.getChannel = rtr.getChannel

/-- What was sent between the two states are events of this router and of its servers. -/
def SendsOwn (rtr rtr' : Router V) : Prop :=
  ∃ new, rtr.Sends new rtr' ∧ ∀ re ∈ new, rtrIdOf re.src = rtr.rtrId

section Sends

variable {rtr mid rtr' : Router V}

theorem Sends.trans {new more : List (RouterEvent V)} (h : rtr.Sends new mid)
    (h' : mid.Sends more rtr') : rtr.Sends (new ++ more) rtr' := by
  have hchannel : mid.onChannel = rtr.onChannel := by
    funext re
    rw [onChannel, onChannel, h.rtrId, h.getChannel]
  refine ⟨?_, ?_, h'.rtrId.trans h.rtrId, h'.getChannel.trans h.getChannel⟩
  · rw [h'.calls, h.calls, List.map_append, List.append_assoc]
  · rw [h'.routers, h.routers, hchannel, List.filterMap_append, List.append_assoc]

theorem Sends.nothing (hcalls : rtr'.mail.calls = rtr.mail.calls)
    (hrouters : rtr'.toRouters = rtr.toRouters) (hid : rtr'.rtrId = rtr.rtrId)
    (hchannel : rtr'.getChannel = rtr.getChannel) : rtr.Sends [] rtr' :=
  ⟨by simp [hcalls], by simp [hrouters], hid, hchannel⟩

theorem SendsOwn.trans (h : rtr.SendsOwn mid) (h' : mid.SendsOwn rtr') : rtr.SendsOwn rtr' := by
  obtain ⟨new, hnew, hsrc⟩ := h
  obtain ⟨more, hmore, hsrc'⟩ := h'
  refine ⟨new ++ more, hnew.trans hmore, fun re hre => ?_⟩
  rcases List.mem_append.mp hre with hre | hre
  · exact hsrc re hre
  · rw [hsrc' re hre, hnew.rtrId]

theorem Sends.own (h : rtr.Sends [] rtr') : rtr.SendsOwn rtr' :=
  ⟨[], h, fun _ hre => absurd hre List.not_mem_nil⟩

theorem SendsOwn.refl (rtr : Router V) : rtr.SendsOwn rtr := (Sends.nothing rfl rfl rfl rfl).own

theorem onChannel_of_destChan {re : RouterEvent V} {ec : Option Chan}
    (h : rtr.destChan re.dest = .ok ec) :
    rtr.onChannel re = (ec.bind Chan.toRouter).map fun ch => (ch, re) := by
  rcases destChan_ok h with ⟨hlocal, rfl⟩ | ⟨hremote, ch, hch, rfl⟩
  · rw [onChannel, if_pos hlocal]
    cases rtr.findServerChan (serverIdOf re.dest) with
    | none => rfl
    | some ec => rfl
  · rw [onChannel, if_neg hremote, hch]
    rfl

theorem sends_sentOn {re : RouterEvent V} {ch : Chan}
    (h : rtr.destChan re.dest = .ok (some ch)) : rtr.Sends [re] (rtr.sentOn re.dest re ch) := by
  have hchannel := onChannel_of_destChan h
  refine ⟨rfl, ?_, rfl, rfl⟩
  cases ch with
  | server ec => simp [toRouters, sentOn, hchannel, Chan.toRouter]
  | router ec => simp [toRouters, sentOn, hchannel, Chan.toRouter]

theorem sends_pushPending {re : RouterEvent V} (h : rtr.destChan re.dest = .ok none) :
    rtr.Sends [re] (((rtr.recordCall re.dest re).newEvent re).pushPending (serverIdOf re.dest)
      rtr.mail.nextEvent) := by
  have hchannel := onChannel_of_destChan h
  refine ⟨rfl, ?_, rfl, rfl⟩
  simp [toRouters, pushPending, newEvent, recordCall, hchannel]

theorem sendEvent_own {dest : AppID} {ev : Payload V} (h : rtr.sendEvent dest ev = .ok rtr') :
    rtr.SendsOwn rtr' := by
  have hcases := sendEvent_ok h
  generalize hre : (⟨appId rtr.rtrId noServer, dest, ev⟩ : RouterEvent V) = re at hcases
  have hsingle : ∀ re' ∈ [re], rtrIdOf re'.src = rtr.rtrId := by
    intro re' hre'
    rw [List.mem_singleton.mp hre', ← hre, rtrIdOf_appId]
  have hto : dest = re.dest := by rw [← hre]
  rw [hto] at hcases
  rcases hcases with ⟨hdest, rfl⟩ | ⟨ch, hdest, rfl⟩
  · exact ⟨[re], sends_pushPending hdest, hsingle⟩
  · exact ⟨[re], sends_sentOn hdest, hsingle⟩

theorem sendEventTo_own {start : Router V} {obj : ObjID} {ev : Payload V}
    (hs : start.SendsOwn rtr) (h : rtr.sendEventTo obj ev = .ok rtr') : start.SendsOwn rtr' := by
  rcases sendEventTo_cases h with ⟨_, rfl⟩ | ⟨_, h⟩
  · exact hs
  · exact hs.trans (sendEvent_own h)

theorem sends_reply (h : ReplyOnly rtr rtr') : rtr.Sends [] rtr' := by
  rw [show rtr' = _ from h]
  exact .nothing rfl rfl rfl rfl

theorem sends_pending {id : ServerID} (h : rtr.doPending id = .ok rtr') :
    rtr.Sends [] rtr' := by
  unfold doPending at h
  split at h
  · exact Except.ok.inj h ▸ .nothing rfl rfl rfl rfl
  · simp only [bind_eq_ok] at h
    obtain ⟨ec, _, mid, hmid, hrtr⟩ := h
    have hwrites : rtr.Sends [] mid := by
      refine foldlM_preserves (rtr.Sends []) _ (fun s ptr s' _ hs hstep => ?_)
        (.nothing rfl rfl rfl rfl) hmid
      obtain ⟨re, _, rfl⟩ := writeEvent_ok hstep
      exact hs.trans (.nothing rfl (by simp [toRouters, Chan.toRouter]) rfl rfl)
    exact Except.ok.inj hrtr ▸ hwrites.trans (.nothing rfl rfl rfl rfl)

variable [Zero V] [Add V]

theorem processServer_sends {ec : Option ServerChan} {ev : Payload V}
    (h : rtr.processServer ec ev = .ok rtr') : rtr.Sends [] rtr' := by
  rcases processServer_ok h with hreply | ⟨connect, _, hconnect⟩
  · exact sends_reply hreply
  · obtain ⟨ch, mid, _, _, _, rfl, hpending⟩ := processServerConnect_ok hconnect
    have hmid := sends_pending hpending
    exact ⟨hmid.calls, hmid.routers, hmid.rtrId, hmid.getChannel⟩

theorem processRouterEvent_sends {re : RouterEvent V} (h : rtr.processRouterEvent re = .ok rtr') :
    rtr.Sends [re] rtr' := by
  rcases processRouterEvent_ok h with ⟨hlocal, _, mid, hmid, rfl⟩ | ⟨_, hdest, rfl⟩ |
    ⟨_, ch, hdest, rfl⟩
  · have hread : rtr.Sends [re] ((rtr.newEvent re).recordCall re.dest re) := by
      refine ⟨rfl, ?_, rfl, rfl⟩
      simp [toRouters, newEvent, recordCall, onChannel, hlocal]
    have hdone : mid.Sends [] (mid.deleteEvent rtr.mail.nextEvent) := .nothing rfl rfl rfl rfl
    exact (hread.trans (processServer_sends hmid)).trans hdone
  · have hdone : ∀ s : Router V, s.Sends [] (s.deleteEvent rtr.mail.nextEvent) :=
      fun _ => .nothing rfl rfl rfl rfl
    exact (sends_pushPending hdest).trans (hdone _)
  · exact sends_sentOn hdest

theorem dispatch_own {l : Label V} (hl : ∀ re, l = .routerEvent re → rtrIdOf re.src = rtr.rtrId)
    (h : rtr.dispatch l = .ok rtr') : rtr.SendsOwn rtr' := by
  have hsame : ∀ {s : Router V}, rtr.SendsOwn s → ∀ {s' : Router V}, s'.mail = s.mail →
      s'.rtrId = s.rtrId → s'.getChannel = s.getChannel → rtr.SendsOwn s' := by
    intro s hs s' hmail hid hchannel
    exact hs.trans (Sends.nothing (by rw [hmail]) (by rw [toRouters, toRouters, hmail]) hid
      hchannel).own
  cases l with
  | acceptClient ec => exact Except.ok.inj h ▸ hsame (.refl rtr) rfl rfl rfl
  | acceptServer ec => exact Except.ok.inj h ▸ hsame (.refl rtr) rfl rfl rfl
  | clientEvent ec ev info =>
      exact processClient_preserves rtr.SendsOwn (fun _ _ _ _ => sendEventTo_own)
        (fun s _ hs => hsame hs rfl rfl rfl) (fun s _ hs => hsame hs rfl rfl rfl) (.refl rtr) h
  | clientClosed ec =>
      exact delClientChan_preserves rtr.SendsOwn (fun _ _ _ _ => sendEventTo_own)
        (fun s _ hs => hsame hs rfl rfl rfl) (.refl rtr) h
  | serverEvent ec ev => exact (processServer_sends h).own
  | serverClosed ec =>
      obtain rfl := Except.ok.inj h
      unfold delServerChan
      split
      · exact .refl rtr
      · exact hsame (.refl rtr) rfl rfl rfl
  | routerEvent re =>
      refine ⟨[re], processRouterEvent_sends h, fun re' hre' => ?_⟩
      rw [List.mem_singleton.mp hre']
      exact hl re rfl

end Sends

end Router

namespace Transport

variable {α V : Type}

inductive Label (α V : Type)
  | work (x : α) (l : Router.Label V)
  | arrive (x : α) (ch : RtrChan)

/-- What a step of the router at `x` has put on its connections to other routers. -/
def written (x : α) (rtr rtr' : Router V) : List ((α × RtrChan) × RouterEvent V) :=
  (rtr'.toRouters.drop rtr.toRouters.length).map fun (ch, re) => ((x, ch), re)

/-- What a step of the router at `x` has passed to `sendEvent`. -/
def passed (x : α) (rtr rtr' : Router V) : List (α × RouterEvent V) :=
  (rtr'.mail.calls.drop rtr.mail.calls.length).map fun (_, re) => (x, re)

def start (net : TreeNetwork α) (table : α → ObjID → Option AppID) : Transport α V where
  routers x := Router.start (net.id x) (table x) (treeChannel (net.links x))
  flight := []
  made := []

section Steps

variable [DecidableEq α] [Zero V] [Add V] (net : TreeNetwork α)

/-- A router takes what its clients and servers bring, or the oldest event of a connection
that leads to it. A server answers an event with the addresses of that event turned round,
so that its answer is from an address of this router. -/
inductive Step : Transport α V → Label α V → Transport α V → Prop
  | work {s : Transport α V} {x : α} {l : Router.Label V} {rtr' : Router V} :
      (∀ re, l = .routerEvent re → rtrIdOf re.src = net.id x) → (s.routers x).Step l rtr' →
      Step s (.work x l)
        { routers := update s.routers x rtr'
          flight := s.flight ++ written x (s.routers x) rtr'
          made := s.made ++ passed x (s.routers x) rtr' }
  | arrive {s : Transport α V} {x y : α} {ch : RtrChan} {re : RouterEvent V}
      {front back : List ((α × RtrChan) × RouterEvent V)} {rtr' : Router V} :
      s.flight = front ++ ((x, ch), re) :: back → (∀ e ∈ front, e.1 ≠ (x, ch)) →
      net.peer x ch = y → (s.routers y).Step (.routerEvent re) rtr' →
      Step s (.arrive x ch)
        { routers := update s.routers y rtr'
          flight := front ++ back ++ written y (s.routers y) rtr'
          made := s.made }

end Steps

def isArrival : Label α V → Bool
  | .work _ _ => false
  | .arrive _ _ => true

/-- Of some events, those from the router `x` and its servers for the router `y` and its
servers. -/
def between (net : TreeNetwork α) (x y : α) (events : List (RouterEvent V)) :
    List (RouterEvent V) :=
  events.filter fun re => rtrIdOf re.src = net.id x ∧ rtrIdOf re.dest = net.id y

/-- The events from `x` for `y` that the router at `z` has passed to `sendEvent`. -/
def seen (net : TreeNetwork α) (s : Transport α V) (x y z : α) : List (RouterEvent V) :=
  between net x y ((s.routers z).mail.calls.map Prod.snd)

/-- The routers of a tree as a relay. -/
def relay (net : TreeNetwork α) (V : Type) :
    Relay α RtrChan RouterID RouterID (RouterEvent V) where
  next d x := if d = net.id x then none else treeChannel (net.links x) d
  peer := net.peer
  name := net.id
  origin re := rtrIdOf re.src
  dest re := rtrIdOf re.dest
  name_inj := net.id_inj

section Refinement

variable {net : TreeNetwork α}

theorem trace_of_route {x y : α} {path : List α} (h : net.toParentTree.Route y x path) :
    (relay net V).Trace (net.id y) x path := by
  have hhop : ∀ {x z : α} {ch : RtrChan} {path : List α}, x ≠ y →
      treeChannel (net.links x) (net.id y) = some ch → net.peer x ch = z →
      (relay net V).Trace (net.id y) z path → (relay net V).Trace (net.id y) x (x :: path) := by
    intro x z ch path hne hch hpeer htail
    have hid : net.id y ≠ net.id x := fun heq => hne (net.id_inj y x heq).symm
    have hnext : (relay net V).next (net.id y) x = some ch := (if_neg hid).trans hch
    subst hpeer
    exact .hop hnext htail
  induction h with
  | here => exact .stay (if_pos rfl)
  | @down x c path hparent hbelow _ ih =>
      obtain ⟨ch, hch, hpeer⟩ := TreeLinks.treeChannel_towards net.matchesLead
        (.inl ⟨hparent, hbelow⟩)
      have hne : x ≠ y := by
        rintro rfl
        exact ParentTree.not_below_child hparent hbelow
      exact hhop hne hch hpeer ih
  | @up x q path hnot hparent _ ih =>
      obtain ⟨ch, hch, hpeer⟩ := TreeLinks.treeChannel_towards net.matchesLead
        (.inr ⟨hnot, hparent⟩)
      have hne : x ≠ y := by
        rintro rfl
        exact hnot (ParentTree.below_refl x)
      exact hhop hne hch hpeer ih

/-- The hops that an event has before it from the router at `x` on. -/
noncomputable def distance (net : TreeNetwork α) (x : α) (re : RouterEvent V) : Nat :=
  (relay net V).distance (rtrIdOf re.dest) x

theorem distance_path {x y : α} {re : RouterEvent V} (hdest : rtrIdOf re.dest = net.id y)
    {path : List α} (hhead : path.head? = some x) (hlast : path.getLast? = some y)
    (hchain : path.IsChain net.toParentTree.Adj) (hnodup : path.Nodup) :
    distance net x re + 1 = path.length := by
  obtain ⟨path', hroute⟩ : ∃ path, ParentTree.Route net.toParentTree y x path :=
    ParentTree.Route.exists_route x
  rw [hroute.eq_of_simple path hhead hlast hchain hnodup, distance, hdest]
  exact Relay.distance_of_trace (trace_of_route hroute)

/-- The relay that the routers realize. -/
structure Refines (net : TreeNetwork α) (s : Transport α V)
    (t : Relay.State α RtrChan (RouterEvent V)) : Prop where
  flight : t.flight = s.flight
  entered : t.entered = s.made
  taken : ∀ x, t.taken x = (s.routers x).mail.calls.map Prod.snd
  configured : ∀ x, net.Configured x (s.routers x)

theorem refines_start (net : TreeNetwork α) (table : α → ObjID → Option AppID) :
    Refines net (start net table : Transport α V) Relay.start :=
  ⟨rfl, rfl, fun _ => rfl, fun _ => ⟨rfl, rfl⟩⟩

theorem written_of_sends {x : α} {rtr rtr' : Router V} {new : List (RouterEvent V)}
    (hconf : net.Configured x rtr) (h : rtr.Sends new rtr') :
    written x rtr rtr' = (relay net V).onward x new := by
  obtain ⟨hid, hchannel⟩ := hconf
  rw [written, h.routers, List.drop_left, List.map_filterMap]
  refine List.filterMap_congr fun re _ => ?_
  by_cases hlocal : rtrIdOf re.dest = net.id x
  · simp [onChannel, relay, hid, hlocal]
  · simp [onChannel, relay, hid, hchannel, hlocal, Function.comp_def]

theorem passed_of_sends {x : α} {rtr rtr' : Router V} {new : List (RouterEvent V)}
    (h : rtr.Sends new rtr') : passed x rtr rtr' = new.map fun re => (x, re) := by
  rw [passed, h.calls, List.drop_left]
  simp [Function.comp_def]

variable [DecidableEq α]

theorem refines_take {s : Transport α V} {t : Relay.State α RtrChan (RouterEvent V)}
    (h : Refines net s t) {x : α} {rtr' : Router V} {new : List (RouterEvent V)}
    (hsends : (s.routers x).Sends new rtr') {flight : List ((α × RtrChan) × RouterEvent V)}
    {made : List (α × RouterEvent V)} :
    Refines net
      ⟨update s.routers x rtr', flight ++ written x (s.routers x) rtr', made⟩
      ((relay net V).take { t with flight, entered := made } x new) := by
  obtain ⟨hid, hchannel⟩ := h.configured x
  refine ⟨?_, rfl, fun z => ?_, fun z => ?_⟩
  · rw [written_of_sends (h.configured x) hsends]
    rfl
  · by_cases hz : z = x
    · subst hz
      have hnew : (new.map fun re => (re.dest, re)).map Prod.snd = new := by
        simp [Function.comp_def]
      simp only [Relay.take, update_self, h.taken, hsends.calls, List.map_append, hnew]
    · simp only [Relay.take, update_of_ne hz, h.taken]
  · by_cases hz : z = x
    · subst hz
      simp only [update_self]
      exact ⟨hsends.rtrId.trans hid, hsends.getChannel.trans hchannel⟩
    · simp only [update_of_ne hz]
      exact h.configured z

variable [Zero V] [Add V]

theorem refines_step {s s' : Transport α V} {t : Relay.State α RtrChan (RouterEvent V)}
    {l : Label α V} (h : Refines net s t) (hstep : Step net s l s') :
    ∃ l' t', (relay net V).Step t l' t' ∧ Refines net s' t' ∧
      Relay.isHop l' = isArrival l := by
  cases hstep with
  | @work x l rtr' hl hstep =>
      have hid := (h.configured x).1
      obtain ⟨new, hsends, hsrc⟩ := dispatch_own (by rwa [hid]) hstep.2
      have horigin : ∀ re ∈ new, (relay net V).origin re = (relay net V).name x :=
        fun re hre => (hsrc re hre).trans hid
      refine ⟨.enter x new, _, .enter horigin, ?_, rfl⟩
      rw [← h.flight, ← h.entered, ← passed_of_sends hsends]
      exact refines_take h hsends
  | @arrive x y ch re front back rtr' hflight hfront hpeer hstep =>
      have hsends : (s.routers y).Sends [re] rtr' := processRouterEvent_sends hstep.2
      refine ⟨.hop x ch, _, .hop (h.flight.trans hflight) hfront, ?_, rfl⟩
      rw [show (relay net V).peer x ch = y from hpeer, ← h.entered]
      exact refines_take h hsends

theorem refines_run {s s' : Transport α V} {t : Relay.State α RtrChan (RouterEvent V)}
    {ls : List (Label α V)} (h : Refines net s t) (hrun : Run (Step net) s ls s') :
    ∃ ls' t', Run (relay net V).Step t ls' t' ∧ Refines net s' t' ∧
      ls'.countP Relay.isHop = ls.countP isArrival := by
  induction hrun generalizing t with
  | nil => exact ⟨[], t, .nil t, h, rfl⟩
  | cons hl _ ih =>
      obtain ⟨l', mid, hstep, hmid, hhop⟩ := refines_step h hl
      obtain ⟨ls', t', hrun', ht', hcount⟩ := ih hmid
      refine ⟨l' :: ls', t', .cons hstep hrun', ht', ?_⟩
      rw [List.countP_cons, List.countP_cons, hcount, hhop]

/-- What is on the connections of a way of the events from `x` for `y`, that nearest to the
end of the way first. -/
def underWay (net : TreeNetwork α) (s : Transport α V) (x y : α) (path : List α) :
    List (RouterEvent V) :=
  (relay net V).onWay x (net.id y) s.flight path

def sent (net : TreeNetwork α) (s : Transport α V) (x y : α) : List (RouterEvent V) :=
  between net x y ((s.made.filter fun e => e.1 = x).map Prod.snd)

/-- The events that a router sends to another one arrive there in the order in which they
were sent, none lost and none twice: what was sent is what has arrived and then what is on
the way, which is a simple path of the tree, and no other router sees any of it. -/
theorem routers_deliver_in_order {table : α → ObjID → Option AppID} {ls : List (Label α V)}
    {s : Transport α V} (hrun : Run (Step net) (start net table) ls s) (x y : α) :
    ∃ path : List α, path.head? = some x ∧ path.getLast? = some y ∧ path.Nodup ∧
      path.IsChain net.toParentTree.Adj ∧
      s.sent net x y = s.seen net x y y ++ s.underWay net x y path ∧
      ∀ z, z ∉ path → s.seen net x y z = [] := by
  obtain ⟨path, hroute⟩ : ∃ path, ParentTree.Route net.toParentTree y x path :=
    ParentTree.Route.exists_route x
  obtain ⟨ls', t, hrun', ht, _⟩ := refines_run (refines_start net table) hrun
  obtain ⟨horder, hothers⟩ :=
    Relay.run_in_order hrun' (trace_of_route hroute) hroute.last_eq
  refine ⟨path, hroute.head_eq, hroute.last_eq, hroute.nodup, hroute.chain, ?_, ?_⟩
  · rw [ht.entered, ht.taken, ht.flight] at horder
    exact horder
  · intro z hz
    have hz := hothers z hz
    rw [ht.taken] at hz
    exact hz

theorem arrive_other {s : Transport α V} (hconf : ∀ x, net.Configured x (s.routers x))
    {x y : α} {ch : RtrChan} {re : RouterEvent V}
    {front back : List ((α × RtrChan) × RouterEvent V)}
    (hflight : s.flight = front ++ ((x, ch), re) :: back)
    (hfront : ∀ e ∈ front, e.1 ≠ (x, ch)) (hdest : rtrIdOf re.dest = net.id y)
    (hother : net.peer x ch ≠ y) :
    ∃ s', Step net s (.arrive x ch) s' := by
  obtain ⟨hid, hchannel⟩ := hconf (net.peer x ch)
  obtain ⟨c, hc⟩ : ∃ c, treeChannel (net.links (net.peer x ch)) (net.id y) = some c :=
    TreeLinks.treeChannel_some net.matchesLead hother
  have hremote : rtrIdOf re.dest ≠ (s.routers (net.peer x ch)).rtrId := by
    rw [hdest, hid]
    exact fun heq => hother (net.id_inj _ _ heq.symm)
  have hchan : (s.routers (net.peer x ch)).destChan re.dest = .ok (some (.router c)) := by
    rw [destChan, if_neg hremote, hchannel, hdest, hc]
    rfl
  exact ⟨_, .arrive hflight hfront rfl ⟨trivial, processRouterEvent_router hremote hchan⟩⟩

/-- If all events are for routers of the tree, each makes as many hops as its path has, and no
more: the arrivals of a run and the hops that are left come to the lengths of the paths, the
simple ones of the tree. A router that an event is not for never holds it up. -/
theorem events_hop_distance {table : α → ObjID → Option AppID} {ls : List (Label α V)}
    {s : Transport α V} (hrun : Run (Step net) (start net table) ls s)
    (hrouted : ∀ e ∈ s.made, ∃ y, rtrIdOf e.2.dest = net.id y) :
    ls.countP isArrival + (s.flight.map fun e => distance net e.1.1 e.2).sum =
      (s.made.map fun e => distance net e.1 e.2).sum ∧
    (∀ x ch re front back, s.flight = front ++ ((x, ch), re) :: back →
      (∀ e ∈ front, e.1 ≠ (x, ch)) → rtrIdOf re.dest ≠ net.id (net.peer x ch) →
      ∃ s', Step net s (.arrive x ch) s') ∧
    ∀ e ∈ s.made, ∀ y (path : List α), rtrIdOf e.2.dest = net.id y → path.head? = some e.1 →
      path.getLast? = some y → path.IsChain net.toParentTree.Adj → path.Nodup →
      distance net e.1 e.2 + 1 = path.length := by
  obtain ⟨ls', t, hrun', ht, hcount⟩ := refines_run (refines_start net table) hrun
  have htrace : ∀ (d : RouterID) x, (∃ y, d = net.id y) → ∃ path, (relay net V).Trace d x path := by
    rintro d x ⟨y, rfl⟩
    obtain ⟨path, hroute⟩ : ∃ path, ParentTree.Route net.toParentTree y x path :=
      ParentTree.Route.exists_route x
    exact ⟨path, trace_of_route hroute⟩
  have hplaced : Relay.Placed (relay net V) (fun d => ∃ y, d = net.id y) Relay.start :=
    fun e he => absurd he List.not_mem_nil
  obtain ⟨hend, hhops⟩ := Relay.run_hops (Relay.hops_distance htrace) hrun' hplaced
    (by rw [ht.entered]; exact hrouted)
  rw [hcount, ht.flight, ht.entered] at hhops
  simp only [Relay.left, Relay.due, Relay.start, List.map_nil, List.sum_nil, Nat.add_zero,
    Nat.zero_add] at hhops
  refine ⟨hhops, ?_, fun e _ y path hdest hhead hlast hchain hnodup =>
    distance_path hdest hhead hlast hchain hnodup⟩
  intro x ch re front back hflight hfront hother
  have hmem : ((x, ch), re) ∈ t.flight := by simp [ht.flight, hflight]
  obtain ⟨⟨y, hdest⟩, _⟩ := hend _ hmem
  refine arrive_other ht.configured hflight hfront hdest ?_
  rintro rfl
  exact hother hdest

end Refinement

section Crossing

/-- A root over two leaves. -/
def twoLeaves : TreeNetwork (Option (Fin 2)) := .daemonNetwork 2 (by decide)

/-- A client of leaf 0 makes two communicators of an object of leaf 1. The event for the first
has come to leaf 1, and that for the second to the root. -/
def crossing : List (Label (Option (Fin 2)) Int) :=
  [.work (some 0) (.acceptClient 4),
    .work (some 0) (.clientEvent 4
      (.commCreate { toCommEvent := newCommEvent .commCreate 0 9, members := [[[110]]] }) 0),
    .work (some 0) (.clientEvent 4
      (.commCreate { toCommEvent := newCommEvent .commCreate 1 10, members := [[[110]]] }) 0),
    .arrive (some 0) 0, .arrive (some 0) 0, .arrive none 1]

theorem crossing_run : ∃ s : Transport (Option (Fin 2)) Int,
    Run (Step twoLeaves) (start twoLeaves fun _ => oneServer) crossing s ∧
      (s.sent twoLeaves (some 0) (some 1)).length = 2 ∧
      (s.seen twoLeaves (some 0) (some 1) (some 1)).length = 1 ∧
      ∀ e ∈ s.made, ∃ y, rtrIdOf e.2.dest = twoLeaves.id y := by
  refine ⟨_, .cons (.work (by simp) ⟨rfl, rfl⟩) (.cons (.work (by simp) ⟨rfl, rfl⟩)
    (.cons (.work (by simp) ⟨rfl, rfl⟩)
    (.cons (.arrive (show _ = [] ++ _ from rfl) (by simp) rfl ⟨trivial, rfl⟩)
    (.cons (.arrive (show _ = [] ++ _ from rfl) (by simp) rfl ⟨trivial, rfl⟩)
    (.cons (.arrive (show _ = [] ++ _ from rfl) (by simp) rfl ⟨trivial, rfl⟩) (.nil _)))))),
    rfl, rfl, ?_⟩
  intro e he
  refine ⟨some 1, ?_⟩
  rcases List.mem_pair.mp he with rfl | rfl
  · rfl
  · rfl

theorem routers_deliver_in_order_crossing : ∃ s : Transport (Option (Fin 2)) Int,
    ∃ (path : List (Option (Fin 2))) (first second : RouterEvent Int),
      path.head? = some (some 0) ∧ path.getLast? = some (some 1) ∧
      s.sent twoLeaves (some 0) (some 1) = [first, second] ∧
      s.seen twoLeaves (some 0) (some 1) (some 1) = [first] ∧
      s.underWay twoLeaves (some 0) (some 1) path = [second] := by
  obtain ⟨s, hrun, hsent, hseen, _⟩ := crossing_run
  obtain ⟨path, hhead, hlast, _, _, horder, _⟩ := routers_deliver_in_order hrun (some 0) (some 1)
  obtain ⟨first, second, hsent⟩ := List.length_eq_two.mp hsent
  obtain ⟨other, hseen⟩ := List.length_eq_one_iff.mp hseen
  rw [hsent, hseen, List.singleton_append, List.cons.injEq] at horder
  obtain ⟨rfl, hway⟩ := horder
  exact ⟨s, path, first, second, hhead, hlast, hsent, hseen, hway.symm⟩

theorem events_hop_distance_crossing : ∃ s : Transport (Option (Fin 2)) Int,
    crossing.countP isArrival + (s.flight.map fun e => distance twoLeaves e.1.1 e.2).sum =
      (s.made.map fun e => distance twoLeaves e.1 e.2).sum := by
  obtain ⟨s, hrun, _, _, hrouted⟩ := crossing_run
  exact ⟨s, (events_hop_distance hrun hrouted).1⟩

end Crossing

end Transport

end PwrApi
