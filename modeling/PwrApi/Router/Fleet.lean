import PwrApi.Lib.Queues
import PwrApi.Router.Delivery
import PwrApi.Router.Messages

/-! Routers and servers together: what the routers send for their clients is on its way to
the servers, in order from each router to each server, and the servers keep their tables. -/

namespace PwrApi

open Function Runs Router Server

variable {V : Type}

/-- A connection: the channel, and how many clients its router had accepted on it. -/
structure Owner where
  rtr : RouterID
  ec : ClientChan
  session : Nat
  deriving DecidableEq

/-- The last field records, for every server, what it has been told by each connection:
the object that the connection's `CommCreate` named. -/
structure Fleet (V : Type) where
  routers : RouterID → Router V
  sessions : RouterID → ClientChan → Nat
  flight : RouterID → AppID → List (Owner × Payload V)
  servers : AppID → CommMap
  made : AppID → Owner → CommID → Option ObjID

/-- A round of a router, or a server that reads the next event of a router. -/
inductive FleetLabel (V : Type)
  | router (r : RouterID) (l : Label V)
  | deliver (r : RouterID) (d : AppID)

namespace Fleet

def start (table : ObjID → Option AppID) (getChannel : RouterID → RouterID → Option RtrChan) :
    Fleet V where
  routers := fun r => Router.start r table (getChannel r)
  sessions := fun _ _ => 0
  flight := fun _ _ => []
  servers := fun _ _ => none
  made := fun _ _ _ => none

/-- `findRoute` of every router. -/
def destOf (table : ObjID → Option AppID) (name : ObjID) : AppID :=
  (table name).getD 0xffffffffffffffff

def Served (table : ObjID → Option AppID) (d : AppID) : Prop :=
  ∃ name, table name = some d ∧ serverIdOf d ≠ noServer

def owner (s : Fleet V) (r : RouterID) (ec : ClientChan) : Owner := ⟨r, ec, s.sessions r ec⟩

def sent (s : Fleet V) (r : RouterID) (l : Label V) (rtr' : Router V) (d : AppID) :
    List (Owner × Payload V) :=
  match clientOf l with
  | none => []
  | some ec =>
      (eventsFor (rtr'.mail.calls.drop (s.routers r).mail.calls.length) d).map fun re =>
        (s.owner r ec, re.payload)

def sessionsAfter (sessions : ClientChan → Nat) : Label V → ClientChan → Nat
  | .acceptClient ec => update sessions ec (sessions ec + 1)
  | _ => sessions

def afterRouter (s : Fleet V) (r : RouterID) (l : Label V) (rtr' : Router V) : Fleet V :=
  { s with
    routers := update s.routers r rtr'
    sessions := update s.sessions r (sessionsAfter (s.sessions r) l)
    flight := update s.flight r fun d => s.flight r d ++ s.sent r l rtr' d }

def madeAfter (made : Owner → CommID → Option ObjID) (o : Owner) (ev : Payload V) :
    Owner → CommID → Option ObjID :=
  match ev with
  | .commCreate ev => update made o (update (made o) ev.commID ev.members.flatten.head?)
  | _ => made

/-- The server reads the event that is next on its way from a router, and processes it. -/
def deliver (found : AppID → ObjID → Bool) (s : Fleet V) (r : RouterID) (d : AppID) :
    Except Fault (Fleet V) :=
  match s.flight r d with
  | [] => .error .undefined
  | (o, ev) :: rest => do
      let map ← receive (found d) (s.servers d) ev
      .ok { s with
        flight := update s.flight r (update (s.flight r) d rest)
        servers := update s.servers d map
        made := update s.made d (madeAfter (s.made d) o ev) }

/-- A connection is the present one of its channel. -/
def Live (s : Fleet V) (o : Owner) : Prop :=
  (s.routers o.rtr).clientMap o.ec ≠ none ∧ o.session = s.sessions o.rtr o.ec

def Known (s : Fleet V) (o : Owner) : Prop := o.session ≤ s.sessions o.rtr o.ec

/-- A connection that may ask, or has a request on its way. -/
def Active (s : Fleet V) (d : AppID) (o : Owner) (id : CommID) : Prop :=
  s.Live o ∨ ∃ ev, (o, ev) ∈ s.flight o.rtr d ∧ requests ev = some id

/-- The communicators of every active connection are what it made of them, and a request
that a server processes finds the object that its client named. -/
structure Isolated (table : ObjID → Option AppID) (s : Fleet V) : Prop where
  refers : ∀ d o id name, s.made d o id = some name → s.Active d o id →
    commObj (s.servers d) id = .ok name
  served : ∀ r d o ev rest id, Served table d → s.flight r d = (o, ev) :: rest →
    requests ev = some id →
    ∃ name, s.made d o id = some name ∧ commObj (s.servers d) id = .ok name

/-- A server destroys a communicator only when no other active connection has one with
that id there. -/
def DestroysOwn (s : Fleet V) : FleetLabel V → Prop
  | .router _ _ => True
  | .deliver r d => ∀ o ev rest id, s.flight r d = (o, ev) :: rest → destroys ev = some id →
      ∀ other, other ≠ o → s.made d other id ≠ none → ¬ s.Active d other id

variable [Zero V] [Add V]

def Step (table : ObjID → Option AppID) (found : AppID → ObjID → Bool) (s : Fleet V)
    (l : FleetLabel V) (t : Fleet V) : Prop :=
  match l with
  | .router r l => (s.routers r).Step l (t.routers r) ∧ t = s.afterRouter r l (t.routers r)
  | .deliver r d => Served table d ∧ s.deliver found r d = .ok t

theorem step_det {table : ObjID → Option AppID} {found : AppID → ObjID → Bool} {s t t' : Fleet V}
    {l : FleetLabel V} (h : Step table found s l t) (h' : Step table found s l t') : t = t' := by
  cases l with
  | router r l =>
      have hrouter : t.routers r = t'.routers r := Router.step_det h.1 h'.1
      rw [h.2, h'.2, hrouter]
  | deliver r d =>
      have hsame : (Except.ok t : Except Fault (Fleet V)) = .ok t' := h.2 ▸ h'.2
      exact Except.ok.inj hsame

/-- What a queue element makes and uses: the communicator of a connection. -/
def makes (x : Owner × Payload V) : Option (Owner × CommID) := (creates x.2).map (x.1, ·)

def uses (x : Owner × Payload V) : Option (Owner × CommID) := (requests x.2).map (x.1, ·)

/-- The servers of a communicator know it, or an event on its way tells them. -/
def Told (table : ObjID → Option AppID) (s : Fleet V) (o : Owner)
    (comm : CommID × CommCreateEvent) : Prop :=
  comm.1 = comm.2.commID ∧ ∀ obj ∈ comm.2.members.flatten, destOf table obj ≠ unrouted →
    s.made (destOf table obj) o comm.1 ≠ none ∨
      ∃ x ∈ s.flight o.rtr (destOf table obj), makes x = some (o, comm.1)

/-- What holds of the queues and of the records. -/
structure Inv (table : ObjID → Option AppID) (s : Fleet V) : Prop where
  sameTable : ∀ r, (s.routers r).routeTable = table
  known : ∀ r d, ∀ x ∈ s.flight r d, x.1.rtr = r ∧ s.Known x.1
  madeKnown : ∀ d o id, s.made d o id ≠ none → s.Known o
  named : ∀ r d, ∀ x ∈ s.flight r d, ∀ create, x.2 = .commCreate create →
    ∃ name, create.members = [[name]] ∧ destOf table name = d
  madeNamed : ∀ d o id name, s.made d o id = some name → table name = some d
  announced : ∀ r d, Announced makes uses (fun k => s.made d k.1 k.2 ≠ none) (s.flight r d)
  comms : ∀ o client, s.Live o → (s.routers o.rtr).clientMap o.ec = some client →
    ∀ comm ∈ client.commMap, Told table s o comm
  ended : ∀ r d, ∀ x ∈ s.flight r d, destroys x.2 ≠ none → ¬ s.Live x.1
  last : ∀ r d, (s.flight r d).Pairwise fun x y =>
    y.1 = x.1 → destroys x.2 ≠ none → requests y.2 = none

omit [Zero V] [Add V] in
theorem inv_start (table : ObjID → Option AppID)
    (getChannel : RouterID → RouterID → Option RtrChan) :
    (start table getChannel : Fleet V).Inv table where
  sameTable := fun _ => rfl
  known := fun _ _ x hx => absurd hx List.not_mem_nil
  madeKnown := fun _ _ _ h => absurd rfl h
  named := fun _ _ x hx => absurd hx List.not_mem_nil
  madeNamed := fun _ _ _ _ h => by cases h
  announced := fun _ _ => trivial
  comms := fun _ _ hlive => absurd rfl hlive.1
  ended := fun _ _ x hx => absurd hx List.not_mem_nil
  last := fun _ _ => .nil

section Router

variable {table : ObjID → Option AppID} {s : Fleet V} {r : RouterID} {l : Label V}
  {rtr' : Router V}

theorem sessions_after (hstep : (s.routers r).Step l rtr') {ec : ClientChan}
    (hclient : (s.routers r).clientMap ec ≠ none) :
    sessionsAfter (s.sessions r) l ec = s.sessions r ec := by
  cases l with
  | acceptClient other =>
      have hne : ec ≠ other := by
        rintro rfl
        exact hclient hstep.1
      rw [sessionsAfter, update_of_ne hne]
  | _ => rfl

theorem live_before (hstep : (s.routers r).Step l rtr') {o : Owner} (hknown : s.Known o)
    (hlive : (s.afterRouter r l rtr').Live o) : s.Live o := by
  obtain ⟨hclient, hsession⟩ := hlive
  simp only [afterRouter] at hclient hsession
  by_cases hr : o.rtr = r
  · subst hr
    rw [update_self] at hclient hsession
    obtain ⟨client', hclient'⟩ := Option.ne_none_iff_exists'.mp hclient
    rw [dispatch_clientMap hstep.2] at hclient'
    rcases clientsAfter_some hclient' with ⟨rfl, _⟩ | ⟨_, client, hbefore, _⟩
    · rw [sessionsAfter, update_self] at hsession
      rw [Known, hsession] at hknown
      omega
    · have hthere : (s.routers o.rtr).clientMap o.ec ≠ none := by
        rw [hbefore]
        exact Option.some_ne_none client
      exact ⟨hthere, by rw [hsession, sessions_after hstep hthere]⟩
  · rw [update_of_ne hr] at hclient hsession
    exact ⟨hclient, hsession⟩

omit [Zero V] [Add V] in
theorem known_after {o : Owner} (h : s.Known o) : (s.afterRouter r l rtr').Known o := by
  rw [Known] at h ⊢
  apply h.trans
  simp only [afterRouter]
  by_cases hr : o.rtr = r
  · subst hr
    rw [update_self]
    cases l with
    | acceptClient other =>
        by_cases hec : o.ec = other
        · subst hec
          rw [sessionsAfter, update_self]
          omega
        · rw [sessionsAfter, update_of_ne hec]
    | _ => exact le_refl _
  · rw [update_of_ne hr]

omit [Zero V] [Add V] in
theorem mem_flight_after {r' : RouterID} {d : AppID} {x : Owner × Payload V} :
    x ∈ (s.afterRouter r l rtr').flight r' d ↔
      x ∈ s.flight r' d ∨ (r' = r ∧ x ∈ s.sent r l rtr' d) := by
  simp only [afterRouter]
  by_cases hr : r' = r
  · subst hr
    rw [update_self, List.mem_append]
    simp
  · rw [update_of_ne hr]
    simp [hr]

theorem mem_sent (h : s.Inv table) (hstep : (s.routers r).Step l rtr') {d : AppID}
    {x : Owner × Payload V} :
    x ∈ s.sent r l rtr' d ↔ ∃ ec, clientOf l = some ec ∧ x.1 = s.owner r ec ∧ d ≠ unrouted ∧
      ∃ obj, destOf table obj = d ∧ (obj, x.2) ∈ (s.routers r).clientSends l := by
  have hroute : ∀ obj, (s.routers r).findRoute obj = destOf table obj := by
    intro obj
    rw [findRoute, destOf, h.sameTable]
  unfold sent
  cases hclient : clientOf l with
  | none => simp
  | some ec =>
      rw [dispatch_calls hclient hstep.2, List.drop_left]
      simp only [List.mem_map, eventsFor, List.mem_filter, decide_eq_true_eq]
      constructor
      · rintro ⟨re, ⟨⟨d', re'⟩, ⟨hmem, rfl⟩, rfl⟩, rfl⟩
        obtain ⟨obj, ev, hsent, hdest, hd, rfl⟩ := mem_forwards.mp hmem
        exact ⟨ec, rfl, rfl, hd, obj, (hroute obj).symm.trans hdest, hsent⟩
      · rintro ⟨ec', hec', hx, hd, obj, hdest, hsent⟩
        obtain rfl := Option.some.inj hec'
        exact ⟨_, ⟨_, ⟨mem_forwards.mpr ⟨obj, x.2, hsent, (hroute obj).trans hdest, hd, rfl⟩,
          rfl⟩, rfl⟩, by rw [← hx]⟩

theorem live_of_sent (hstep : (s.routers r).Step l rtr') {ec : ClientChan} {obj : ObjID}
    {ev : Payload V} (hclient : clientOf l = some ec)
    (hsent : (obj, ev) ∈ (s.routers r).clientSends l) : s.Live (s.owner r ec) := by
  refine ⟨?_, rfl⟩
  change (s.routers r).clientMap ec ≠ none
  cases l with
  | clientEvent other ev' info =>
      obtain rfl := Option.some.inj hclient
      cases ev' with
      | commCreate ev' =>
          obtain ⟨client, _, hmap, _⟩ := processCommCreate_ok hstep.2
          rw [hmap]
          exact Option.some_ne_none client
      | commReq ev' =>
          obtain ⟨client, _, hmap, _⟩ := processCommReq_ok hstep.2
          rw [hmap]
          exact Option.some_ne_none client
      | commLogReq ev' =>
          obtain ⟨_, _, _, _, _, hmap, _⟩ := processSingle_ok hstep.2
          exact hmap
      | commGetSamplesReq ev' =>
          obtain ⟨_, _, _, _, _, hmap, _⟩ := processSingle_ok hstep.2
          exact hmap
      | _ => cases hsent
  | clientClosed other =>
      obtain rfl := Option.some.inj hclient
      obtain ⟨client, hmap, _⟩ := mem_clientSends_close.mp hsent
      rw [hmap]
      exact Option.some_ne_none client
  | _ => cases hclient

theorem sent_announced (h : s.Inv table) (hstep : (s.routers r).Step l rtr') {d : AppID}
    {x : Owner × Payload V} (hx : x ∈ s.sent r l rtr' d) {k : Owner × CommID}
    (huses : uses x = some k) :
    s.made d k.1 k.2 ≠ none ∨ ∃ y ∈ s.flight r d, makes y = some k := by
  obtain ⟨ec, hclient, hx1, hd, obj, rfl, hsent⟩ := (mem_sent h hstep).mp hx
  obtain ⟨id, hid, rfl⟩ := Option.map_eq_some_iff.mp huses
  obtain ⟨commList, hlist, hobj⟩ := clientSends_requests hclient hsent hid
  obtain ⟨client, ev, hmap, hcomm, rfl⟩ := mem_of_commListOf hlist
  have hlive := live_of_sent hstep hclient hsent
  rw [hx1]
  exact (h.comms _ client hlive hmap (id, ev) hcomm).2 obj hobj hd

theorem comms_after (h : s.Inv table) (hstep : (s.routers r).Step l rtr') {o : Owner}
    {client : Client} (hlive : (s.afterRouter r l rtr').Live o)
    (hclient : ((s.afterRouter r l rtr').routers o.rtr).clientMap o.ec = some client)
    {comm : CommID × CommCreateEvent} (hcomm : comm ∈ client.commMap) :
    Told table (s.afterRouter r l rtr') o comm := by
  have kept : Told table s o comm → Told table (s.afterRouter r l rtr') o comm := by
    intro ⟨hid, htold⟩
    refine ⟨hid, fun obj hobj hd => (htold obj hobj hd).imp_right ?_⟩
    rintro ⟨x, hx, hmakes⟩
    exact ⟨x, mem_flight_after.mpr (.inl hx), hmakes⟩
  by_cases hr : o.rtr = r
  · subst hr
    simp only [afterRouter, update_self] at hclient
    rw [dispatch_clientMap hstep.2] at hclient
    rcases clientsAfter_some hclient with ⟨_, hempty⟩ | ⟨_, before, hbefore, hcomms⟩
    · rw [hempty] at hcomm
      cases hcomm
    · have hthere : (s.routers o.rtr).clientMap o.ec ≠ none := by
        rw [hbefore]
        exact Option.some_ne_none before
      have hsession : o.session = s.sessions o.rtr o.ec := by
        have hafter := hlive.2
        simp only [afterRouter, update_self] at hafter
        rw [hafter, sessions_after hstep hthere]
      have hold := h.comms o before ⟨hthere, hsession⟩ hbefore comm
      cases hcreate : createOf o.ec l with
      | none =>
          rw [hcreate] at hcomms
          subst hcomms
          exact kept (hold hcomm)
      | some ev =>
          rw [hcreate] at hcomms
          rw [hcomms, (insertComm_perm _ _ _).mem_iff, List.mem_cons] at hcomm
          rcases hcomm with rfl | hcomm
          · refine ⟨rfl, fun obj hobj hd => .inr ?_⟩
            have hof := clientOf_createOf hcreate
            obtain ⟨sent, hsent, hcreates⟩ : ∃ sent, (obj, sent) ∈
                (s.routers o.rtr).clientSends l ∧ creates sent = some ev.commID :=
              (clientSends_creates hof).mpr ⟨ev, hcreate, rfl, hobj⟩
            refine ⟨(o, sent), mem_flight_after.mpr (.inr ⟨rfl, (mem_sent h hstep).mpr
              ⟨o.ec, hof, ?_, hd, obj, rfl, hsent⟩⟩), ?_⟩
            · rw [owner, ← hsession]
            · rw [makes, hcreates]
              rfl
          · exact kept (hold hcomm)
  · simp only [afterRouter, update_of_ne hr] at hclient
    have hbefore : s.Live o := by
      simp only [Live, afterRouter, update_of_ne hr] at hlive
      exact hlive
    exact kept (h.comms o client hbefore hclient comm hcomm)

theorem last_after (h : s.Inv table) (hstep : (s.routers r).Step l rtr') (d : AppID) :
    (s.flight r d ++ s.sent r l rtr' d).Pairwise fun x y =>
      y.1 = x.1 → destroys x.2 ≠ none → requests y.2 = none := by
  rw [List.pairwise_append]
  refine ⟨h.last r d, List.pairwise_of_forall_mem_list ?_, ?_⟩
  · intro x hx y hy _ hdestroys
    obtain ⟨ec, hclient, _, _, obj, _, hsent⟩ := (mem_sent h hstep).mp hx
    obtain ⟨_, _, _, _, other, _, hother⟩ := (mem_sent h hstep).mp hy
    obtain ⟨id, hid⟩ := Option.ne_none_iff_exists'.mp hdestroys
    obtain ⟨rfl, _⟩ := (clientSends_destroys hclient).mp ⟨x.2, hsent, hid⟩
    obtain ⟨client, _, hother⟩ := mem_clientSends_close.mp hother
    obtain ⟨_, _, _, _, _, heq⟩ := mem_sendsOfClose.mp hother
    rw [← heq]
    rfl
  · intro x hx y hy hsame hdestroys
    obtain ⟨ec, hclient, hy1, _, obj, _, hsent⟩ := (mem_sent h hstep).mp hy
    have hlive := live_of_sent hstep hclient hsent
    rw [← hy1, hsame] at hlive
    exact absurd hlive (h.ended r d x hx hdestroys)

theorem ended_after (h : s.Inv table) (hstep : (s.routers r).Step l rtr') {r' : RouterID}
    {d : AppID} {x : Owner × Payload V} (hx : x ∈ (s.afterRouter r l rtr').flight r' d)
    (hdestroys : destroys x.2 ≠ none) : ¬ (s.afterRouter r l rtr').Live x.1 := by
  rcases mem_flight_after.mp hx with hx | ⟨rfl, hx⟩
  · intro hlive
    exact h.ended r' d x hx hdestroys (live_before hstep (h.known r' d x hx).2 hlive)
  · obtain ⟨ec, hclient, hx1, _, obj, _, hsent⟩ := (mem_sent h hstep).mp hx
    obtain ⟨id, hid⟩ := Option.ne_none_iff_exists'.mp hdestroys
    obtain ⟨rfl, _⟩ := (clientSends_destroys hclient).mp ⟨x.2, hsent, hid⟩
    intro hlive
    rw [hx1] at hlive
    apply hlive.1
    change (update s.routers r' rtr' r').clientMap ec = none
    rw [update_self, dispatch_clientMap hstep.2, clientsAfter, update_self]

theorem inv_router (h : s.Inv table) (hstep : (s.routers r).Step l rtr') :
    (s.afterRouter r l rtr').Inv table where
  sameTable := by
    intro r'
    by_cases hr : r' = r
    · subst hr
      simp only [afterRouter, update_self]
      exact (dispatch_config hstep.2).1.trans (h.sameTable r')
    · simp only [afterRouter, update_of_ne hr]
      exact h.sameTable r'
  known := by
    intro r' d x hx
    rcases mem_flight_after.mp hx with hx | ⟨rfl, hx⟩
    · exact ⟨(h.known r' d x hx).1, known_after (h.known r' d x hx).2⟩
    · obtain ⟨ec, _, hx1, _⟩ := (mem_sent h hstep).mp hx
      rw [hx1]
      exact ⟨rfl, known_after (le_refl _)⟩
  madeKnown := fun d o id hmade => known_after (h.madeKnown d o id hmade)
  named := by
    intro r' d x hx create hcreate
    rcases mem_flight_after.mp hx with hx | ⟨rfl, hx⟩
    · exact h.named r' d x hx create hcreate
    · obtain ⟨_, _, _, _, obj, hdest, hsent⟩ := (mem_sent h hstep).mp hx
      rw [hcreate] at hsent
      exact ⟨obj, clientSends_members hsent, hdest⟩
  madeNamed := h.madeNamed
  announced := by
    intro r' d
    by_cases hr : r' = r
    · subst hr
      simp only [afterRouter, update_self]
      exact (h.announced r' d).append fun y hy k hk => sent_announced h hstep hy hk
    · simp only [afterRouter, update_of_ne hr]
      exact h.announced r' d
  comms := fun o client hlive hclient comm hcomm => comms_after h hstep hlive hclient hcomm
  ended := fun r' d x hx hdestroys => ended_after h hstep hx hdestroys
  last := by
    intro r' d
    by_cases hr : r' = r
    · subst hr
      simp only [afterRouter, update_self]
      exact last_after h hstep d
    · simp only [afterRouter, update_of_ne hr]
      exact h.last r' d

end Router

section Deliver

omit [Zero V] [Add V]

variable {table : ObjID → Option AppID} {found : AppID → ObjID → Bool} {s t : Fleet V}
  {r : RouterID} {d : AppID}

/-- What a server that reads an event changes. -/
structure Delivered (found : AppID → ObjID → Bool) (s : Fleet V) (r : RouterID) (d : AppID)
    (t : Fleet V) (x : Owner × Payload V) (rest : List (Owner × Payload V)) : Prop where
  next : s.flight r d = x :: rest
  routers : t.routers = s.routers
  sessions : t.sessions = s.sessions
  flight : t.flight = update s.flight r (update (s.flight r) d rest)
  server : receive (found d) (s.servers d) x.2 = .ok (t.servers d)
  others : ∀ d', d' ≠ d → t.servers d' = s.servers d'
  made : t.made = update s.made d (madeAfter (s.made d) x.1 x.2)

theorem deliver_ok (h : s.deliver found r d = .ok t) : ∃ x rest, Delivered found s r d t x rest := by
  unfold deliver at h
  split at h
  next => cases h
  next o ev rest hflight =>
    rw [bind_eq_ok] at h
    obtain ⟨map, hmap, h⟩ := h
    obtain rfl := Except.ok.inj h
    refine ⟨(o, ev), rest, hflight, rfl, rfl, rfl, ?_, ?_, rfl⟩
    · simp only [update_self]
      exact hmap
    · intro d' hd'
      exact update_of_ne hd' _ _

variable {x : Owner × Payload V} {rest : List (Owner × Payload V)}

theorem madeAfter_ne_none {made : Owner → CommID → Option ObjID}
    (hnamed : ∀ create, x.2 = .commCreate create → ∃ name, create.members = [[name]])
    (o : Owner) (id : CommID) :
    madeAfter made x.1 x.2 o id ≠ none ↔ made o id ≠ none ∨ makes x = some (o, id) := by
  obtain ⟨owner, ev⟩ := x
  cases ev with
  | commCreate create =>
      obtain ⟨name, hmembers⟩ := hnamed create rfl
      simp only [madeAfter, makes, creates, Option.map_some, Option.some.injEq, Prod.mk.injEq,
        hmembers, List.flatten_singleton, List.head?_cons]
      by_cases ho : o = owner
      · subst ho
        rw [update_self]
        by_cases hid : id = create.commID
        · subst hid
          simp
        · rw [update_of_ne hid]
          simp [Ne.symm hid]
      · rw [update_of_ne ho]
        simp [Ne.symm ho]
  | _ => simp [madeAfter, makes, creates]

theorem madeAfter_eq {made : Owner → CommID → Option ObjID} {o : Owner} {id : CommID}
    {name : ObjID} (h : madeAfter made x.1 x.2 o id = some name) :
    made o id = some name ∨ ∃ create, x = (o, .commCreate create) ∧ create.commID = id ∧
      create.members.flatten.head? = some name := by
  obtain ⟨owner, ev⟩ := x
  cases ev with
  | commCreate create =>
      simp only [madeAfter] at h
      by_cases ho : o = owner
      · subst ho
        rw [update_self] at h
        by_cases hid : id = create.commID
        · subst hid
          rw [update_self] at h
          exact .inr ⟨create, rfl, rfl, h⟩
        · rw [update_of_ne hid] at h
          exact .inl h
      · rw [update_of_ne ho] at h
        exact .inl h
  | _ => exact .inl h

namespace Delivered

theorem live (h : Delivered found s r d t x rest) (o : Owner) : t.Live o ↔ s.Live o := by
  rw [Live, Live, h.routers, h.sessions]

theorem flight_cases (h : Delivered found s r d t x rest) (r' : RouterID) (d' : AppID) :
    (r' = r ∧ d' = d ∧ s.flight r' d' = x :: t.flight r' d') ∨
      ((r' ≠ r ∨ d' ≠ d) ∧ t.flight r' d' = s.flight r' d') := by
  rw [h.flight]
  by_cases hr : r' = r
  · subst hr
    rw [update_self]
    by_cases hd : d' = d
    · subst hd
      rw [update_self]
      exact .inl ⟨rfl, rfl, h.next⟩
    · rw [update_of_ne hd]
      exact .inr ⟨.inr hd, rfl⟩
  · rw [update_of_ne hr]
    exact .inr ⟨.inl hr, rfl⟩

theorem mem_flight (h : Delivered found s r d t x rest) {r' : RouterID} {d' : AppID}
    {y : Owner × Payload V} :
    y ∈ s.flight r' d' ↔ y ∈ t.flight r' d' ∨ (r' = r ∧ d' = d ∧ y = x) := by
  rcases h.flight_cases r' d' with ⟨rfl, rfl, hnext⟩ | ⟨hother, hsame⟩
  · rw [hnext, List.mem_cons]
    simp [or_comm]
  · rw [hsame, or_iff_left]
    rintro ⟨hr, hd, _⟩
    exact hother.elim (fun hne => hne hr) fun hne => hne hd

theorem made_ne_none (h : Delivered found s r d t x rest) (hinv : s.Inv table) (d' : AppID)
    (o : Owner) (id : CommID) :
    t.made d' o id ≠ none ↔
      s.made d' o id ≠ none ∨ (d' = d ∧ makes x = some (o, id)) := by
  rw [h.made]
  by_cases hd : d' = d
  · subst hd
    have hmem : x ∈ s.flight r d' := by
      rw [h.next]
      exact List.mem_cons_self
    have hnamed : ∀ create, x.2 = .commCreate create → ∃ name, create.members = [[name]] := by
      intro create hcreate
      obtain ⟨name, hmembers, _⟩ := hinv.named r d' x hmem create hcreate
      exact ⟨name, hmembers⟩
    rw [update_self, madeAfter_ne_none hnamed]
    simp
  · rw [update_of_ne hd]
    simp [hd]

end Delivered

theorem table_of_served (hd : Served table d) {name : ObjID} (h : destOf table name = d) :
    table name = some d := by
  obtain ⟨_, _, hserver⟩ := hd
  rw [destOf] at h
  cases hname : table name with
  | none =>
      rw [hname, Option.getD_none] at h
      subst h
      exact absurd rfl hserver
  | some other =>
      rw [hname, Option.getD_some] at h
      rw [h]

theorem inv_deliver (hinv : s.Inv table) (hd : Served table d)
    (h : Delivered found s r d t x rest) : t.Inv table where
  sameTable := by
    rw [h.routers]
    exact hinv.sameTable
  known := by
    intro r' d' y hy
    rw [Known, h.sessions]
    exact hinv.known r' d' y (h.mem_flight.mpr (.inl hy))
  madeKnown := by
    intro d' o id hmade
    rw [Known, h.sessions]
    rcases (h.made_ne_none hinv d' o id).mp hmade with hmade | ⟨rfl, hmakes⟩
    · exact hinv.madeKnown d' o id hmade
    · have hx : x ∈ s.flight r d' := by
        rw [h.next]
        exact List.mem_cons_self
      obtain ⟨_, _, heq⟩ := Option.map_eq_some_iff.mp hmakes
      obtain ⟨rfl, _⟩ := Prod.mk.inj heq
      exact (hinv.known r d' x hx).2
  named := fun r' d' y hy => hinv.named r' d' y (h.mem_flight.mpr (.inl hy))
  madeNamed := by
    intro d' o id name hmade
    rw [h.made] at hmade
    by_cases hd' : d' = d
    · subst hd'
      rw [update_self] at hmade
      rcases madeAfter_eq hmade with hmade | ⟨create, rfl, _, hhead⟩
      · exact hinv.madeNamed d' o id name hmade
      · obtain ⟨name', hmembers, hdest⟩ := hinv.named r d' _
          (h.mem_flight.mpr (.inr ⟨rfl, rfl, rfl⟩)) create rfl
        rw [hmembers, List.flatten_singleton, List.head?_cons, Option.some.injEq] at hhead
        subst hhead
        exact table_of_served hd hdest
    · rw [update_of_ne hd'] at hmade
      exact hinv.madeNamed d' o id name hmade
  announced := by
    intro r' d'
    have hmono : ∀ k : Owner × CommID, s.made d' k.1 k.2 ≠ none → t.made d' k.1 k.2 ≠ none :=
      fun k hk => (h.made_ne_none hinv d' k.1 k.2).mpr (.inl hk)
    have hold := hinv.announced r' d'
    rcases h.flight_cases r' d' with ⟨rfl, rfl, hnext⟩ | ⟨_, hsame⟩
    · rw [hnext] at hold
      apply hold.2.mono
      rintro k (hk | hk)
      · exact hmono k hk
      · exact (h.made_ne_none hinv d' k.1 k.2).mpr (.inr ⟨rfl, hk⟩)
    · rw [hsame]
      exact hold.mono hmono
  comms := by
    intro o client hlive hclient comm hcomm
    rw [h.routers] at hclient
    obtain ⟨hid, htold⟩ := hinv.comms o client ((h.live o).mp hlive) hclient comm hcomm
    refine ⟨hid, fun obj hobj hroute => ?_⟩
    rw [h.made_ne_none hinv]
    rcases htold obj hobj hroute with hmade | ⟨y, hy, hmakes⟩
    · exact .inl (.inl hmade)
    · rcases h.mem_flight.mp hy with hy | ⟨_, hdest, rfl⟩
      · exact .inr ⟨y, hy, hmakes⟩
      · exact .inl (.inr ⟨hdest, hmakes⟩)
  ended := by
    intro r' d' y hy hdestroys
    rw [h.live]
    exact hinv.ended r' d' y (h.mem_flight.mpr (.inl hy)) hdestroys
  last := by
    intro r' d'
    have hold := hinv.last r' d'
    rcases h.flight_cases r' d' with ⟨rfl, rfl, hnext⟩ | ⟨_, hsame⟩
    · rw [hnext] at hold
      exact hold.of_cons
    · rwa [hsame]

end Deliver

theorem inv_step {table : ObjID → Option AppID} {found : AppID → ObjID → Bool} {s t : Fleet V}
    {l : FleetLabel V} (h : s.Inv table) (hstep : Step table found s l t) : t.Inv table := by
  cases l with
  | router r l =>
      rw [hstep.2]
      exact inv_router h hstep.1
  | deliver r d =>
      obtain ⟨x, rest, hdelivered⟩ := deliver_ok hstep.2
      exact inv_deliver h hstep.1 hdelivered

end Fleet

end PwrApi
