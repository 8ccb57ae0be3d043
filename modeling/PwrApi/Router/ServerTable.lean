import PwrApi.Router.Sending

/-! The table of connected servers over a run of accepts, connects and closes. -/

namespace PwrApi.Router

open Function Runs

variable {V : Type}

/-- The id that the `ServerConnect` of a name is filed under. -/
def routedId (rtr : Router V) (name : ObjID) : ServerID := serverIdOf (rtr.findRoute name)

/-- A router with the name each open channel has sent in its `ServerConnect`. -/
structure Connected (V : Type) where
  rtr : Router V
  name : ServerChan → Option ObjID

namespace Connected

def start (rtrId : RouterID) (routeTable : ObjID → Option AppID)
    (getChannel : RouterID → Option RtrChan) : Connected V :=
  ⟨Router.start rtrId routeTable getChannel, fun _ => none⟩

def nameAfter (name : ServerChan → Option ObjID) : Label V → ServerChan → Option ObjID
  | .serverEvent ec (.serverConnect ev) => update name ec (some ev.name)
  | .serverClosed ec => update name ec none
  | _ => name

/-- A channel connects under a name of the route table that no other open channel
has, and a channel that closes was open. -/
def Admissible (s : Connected V) : Label V → Prop
  | .serverEvent ec (.serverConnect ev) =>
      s.rtr.routeTable ev.name ≠ none ∧ ∀ other, other ≠ ec → s.name other ≠ some ev.name
  | .serverClosed ec => s.rtr.serverMap ec ≠ none
  | _ => True

/-- A lookup by id finds a channel exactly when it is open and has connected under a
name that routes to the id. -/
def TableMatches (s : Connected V) : Prop :=
  ∀ id ec, s.rtr.findServerChan id = some ec ↔
    s.rtr.serverMap ec ≠ none ∧ ∃ name, s.name ec = some name ∧ s.rtr.routedId name = id

/-- What a step must meet: a connect claims an id that no other open channel has, and
a close is of a channel with id 0 or without a name while no other channel has id 0. -/
def Keeps (s : Connected V) : Label V → Prop
  | .serverEvent ec (.serverConnect ev) =>
      s.rtr.routedId ev.name ≠ noServer ∧
      (∀ other name, other ≠ ec → s.name other = some name →
        s.rtr.routedId name ≠ s.rtr.routedId ev.name) ∧
      ∀ name, s.name ec = some name → s.rtr.routedId name = s.rtr.routedId ev.name
  | .serverClosed ec =>
      (∀ name, s.name ec = some name → s.rtr.routedId name = 0) ∧
      ∀ other name, other ≠ ec → s.name other = some name → s.rtr.routedId name ≠ 0
  | _ => True

def NamedOpen (s : Connected V) : Prop := ∀ ec, s.rtr.serverMap ec = none → s.name ec = none

section Tables

def Matches (localMap : ServerID → Option ServerChan) (serverMap : ServerChan → Option Server)
    (name : ServerChan → Option ObjID) (routed : ObjID → ServerID) : Prop :=
  ∀ id ec, (if id = noServer then none else localMap id) = some ec ↔
    serverMap ec ≠ none ∧ ∃ n, name ec = some n ∧ routed n = id

variable {localMap : ServerID → Option ServerChan} {serverMap : ServerChan → Option Server}
  {name : ServerChan → Option ObjID} {routed : ObjID → ServerID}

theorem matches_accept (h : Matches localMap serverMap name routed) (ec : ServerChan)
    (server : Server) (hname : name ec = none) :
    Matches localMap (update serverMap ec (some server)) name routed := by
  intro id other
  rw [h id other]
  by_cases hother : other = ec
  · subst hother
    simp [hname]
  · simp [update_of_ne hother]

theorem matches_connect (h : Matches localMap serverMap name routed)
    (hopen : ∀ ec, serverMap ec = none → name ec = none) (ec : ServerChan) (server : Server)
    (new : ObjID) :
    Matches (update localMap (routed new) (some ec)) (update serverMap ec (some server))
        (update name ec (some new)) routed ↔
      routed new ≠ noServer ∧
      (∀ other n, other ≠ ec → name other = some n → routed n ≠ routed new) ∧
      ∀ n, name ec = some n → routed n = routed new := by
  constructor
  · intro hnew
    have hec := (hnew (routed new) ec).mpr ⟨by simp, new, by simp, rfl⟩
    have hid : routed new ≠ noServer := by
      intro hid
      simp [hid] at hec
    refine ⟨hid, ?_, ?_⟩
    · intro other n hother hn heq
      have hsome : serverMap other ≠ none := fun hnone => by simp [hopen other hnone] at hn
      have hfound := (hnew (routed new) other).mpr
        ⟨by simpa [update_of_ne hother] using hsome, n, by simpa [update_of_ne hother] using hn,
          heq⟩
      rw [hfound] at hec
      exact hother (Option.some.inj hec)
    · intro n hn
      by_contra hne
      have hsome : serverMap ec ≠ none := fun hnone => by simp [hopen ec hnone] at hn
      have hold := (h (routed n) ec).mpr ⟨hsome, n, hn, rfl⟩
      have hkept : (if routed n = noServer then none
          else update localMap (routed new) (some ec) (routed n)) = some ec := by
        rwa [update_of_ne hne]
      obtain ⟨_, m, hm, hrouted⟩ := (hnew (routed n) ec).mp hkept
      rw [update_self, Option.some.injEq] at hm
      exact hne (by rw [hm, hrouted])
  · intro ⟨hid, hothers, hearlier⟩ id other
    by_cases hsame : id = routed new
    · subst hsame
      rw [if_neg hid, update_self, Option.some.injEq]
      constructor
      · intro hec
        subst hec
        exact ⟨by simp, new, by simp, rfl⟩
      · intro ⟨_, n, hn, hrouted⟩
        by_contra hne
        have hother : other ≠ ec := fun heq => hne heq.symm
        rw [update_of_ne hother] at hn
        exact hothers other n hother hn hrouted
    · rw [update_of_ne hsame, h id other]
      by_cases hother : other = ec
      · subst hother
        constructor
        · intro ⟨_, n, hn, hrouted⟩
          exact (hsame (hrouted ▸ hearlier n hn)).elim
        · intro ⟨_, n, hn, hrouted⟩
          rw [update_self, Option.some.injEq] at hn
          exact (hsame (by rw [hn, hrouted])).elim
      · simp [update_of_ne hother]

theorem matches_close (h : Matches localMap serverMap name routed)
    (hopen : ∀ ec, serverMap ec = none → name ec = none) (ec : ServerChan)  :
    Matches (update localMap 0 none) (update serverMap ec none) (update name ec none) routed ↔
      (∀ n, name ec = some n → routed n = 0) ∧
      ∀ other n, other ≠ ec → name other = some n → routed n ≠ 0 := by
  have hsome : ∀ other n, name other = some n → serverMap other ≠ none := by
    intro other n hn hnone
    simp [hopen other hnone] at hn
  constructor
  · intro hnew
    refine ⟨?_, ?_⟩
    · intro n hn
      by_contra hne
      have hold := (h (routed n) ec).mpr ⟨hsome ec n hn, n, hn, rfl⟩
      have hkept : (if routed n = noServer then none else update localMap 0 none (routed n)) =
          some ec := by
        rwa [update_of_ne hne]
      exact ((hnew (routed n) ec).mp hkept).1 (by simp)
    · intro other n hother hn hzero
      have hfound := (hnew 0 other).mpr
        ⟨by simpa [update_of_ne hother] using hsome other n hn, n,
          by simpa [update_of_ne hother] using hn, hzero⟩
      simp [noServer] at hfound
  · intro ⟨hclosed, hothers⟩ id other
    by_cases hzero : id = 0
    · subst hzero
      constructor
      · intro hfound
        simp [noServer] at hfound
      · intro ⟨_, n, hn, hrouted⟩
        by_cases hother : other = ec
        · simp [hother] at hn
        · rw [update_of_ne hother] at hn
          exact (hothers other n hother hn hrouted).elim
    · rw [update_of_ne hzero, h id other]
      by_cases hother : other = ec
      · subst hother
        constructor
        · intro ⟨_, n, hn, hrouted⟩
          exact (hzero (by rw [← hrouted, hclosed n hn])).elim
        · intro ⟨hnone, _⟩
          simp at hnone
      · simp [update_of_ne hother]

end Tables

variable [Zero V] [Add V]

def Step (s : Connected V) (l : Label V) (t : Connected V) : Prop :=
  s.rtr.Step l t.rtr ∧ s.Admissible l ∧ t.name = nameAfter s.name l

variable {s t : Connected V} {l : Label V}

theorem step_routed (h : s.Step l t) : t.rtr.routedId = s.rtr.routedId := by
  funext name
  simp only [routedId, findRoute, (dispatch_config h.1.2).1]

theorem tableMatches_step (h : s.Step l t) (hopen : s.NamedOpen) (hs : s.TableMatches) :
    t.TableMatches ↔ s.Keeps l := by
  have htables := dispatch_servers h.1.2
  have hrouted := step_routed h
  have hname := h.2.2
  have hlocal : t.rtr.localMap = (s.rtr.serversAfter l).1 := congrArg Prod.fst htables
  have hserver : t.rtr.serverMap = (s.rtr.serversAfter l).2 := congrArg Prod.snd htables
  change Matches t.rtr.localMap t.rtr.serverMap t.name t.rtr.routedId ↔ _
  rw [hlocal, hserver, hname, hrouted]
  replace hs : Matches s.rtr.localMap s.rtr.serverMap s.name s.rtr.routedId := hs
  cases l with
  | acceptClient ec => exact iff_of_true hs trivial
  | acceptServer ec =>
      exact iff_of_true (matches_accept hs ec _ (hopen ec h.1.1)) trivial
  | clientEvent ec ev info => exact iff_of_true hs trivial
  | clientClosed ec => exact iff_of_true hs trivial
  | serverEvent ec ev =>
      cases ev with
      | serverConnect ev => exact matches_connect hs hopen ec _ ev.name
      | _ => exact iff_of_true hs trivial
  | serverClosed ec =>
      simp only [serversAfter, if_neg h.2.1]
      exact matches_close hs hopen ec
  | routerEvent re => exact iff_of_true hs trivial

theorem namedOpen_step (h : s.Step l t) (hopen : s.NamedOpen) : t.NamedOpen := by
  have hserver : t.rtr.serverMap = (s.rtr.serversAfter l).2 :=
    congrArg Prod.snd (dispatch_servers h.1.2)
  intro ec hnone
  rw [hserver] at hnone
  rw [h.2.2]
  cases l with
  | acceptServer other =>
      by_cases hec : ec = other
      · simp [serversAfter, hec] at hnone
      · exact hopen ec (by simpa [serversAfter, update_of_ne hec] using hnone)
  | serverEvent other ev =>
      cases ev with
      | serverConnect ev =>
          by_cases hec : ec = other
          · simp [serversAfter, hec] at hnone
          · simp only [serversAfter, update_of_ne hec] at hnone
            simpa [nameAfter, update_of_ne hec] using hopen ec hnone
      | _ => exact hopen ec hnone
  | serverClosed other =>
      by_cases hec : ec = other
      · simp [nameAfter, hec]
      · simp only [serversAfter, if_neg h.2.1, update_of_ne hec] at hnone
        simpa [nameAfter, update_of_ne hec] using hopen ec hnone
  | _ => exact hopen ec hnone

theorem step_det {t' : Connected V} (h : s.Step l t) (h' : s.Step l t') : t = t' := by
  have hrtr := Router.step_det h.1 h'.1
  have hname : t.name = t'.name := by rw [h.2.2, h'.2.2]
  cases t
  cases t'
  simp_all

/-- Along a run from the start, the table of servers matches the open connections in
every state exactly when every step meets `Keeps`. -/
theorem server_table_matches (rtrId : RouterID) (routeTable : ObjID → Option AppID)
    (getChannel : RouterID → Option RtrChan) (ls : List (Label V)) (s : Connected V)
    (hrun : Run Step (start rtrId routeTable getChannel) ls s) :
    Along Step TableMatches (start rtrId routeTable getChannel) ls ↔
      EachStep Step Keeps (start rtrId routeTable getChannel) ls := by
  refine Run.along_iff _ (fun s l t hopen _ hstep _ => namedOpen_step hstep hopen)
    (fun s l t hopen hs hstep => tableMatches_step hstep hopen hs) hrun
    (fun s l t t' => step_det) (fun ec _ => rfl) ?_
  intro id ec
  simp [start, Router.start, findServerChan]

def disconnect : List (Label Int) :=
  [.acceptServer 7,
    .serverEvent 7 (.serverConnect { toEvent := Event.ofType .serverConnect, name := [110] }),
    .serverClosed 7]

theorem disconnect_run :
    ∃ s : Connected Int, Run Step (start 1 oneServer fun _ => none) disconnect s ∧
      s.rtr.findServerChan 3 = some 7 ∧ s.rtr.serverMap 7 = none := by
  refine ⟨_, .cons (t := ⟨_, _⟩) ⟨⟨rfl, rfl⟩, trivial, rfl⟩
    (.cons (t := ⟨_, _⟩) ⟨⟨trivial, rfl⟩, ⟨by decide, fun _ _ => nofun⟩, rfl⟩
      (.cons (t := ⟨_, _⟩) ⟨⟨trivial, rfl⟩, ?_, rfl⟩ (.nil _))), ?_, ?_⟩
  · simp [Admissible]
  · rfl
  · rfl

theorem server_table_matches_disconnect :
    Along Step TableMatches (start 1 oneServer fun _ => none) disconnect ↔
      EachStep Step Keeps (start 1 oneServer fun _ => none) disconnect := by
  obtain ⟨s, hrun, _⟩ := disconnect_run
  exact server_table_matches 1 oneServer (fun _ => none) disconnect s hrun

theorem closed_server_stays_in_table :
    ¬ ∀ s : Connected Int, Run Step (start 1 oneServer fun _ => none) disconnect s →
      TableMatches s := by
  intro hall
  obtain ⟨s, hrun, hfound, hclosed⟩ := disconnect_run
  exact ((hall s hrun 3 7).mp hfound).1 hclosed

end Connected

end PwrApi.Router
