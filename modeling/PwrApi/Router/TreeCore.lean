import PwrApi.Lib.ParentTree
import PwrApi.Router.Sending

/-! The tree of routers: `treeCore.cc`, and the way of an event through it. -/

namespace PwrApi.Router

open Runs

/-- An entry of `m_rtrLinks`, without the end that receives. -/
structure Link where
  send : Option RtrChan
  nidStart : UInt32
  nidStop : UInt32

namespace Link

def matchesId (link : Link) (id : RouterID) : Bool := id ≥ link.nidStart && id ≤ link.nidStop

/-- An entry that `resize` made and the loop of the constructor passes over, since its
specification names no port. -/
def unset : Link := ⟨none, 0, 0⟩

end Link

/-- `TreeCore::getChannel`: link 0 unless a later link has the id in its interval. -/
def treeChannel (links : List Link) (id : RouterID) : Option RtrChan :=
  match links with
  | [] => none
  | link₀ :: rest =>
      match rest.find? fun link => link.matchesId id with
      | some link => link.send
      | none => link₀.send

/-- A tree of routers with their links. `peer x ch` is the router at the other end of
channel `ch` of router `x`. Nothing is said of the links on which no neighbour sits. -/
structure TreeLinks (α : Type) extends ParentTree α where
  id : α → RouterID
  links : α → List Link
  peer : α → RtrChan → α
  id_inj : ∀ x y, id x = id y → x = y
  /-- Link 0 of a router other than the root leads to its parent. -/
  up : ∀ x q, parent x = some q → ∃ ch, (links x).head?.bind Link.send = some ch ∧ peer x ch = q
  /-- A child sits on a link with its ids, or is where link 0 of the root leads. -/
  child : ∀ c x, parent c = some x →
    (∃ link ∈ (links x).tail, (∃ ch, link.send = some ch ∧ peer x ch = c) ∧
      ∀ y, link.matchesId (id y) = true ↔ toParentTree.Below c y) ∨
    (x = root ∧ ∃ ch, (links x).head?.bind Link.send = some ch ∧ peer x ch = c)

namespace TreeLinks

variable {α : Type} (net : TreeLinks α) {V : Type}

def Configured (x : α) (rtr : Router V) : Prop :=
  rtr.rtrId = net.id x ∧ rtr.getChannel = treeChannel (net.links x)

/-- From `x` an event for `dest` is written to the channel that leads to `y`, be it an
event of this router or one that another router forwards. -/
def Hop (V : Type) [Zero V] [Add V] (dest : AppID) (x y : α) : Prop :=
  ∃ ch, net.peer x ch = y ∧ ∀ rtr : Router V, net.Configured x rtr →
    (∀ ev, rtr.sendEvent dest ev =
      .ok (rtr.sentOn dest ⟨appId rtr.rtrId noServer, dest, ev⟩ (.router ch))) ∧
    ∀ re : RouterEvent V, re.dest = dest →
      rtr.processRouterEvent re = .ok (rtr.sentOn dest re (.router ch))

/-- From `x` to `y` the hops form the one simple path of the tree, at whose end the event is
for the router itself, and no router on the way or off it fails `assert(ec)`. -/
def Delivers (V : Type) [Zero V] [Add V] (x y : α) (s : ServerID) : Prop :=
  (∃ path : List α, path.head? = some x ∧ path.getLast? = some y ∧
    path.IsChain (net.Hop V (appId (net.id y) s)) ∧ path.Nodup ∧
    path.IsChain net.toParentTree.Adj ∧
    ∀ other : List α, other.head? = some x → other.getLast? = some y →
      other.IsChain net.toParentTree.Adj → other.Nodup → other = path) ∧
  (∀ rtr : Router V, net.Configured y rtr →
    rtr.destChan (appId (net.id y) s) = .ok ((rtr.findServerChan s).map .server)) ∧
  ∀ a, ∀ rtr : Router V, net.Configured a rtr →
    ∃ ec, rtr.destChan (appId (net.id y) s) = .ok ec

/-- The neighbour `z` of `x` is nearer to `y`. -/
def Towards (x y z : α) : Prop :=
  (net.parent z = some x ∧ net.toParentTree.Below z y) ∨
    (¬ net.toParentTree.Below x y ∧ net.parent x = some z)

/-- The link that `getChannel` takes for the id of another router, where it is not link 0,
has a channel, and the channel leads to the neighbour nearer to that router. -/
def MatchesLead : Prop :=
  ∀ x y, x ≠ y → ∀ link,
    (net.links x).tail.find? (fun link => link.matchesId (net.id y)) = some link →
    ∃ ch, link.send = some ch ∧ net.Towards x y (net.peer x ch)

variable {net}

theorem Towards.ne {x y z : α} (h : net.Towards x y z) : x ≠ y := by
  rintro rfl
  rcases h with ⟨hparent, hbelow⟩ | ⟨hnot, _⟩
  · exact ParentTree.not_below_child hparent hbelow
  · exact hnot (ParentTree.below_refl x)

theorem Towards.unique {x y z z' : α} (h : net.Towards x y z) (h' : net.Towards x y z') :
    z = z' := by
  rcases h with ⟨hparent, hbelow⟩ | ⟨hnot, hparent⟩
  · rcases h' with ⟨hparent', hbelow'⟩ | ⟨hnot', _⟩
    · exact ParentTree.child_unique hparent hparent' hbelow hbelow'
    · exact (hnot' (ParentTree.below_parent hbelow hparent)).elim
  · rcases h' with ⟨hparent', hbelow'⟩ | ⟨_, hparent'⟩
    · exact (hnot (ParentTree.below_parent hbelow' hparent')).elim
    · rw [hparent] at hparent'
      exact Option.some.inj hparent'

theorem exists_towards {x y : α} (hne : x ≠ y) : ∃ z, net.Towards x y z := by
  obtain ⟨path, hroute⟩ : ∃ path, ParentTree.Route net.toParentTree y x path :=
    ParentTree.Route.exists_route x
  cases hroute with
  | here => exact (hne rfl).elim
  | @down _ c _ hparent hbelow _ => exact ⟨c, .inl ⟨hparent, hbelow⟩⟩
  | @up _ q _ hnot hparent _ => exact ⟨q, .inr ⟨hnot, hparent⟩⟩

theorem head_of_unmatched {x y z : α} (hz : net.Towards x y z)
    (hnone : (net.links x).tail.find? (fun link => link.matchesId (net.id y)) = none) :
    ∃ ch, (net.links x).head?.bind Link.send = some ch ∧ net.peer x ch = z := by
  rcases hz with ⟨hparent, hbelow⟩ | ⟨_, hparent⟩
  · rcases net.child z x hparent with ⟨link, hmem, _, hexact⟩ | ⟨_, hhead⟩
    · exact (List.find?_eq_none.mp hnone link hmem ((hexact y).mpr hbelow)).elim
    · exact hhead
  · exact net.up x z hparent

theorem treeChannel_towards (hlead : net.MatchesLead) {x y z : α} (hz : net.Towards x y z) :
    ∃ ch, treeChannel (net.links x) (net.id y) = some ch ∧ net.peer x ch = z := by
  cases hfind : (net.links x).tail.find? fun link => link.matchesId (net.id y) with
  | some link =>
      obtain ⟨ch, hsend, htowards⟩ := hlead x y hz.ne link hfind
      refine ⟨ch, ?_, htowards.unique hz⟩
      rw [← hsend]
      cases hlinks : net.links x with
      | nil => simp [hlinks] at hfind
      | cons link₀ rest =>
          rw [hlinks, List.tail_cons] at hfind
          simp only [treeChannel, hfind]
  | none =>
      obtain ⟨ch, hhead, hpeer⟩ := head_of_unmatched hz hfind
      refine ⟨ch, ?_, hpeer⟩
      rw [← hhead]
      cases hlinks : net.links x with
      | nil => rfl
      | cons link₀ rest =>
          rw [hlinks, List.tail_cons] at hfind
          simp only [treeChannel, hfind]
          rfl

theorem treeChannel_some (hlead : net.MatchesLead) {x y : α} (hne : x ≠ y) :
    ∃ ch, treeChannel (net.links x) (net.id y) = some ch := by
  obtain ⟨z, hz⟩ : ∃ z, net.Towards x y z := exists_towards hne
  obtain ⟨ch, hch, _⟩ := treeChannel_towards hlead hz
  exact ⟨ch, hch⟩

theorem treeChannel_of_find {x y : α} {link : Link}
    (hfind : (net.links x).tail.find? (fun link => link.matchesId (net.id y)) = some link) :
    treeChannel (net.links x) (net.id y) = link.send := by
  cases hlinks : net.links x with
  | nil => simp [hlinks] at hfind
  | cons link₀ rest =>
      rw [hlinks, List.tail_cons] at hfind
      simp only [treeChannel, hfind]

theorem remote_of_ne {x y : α} {s : ServerID} {rtr : Router V} (h : net.Configured x rtr)
    (hne : x ≠ y) : rtrIdOf (appId (net.id y) s) ≠ rtr.rtrId := by
  rw [rtrIdOf_appId, h.1]
  exact fun heq => hne (net.id_inj y x heq).symm

theorem destChan_of_channel {x y : α} {s : ServerID} {ch : RtrChan} {rtr : Router V}
    (h : net.Configured x rtr) (hne : x ≠ y)
    (hch : treeChannel (net.links x) (net.id y) = some ch) :
    rtr.destChan (appId (net.id y) s) = .ok (some (.router ch)) := by
  unfold destChan
  rw [if_neg (remote_of_ne h hne), rtrIdOf_appId, h.2, hch]
  rfl

theorem destChan_local {y : α} {s : ServerID} {rtr : Router V} (h : net.Configured y rtr) :
    rtr.destChan (appId (net.id y) s) = .ok ((rtr.findServerChan s).map .server) := by
  unfold destChan
  rw [if_pos (by rw [rtrIdOf_appId, h.1]), serverIdOf_appId]

theorem destChan_total (hlead : net.MatchesLead) {x y : α} {s : ServerID} {rtr : Router V}
    (h : net.Configured x rtr) : ∃ ec, rtr.destChan (appId (net.id y) s) = .ok ec := by
  by_cases heq : x = y
  · subst heq
    exact ⟨_, destChan_local h⟩
  · obtain ⟨ch, hch⟩ : ∃ ch, treeChannel (net.links x) (net.id y) = some ch :=
      treeChannel_some hlead heq
    exact ⟨_, destChan_of_channel h heq hch⟩

section Events

variable [Zero V] [Add V]

theorem writes_of_channel {x y : α} (hne : x ≠ y) {ch : RtrChan} {s : ServerID}
    (hch : treeChannel (net.links x) (net.id y) = some ch) {rtr : Router V}
    (hrtr : net.Configured x rtr) :
    (∀ ev, rtr.sendEvent (appId (net.id y) s) ev = .ok (rtr.sentOn (appId (net.id y) s)
        ⟨appId rtr.rtrId noServer, appId (net.id y) s, ev⟩ (.router ch))) ∧
      ∀ re : RouterEvent V, re.dest = appId (net.id y) s →
        rtr.processRouterEvent re = .ok (rtr.sentOn (appId (net.id y) s) re (.router ch)) := by
  have hremote := remote_of_ne (s := s) hrtr hne
  have hdest : rtr.destChan (appId (net.id y) s) = .ok (some (.router ch)) :=
    destChan_of_channel hrtr hne hch
  refine ⟨fun ev => sendEvent_router hdest, ?_⟩
  intro re hre
  rw [← hre] at hremote hdest ⊢
  exact processRouterEvent_router hremote hdest

theorem channel_of_hop {x y z : α} {s : ServerID} (hne : x ≠ y)
    (h : net.Hop V (appId (net.id y) s) x z) :
    ∃ ch, treeChannel (net.links x) (net.id y) = some ch ∧ net.peer x ch = z := by
  obtain ⟨ch, hpeer, hwrites⟩ := h
  let rtr : Router V := start (net.id x) (fun _ => none) (treeChannel (net.links x))
  have hconf : net.Configured x rtr := ⟨rfl, rfl⟩
  obtain ⟨hsend, _⟩ := hwrites rtr hconf
  rcases sendEvent_ok (hsend (.commDestroy ⟨newCommEvent .commDestroy 0 0⟩)) with
    ⟨hnone, _⟩ | ⟨ch', hdest, hsent⟩
  · rcases destChan_ok hnone with ⟨hlocal, _⟩ | ⟨_, ch', _, hec⟩
    · exact (remote_of_ne hconf hne hlocal).elim
    · cases hec
  · rcases destChan_ok hdest with ⟨hlocal, _⟩ | ⟨_, c, hc, hec⟩
    · exact (remote_of_ne hconf hne hlocal).elim
    · have hwritten := congrArg (fun rtr : Router V => rtr.mail.written) hsent
      have hch : (Chan.router ch : Chan) = ch' := by
        simpa [sentOn] using hwritten
      refine ⟨c, by rwa [rtrIdOf_appId] at hc, ?_⟩
      rw [← hch, Option.some.injEq, Chan.router.injEq] at hec
      rw [← hec, hpeer]

theorem hops_of_route (hlead : net.MatchesLead) {x y : α} {path : List α} (s : ServerID)
    (h : net.toParentTree.Route y x path) :
    path.IsChain (net.Hop V (appId (net.id y) s)) := by
  have hop : ∀ {x z : α}, net.Towards x y z → net.Hop V (appId (net.id y) s) x z := by
    intro x z hz
    obtain ⟨ch, hch, hpeer⟩ := treeChannel_towards hlead hz
    exact ⟨ch, hpeer, fun rtr hrtr => writes_of_channel hz.ne hch hrtr⟩
  induction h with
  | here => exact List.isChain_singleton _
  | @down x c path hparent hbelow htail ih =>
      obtain ⟨rest, rfl⟩ := List.head?_eq_some_iff.mp htail.head_eq
      exact List.isChain_cons_cons.mpr ⟨hop (.inl ⟨hparent, hbelow⟩), ih⟩
  | @up x q path hnot hparent htail ih =>
      obtain ⟨rest, rfl⟩ := List.head?_eq_some_iff.mp htail.head_eq
      exact List.isChain_cons_cons.mpr ⟨hop (.inr ⟨hnot, hparent⟩), ih⟩

theorem delivers_of_matchesLead (hlead : net.MatchesLead) (x y : α) (s : ServerID) :
    net.Delivers V x y s := by
  refine ⟨?_, fun rtr h => destChan_local h, fun a rtr => destChan_total hlead⟩
  obtain ⟨path, hroute⟩ : ∃ path, ParentTree.Route net.toParentTree y x path :=
    ParentTree.Route.exists_route x
  exact ⟨path, hroute.head_eq, hroute.last_eq, hops_of_route hlead s hroute, hroute.nodup,
    hroute.chain, hroute.eq_of_simple⟩

theorem hop_of_delivers {x y : α} {s : ServerID} (h : net.Delivers V x y s) (hne : x ≠ y) :
    ∃ z, net.Towards x y z ∧ net.Hop V (appId (net.id y) s) x z := by
  obtain ⟨z, hz⟩ : ∃ z, net.Towards x y z := exists_towards hne
  obtain ⟨⟨path, hhead, hlast, hhops, hnodup, hchain, _⟩, _⟩ := h
  obtain ⟨rest, rfl⟩ := List.head?_eq_some_iff.mp hhead
  cases rest with
  | nil => exact (hne (by simpa using hlast)).elim
  | cons next rest =>
      obtain rfl : next = z := ParentTree.Route.next_unique hchain hnodup hlast hz
      exact ⟨next, hz, (List.isChain_cons_cons.mp hhops).1⟩

variable (V) in
/-- Every event comes to its router, over the path of the tree, when and only when the
links that match lead on to it. -/
theorem tree_routing_delivers_iff (net : TreeLinks α) :
    (∀ x y s, net.Delivers V x y s) ↔ net.MatchesLead := by
  constructor
  · intro h x y hne link hfind
    obtain ⟨z, hz, hhop⟩ := hop_of_delivers (h x y noServer) hne
    obtain ⟨ch, hch, hpeer⟩ := channel_of_hop hne hhop
    exact ⟨ch, by rwa [treeChannel_of_find hfind] at hch, hpeer ▸ hz⟩
  · exact fun hlead x y s => delivers_of_matchesLead hlead x y s

end Events

end TreeLinks

/-- A tree of routers in which every other link is out of the way: a link from 1 on that has
the id of some router is that of a child. -/
structure TreeNetwork (α : Type) extends TreeLinks α where
  interval : ∀ x, ∀ link ∈ (links x).tail, ∀ y, link.matchesId (id y) = true →
    ∃ c ch, parent c = some x ∧ link.send = some ch ∧ peer x ch = c ∧
      ∀ z, link.matchesId (id z) = true ↔ toParentTree.Below c z

namespace TreeNetwork

variable {α : Type} (net : TreeNetwork α)

theorem matchesLead : net.MatchesLead := by
  intro x y hne link hfind
  have hmatch : link.matchesId (net.id y) = true := by
    simpa using List.find?_some hfind
  obtain ⟨c, ch, hparent, hsend, hpeer, hexact⟩ :=
    net.interval x link (List.mem_of_find?_eq_some hfind) y hmatch
  exact ⟨ch, hsend, .inl ⟨hpeer ▸ hparent, hpeer ▸ (hexact y).mp hmatch⟩⟩

section Daemon

/-! The configuration that `daemon.py` writes: a root over leaves with the ids 0 to
`n - 1`, leaf `i` on link `i`, and at each leaf a link to the root. -/

variable (n : Nat)

def daemonParent : Option (Fin n) → Option (Option (Fin n))
  | some _ => some none
  | none => none

def daemonTree : ParentTree (Option (Fin n)) where
  parent := daemonParent n
  root := none
  parent_root := rfl
  reaches x := by
    cases x with
    | none => exact .refl
    | some i => exact .single rfl

variable {n}

theorem daemon_below (i : Fin n) (x : Option (Fin n)) :
    (daemonTree n).Below (some i) x ↔ x = some i := by
  constructor
  · intro h
    rcases ParentTree.below_cases h with hx | ⟨y, hparent, hbelow⟩
    · exact hx
    · cases x with
      | none => cases hparent
      | some j =>
          cases hparent
          rcases ParentTree.below_cases hbelow with hx | ⟨y, hroot, _⟩
          · cases hx
          · cases hroot
  · intro hx
    rw [hx]
    exact ParentTree.below_refl _

def daemonId (rootId : RouterID) : Option (Fin n) → RouterID
  | some i => UInt32.ofNat i
  | none => rootId

def leafLink (i : Fin n) : Link := ⟨some i, UInt32.ofNat i, UInt32.ofNat i⟩

theorem leafLink_matches {rootId : RouterID} (hn : n ≤ rootId.toNat) (i : Fin n)
    (x : Option (Fin n)) : (leafLink i).matchesId (daemonId rootId x) = true ↔ x = some i := by
  have hsize := rootId.toNat_lt
  have hid : ∀ j : Fin n, (UInt32.ofNat j).toNat = j := fun j =>
    UInt32.toNat_ofNat_of_lt' (lt_of_lt_of_le j.isLt (hn.trans hsize.le))
  cases x with
  | none =>
      simp only [Link.matchesId, leafLink, daemonId, Bool.and_eq_true, decide_eq_true_eq,
        ge_iff_le, UInt32.le_iff_toNat_le, hid, reduceCtorEq, iff_false]
      have := i.isLt
      omega
  | some j =>
      simp only [Link.matchesId, leafLink, daemonId, Bool.and_eq_true, decide_eq_true_eq,
        ge_iff_le, UInt32.le_iff_toNat_le, hid, Option.some.injEq, Fin.ext_iff]
      omega

def daemonNetwork (rootId : RouterID) (hn : n ≤ rootId.toNat) :
    TreeNetwork (Option (Fin n)) where
  toParentTree := daemonTree n
  id := daemonId rootId
  links
    | none => (List.finRange n).map leafLink
    | some _ => [⟨some 0, 0, 0⟩]
  peer
    | none, ch => if h : ch < n then some ⟨ch, h⟩ else none
    | some _, _ => none
  id_inj x y heq := by
    cases y with
    | none =>
        cases x with
        | none => rfl
        | some i =>
            have := (leafLink_matches hn i (some i)).mpr rfl
            rw [heq] at this
            exact ((leafLink_matches hn i none).mp this).symm
    | some i =>
        apply (leafLink_matches hn i x).mp
        rw [heq]
        exact (leafLink_matches hn i (some i)).mpr rfl
  up x q hparent := by
    cases x with
    | none => cases hparent
    | some i =>
        cases hparent
        exact ⟨0, rfl, rfl⟩
  child c x hparent := by
    cases c with
    | none => cases hparent
    | some i =>
        cases hparent
        cases n with
        | zero => exact i.elim0
        | succ m =>
            cases i using Fin.cases with
            | zero =>
                refine .inr ⟨rfl, 0, ?_, ?_⟩
                · simp [List.finRange_succ, leafLink]
                · simp
            | succ i =>
                refine .inl ⟨leafLink i.succ, ?_, ⟨i.succ, rfl, ?_⟩, fun y => ?_⟩
                · simp [List.finRange_succ]
                · simp [Fin.ext_iff]
                · rw [leafLink_matches hn, daemon_below]
  interval x link hmem y hmatch := by
    cases x with
    | some i => simp at hmem
    | none =>
        obtain ⟨i, _, rfl⟩ := List.mem_map.mp (List.mem_of_mem_tail hmem)
        refine ⟨some i, i, rfl, rfl, by simp, fun z => ?_⟩
        rw [leafLink_matches hn, daemon_below]

end Daemon

end TreeNetwork

namespace TreeLinks

variable {α : Type} [DecidableEq α]

/-- At the router `x` one more link has been made by `resize` and never set. -/
def withUnset (net : TreeLinks α) (x : α) (h : net.links x ≠ []) : TreeLinks α where
  toParentTree := net.toParentTree
  id := net.id
  links := Function.update net.links x (net.links x ++ [Link.unset])
  peer := net.peer
  id_inj := net.id_inj
  up a q hparent := by
    obtain ⟨ch, hch, hpeer⟩ := net.up a q hparent
    refine ⟨ch, ?_, hpeer⟩
    by_cases ha : a = x
    · subst ha
      rwa [Function.update_self, List.head?_append_of_ne_nil _ h]
    · rwa [Function.update_of_ne ha]
  child c a hparent := by
    by_cases ha : a = x
    · subst ha
      rw [Function.update_self, List.head?_append_of_ne_nil _ h, List.tail_append_of_ne_nil h]
      rcases net.child c a hparent with ⟨link, hmem, hlink⟩ | hhead
      · exact .inl ⟨link, List.mem_append_left _ hmem, hlink⟩
      · exact .inr hhead
    · rw [Function.update_of_ne ha]
      exact net.child c a hparent

/-- The daemons of a root with id 2 and two leaves, with a third link of the root unset:
the root has no channel for the leaf with id 0. -/
theorem unset_link_matches : ∃ net : TreeLinks (Option (Fin 2)),
    (net.links none).map (fun link => (link.send, link.nidStart, link.nidStop)) =
      [(some 0, 0, 0), (some 1, 1, 1), (none, 0, 0)] ∧
    (∀ s, ∀ rtr : Router Int, net.Configured none rtr →
      rtr.destChan (appId (net.id (some 0)) s) = .error .assertFailed) ∧
    ¬ ∀ x y s, net.Delivers Int x y s := by
  let daemons : TreeNetwork (Option (Fin 2)) := .daemonNetwork 2 (by decide)
  let net : TreeLinks (Option (Fin 2)) := daemons.withUnset none (by decide)
  have hfails : ∀ s, ∀ rtr : Router Int, net.Configured none rtr →
      rtr.destChan (appId (net.id (some 0)) s) = .error .assertFailed := by
    intro s rtr hconf
    unfold Router.destChan
    rw [if_neg (remote_of_ne hconf (by decide)), rtrIdOf_appId, hconf.2]
    rfl
  refine ⟨net, rfl, hfails, ?_⟩
  intro h
  let rtr : Router Int := .start (net.id none) (fun _ => none) (treeChannel (net.links none))
  obtain ⟨_, _, htotal⟩ := h none (some 0) 3
  obtain ⟨ec, hec⟩ := htotal none rtr ⟨rfl, rfl⟩
  rw [hfails 3 rtr ⟨rfl, rfl⟩] at hec
  cases hec

end TreeLinks

end PwrApi.Router
