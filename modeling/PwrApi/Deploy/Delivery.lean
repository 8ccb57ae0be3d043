import PwrApi.Deploy.Wiring

/-! The way from every router of a cluster to the server of every board and node. -/

namespace PwrApi.Cluster

open Text Opening Daemon Router Machine Function

section Statements

variable (c : Cluster) (procs : Nat → Process) (V : Type) [Zero V] [Add V]

/-- From `a` an event for `id` is written to a channel that is open to the router at `b`. -/
def Hop (id : AppID) (a b : Option (Fin c.numBoards)) : Prop :=
  ∃ ch back port, (procs (c.nodeOf a)).dials ch = some (c.hostAt (c.nodeOf b), port) ∧
    (procs (c.nodeOf b)).listens (.link back) = some port ∧
    ∀ rtr : Router V, c.net.Configured a rtr →
      (∀ ev, rtr.sendEvent id ev =
        .ok (rtr.sentOn id ⟨appId rtr.rtrId noServer, id, ev⟩ (.router ch))) ∧
      ∀ re : RouterEvent V, re.dest = id →
        rtr.processRouterEvent re = .ok (rtr.sentOn id re (.router ch))

omit [Zero V] [Add V] in
/-- A server connects to the router at `y`, which files it under its place in the route table:
what comes there for that place goes to the server. -/
structure Registers (table : ObjID → Option AppID) (s : SrvrOpening.Srvr)
    (y : Option (Fin c.numBoards)) (p : Place c.toMachine) : Prop where
  name : s.connect = p.name
  dials : ∃ port, s.rtrChan = .client (c.hostAt (c.nodeOf y)) port ∧
    (procs (c.nodeOf y)).listens .server = some (portOf port)
  accepted : ∀ (rtr : Router V) (ec : ServerChan), c.net.Configured y rtr →
    rtr.routeTable = table → rtr.serverMap ec ≠ none →
    ∃ rtr', rtr.addServer s.connect (some ec) = .ok (serverIdOf p.id, rtr') ∧
      rtr'.destChan p.id = .ok (some (.server ec))

end Statements

section Channels

variable {α : Type} {net : TreeNetwork α}

theorem treeChannel_mem {links : List Router.Link} {id : RouterID} {ch : RtrChan}
    (h : treeChannel links id = some ch) : ∃ link ∈ links, link.send = some ch := by
  cases links with
  | nil => cases h
  | cons first rest =>
      simp only [treeChannel] at h
      cases hfind : rest.find? fun link => link.matchesId id with
      | none =>
          rw [hfind] at h
          exact ⟨first, List.mem_cons_self, h⟩
      | some link =>
          rw [hfind] at h
          exact ⟨link, List.mem_cons_of_mem _ (List.mem_of_find?_eq_some hfind), h⟩

theorem channels_of_route {x y : α} {path : List α} (h : net.toParentTree.Route y x path) :
    path.IsChain fun a b =>
      a ≠ y ∧ ∃ ch, treeChannel (net.links a) (net.id y) = some ch ∧ net.peer a ch = b := by
  induction h with
  | here => exact List.isChain_singleton _
  | @down x c path hparent hbelow htail ih =>
      obtain ⟨rest, rfl⟩ := List.head?_eq_some_iff.mp htail.head_eq
      refine List.isChain_cons_cons.mpr ⟨⟨?_, TreeLinks.treeChannel_towards
        net.matchesLead (.inl ⟨hparent, hbelow⟩)⟩, ih⟩
      rintro rfl
      exact ParentTree.not_below_child hparent hbelow
  | @up x q path hnot hparent htail ih =>
      obtain ⟨rest, rfl⟩ := List.head?_eq_some_iff.mp htail.head_eq
      refine List.isChain_cons_cons.mpr ⟨⟨?_, TreeLinks.treeChannel_towards
        net.matchesLead (.inr ⟨hnot, hparent⟩)⟩, ih⟩
      rintro rfl
      exact hnot (ParentTree.below_refl x)

end Channels

section Places

variable {c : Cluster}

def leafOf {k : Nat} (hk : k < c.numNodes) : Option (Fin c.numBoards) :=
  some ⟨k / c.nodesPerBoard, board_lt hk⟩

theorem boardRoot_eq (k : Nat) : calcBoardRoot k c.nodesPerBoard c.boardsPerCab =
    boardName (k / c.nodesPerBoard / c.boardsPerCab) (k / c.nodesPerBoard % c.boardsPerCab) := by
  rw [calcBoardRoot, Nat.div_div_eq_div_mul]

theorem nodeRoot_eq (k : Nat) : calcNodeRoot k c.nodesPerBoard c.boardsPerCab =
    nodeName (k / c.nodesPerBoard / c.boardsPerCab) (k / c.nodesPerBoard % c.boardsPerCab)
      (k % c.nodesPerBoard) := by
  rw [calcNodeRoot, boardRoot_eq, nodeName]

def nodePlace {k : Nat} (hk : k < c.numNodes) : Place c.toMachine :=
  .node ⟨k / c.nodesPerBoard, board_lt hk⟩ ⟨k % c.nodesPerBoard, by
    rw [lt_nodesOn]
    refine ⟨Nat.mod_lt _ c.nodesPerBoard_pos, ?_⟩
    rw [Nat.div_add_mod']
    exact hk⟩

def boardPlace {k : Nat} (hk : k < c.numNodes) : Place c.toMachine :=
  .board ⟨k / c.nodesPerBoard, board_lt hk⟩

theorem id_eq {k : Nat} (hk : k < c.numNodes) {p : Place c.toMachine}
    (hp : p.rtr = k / c.nodesPerBoard) :
    p.id = appId (c.net.id (leafOf hk)) (UInt32.ofNat p.pos) := by
  rw [Place.id, hp]
  rfl

theorem listens_server (x : Option (Fin c.numBoards)) :
    (c.processAt (c.nodeOf x)).listens .server = some (portOf (decimal 15001)) := by
  simp [Process.listens, processAt_rtr, rtrAt]

theorem addServer_place {V : Type} {k : Nat} (hk : k < c.numNodes) {p : Place c.toMachine}
    (hp : p.rtr = k / c.nodesPerBoard) {rtr : Router V} {ec : ServerChan}
    (hrtr : c.net.Configured (leafOf hk) rtr) (htable : rtr.routeTable = Place.table _ c.small)
    (hopen : rtr.serverMap ec ≠ none) :
    ∃ rtr', rtr.addServer p.name (some ec) = .ok (serverIdOf p.id, rtr') ∧
      rtr'.destChan p.id = .ok (some (.server ec)) := by
  obtain ⟨server, hserver⟩ := Option.ne_none_iff_exists'.mp hopen
  have hroute : rtr.findRoute p.name = p.id := by
    rw [findRoute, htable, Place.table_name c.small p]
    rfl
  have hpos : serverIdOf p.id ≠ noServer := by
    have hlt : p.pos < 2 ^ 31 := lt_of_le_of_lt p.pos_le c.small
    intro heq
    have hnat := congrArg UInt32.toNat heq
    rw [Place.id, serverIdOf_appId, UInt32.toNat_ofNat'] at hnat
    simp only [noServer, UInt32.reduceToNat] at hnat
    omega
  have hrouted : p.id ≠ unrouted := by
    intro heq
    apply hpos
    rw [heq]
    decide
  refine ⟨{ rtr with
      localMap := update rtr.localMap (serverIdOf p.id) (some ec)
      serverMap := update rtr.serverMap ec (some { name := p.name }) }, ?_, ?_⟩
  · simp only [addServer, hroute, require_of _ hrouted, orFault_some, hserver, bind, Except.bind]
  · have hlocal : rtrIdOf p.id = rtr.rtrId := by
      rw [id_eq hk hp, rtrIdOf_appId, hrtr.1]
    simp only [destChan, if_pos hlocal, findServerChan, if_neg hpos, update_self]
    rfl

theorem registers {V : Type} {k : Nat} (hk : k < c.numNodes) {s : SrvrOpening.Srvr}
    {p : Place c.toMachine} (hp : p.rtr = k / c.nodesPerBoard) (hname : s.connect = p.name)
    (hchan : s.rtrChan = .client (c.rtrHost k) (decimal 15001)) :
    c.Registers c.processAt V (Place.table _ c.small) s (leafOf hk) p where
  name := hname
  dials := ⟨decimal 15001, hchan, listens_server _⟩
  accepted rtr ec hrtr htable hopen := by
    rw [hname]
    exact addServer_place hk hp hrtr htable hopen

theorem first_of_board {k : Nat} (hfirst : k % c.nodesPerBoard = 0) :
    k / c.nodesPerBoard * c.nodesPerBoard = k :=
  Nat.div_mul_cancel (Nat.dvd_of_mod_eq_zero hfirst)

theorem srvr_cases {k : Nat} (hk : k < c.numNodes) {s : SrvrOpening.Srvr}
    (h : s ∈ (c.processAt k).srvrs) :
    (s = c.nodeSrvr k ∧ s.connect = (nodePlace hk).name) ∨
      (k % c.nodesPerBoard = 0 ∧ s = c.boardSrvr k ∧ s.connect = (boardPlace hk).name) := by
  rcases List.mem_cons.mp h with rfl | h
  · exact .inl ⟨rfl, nodeRoot_eq k⟩
  · by_cases hfirst : k % c.nodesPerBoard = 0
    · rw [if_neg (not_not.mpr hfirst), List.mem_singleton] at h
      subst h
      exact .inr ⟨hfirst, rfl, boardRoot_eq k⟩
    · rw [if_pos hfirst] at h
      cases h

theorem srvr_of_place (p : Place c.toMachine) : ∃ k, ∃ _ : k < c.numNodes,
    ∃ s ∈ (c.processAt k).srvrs, p.rtr = k / c.nodesPerBoard ∧ s.connect = p.name ∧
      s.rtrChan = .client (c.rtrHost k) (decimal 15001) := by
  have hper := c.nodesPerBoard_pos
  cases p with
  | board i =>
      have hdiv : ↑i * c.nodesPerBoard / c.nodesPerBoard = ↑i := Nat.mul_div_cancel _ hper
      refine ⟨i * c.nodesPerBoard, first_lt i.isLt, c.boardSrvr (i * c.nodesPerBoard), ?_,
        hdiv.symm, ?_, rfl⟩
      · rw [processAt, Nat.mul_mod_left]
        exact List.mem_cons_of_mem _ (List.mem_singleton.mpr rfl)
      · show calcBoardRoot _ _ _ = _
        rw [boardRoot_eq, hdiv]
        rfl
  | node i j =>
      obtain ⟨hj, hk⟩ := (lt_nodesOn c.toMachine).mp j.isLt
      have hdiv : (↑i * c.nodesPerBoard + ↑j) / c.nodesPerBoard = ↑i := by
        rw [Nat.add_comm, Nat.add_mul_div_right _ _ hper, Nat.div_eq_of_lt hj, Nat.zero_add]
      have hmod : (↑i * c.nodesPerBoard + ↑j) % c.nodesPerBoard = ↑j := by
        rw [Nat.mul_add_mod', Nat.mod_eq_of_lt hj]
      refine ⟨i * c.nodesPerBoard + j, hk, c.nodeSrvr _, List.mem_cons_self, hdiv.symm, ?_, rfl⟩
      show calcNodeRoot _ _ _ = _
      rw [nodeRoot_eq, hdiv, hmod]
      rfl

theorem srvr_unique {k k' : Nat} (hk : k < c.numNodes) (hk' : k' < c.numNodes)
    {s s' : SrvrOpening.Srvr} (hs : s ∈ (c.processAt k).srvrs) (hs' : s' ∈ (c.processAt k').srvrs)
    (h : s'.connect = s.connect) : k' = k ∧ s' = s := by
  rcases srvr_cases hk hs with ⟨rfl, hname⟩ | ⟨hfirst, rfl, hname⟩ <;>
    rcases srvr_cases hk' hs' with ⟨rfl, hname'⟩ | ⟨hfirst', rfl, hname'⟩
  · have hplace := Place.name_inj (hname'.symm.trans (h.trans hname))
    have hdiv : k' / c.nodesPerBoard = k / c.nodesPerBoard := congrArg Place.rtr hplace
    have hmod : k' % c.nodesPerBoard = k % c.nodesPerBoard :=
      Nat.succ.inj (congrArg Place.pos hplace)
    obtain rfl := Place.div_mod_inj hdiv hmod
    exact ⟨rfl, rfl⟩
  · cases Place.name_inj (hname'.symm.trans (h.trans hname))
  · cases Place.name_inj (hname'.symm.trans (h.trans hname))
  · have hplace := Place.name_inj (hname'.symm.trans (h.trans hname))
    have hdiv : k' / c.nodesPerBoard = k / c.nodesPerBoard := congrArg Place.rtr hplace
    obtain rfl : k' = k := by
      rw [← first_of_board hfirst, ← first_of_board hfirst', hdiv]
    exact ⟨rfl, rfl⟩

end Places

section Paths

variable {c : Cluster}

theorem hops_to {V : Type} [Zero V] [Add V] (hfirst : 4 ≤ (c.hostAt 0).length)
    (hroot : 4 ≤ (c.hostAt c.rootNode).length) {k : Nat} (hk : k < c.numNodes)
    {p : Place c.toMachine} (hp : p.rtr = k / c.nodesPerBoard) (x : Option (Fin c.numBoards)) :
    ∃ path : List (Option (Fin c.numBoards)), path.head? = some x ∧
      path.getLast? = some (leafOf hk) ∧ path.Nodup ∧ path.IsChain (c.Hop c.processAt V p.id) := by
  obtain ⟨path, hroute⟩ : ∃ path, ParentTree.Route c.net.toParentTree (leafOf hk) x path :=
    ParentTree.Route.exists_route x
  refine ⟨path, hroute.head_eq, hroute.last_eq, hroute.nodup, ?_⟩
  refine (channels_of_route hroute).imp fun a b ⟨hne, ch, hch, hpeer⟩ => ?_
  obtain ⟨back, port, hdial, hlisten, _⟩ := reach_of_long hfirst hroot (treeChannel_mem hch)
  rw [hpeer] at hdial hlisten
  refine ⟨ch, back, port, hdial, hlisten, fun rtr hrtr => ?_⟩
  rw [id_eq hk hp]
  exact TreeLinks.writes_of_channel hne hch hrtr

end Paths

/-- The servers that `GetApps` starts are one for each place of the machine. Each is taken by
the router of its board, and from every router of the cluster what is sent to its place, or
passed on to it, goes over open channels to that router, by no router twice, and then to it. -/
theorem every_place_is_reached (c : Cluster) (hfirst : 4 ≤ (c.hostAt 0).length)
    (hroot : 4 ≤ (c.hostAt c.rootNode).length) (V : Type) [Zero V] [Add V] :
    ∃ (procs : Nat → Process) (table : ObjID → Option AppID),
      (∀ k < c.numNodes,
        (getApps c.toMachine (c.run k) k c.nidMap).map startDaemon = some (.ok (procs k))) ∧
      initRouteTable (some c.genRouteFile) = .ok table ∧
      (∀ k < c.numNodes, ∀ s ∈ (procs k).srvrs, ∃ p : Place c.toMachine, s.connect = p.name) ∧
      ∀ p : Place c.toMachine, ∃ k < c.numNodes, ∃ s ∈ (procs k).srvrs, ∃ y,
        (∀ k' < c.numNodes, ∀ s' ∈ (procs k').srvrs, s'.connect = p.name → k' = k ∧ s' = s) ∧
        c.Registers procs V table s y p ∧
        ∀ x, ∃ path : List (Option (Fin c.numBoards)), path.head? = some x ∧
          path.getLast? = some y ∧ path.Nodup ∧ path.IsChain (c.Hop procs V p.id) := by
  refine ⟨c.processAt, Place.table _ c.small, fun k hk => daemon_eq hk,
    Place.initRouteTable_genRouteFile c.small, ?_, ?_⟩
  · intro k hk s hs
    rcases srvr_cases hk hs with ⟨_, hname⟩ | ⟨_, _, hname⟩
    · exact ⟨_, hname⟩
    · exact ⟨_, hname⟩
  · intro p
    obtain ⟨k, hk, s, hs, hp, hname, hchan⟩ := srvr_of_place p
    refine ⟨k, hk, s, hs, leafOf hk, ?_, registers hk hp hname hchan, hops_to hfirst hroot hk hp⟩
    intro k' hk' s' hs' hname'
    exact srvr_unique hk hk' hs hs' (hname'.trans hname.symm)

/-- Four nodes, two on a board. -/
def fourNodes : Cluster where
  numNodes := 4
  nodesPerBoard := 2
  boardsPerCab := 1
  nodesPerBoard_pos := Nat.two_pos
  boardsPerCab_pos := Nat.one_pos
  nidMap := [ofString "nid0", ofString "nid1", ofString "nid2", ofString "nid3"]
  run k := ⟨ofString "systemX.xml", ofString "routeTable." ++ decimal k, ofString "plat",
    ofString "POWER", [], ofString "pwrdaemon", []⟩
  length_nidMap := rfl
  nodup_nidMap := by decide
  plain := by decide
  nodes := by decide
  perBoard := by decide
  ports := by decide
  small := by decide
  spaces k := by
    have hplain : 32 ∉ ofString "systemX.xml" ∧ 32 ∉ ofString "routeTable." ∧
        32 ∉ ofString "plat" ∧ 32 ∉ ofString "POWER" ∧ 32 ∉ ofString "pwrdaemon" := by decide
    obtain ⟨hconfig, hroute, hobject, hattr, hexe⟩ := hplain
    have hfile : 32 ∉ ofString "routeTable." ++ decimal k := by
      rw [List.mem_append, not_or]
      exact ⟨hroute, space_decimal k⟩
    exact ⟨hconfig, hfile, hobject, hattr, List.not_mem_nil, hexe⟩
  routeFile_ne k := by simp [ofString]
  exe k := by simp [ofString]
  noClient k := rfl

theorem every_place_of_four_nodes :
    ∃ (procs : Nat → Process) (table : ObjID → Option AppID),
      (∀ k < 4, (getApps fourNodes.toMachine (fourNodes.run k) k fourNodes.nidMap).map startDaemon =
        some (.ok (procs k))) ∧
      initRouteTable (some fourNodes.genRouteFile) = .ok table ∧
      (∀ k < 4, ∀ s ∈ (procs k).srvrs, ∃ p : Place fourNodes.toMachine, s.connect = p.name) ∧
      ∀ p : Place fourNodes.toMachine, ∃ k < 4, ∃ s ∈ (procs k).srvrs, ∃ y,
        (∀ k' < 4, ∀ s' ∈ (procs k').srvrs, s'.connect = p.name → k' = k ∧ s' = s) ∧
        fourNodes.Registers procs Nat table s y p ∧
        ∀ x, ∃ path : List (Option (Fin fourNodes.numBoards)), path.head? = some x ∧
          path.getLast? = some y ∧ path.Nodup ∧ path.IsChain (fourNodes.Hop procs Nat p.id) :=
  every_place_is_reached fourNodes (by decide) (by decide) Nat

end PwrApi.Cluster
