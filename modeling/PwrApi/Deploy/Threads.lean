import PwrApi.Deploy.Cluster

/-! The routers and servers that run on the nodes of a cluster, once their daemons have read
their arguments. -/

namespace PwrApi

open Text

/-- A daemon after its threads have been made; the logger is left out. -/
structure Process where
  rtr : Option Opening.Rtr
  srvrs : List SrvrOpening.Srvr

/-- `main` of `pwrdaemon.cc` with the constructors that its threads call. -/
def startDaemon (argv : List Text) : Except RouterArgs.Stop Process := do
  let threads := PwrDaemon.main argv
  let rtr ←
    match threads.rtrThread with
    | some args => (Opening.startRtr args).map some
    | none => .ok none
  let srvrs ← threads.srvrThreads.mapM SrvrOpening.startSrvr
  .ok ⟨rtr, srvrs⟩

namespace Cluster

open Daemon PwrDaemon

section Options

/-- What comes after the name of the thread in its arguments. -/
def given (name : String) (value : Text) : Text := ofString name ++ 61 :: value

def rtrGiven (rtrID : Nat) (infos : List Text) (routeFile : Text) : List Text :=
  [given "routerType" RouterArgs.tree, given "clientPort" (decimal 15000),
      given "serverPort" (decimal 15001), given "routerId" (decimal rtrID)] ++
    infos.map (given "routerInfo") ++ [given "routeTable" routeFile]

def nodeGiven (rtrHost config root : Text) : List Text :=
  [given "name" (ofString "srvr"), given "rtrHost" rtrHost, given "rtrPort" (decimal 15001),
    given "pwrApiConfig" config, given "pwrApiRoot" root]

def boardGiven (rtrHost config root : Text) : List Text :=
  [given "name" (ofString "srv0"), given "rtrHost" rtrHost, given "rtrPort" (decimal 15001),
    given "pwrApiConfig" config, given "pwrApiRoot" root, given "pwrApiServer" rtrHost,
    given "pwrApiServerPort" (decimal 15000)]

theorem rtrArgs_given (rtrID : Nat) (infos : List Text) (routeFile : Text) :
    rtrArgs rtrID infos routeFile = (rtrGiven rtrID infos routeFile).map (PwrDaemon.option rtr) := by
  simp only [rtrArgs, rtrGiven, List.map_append, List.map_cons, List.map_nil, List.map_map]
  rfl

theorem rtrGiven_args (rtrID : Nat) (infos : List Text) (routeFile : Text) :
    (rtrGiven rtrID infos routeFile).map (fun rest => 45 :: 45 :: rest) =
      Opening.treeArgs (decimal 15000) (decimal 15001) (decimal rtrID) infos routeFile := by
  simp only [Opening.treeArgs, rtrGiven, List.map_append, List.map_cons, List.map_nil, List.map_map]
  rfl

theorem nodeArgs_given (rtrHost config root : Text) :
    nodeArgs rtrHost config root =
      (nodeGiven rtrHost config root).map (PwrDaemon.option (srvr 0)) := rfl

theorem boardArgs_given (rtrHost config root : Text) :
    boardArgs rtrHost config root =
      (boardGiven rtrHost config root).map (PwrDaemon.option (srvr 1)) := rfl

theorem lgrArgs_given (serverHost config apiroot object attr logfile : Text) :
    ∃ rests : List Text, lgrArgs serverHost config apiroot object attr logfile =
      rests.map (PwrDaemon.option lgr) := by
  refine ⟨[given "name" (ofString "lgr"), given "pwrApiServer" serverHost,
      given "pwrApiServerPort" (decimal 15000), given "pwrApiConfig" config,
      given "pwrApiRoot" apiroot, given "object" object, given "count" (decimal 0),
      given "delay" (decimal 0)] ++ (if attr = [] then [] else [given "attr" attr]) ++
    (if logfile = [] then [] else [given "logfile" logfile]), ?_⟩
  by_cases hattr : attr = [] <;> by_cases hlogfile : logfile = [] <;>
    simp only [lgrArgs, hattr, hlogfile, if_true, if_false] <;> rfl

variable {c : Cluster}

def argv (c : Cluster) (k : Nat) : List Text :=
  (c.run k).daemonExe :: [] :: (c.rtrPart k ++ c.nodePart k ++ c.boardPart k ++ c.lgrPart k)

def infos (c : Cluster) (k : Nat) : List Text :=
  if k = c.rootNode then
    (List.range c.numBoards).map fun i => rootInfo i (c.hostAt (i * c.nodesPerBoard))
  else [leafInfo (k / c.nodesPerBoard) (c.hostAt c.rootNode)]

def rtrIdAt (c : Cluster) (k : Nat) : Nat :=
  if k = c.rootNode then c.numBoards else k / c.nodesPerBoard

theorem rtrPart_given (k : Nat) : c.rtrPart k =
    (if imARtr k c.nodesPerBoard c.rootNode then
      rtrGiven (c.rtrIdAt k) (c.infos k) (c.run k).routeFile else []).map (PwrDaemon.option rtr) := by
  unfold rtrPart infos rtrIdAt
  by_cases hroot : k = c.rootNode
  · have hrtr : imARtr k c.nodesPerBoard c.rootNode = true := by simp [imARtr, hroot]
    rw [if_pos hroot, if_pos hrtr, if_pos hroot, if_pos hroot, rtrArgs_given]
  · by_cases hfirst : k % c.nodesPerBoard = 0
    · have hrtr : imARtr k c.nodesPerBoard c.rootNode = true := by simp [imARtr, hfirst]
      rw [if_neg hroot, if_pos hfirst, if_pos hrtr, if_neg hroot, if_neg hroot, rtrArgs_given]
    · have hrtr : ¬ imARtr k c.nodesPerBoard c.rootNode = true := by simp [imARtr, hroot, hfirst]
      rw [if_neg hroot, if_neg hfirst, if_neg hrtr]
      rfl

theorem boardPart_given (k : Nat) : c.boardPart k =
    (if k % c.nodesPerBoard ≠ 0 then [] else boardGiven (c.rtrHost k) (c.run k).config
      (calcBoardRoot k c.nodesPerBoard c.boardsPerCab)).map (PwrDaemon.option (srvr 1)) := by
  rw [boardPart]
  split
  · rfl
  · exact boardArgs_given _ _ _

theorem lgrPart_given (k : Nat) :
    ∃ rests : List Text, c.lgrPart k = rests.map (PwrDaemon.option lgr) := by
  unfold lgrPart
  split
  · exact lgrArgs_given _ _ _ _ _ _
  · exact ⟨[], rfl⟩

theorem optionsOf_front (k : Nat) {name : Text} (args : List Text) :
    optionsOf name ((c.run k).daemonExe :: [] :: args) = optionsOf name args := by
  have hexe : ¬ optionPrefix name <+: (c.run k).daemonExe := by
    rintro ⟨rest, hrest⟩
    apply c.exe k
    rw [← hrest]
    rfl
  have hempty : ¬ optionPrefix name <+: [] := by
    rintro ⟨rest, hrest⟩
    cases hrest
  simp only [optionsOf, findArgs, List.filterMap_cons, findArg_of_not hexe,
    findArg_of_not hempty]

theorem optionsOf_argv (name : Text) (k : Nat) :
    optionsOf name (c.argv k) = optionsOf name (c.rtrPart k) ++ optionsOf name (c.nodePart k) ++
      optionsOf name (c.boardPart k) ++ optionsOf name (c.lgrPart k) := by
  rw [argv, optionsOf_front, optionsOf_append, optionsOf_append, optionsOf_append]

theorem optionsOf_other_part (k : Nat) {name : Text} (hname : Plain name) :
    (name ≠ rtr → optionsOf name (c.rtrPart k) = []) ∧
    (name ≠ srvr 0 → optionsOf name (c.nodePart k) = []) ∧
    (name ≠ srvr 1 → optionsOf name (c.boardPart k) = []) ∧
    (name ≠ lgr → optionsOf name (c.lgrPart k) = []) := by
  obtain ⟨rests, hlgr⟩ := c.lgrPart_given k
  rw [rtrPart_given, nodePart, nodeArgs_given, boardPart_given, hlgr]
  exact ⟨fun hne => optionsOf_ne plain_rtr hname hne.symm _,
    fun hne => optionsOf_ne (plain_srvr 0) hname hne.symm _,
    fun hne => optionsOf_ne (plain_srvr 1) hname hne.symm _,
    fun hne => optionsOf_ne plain_lgr hname hne.symm _⟩

theorem rtr_argv (k : Nat) : optionsOf rtr (c.argv k) =
    if imARtr k c.nodesPerBoard c.rootNode then Opening.treeArgs (decimal 15000) (decimal 15001)
      (decimal (c.rtrIdAt k)) (c.infos k) (c.run k).routeFile else [] := by
  obtain ⟨_, hnode, hboard, hlgr⟩ := c.optionsOf_other_part k plain_rtr
  rw [optionsOf_argv, hnode (srvr_ne 0).1.symm, hboard (srvr_ne 1).1.symm, hlgr (by decide),
    rtrPart_given, optionsOf_self]
  split
  · rw [rtrGiven_args]
    simp
  · rfl

theorem srvr_argv (k : Nat) : optionsOf (srvr 0) (c.argv k) =
    SrvrOpening.nodeArgs (ofString "srvr") (c.rtrHost k) (decimal 15001) (c.run k).config
      (calcNodeRoot k c.nodesPerBoard c.boardsPerCab) := by
  obtain ⟨hrtr, _, hboard, hlgr⟩ := c.optionsOf_other_part k (plain_srvr 0)
  rw [optionsOf_argv, hrtr (srvr_ne 0).1, hboard (by decide), hlgr (srvr_ne 0).2, nodePart,
    nodeArgs_given, optionsOf_self]
  rfl

theorem srvr0_argv (k : Nat) : optionsOf (srvr 1) (c.argv k) =
    if k % c.nodesPerBoard ≠ 0 then [] else SrvrOpening.boardArgs (ofString "srv0") (c.rtrHost k)
      (decimal 15001) (c.run k).config (calcBoardRoot k c.nodesPerBoard c.boardsPerCab) (c.rtrHost k)
      (decimal 15000) := by
  obtain ⟨hrtr, hnode, _, hlgr⟩ := c.optionsOf_other_part k (plain_srvr 1)
  rw [optionsOf_argv, hrtr (srvr_ne 1).1, hnode (by decide), hlgr (srvr_ne 1).2, boardPart_given,
    optionsOf_self]
  split
  · rfl
  · rfl

theorem srvr_argv_none (k j : Nat) : optionsOf (srvr (j + 2)) (c.argv k) = [] := by
  have hne : ∀ i, i < 2 → srvr (j + 2) ≠ srvr i := fun i hi h =>
    absurd (srvr_injective h) (by omega)
  obtain ⟨hrtr, hnode, hboard, hlgr⟩ := c.optionsOf_other_part k (plain_srvr (j + 2))
  rw [optionsOf_argv, hrtr (srvr_ne _).1, hnode (hne 0 (by decide)), hboard (hne 1 (by decide)),
    hlgr (srvr_ne _).2]
  rfl

theorem main_argv (k : Nat) :
    (main (c.argv k)).rtrThread =
      (if imARtr k c.nodesPerBoard c.rootNode then some (Opening.treeArgs (decimal 15000)
        (decimal 15001) (decimal (c.rtrIdAt k)) (c.infos k) (c.run k).routeFile) else none) ∧
    (main (c.argv k)).srvrThreads =
      SrvrOpening.nodeArgs (ofString "srvr") (c.rtrHost k) (decimal 15001) (c.run k).config
        (calcNodeRoot k c.nodesPerBoard c.boardsPerCab) ::
      if k % c.nodesPerBoard ≠ 0 then [] else [SrvrOpening.boardArgs (ofString "srv0") (c.rtrHost k)
        (decimal 15001) (c.run k).config (calcBoardRoot k c.nodesPerBoard c.boardsPerCab) (c.rtrHost k)
        (decimal 15000)] := by
  obtain ⟨hrtr, _, n, hservers, hend, hall⟩ := main_threads (c.argv k)
  have hnode : optionsOf (srvr 0) (c.argv k) ≠ [] := by
    rw [srvr_argv]
    exact List.cons_ne_nil _ _
  constructor
  · rw [hrtr, rtr_argv]
    split
    · exact if_neg (List.cons_ne_nil _ _)
    · rfl
  · by_cases hboard : k % c.nodesPerBoard ≠ 0
    · have hone : n = 1 := by
        have hnone : optionsOf (srvr 1) (c.argv k) = [] := by rw [srvr0_argv, if_pos hboard]
        rcases n with _ | _ | n
        · exact absurd hend hnode
        · rfl
        · exact absurd hnone (hall 1 (by omega))
      rw [hservers, hone, if_pos hboard, ← srvr_argv]
      rfl
    · have hsome : optionsOf (srvr 1) (c.argv k) ≠ [] := by
        rw [srvr0_argv, if_neg hboard]
        exact List.cons_ne_nil _ _
      have htwo : n = 2 := by
        rcases n with _ | _ | _ | n
        · exact absurd hend hnode
        · exact absurd hend hsome
        · rfl
        · exact absurd (srvr_argv_none k 0) (hall 2 (by omega))
      have hargs := c.srvr0_argv k
      rw [if_neg hboard] at hargs
      rw [hservers, htwo, if_neg hboard, ← srvr_argv, ← hargs]
      rfl

end Options

section Links

/-- The port that link 0 of the root sends to: what comes after it in the option is cut to the
length of the host and one more. -/
def firstPort (host : Text) : Text :=
  (decimal 16000 ++ 58 :: (decimal 0 ++ 58 :: decimal 0)).take (host.length + 1)

/-- The port of the root that a leaf sends to, cut in the same way. -/
def leafPort (i : Nat) (host : Text) : Text := (decimal (16000 + i)).take (host.length + 1)

def rootLink (i : Nat) (host : Text) : RouterArgs.Link :=
  if i = 0 then ⟨decimal 16000, host, firstPort host, [], []⟩
  else ⟨decimal (16000 + i), host, decimal 16000, decimal i, decimal i⟩

def leafLink (i : Nat) (host : Text) : RouterArgs.Link :=
  ⟨decimal 16000, host, leafPort i host, [], []⟩

theorem initInfo_leaf {i : Nat} {host : Text} (hhost : 58 ∉ host) :
    [leafInfo i host].foldlM RouterArgs.initInfo (.tree []) = .ok (.tree [leafLink i host]) := by
  have hdecimal := not_mem_decimal (c := 58) (by decide)
  have htext : leafInfo i host =
      decimal 0 ++ 58 :: (decimal 16000 ++ 58 :: (host ++ 58 :: decimal (16000 + i))) := by
    simp [leafInfo]
  have hput : Slots.put RouterArgs.Link.blank [] 0 (fun old =>
      { old with
        myListenPort := decimal 16000
        otherHost := host
        otherHostListenPort := leafPort i host }) = [leafLink i host] := Slots.put_length rfl _
  rw [List.foldlM_cons, htext]
  simp only [RouterArgs.initInfo, Opening.initTreeInfo_first (hdecimal 16000) hhost, Except.map]
  exact congrArg (fun links => Except.ok (RouterArgs.CoreArgs.tree links)) hput

theorem initTreeInfo_root {i : Nat} (hi : i ≠ 0) (hbound : i < 2 ^ 31) {host : Text}
    (hhost : 58 ∉ host) (hne : host ≠ []) (links : List RouterArgs.Link) :
    RouterArgs.initTreeInfo links (rootInfo i host) =
      .ok (Slots.put .blank links i fun _ => rootLink i host) := by
  have hdecimal := not_mem_decimal (c := 58) (by decide)
  let spec : RouterArgs.LinkSpec :=
    { index := i
      link := ⟨decimal (16000 + i), host, decimal 16000, decimal i, decimal i⟩
      index_lt := hbound
      plain := ⟨hdecimal (16000 + i), hhost, hdecimal 16000, hdecimal i, hdecimal i⟩
      filled := ⟨decimal_ne_nil (16000 + i), hne, decimal_ne_nil 16000⟩
      nids := by
        rw [if_neg hi]
        exact ⟨decimal_ne_nil _, decimal_ne_nil _⟩ }
  have htext : spec.text = rootInfo i host := by
    simp [spec, RouterArgs.LinkSpec.text, rootInfo, hi]
  have hstored : spec.stored = fun _ => rootLink i host := by
    funext old
    simp [spec, RouterArgs.LinkSpec.stored, rootLink, hi]
  rw [← htext, spec.initTreeInfo_text, hstored]

theorem initTreeInfo_root_first {host : Text} (hhost : 58 ∉ host) (links : List RouterArgs.Link) :
    RouterArgs.initTreeInfo links (rootInfo 0 host) =
      .ok (Slots.put .blank links 0 fun old =>
        { old with
          myListenPort := decimal 16000
          otherHost := host
          otherHostListenPort := firstPort host }) := by
  have htext : rootInfo 0 host = decimal 0 ++ 58 :: (decimal 16000 ++ 58 :: (host ++
      58 :: (decimal 16000 ++ 58 :: (decimal 0 ++ 58 :: decimal 0)))) := by
    simp [rootInfo]
  rw [htext, Opening.initTreeInfo_first (not_mem_decimal (by decide) _) hhost]
  rfl

theorem initInfo_root {hosts : Nat → Text} {n : Nat}
    (hhosts : ∀ i < n, 58 ∉ hosts i ∧ hosts i ≠ []) (hn : n ≤ 2 ^ 31) :
    ((List.range n).map fun i => rootInfo i (hosts i)).foldlM RouterArgs.initInfo (.tree []) =
      .ok (.tree ((List.range n).map fun i => rootLink i (hosts i))) := by
  induction n with
  | zero => rfl
  | succ n ih =>
      have hbefore := ih (fun i hi => hhosts i (by omega)) (by omega)
      obtain ⟨hhost, hne⟩ := hhosts n (Nat.lt_succ_self n)
      have hlength : ((List.range n).map fun i => rootLink i (hosts i)).length = n := by simp
      have hlast : RouterArgs.initTreeInfo ((List.range n).map fun i => rootLink i (hosts i))
          (rootInfo n (hosts n)) =
          .ok ((List.range n).map (fun i => rootLink i (hosts i)) ++ [rootLink n (hosts n)]) := by
        by_cases hzero : n = 0
        · subst hzero
          rw [initTreeInfo_root_first hhost]
          exact congrArg Except.ok (Slots.put_length rfl _)
        · rw [initTreeInfo_root hzero (by omega) hhost hne, Slots.put_length hlength]
      rw [List.range_succ, List.map_append, List.map_append, List.foldlM_append, hbefore]
      show (RouterArgs.initInfo _ _).bind _ = _
      rw [RouterArgs.initInfo, hlast]
      rfl

end Links

section Processes

def rootEntry (i : Nat) (host : Text) : Opening.Entry :=
  ⟨⟨some i, UInt32.ofNat i, UInt32.ofNat i⟩,
    some (.client host (if i = 0 then firstPort host else decimal 16000)),
    some (.listening (decimal (16000 + i)))⟩

def leafEntry (i : Nat) (host : Text) : Opening.Entry :=
  ⟨⟨some 0, 0, 0⟩, some (.client host (leafPort i host)), some (.listening (decimal 16000))⟩

theorem space_firstPort (host : Text) : 32 ∉ firstPort host := by
  intro hmem
  have hwhole := List.mem_of_mem_take hmem
  simp only [List.mem_append, List.mem_cons] at hwhole
  rcases hwhole with h | h | h | h | h
  · exact space_decimal _ h
  · exact absurd h (by decide)
  · exact space_decimal _ h
  · exact absurd h (by decide)
  · exact space_decimal _ h

theorem atoi_id {i : Nat} (hi : i < 2 ^ 31) : (atoi (decimal i)).toUInt32 = UInt32.ofNat i :=
  (RouterArgs.atoi_index hi).1

theorem treeEntry_root {i : Nat} (hi : i < 2 ^ 31) {host : Text} (hhost : 32 ∉ host) :
    Opening.treeEntry i (rootLink i host) = .ok (rootEntry i host) := by
  unfold rootLink rootEntry
  by_cases hzero : i = 0
  · subst hzero
    rw [if_pos rfl, if_pos rfl,
      Opening.treeEntry_link (decimal_ne_nil 16000) ⟨space_decimal 16000, hhost, space_firstPort host⟩]
    rfl
  · have hpos : i > 0 := Nat.pos_of_ne_zero hzero
    rw [if_neg hzero, if_neg hzero, Opening.treeEntry_link (decimal_ne_nil (16000 + i))
      ⟨space_decimal (16000 + i), hhost, space_decimal 16000⟩]
    simp only [if_pos hpos, atoi_id hi]

theorem treeCore_root {hosts : Nat → Text} {n : Nat} (hhosts : ∀ i < n, 32 ∉ hosts i)
    (hn : n ≤ 2 ^ 31) :
    Opening.treeCore ((List.range n).map fun i => rootLink i (hosts i)) =
      .ok ((List.range n).map fun i => rootEntry i (hosts i)) := by
  have hindex : ((List.range n).map fun i => rootLink i (hosts i)).zipIdx =
      (List.range n).map fun i => (rootLink i (hosts i), i) := by
    apply List.ext_getElem
    · simp
    · intro i hi hi'
      simp
  rw [Opening.treeCore, hindex, List.mapM_map]
  apply Runs.mapM_of_ok
  intro i hi
  rw [List.mem_range] at hi
  exact treeEntry_root (by omega) (hhosts i hi)

theorem treeCore_leaf (i : Nat) {host : Text} (hhost : 32 ∉ host) :
    Opening.treeCore [leafLink i host] = .ok [leafEntry i host] := by
  have hport : 32 ∉ leafPort i host := fun hmem => space_decimal _ (List.mem_of_mem_take hmem)
  have hentry : Opening.treeEntry 0 (leafLink i host) = _ :=
    Opening.treeEntry_link (decimal_ne_nil 16000) ⟨space_decimal 16000, hhost, hport⟩
  show (Opening.treeEntry 0 (leafLink i host)).bind _ = _
  rw [hentry]
  rfl

variable {c : Cluster}

def entriesAt (c : Cluster) (k : Nat) : List Opening.Entry :=
  if k = c.rootNode then
    (List.range c.numBoards).map fun i => rootEntry i (c.hostAt (i * c.nodesPerBoard))
  else [leafEntry (k / c.nodesPerBoard) (c.hostAt c.rootNode)]

def rtrAt (c : Cluster) (k : Nat) : Opening.Rtr :=
  ⟨UInt32.ofNat (c.rtrIdAt k), (c.run k).routeFile, some (.listening (decimal 15000)),
    some (.listening (decimal 15001)), .tree (c.entriesAt k)⟩

def nodeSrvr (c : Cluster) (k : Nat) : SrvrOpening.Srvr :=
  let root := calcNodeRoot k c.nodesPerBoard c.boardsPerCab
  ⟨⟨decimal 15001, c.rtrHost k, (c.run k).config, root, [], [], ofString "srvr"⟩,
    .client (c.rtrHost k) (decimal 15001), root⟩

def boardSrvr (c : Cluster) (k : Nat) : SrvrOpening.Srvr :=
  let root := calcBoardRoot k c.nodesPerBoard c.boardsPerCab
  ⟨⟨decimal 15001, c.rtrHost k, (c.run k).config, root, c.rtrHost k, decimal 15000, ofString "srv0"⟩,
    .client (c.rtrHost k) (decimal 15001), root⟩

def processAt (c : Cluster) (k : Nat) : Process :=
  ⟨if imARtr k c.nodesPerBoard c.rootNode then some (c.rtrAt k) else none,
    c.nodeSrvr k :: if k % c.nodesPerBoard ≠ 0 then [] else [c.boardSrvr k]⟩

theorem rtrIdAt_le {k : Nat} (hk : k < c.numNodes) : c.rtrIdAt k ≤ c.numBoards := by
  unfold rtrIdAt
  split
  · exact le_rfl
  · exact (board_lt hk).le

theorem boards_small : c.numBoards < 2 ^ 31 := by
  have := c.ports
  omega

theorem startRtr_eq {k : Nat} (hk : k < c.numNodes) :
    Opening.startRtr (Opening.treeArgs (decimal 15000) (decimal 15001) (decimal (c.rtrIdAt k))
      (c.infos k) (c.run k).routeFile) = .ok (c.rtrAt k) := by
  have hsmall := c.boards_small
  have hid : (atoi (decimal (c.rtrIdAt k))).toUInt32 = UInt32.ofNat (c.rtrIdAt k) :=
    atoi_id (lt_of_le_of_lt (rtrIdAt_le hk) hsmall)
  have hreal : UInt32.ofNat (c.rtrIdAt k) ≠ 0xffffffff := by
    have hle := rtrIdAt_le hk
    intro heq
    have hnat := congrArg UInt32.toNat heq
    rw [UInt32.toNat_ofNat'] at hnat
    simp only [UInt32.reduceToNat] at hnat
    omega
  have hlinks : ∃ links, (c.infos k).foldlM RouterArgs.initInfo (.tree []) = .ok (.tree links) ∧
      Opening.treeCore links = .ok (c.entriesAt k) := by
    unfold infos entriesAt
    by_cases hroot : k = c.rootNode
    · rw [if_pos hroot, if_pos hroot]
      have hhosts : ∀ i < c.numBoards, c.hostAt (i * c.nodesPerBoard) ∈ c.nidMap := fun i hi =>
        hostAt_mem (first_lt hi)
      exact ⟨_, initInfo_root (fun i hi => (c.plain _ (hhosts i hi)).2) hsmall.le,
        treeCore_root (fun i hi => (c.plain _ (hhosts i hi)).1) hsmall.le⟩
    · rw [if_neg hroot, if_neg hroot]
      have hhost := c.plain _ (hostAt_mem (c := c) rootNode_lt)
      exact ⟨_, initInfo_leaf hhost.2.1, treeCore_leaf _ hhost.1⟩
  obtain ⟨links, hinfos, hentries⟩ := hlinks
  rw [Opening.startRtr_tree hinfos hentries (hid ▸ hreal) (c.routeFile_ne k)
    ⟨decimal_ne_nil 15000, space_decimal 15000⟩ ⟨decimal_ne_nil 15001, space_decimal 15001⟩, hid]
  rfl

theorem startSrvr_node {k : Nat} (hk : k < c.numNodes) :
    SrvrOpening.startSrvr (SrvrOpening.nodeArgs (ofString "srvr") (c.rtrHost k) (decimal 15001)
      (c.run k).config (calcNodeRoot k c.nodesPerBoard c.boardsPerCab)) = .ok (c.nodeSrvr k) := by
  have hhost := c.plain _ (hostAt_mem (rtrHost_lt hk))
  exact SrvrOpening.startSrvr_of (SrvrOpening.getopt_nodeArgs _ _ _ _ _)
    ⟨decimal_ne_nil 15001, space_decimal 15001⟩ ⟨hhost.2.2, hhost.1⟩

theorem startSrvr_board {k : Nat} (hk : k < c.numNodes) :
    SrvrOpening.startSrvr (SrvrOpening.boardArgs (ofString "srv0") (c.rtrHost k) (decimal 15001)
      (c.run k).config (calcBoardRoot k c.nodesPerBoard c.boardsPerCab) (c.rtrHost k)
      (decimal 15000)) = .ok (c.boardSrvr k) := by
  have hhost := c.plain _ (hostAt_mem (rtrHost_lt hk))
  exact SrvrOpening.startSrvr_of (SrvrOpening.getopt_boardArgs _ _ _ _ _ _ _)
    ⟨decimal_ne_nil 15001, space_decimal 15001⟩ ⟨hhost.2.2, hhost.1⟩

theorem startDaemon_argv {k : Nat} (hk : k < c.numNodes) :
    startDaemon (c.argv k) = .ok (c.processAt k) := by
  obtain ⟨hrtr, hservers⟩ := c.main_argv k
  have hsrvrs : (main (c.argv k)).srvrThreads.mapM SrvrOpening.startSrvr =
      .ok (c.processAt k).srvrs := by
    rw [hservers, processAt]
    by_cases hboard : k % c.nodesPerBoard ≠ 0
    · simp only [if_pos hboard, List.mapM_cons, List.mapM_nil, startSrvr_node hk, bind, Except.bind,
        pure, Except.pure]
    · simp only [if_neg hboard, List.mapM_cons, List.mapM_nil, startSrvr_node hk,
        startSrvr_board hk, bind, Except.bind, pure, Except.pure]
  rw [startDaemon, hsrvrs, hrtr, processAt]
  by_cases hrtr : imARtr k c.nodesPerBoard c.rootNode = true
  · simp only [if_pos hrtr, startRtr_eq hk, Except.map, bind, Except.bind]
  · simp only [if_neg hrtr, bind, Except.bind]

theorem daemon_eq {k : Nat} (hk : k < c.numNodes) :
    (getApps c.toMachine (c.run k) k c.nidMap).map startDaemon = some (.ok (c.processAt k)) := by
  rw [getApps_args hk]
  exact congrArg some (startDaemon_argv hk)

end Processes

end Cluster

end PwrApi
