import PwrApi.Deploy.Daemon
import PwrApi.Server.Opening
import PwrApi.Tools.PwrDaemon

/-! The daemons of a machine as `exec.py` starts them: which threads run on each node and what
they are given. -/

namespace PwrApi

open Text

/-- A machine with a host for each node, and the arguments of `GetApps` there. No client is
started with the daemons. -/
structure Cluster extends Machine where
  nidMap : List Text
  run : Nat → Daemon.Run
  length_nidMap : nidMap.length = numNodes
  nodup_nidMap : nidMap.Nodup
  plain : ∀ host ∈ nidMap, 32 ∉ host ∧ 58 ∉ host ∧ host ≠ []
  nodes : 2 ≤ numNodes
  perBoard : 2 ≤ nodesPerBoard
  ports : 16000 + toMachine.numBoards ≤ 2 ^ 16
  small : numNodes < 2 ^ 31
  spaces : ∀ k, 32 ∉ (run k).config ∧ 32 ∉ (run k).routeFile ∧ 32 ∉ (run k).object ∧
    32 ∉ (run k).attr ∧ 32 ∉ (run k).logfile ∧ 32 ∉ (run k).daemonExe
  routeFile_ne : ∀ k, (run k).routeFile ≠ []
  exe : ∀ k, (run k).daemonExe.head? ≠ some 45
  noClient : ∀ k, (run k).clientExe = []

namespace Cluster

open Daemon

variable (c : Cluster)

def hostAt (k : Nat) : Text := c.nidMap[k]?.getD []

def rootNode : Nat := rootRtr c.toMachine c.nidMap

section Nodes

variable {c}

theorem host_eq {k : Nat} (hk : k < c.numNodes) : host c.nidMap k = some (c.hostAt k) := by
  have hlength : k < c.nidMap.length := c.length_nidMap.symm ▸ hk
  simp [host, hostAt, List.getElem?_eq_getElem hlength]

theorem hostAt_mem {k : Nat} (hk : k < c.numNodes) : c.hostAt k ∈ c.nidMap :=
  List.mem_of_getElem? (host_eq hk)

theorem hostAt_inj {k k' : Nat} (hk : k < c.numNodes) (hk' : k' < c.numNodes)
    (h : c.hostAt k = c.hostAt k') : k = k' := by
  have hlength : k < c.nidMap.length := c.length_nidMap.symm ▸ hk
  have hlength' : k' < c.nidMap.length := c.length_nidMap.symm ▸ hk'
  simp only [hostAt, List.getElem?_eq_getElem hlength, List.getElem?_eq_getElem hlength',
    Option.getD_some] at h
  exact (c.nodup_nidMap.getElem_inj_iff).mp h

theorem rootNode_eq : c.rootNode = min c.numNodes c.nodesPerBoard - 1 := by
  rw [rootNode, rootRtr, c.length_nidMap]
  split <;> omega

theorem rootNode_lt : c.rootNode < c.numNodes := by
  have := c.nodes
  rw [rootNode_eq]
  omega

theorem rootNode_mod : c.rootNode % c.nodesPerBoard ≠ 0 ∧ c.rootNode / c.nodesPerBoard = 0 := by
  have hnodes := c.nodes
  have hper := c.perBoard
  have hlt : c.rootNode < c.nodesPerBoard := by
    rw [rootNode_eq]
    omega
  rw [Nat.mod_eq_of_lt hlt, Nat.div_eq_of_lt hlt, rootNode_eq]
  omega

theorem first_lt {i : Nat} (hi : i < c.numBoards) : i * c.nodesPerBoard < c.numNodes :=
  (Machine.lt_numBoards c.toMachine).mp hi

theorem board_lt {k : Nat} (hk : k < c.numNodes) : k / c.nodesPerBoard < c.numBoards := by
  rw [Machine.lt_numBoards]
  exact lt_of_le_of_lt (Nat.div_mul_le_self k _) hk

end Nodes

section Arguments

def rtrPart (k : Nat) : List Text :=
  if k = c.rootNode then
    rtrArgs c.numBoards
      ((List.range c.numBoards).map fun i => rootInfo i (c.hostAt (i * c.nodesPerBoard)))
      (c.run k).routeFile
  else if k % c.nodesPerBoard = 0 then
    rtrArgs (k / c.nodesPerBoard) [leafInfo (k / c.nodesPerBoard) (c.hostAt c.rootNode)]
      (c.run k).routeFile
  else []

def rtrHost (k : Nat) : Text := c.hostAt (k / c.nodesPerBoard * c.nodesPerBoard)

def nodePart (k : Nat) : List Text :=
  nodeArgs (c.rtrHost k) (c.run k).config (calcNodeRoot k c.nodesPerBoard c.boardsPerCab)

def boardPart (k : Nat) : List Text :=
  if k % c.nodesPerBoard ≠ 0 then []
  else boardArgs (c.rtrHost k) (c.run k).config (calcBoardRoot k c.nodesPerBoard c.boardsPerCab)

def lgrPart (k : Nat) : List Text :=
  if k = c.rootNode then
    lgrArgs (c.hostAt k) (c.run k).config (ofString "plat") (c.run k).object (c.run k).attr
      (c.run k).logfile
  else []

variable {c}

theorem calcRtrRoot_eq :
    calcRtrRoot c.nidMap c.nodesPerBoard =
      some (words (((List.range c.numBoards).map fun i =>
        rootInfo i (c.hostAt (i * c.nodesPerBoard))).map (option "rtr" "routerInfo"))) := by
  have hone : ¬ c.nidMap.length = 1 := by
    have := c.nodes
    rw [c.length_nidMap]
    omega
  have hloop : ∀ (is : List Nat) (ret : Text), (∀ i ∈ is, i < c.numBoards) →
      is.foldlM (fun ret i => do
        let otherHost ← host c.nidMap (i * c.nodesPerBoard)
        some (ret ++ routerInfo [decimal i, decimal (16000 + i), otherHost, decimal 16000, decimal i,
          decimal i])) ret =
        some (ret ++ words ((is.map fun i =>
          rootInfo i (c.hostAt (i * c.nodesPerBoard))).map (option "rtr" "routerInfo"))) := by
    intro is
    induction is with
    | nil =>
        intro ret _
        simp [words]
    | cons i is ih =>
        intro ret his
        rw [List.foldlM_cons, host_eq (first_lt (his i List.mem_cons_self))]
        show List.foldlM _ (ret ++ routerInfo _) is = _
        rw [ih _ fun j hj => his j (List.mem_cons_of_mem i hj), routerInfo_eq, List.append_assoc,
          ← words_append]
        rfl
  rw [calcRtrRoot, if_neg hone, c.length_nidMap]
  exact hloop _ [] fun i hi => List.mem_range.mp hi

theorem configRtr_eq {k : Nat} :
    configRtr k c.nidMap (c.run k).routeFile c.nodesPerBoard c.rootNode =
      some (words (c.rtrPart k)) := by
  unfold configRtr rtrPart
  by_cases hroot : k = c.rootNode
  · have hrtr : imARtr k c.nodesPerBoard c.rootNode = true := by simp [imARtr, hroot]
    have hid : (if c.nidMap.length > 1 ∧ c.nidMap.length % c.nodesPerBoard ≠ 0 then
        c.nidMap.length / c.nodesPerBoard + 1 else c.nidMap.length / c.nodesPerBoard) =
        c.numBoards := by
      have hnodes : c.numNodes > 1 := c.nodes
      rw [c.length_nidMap, Machine.numBoards, Machine.parts]
      simp only [hnodes, true_and]
    rw [hrtr, if_neg (by decide), if_pos hroot, if_pos hroot, rtrArgs_words]
    simp only [calcRtrRoot_eq, hid]
    rfl
  · by_cases hfirst : k % c.nodesPerBoard = 0
    · have hrtr : imARtr k c.nodesPerBoard c.rootNode = true := by simp [imARtr, hfirst]
      rw [hrtr, if_neg (by decide), if_neg hroot, if_neg hroot, if_pos hfirst, rtrArgs_words]
      simp only [calcRtrLeaf, host_eq rootNode_lt, routerInfo_eq]
      rfl
    · have hrtr : imARtr k c.nodesPerBoard c.rootNode = false := by simp [imARtr, hroot, hfirst]
      rw [hrtr, if_pos rfl, if_neg hroot, if_neg hfirst]
      rfl

theorem rtrHost_lt {k : Nat} (hk : k < c.numNodes) :
    k / c.nodesPerBoard * c.nodesPerBoard < c.numNodes :=
  lt_of_le_of_lt (Nat.div_mul_le_self k _) hk

theorem configNode_eq {k : Nat} (hk : k < c.numNodes) :
    configNode k c.nidMap (c.run k).config c.nodesPerBoard c.boardsPerCab =
      some (words (c.nodePart k)) := by
  rw [configNode, host_eq (rtrHost_lt hk), nodePart, nodeArgs_words]
  rfl

theorem configBoard_eq {k : Nat} (hk : k < c.numNodes) :
    configBoard k c.nidMap (c.run k).config c.nodesPerBoard c.boardsPerCab =
      some (words (c.boardPart k)) := by
  rw [configBoard, boardPart]
  split
  · rfl
  · rw [host_eq (rtrHost_lt hk), boardArgs_words]
    rfl

theorem getApps_eq {k : Nat} (hk : k < c.numNodes) :
    getApps c.toMachine (c.run k) k c.nidMap = some (((c.run k).daemonExe ++ 32 ::
      words (c.rtrPart k ++ c.nodePart k ++ c.boardPart k ++ c.lgrPart k)).splitOn 32) := by
  have hrtr : configRtr k c.nidMap (c.run k).routeFile c.nodesPerBoard
      (rootRtr c.toMachine c.nidMap) = some (words (c.rtrPart k)) := configRtr_eq
  have hdaemon : initDaemon c.toMachine (c.run k).daemonExe k c.nidMap (c.run k).config (c.run k).routeFile
      (rootRtr c.toMachine c.nidMap) = some ((c.run k).daemonExe ++ [32] ++ words (c.rtrPart k) ++
        words (c.nodePart k) ++ words (c.boardPart k)) := by
    simp only [initDaemon, hrtr, configNode_eq hk, configBoard_eq hk]
    rfl
  have hline : (c.run k).daemonExe ++ 32 ::
      words (c.rtrPart k ++ c.nodePart k ++ c.boardPart k ++ c.lgrPart k) =
      (c.run k).daemonExe ++ [32] ++ words (c.rtrPart k) ++ words (c.nodePart k) ++
        words (c.boardPart k) ++ words (c.lgrPart k) := by
    simp only [words_append, List.append_assoc, List.cons_append, List.nil_append]
  have hclient : ¬ ((c.run k).clientExe ≠ [] ∧ c.nidMap.length - 1 = k) := fun h => h.1 (c.noClient k)
  rw [hline]
  simp only [getApps, hdaemon, Option.bind_eq_bind, Option.bind_some, if_neg hclient]
  by_cases hroot : k = c.rootNode
  · have hcond : (c.run k).clientExe = [] ∧ k = rootRtr c.toMachine c.nidMap := ⟨c.noClient k, hroot⟩
    rw [if_pos hcond, initLogger_words (host_eq hk), lgrPart, if_pos hroot, Option.bind_some]
  · have hcond : ¬ ((c.run k).clientExe = [] ∧ k = rootRtr c.toMachine c.nidMap) := fun h => hroot h.2
    rw [if_neg hcond, lgrPart, if_neg hroot, show words [] = [] from rfl, List.append_nil]

end Arguments

section Spaces

theorem space_option {thread name : String} {value : Text} (hthread : 32 ∉ ofString thread)
    (hname : 32 ∉ ofString name) (hvalue : 32 ∉ value) : 32 ∉ option thread name value := by
  simp only [option, List.mem_cons, List.mem_append, not_or]
  exact ⟨by decide, by decide, hthread, by decide, hname, by decide, hvalue⟩

variable {c : Cluster}

theorem space_decimal (n : Nat) : 32 ∉ decimal n := not_mem_decimal (by decide) n

theorem space_host {k : Nat} (hk : k < c.numNodes) : 32 ∉ c.hostAt k :=
  (c.plain _ (hostAt_mem hk)).1

theorem space_rootInfo {i : Nat} (hi : i < c.numBoards) :
    32 ∉ rootInfo i (c.hostAt (i * c.nodesPerBoard)) := by
  apply not_mem_intercalate (by decide)
  simp only [List.forall_mem_cons, List.not_mem_nil, false_imp_iff, implies_true, and_true]
  exact ⟨space_decimal _, space_decimal _, space_host (first_lt hi), space_decimal _,
    space_decimal _, space_decimal _⟩

theorem space_leafInfo (routerID : Nat) : 32 ∉ leafInfo routerID (c.hostAt c.rootNode) := by
  apply not_mem_intercalate (by decide)
  simp only [List.forall_mem_cons, List.not_mem_nil, false_imp_iff, implies_true, and_true]
  exact ⟨space_decimal _, space_decimal _, space_host rootNode_lt, space_decimal _⟩

theorem space_rtrArgs {k rtrID : Nat} {infos : List Text} (hinfos : ∀ info ∈ infos, 32 ∉ info) :
    ∀ arg ∈ rtrArgs rtrID infos (c.run k).routeFile, 32 ∉ arg := by
  intro arg harg
  simp only [rtrArgs, List.mem_append, List.mem_cons, List.not_mem_nil, or_false, List.mem_map]
    at harg
  rcases harg with ((rfl | rfl | rfl | rfl) | ⟨info, hinfo, rfl⟩) | rfl
  · exact space_option (by decide) (by decide) (by decide)
  · exact space_option (by decide) (by decide) (space_decimal _)
  · exact space_option (by decide) (by decide) (space_decimal _)
  · exact space_option (by decide) (by decide) (space_decimal _)
  · exact space_option (by decide) (by decide) (hinfos info hinfo)
  · exact space_option (by decide) (by decide) (c.spaces k).2.1

theorem space_rtrPart (k : Nat) : ∀ arg ∈ c.rtrPart k, 32 ∉ arg := by
  unfold rtrPart
  split
  · apply space_rtrArgs
    intro info hinfo
    obtain ⟨i, hi, rfl⟩ := List.mem_map.mp hinfo
    exact space_rootInfo (List.mem_range.mp hi)
  · split
    · apply space_rtrArgs
      intro info hinfo
      rw [List.mem_singleton.mp hinfo]
      exact space_leafInfo _
    · simp

theorem space_boardRoot (k : Nat) : 32 ∉ calcBoardRoot k c.nodesPerBoard c.boardsPerCab :=
  (Machine.not_mem_nodeName (by decide) (by decide) _ _ 0).1

theorem space_nodeRoot (k : Nat) : 32 ∉ calcNodeRoot k c.nodesPerBoard c.boardsPerCab :=
  (Machine.not_mem_nodeName (by decide) (by decide) _ _ _).2

theorem space_nodePart {k : Nat} (hk : k < c.numNodes) : ∀ arg ∈ c.nodePart k, 32 ∉ arg := by
  have hhost := space_host (rtrHost_lt hk)
  intro arg harg
  simp only [nodePart, nodeArgs, List.mem_cons, List.not_mem_nil, or_false] at harg
  rcases harg with rfl | rfl | rfl | rfl | rfl
  · exact space_option (by decide) (by decide) (by decide)
  · exact space_option (by decide) (by decide) hhost
  · exact space_option (by decide) (by decide) (space_decimal _)
  · exact space_option (by decide) (by decide) (c.spaces k).1
  · exact space_option (by decide) (by decide) (space_nodeRoot k)

theorem space_boardPart {k : Nat} (hk : k < c.numNodes) : ∀ arg ∈ c.boardPart k, 32 ∉ arg := by
  have hhost := space_host (rtrHost_lt hk)
  unfold boardPart
  split
  · simp
  · intro arg harg
    simp only [boardArgs, List.mem_cons, List.not_mem_nil, or_false] at harg
    rcases harg with rfl | rfl | rfl | rfl | rfl | rfl | rfl
    · exact space_option (by decide) (by decide) (by decide)
    · exact space_option (by decide) (by decide) hhost
    · exact space_option (by decide) (by decide) (space_decimal _)
    · exact space_option (by decide) (by decide) (c.spaces k).1
    · exact space_option (by decide) (by decide) (space_boardRoot k)
    · exact space_option (by decide) (by decide) hhost
    · exact space_option (by decide) (by decide) (space_decimal _)

theorem space_lgrPart {k : Nat} : ∀ arg ∈ c.lgrPart k, 32 ∉ arg := by
  unfold lgrPart
  split
  · next hroot =>
    have hhost : 32 ∉ c.hostAt k := hroot ▸ space_host rootNode_lt
    have hif : ∀ {cond : Prop} [Decidable cond] {name : String} {value arg : Text},
        32 ∉ ofString name → 32 ∉ value →
        arg ∈ (if cond then [] else [option "lgr" name value]) → 32 ∉ arg := by
      intro cond _ name value arg hname hvalue harg
      split at harg
      · exact absurd harg List.not_mem_nil
      · rw [List.mem_singleton.mp harg]
        exact space_option (by decide) hname hvalue
    intro arg harg
    simp only [lgrArgs, List.mem_append, List.mem_cons, List.not_mem_nil, or_false] at harg
    rcases harg with (((rfl | rfl | rfl | rfl | rfl | rfl | rfl | rfl) | harg) | harg)
    · exact space_option (by decide) (by decide) (by decide)
    · exact space_option (by decide) (by decide) hhost
    · exact space_option (by decide) (by decide) (space_decimal _)
    · exact space_option (by decide) (by decide) (c.spaces k).1
    · exact space_option (by decide) (by decide) (by decide)
    · exact space_option (by decide) (by decide) (c.spaces k).2.2.1
    · exact space_option (by decide) (by decide) (space_decimal _)
    · exact space_option (by decide) (by decide) (space_decimal _)
    · exact hif (by decide) (c.spaces k).2.2.2.1 harg
    · exact hif (by decide) (c.spaces k).2.2.2.2.1 harg
  · simp

theorem getApps_args {k : Nat} (hk : k < c.numNodes) :
    getApps c.toMachine (c.run k) k c.nidMap = some ((c.run k).daemonExe :: [] ::
      (c.rtrPart k ++ c.nodePart k ++ c.boardPart k ++ c.lgrPart k)) := by
  have hspace : ∀ arg ∈ c.rtrPart k ++ c.nodePart k ++ c.boardPart k ++ c.lgrPart k, 32 ∉ arg := by
    intro arg harg
    simp only [List.mem_append] at harg
    rcases harg with ((harg | harg) | harg) | harg
    · exact space_rtrPart k arg harg
    · exact space_nodePart hk arg harg
    · exact space_boardPart hk arg harg
    · exact space_lgrPart arg harg
  have hsplit : ([] ++ words _).splitOn 32 = _ := splitOn_words List.not_mem_nil hspace
  rw [List.nil_append] at hsplit
  rw [getApps_eq hk, List.splitOn_append_cons_self_of_not_mem (c.spaces k).2.2.2.2.2, hsplit]

end Spaces

end Cluster

end PwrApi
