import PwrApi.Deploy.NidMap
import PwrApi.Deploy.Delivery

/-! From the ranks of an application to the daemons on their nodes: `MPI_Init` of `powerrt.cc`,
which runs `createNidList` and `GetApps` in each rank. -/

namespace PwrApi.PowerRt

open Text NidMap

/-- `MPI_Init` on a rank: the number of its node and the daemon that it starts there, if it has a
list of nodes. Only the number of nodes is not that of the environment before. -/
def mpiInit (m : Machine) (run : ℕ → Daemon.Run) (names : List Text) (rank : Fin names.length) :
    Option (Option (ℕ × Except RouterArgs.Stop Process)) := do
  let list ← createNidList names rank
  if list.nidList = [] then some none
  else
    let numNodes ← list.numNodes
    let myNid ← list.myNid
    let nidMap ← createNidMap list.nidList
    let args ← Daemon.getApps { m with numNodes } (run myNid) myNid nidMap
    some (some (myNid, startDaemon args))

section Lists

variable {pre : Text} {names : List Text}

/-- A prefix that is no part of the format of the list. -/
structure PlainPrefix (pre : Text) : Prop where
  plain : Hosts.Plain pre
  noSpace : ∀ c ∈ pre, isSpace c = false

theorem space_not_mem {s : Text} (h : Digits s) {c : UInt8} (hc : isSpace c = true) : c ∉ s := by
  intro hmem
  have hdigit := h.2 c hmem
  simp only [isDigit, isSpace, decide_eq_true_eq, UInt8.le_iff_toNat_le, UInt8.reduceToNat,
    ← UInt8.toNat_inj] at hdigit hc
  omega

theorem createNidMap_list (hpre : PlainPrefix pre) {entries : List Text} (hne : entries ≠ [])
    (hdigits : ∀ entry ∈ entries, Digits entry) :
    createNidMap (pre ++ 91 :: (List.intercalate [44] entries ++ [93])) =
      some (entries.map (pre ++ ·)) := by
  have hwell : ∀ g ∈ [Hosts.list pre (entries.map .one)], g.WellFormed := by
    intro g hg
    obtain rfl := List.mem_singleton.mp hg
    refine ⟨hpre.plain, by simpa using hne, ?_⟩
    intro entry hentry
    obtain ⟨digits, hmem, rfl⟩ := List.mem_map.mp hentry
    exact hdigits digits hmem
  have hrender : pre ++ 91 :: (List.intercalate [44] entries ++ [93]) =
      render [Hosts.list pre (entries.map .one)] := by
    have htexts : (entries.map Entry.one).map Entry.text = entries := by
      rw [List.map_map]
      exact List.map_id entries
    simp [render, Hosts.text, htexts, lbracket, rbracket, comma]
  have hblanks : (pre ++ 91 :: (List.intercalate [44] entries ++ [93])).filter
      (fun c => !isSpace c) = render [Hosts.list pre (entries.map .one)] := by
    rw [← hrender, List.filter_eq_self]
    intro c hc
    by_contra hspace
    rw [Bool.not_eq_true, Bool.not_eq_false'] at hspace
    have hbody : c ∉ List.intercalate [44] entries := by
      refine not_mem_intercalate ?_ fun entry hentry => space_not_mem (hdigits entry hentry) hspace
      rintro rfl
      cases hspace
    simp only [List.mem_append, List.mem_cons, hbody, List.not_mem_nil, or_false, false_or] at hc
    rcases hc with hc | rfl | rfl
    · rw [hpre.noSpace c hc] at hspace
      cases hspace
    · cases hspace
    · cases hspace
  rw [createNidMap_render hwell hblanks]
  simp only [List.flatMap_cons, List.flatMap_nil, List.append_nil, Hosts.names, List.flatMap_map,
    Entry.numbers, List.map_cons, List.map_nil]
  rw [← List.map_eq_flatMap]

end Lists

section Ranks

variable {pre : Text} {names : List Text}

theorem digits_decimal (n : ℕ) : Digits (decimal n) :=
  ⟨decimal_ne_nil n, decimalFrom_digits (n + 1) n⟩

theorem digits_setw {width : ℕ} {s : Text} (h : Digits s) : Digits (setw width s) := by
  refine ⟨fun hnil => h.1 (List.append_eq_nil_iff.mp hnil).2, fun c hc => ?_⟩
  rcases mem_setw hc with rfl | hc
  · rfl
  · exact h.2 c hc

theorem NodeNames.digits_entry (h : NodeNames pre names)
    (hrange : ∀ name ∈ names, number pre name < 2 ^ 31) (rank : Fin names.length) {name : Text}
    (hname : name ∈ names) : Digits (entry pre names rank (nodeid pre name)) := by
  rw [h.entry_nodeid hrange rank hname]
  split
  · exact digits_setw (digits_decimal _)
  · exact digits_decimal _

theorem NodeNames.nidMap_exact (h : NodeNames pre names)
    (hrange : ∀ name ∈ names, number pre name < 2 ^ 31) (hpre : PlainPrefix pre)
    {rank : Fin names.length} (hrank : Launches names rank) :
    createNidMap (result pre names rank).nidList = some names.eraseDups ↔ Exact pre names rank := by
  have hnodes : nodes pre names ≠ [] := by
    rw [h.nodes_eq hrange]
    have hmem := List.mem_eraseDups.mpr (List.get_mem names rank)
    simpa using List.ne_nil_of_mem hmem
  have hdigits : ∀ e ∈ (nodes pre names).map (entry pre names rank), Digits e := by
    intro e he
    rw [h.nodes_eq hrange, List.map_map] at he
    obtain ⟨name, hname, rfl⟩ := List.mem_map.mp he
    exact h.digits_entry hrange rank (List.mem_eraseDups.mp hname)
  have hnames : names.eraseDups =
      (names.eraseDups.map fun name => name.drop pre.length).map (pre ++ ·) := by
    rw [List.map_map]
    conv_lhs => rw [← List.map_id names.eraseDups]
    apply List.map_congr_left
    intro name hname
    exact (h.digits (List.mem_eraseDups.mp hname)).1.symm
  rw [(result_of_nodeid ((h.launches_iff hrange rank).mpr hrank)).2,
    createNidMap_list hpre (by simpa using hnodes) hdigits, h.exact_iff hrange, Option.some.injEq]
  conv_lhs => rw [hnames]
  exact (List.map_injective_iff.mpr (List.append_right_injective pre)).eq_iff

theorem NodeNames.exact_of_uniform (h : NodeNames pre names) (hu : Uniform pre names)
    (rank : Fin names.length) : Exact pre names rank := by
  rcases hu.width with hsame | ⟨hplain, hfirst⟩
  · exact h.exact_of_same_length hu.range hsame rank
  · exact h.exact_of_plain hu.range hplain hfirst rank

/-- Every list that `createNidList` makes is read by `createNidMap` as the names of the nodes, in
the order of the ranks, if and only if the names are uniform. -/
theorem nidMap_of_nidList_iff (h : NodeNames pre names) (hpre : PlainPrefix pre)
    (hrange : ∀ name ∈ names, number pre name < 2 ^ 31) :
    (∀ rank list, createNidList names rank = some list → list.nidList ≠ [] →
      createNidMap list.nidList = some names.eraseDups) ↔ Uniform pre names := by
  constructor
  · intro hmaps
    refine ⟨hrange, h.width_of_exact hrange fun rank hrank => ?_⟩
    rw [← h.nidMap_exact hrange hpre hrank]
    exact hmaps rank _ (h.createNidList rank) ((h.nidList_iff hrange rank).mpr hrank)
  · intro hu rank list hlist hne
    obtain rfl := Option.some.inj ((h.createNidList rank).symm.trans hlist)
    rw [h.nidMap_exact hrange hpre ((h.nidList_iff hrange rank).mp hne)]
    exact h.exact_of_uniform hu rank

end Ranks

section Daemons

variable {pre : Text} {names : List Text} {c : Cluster}

theorem NodeNames.mpiInit_other (h : NodeNames pre names) (hu : Uniform pre names)
    {rank : Fin names.length} (hrank : ¬ Launches names rank) :
    mpiInit c.toMachine c.run names rank = some none := by
  have hempty : (result pre names rank).nidList = [] := by
    by_contra hne
    exact hrank ((h.nidList_iff hu.range rank).mp hne)
  simp only [mpiInit, h.createNidList rank, Option.bind_eq_bind, Option.bind_some, hempty, if_true]

theorem NodeNames.mpiInit_launches (h : NodeNames pre names) (hu : Uniform pre names)
    (hpre : PlainPrefix pre) (hnames : names.eraseDups = c.nidMap) {rank : Fin names.length}
    (hrank : Launches names rank) {k : ℕ} (hk : k < c.numNodes) (hget : names.get rank = c.hostAt k) :
    mpiInit c.toMachine c.run names rank = some (some (k, .ok (c.processAt k))) := by
  have hexact := h.exact_of_uniform hu rank
  have hne := (h.nidList_iff hu.range rank).mpr hrank
  have hmap := (h.nidMap_exact hu.range hpre hrank).mpr hexact
  have hplace : names.eraseDups.idxOf (names.get rank) = k := by
    have hlength : k < c.nidMap.length := c.length_nidMap.symm ▸ hk
    have hhost : c.hostAt k = c.nidMap[k] := by
      simp [Cluster.hostAt, List.getElem?_eq_getElem hlength]
    rw [hnames, hget, hhost]
    exact c.nodup_nidMap.idxOf_getElem k hlength
  have hcount : (result pre names rank).numNodes = some c.numNodes := by
    rw [h.result_exact hu.range hrank hexact, hnames, c.length_nidMap]
  have hmine : (result pre names rank).myNid = some k := by
    rw [h.result_exact hu.range hrank hexact, hplace]
  obtain ⟨args, hargs, hdaemon⟩ := Option.map_eq_some_iff.mp (Cluster.daemon_eq hk)
  simp only [mpiInit, h.createNidList rank, Option.bind_eq_bind, Option.bind_some, if_neg hne,
    hcount, hmine, hmap, hnames]
  rw [hargs, Option.bind_some, hdaemon]

/-- The ranks of an application start the daemons of a wired cluster: one for each node, by the
first of the ranks there, and every other rank starts none. -/
theorem ranks_start_cluster (h : NodeNames pre names) (hu : Uniform pre names)
    (hpre : PlainPrefix pre) (hnames : names.eraseDups = c.nidMap)
    (hfirst : 4 ≤ (c.hostAt 0).length) (hroot : 4 ≤ (c.hostAt c.rootNode).length) :
    ∃ procs, c.Wired procs ∧
      (∀ k < c.numNodes, ∃! rank, ∃ daemon, names.get rank = c.hostAt k ∧
        mpiInit c.toMachine c.run names rank = some (some daemon)) ∧
      ∀ rank, mpiInit c.toMachine c.run names rank = some none ∨ ∃ k < c.numNodes,
        names.get rank = c.hostAt k ∧
          mpiInit c.toMachine c.run names rank = some (some (k, .ok (procs k))) := by
  have hwired := Cluster.wired_of_long hfirst hroot
  refine ⟨c.processAt, hwired, ?_, ?_⟩
  · intro k hk
    have hmem : c.hostAt k ∈ names := List.mem_eraseDups.mp (hnames ▸ Cluster.hostAt_mem hk)
    obtain ⟨rank, hget, hrank⟩ := exists_launches hmem
    refine ⟨rank, ⟨_, hget, h.mpiInit_launches hu hpre hnames hrank hk hget⟩, ?_⟩
    rintro rank' ⟨daemon, hget', hinit⟩
    by_cases hrank' : Launches names rank'
    · exact hrank'.unique hrank (hget'.trans hget.symm)
    · rw [h.mpiInit_other hu hrank'] at hinit
      cases hinit
  · intro rank
    by_cases hrank : Launches names rank
    · have hmem : names.get rank ∈ c.nidMap :=
        hnames ▸ List.mem_eraseDups.mpr (List.get_mem names rank)
      obtain ⟨k, hlength, hk⟩ := List.getElem_of_mem hmem
      have hnode : k < c.numNodes := c.length_nidMap ▸ hlength
      have hget : names.get rank = c.hostAt k := by
        rw [← hk]
        simp [Cluster.hostAt, List.getElem?_eq_getElem hlength]
      exact .inr ⟨k, hnode, hget, h.mpiInit_launches hu hpre hnames hrank hnode hget⟩
    · exact .inl (h.mpiInit_other hu hrank)

end Daemons

section SixRanks

/-- Six ranks on the four nodes of the cluster `fourNodes`. -/
def sixRanks : List Text :=
  [ofString "nid0", ofString "nid1", ofString "nid0", ofString "nid2", ofString "nid3",
    ofString "nid3"]

theorem sixRanks_plain : PlainPrefix (ofString "nid") := by
  have hplain : ((ofString "nid").all fun c => c ≠ lbracket ∧ c ≠ rbracket ∧ c ≠ comma) = true ∧
      ((ofString "nid").all fun c => isSpace c = false) = true := by decide
  simp only [List.all_eq_true, decide_eq_true_eq] at hplain
  exact ⟨⟨by decide, hplain.1⟩, hplain.2⟩

theorem sixRanks_names : NodeNames (ofString "nid") sixRanks where
  nonempty := by decide
  noDigit := by
    have hall : ((ofString "nid").all fun c => isDigit c = false) = true := by decide
    simpa only [List.all_eq_true, decide_eq_true_eq] using hall
  named := by
    intro name hname
    have hsplit : ∀ name ∈ sixRanks, name = ofString "nid" ++ name.drop 3 ∧ name.drop 3 ≠ [] ∧
        (name.drop 3).all isDigit = true := by decide
    obtain ⟨hname, hne, hdigits⟩ := hsplit name hname
    exact ⟨_, hname, hne, List.all_eq_true.mp hdigits⟩
  numbers := by decide

theorem sixRanks_uniform : Uniform (ofString "nid") sixRanks where
  range := by decide
  width := .inl (by decide)

theorem nidMap_of_nidList_sixRanks :
    (∀ rank list, createNidList sixRanks rank = some list → list.nidList ≠ [] →
      createNidMap list.nidList = some sixRanks.eraseDups) ↔ Uniform (ofString "nid") sixRanks :=
  nidMap_of_nidList_iff sixRanks_names sixRanks_plain sixRanks_uniform.range

theorem ranks_start_fourNodes :
    ∃ procs, Cluster.fourNodes.Wired procs ∧
      (∀ k < 4, ∃! rank, ∃ daemon, sixRanks.get rank = Cluster.fourNodes.hostAt k ∧
        mpiInit Cluster.fourNodes.toMachine Cluster.fourNodes.run sixRanks rank =
          some (some daemon)) ∧
      ∀ rank, mpiInit Cluster.fourNodes.toMachine Cluster.fourNodes.run sixRanks rank = some none ∨
        ∃ k < 4, sixRanks.get rank = Cluster.fourNodes.hostAt k ∧
          mpiInit Cluster.fourNodes.toMachine Cluster.fourNodes.run sixRanks rank =
            some (some (k, .ok (procs k))) :=
  ranks_start_cluster sixRanks_names sixRanks_uniform sixRanks_plain (by decide) (by decide)
    (by decide)

end SixRanks

end PwrApi.PowerRt
