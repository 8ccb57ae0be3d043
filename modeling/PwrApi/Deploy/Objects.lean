import PwrApi.Deploy.Naming

/-! What can be found of the machine by asking for the children of what has been found, and
what the route file has of it. -/

namespace PwrApi.Machine

open Function Router Text Runs

/-- What there is in the machine: the platform, the cabinets, and the boards and nodes. -/
inductive Object (m : Machine)
  | plat
  | cab (c : Fin m.numCabs)
  | place (p : Place m)

namespace Object

variable {m : Machine}

def name : Object m → Text
  | plat => Machine.plat
  | cab c => under Machine.plat Machine.cab c
  | place p => p.name

def type : Object m → Text
  | plat => Machine.plat
  | cab _ => Machine.cab
  | place (.board _) => board
  | place (.node _ _) => node

def boardsIn (m : Machine) (c : Nat) : Nat := min m.boardsPerCab (m.numBoards - c * m.boardsPerCab)

def children : Object m → List Text
  | plat => (List.range m.numCabs).map (under Machine.plat Machine.cab)
  | cab c => (List.range (boardsIn m c)).map (boardName c)
  | place (.board i) =>
      (List.range (m.nodesOn i)).map (nodeName (i / m.boardsPerCab) (i % m.boardsPerCab))
  | place (.node _ _) => []

theorem board_index {i : Nat} (hi : i < m.numBoards) :
    i / m.boardsPerCab * m.boardsPerCab + i % m.boardsPerCab = i ∧
      i % m.boardsPerCab < m.boardsPerCab ∧ i / m.boardsPerCab < m.numCabs := by
  have hindex : i / m.boardsPerCab * m.boardsPerCab + i % m.boardsPerCab = i :=
    Nat.div_add_mod' _ _
  refine ⟨hindex, Nat.mod_lt _ m.boardsPerCab_pos, ?_⟩
  rw [lt_numCabs]
  omega

theorem checkName_name (o : Object m) : m.checkName o.name = .ok () := by
  cases o with
  | plat => exact checkName_plat m
  | cab c => exact (checkName_cab m c).trans (if_pos c.isLt)
  | place p =>
      obtain ⟨hindex, hbrd, _⟩ := board_index p.rtr_lt
      cases p with
      | board i =>
          refine (checkName_board m _ _).trans (if_pos ⟨hbrd, ?_⟩)
          exact hindex.symm ▸ i.isLt
      | node i j =>
          refine (checkName_node m _ _ _).trans (if_pos ⟨hbrd, ?_, ?_⟩)
          · exact hindex.symm ▸ i.isLt
          · exact hindex.symm ▸ j.isLt

theorem getObject_under {type : Text} (h : Word type) (hmem : type ∈ objectMap) {name : Text}
    {n : Nat} (hcheck : m.checkName (under name type n) = .ok ()) :
    m.getObject (under name type n) = .ok type := by
  simp [getObject, hcheck, splitOn_under name n h, orStop, (filter_part h n).1, hmem, bind,
    Except.bind]

theorem getObject_name (o : Object m) : m.getObject o.name = .ok o.type := by
  have hcheck := o.checkName_name
  cases o with
  | plat =>
      simp only [name] at hcheck
      simp only [getObject, name, type, hcheck, splitOn_word word_plat, orStop, bind, Except.bind]
      decide
  | cab c => exact getObject_under word_cab (by decide) hcheck
  | place p =>
      cases p with
      | board i =>
          simp only [name, Place.name, boardName_eq] at hcheck ⊢
          exact getObject_under word_board (by decide) hcheck
      | node i j =>
          simp only [name, Place.name, nodeName_eq] at hcheck ⊢
          exact getObject_under word_node (by decide) hcheck

theorem findChildren_of {name type child : Text} {count : Nat}
    (hobject : m.getObject name = .ok type) (hparent : type ≠ node)
    (hcount : m.calcNumChildren name = .ok count)
    (hchild : objectMap[objectMap.idxOf type + 1]? = some child) :
    m.findChildren name = .ok ((List.range count).map (under name child)) := by
  simp only [findChildren, hobject, getNumChildren, if_neg hparent, hcount, hchild, orStop, bind,
    Except.bind, Except.map]
  rfl

theorem findChildren_name (o : Object m) : m.findChildren o.name = .ok o.children := by
  have hobject := o.getObject_name
  cases o with
  | plat =>
      exact findChildren_of hobject (show Machine.plat ≠ node by decide) (calcNumChildren_plat m) rfl
  | cab c =>
      have hboards : boardName c = under (under Machine.plat Machine.cab c) board :=
        funext (boardName_eq c)
      rw [children, hboards]
      exact findChildren_of hobject (show Machine.cab ≠ node by decide)
        ((calcNumChildren_cab m c).trans (if_pos c.isLt)) rfl
  | place p =>
      cases p with
      | board i =>
          have hcount := calcNumChildren_board m (i / m.boardsPerCab) (i % m.boardsPerCab)
          rw [(board_index i.isLt).1, if_pos i.isLt] at hcount
          have hnodes := funext (nodeName_eq (i / m.boardsPerCab) (i % m.boardsPerCab))
          rw [children, hnodes]
          exact findChildren_of hobject (show board ≠ node by decide) hcount rfl
      | node i j =>
          rw [findChildren, hobject]
          rfl

theorem children_objects {o : Object m} {child : Text} (h : child ∈ o.children) :
    ∃ o' : Object m, o'.name = child ∧
      objectMap.idxOf o'.type = objectMap.idxOf o.type + 1 := by
  cases o with
  | plat =>
      obtain ⟨c, hc, rfl⟩ := List.mem_map.mp h
      exact ⟨cab ⟨c, List.mem_range.mp hc⟩, rfl, rfl⟩
  | cab c =>
      obtain ⟨b, hb, rfl⟩ := List.mem_map.mp h
      rw [List.mem_range, boardsIn] at hb
      have hboard : c * m.boardsPerCab + b < m.numBoards := by omega
      have hbrd : b < m.boardsPerCab := by omega
      obtain ⟨hdiv, hmod⟩ := Place.index_div_mod c hbrd
      refine ⟨place (.board ⟨_, hboard⟩), ?_, rfl⟩
      simp only [name, Place.name, hdiv, hmod]
  | place p =>
      cases p with
      | board i =>
          obtain ⟨n, hn, rfl⟩ := List.mem_map.mp h
          exact ⟨place (.node i ⟨n, List.mem_range.mp hn⟩), rfl, rfl⟩
      | node i j => exact absurd h List.not_mem_nil

end Object

/-- The objects that are found from the platform on. -/
inductive Found (m : Machine) : Text → Prop
  | plat : Found m plat
  | child {name child : Text} {children : List Text} :
      Found m name → m.findChildren name = .ok children → child ∈ children → Found m child

section Found

variable {m : Machine}

theorem Found.of_object {o : Object m} {child : Text} (h : Found m o.name)
    (hchild : child ∈ o.children) : Found m child :=
  .child h o.findChildren_name hchild

theorem found_iff {name : Text} : Found m name ↔ ∃ o : Object m, o.name = name := by
  constructor
  · intro h
    induction h with
    | plat => exact ⟨.plat, rfl⟩
    | child _ hchildren hchild ih =>
        obtain ⟨o, rfl⟩ := ih
        rw [o.findChildren_name] at hchildren
        obtain rfl := Except.ok.inj hchildren
        obtain ⟨o', ho', _⟩ := Object.children_objects hchild
        exact ⟨o', ho'⟩
  · rintro ⟨o, rfl⟩
    have hcab : ∀ c : Fin m.numCabs, Found m (Object.cab c).name := fun c =>
      Found.of_object (o := .plat) .plat (List.mem_map_of_mem (List.mem_range.mpr c.isLt))
    have hboard : ∀ i : Fin m.numBoards, Found m (Object.place (.board i)).name := by
      intro i
      obtain ⟨hindex, hbrd, hc⟩ := Object.board_index i.isLt
      have hi := i.isLt
      refine Found.of_object (hcab ⟨_, hc⟩) (List.mem_map_of_mem (List.mem_range.mpr ?_))
      simp only [Object.boardsIn]
      omega
    cases o with
    | plat => exact .plat
    | cab c => exact hcab c
    | place p =>
        cases p with
        | board i => exact hboard i
        | node i j =>
            exact Found.of_object (hboard i) (List.mem_map_of_mem (List.mem_range.mpr j.isLt))

theorem under_inj {name type : Text} {n n' : Nat} (h : under name type n = under name type n') :
    n = n' := by
  rw [under, under, part, part, List.append_cancel_left_eq, List.cons.injEq,
    List.append_cancel_left_eq] at h
  exact decimal_inj h.2

theorem nodup_children (o : Object m) : o.children.Nodup := by
  have hrange : ∀ (name type : Text) (count : Nat),
      ((List.range count).map (under name type)).Nodup := fun name type count =>
    List.nodup_range.map fun _ _ h => under_inj h
  cases o with
  | plat => exact hrange _ _ _
  | cab c =>
      rw [Object.children, show boardName c = _ from funext (boardName_eq c)]
      exact hrange _ _ _
  | place p =>
      cases p with
      | board i =>
          rw [Object.children, show nodeName _ _ = _ from funext (nodeName_eq _ _)]
          exact hrange _ _ _
      | node i j => exact List.nodup_nil

theorem parts_place (p : Place m) : 3 ≤ (p.name.splitOn 46).length := by
  cases p with
  | board i =>
      rw [Place.name, boardName_eq, splitOn_under _ _ word_board, splitOn_under _ _ word_cab,
        splitOn_word word_plat]
      rfl
  | node i j =>
      rw [Place.name, nodeName_eq, boardName_eq, splitOn_under _ _ word_node,
        splitOn_under _ _ word_board, splitOn_under _ _ word_cab, splitOn_word word_plat]
      exact Nat.le_succ 3

theorem setLocations_none {name : Text} (h : (name.splitOn 46).length < 3) :
    m.setLocations name = none := by
  apply (Place.setLocations_eq name).2
  rintro ⟨p, rfl⟩
  exact absurd (parts_place p) (Nat.not_le_of_lt h)

theorem findObjLocation_place (p : Place m) :
    m.findObjLocation p.name = .ok (p.name ++ ofString "-daemon") := by
  have hcheck := (Object.place p).checkName_name
  have hfound := (Place.setLocations_eq p.name).1 ⟨p, rfl⟩
  simp only [Object.name] at hcheck
  simp only [findObjLocation, hcheck, bind, Except.bind]
  cases hparts : (p.name.splitOn 46).reverse with
  | nil => exact absurd (List.reverse_eq_nil_iff.mp hparts) (by simp)
  | cons last front =>
      rw [locationLoop, ← hparts, List.reverse_reverse, List.intercalate_splitOn, hfound]

theorem locationLoop_none {locationMap : ObjID → Option Text} {last : Text} {front : List Text}
    (h : locationMap (List.intercalate [46] (last :: front).reverse) = none) :
    locationLoop locationMap (last :: front) = locationLoop locationMap front := by
  rw [locationLoop, h]

theorem findObjLocation_above {o : Object m} (ho : ∀ p, o ≠ .place p) :
    m.findObjLocation o.name = .ok [] := by
  have hcheck := o.checkName_name
  have hplat : m.setLocations plat = none := setLocations_none (by decide)
  cases o with
  | plat =>
      simp only [Object.name] at hcheck
      have hloop : locationLoop m.setLocations [plat] = [] := locationLoop_none hplat
      simp only [findObjLocation, Object.name, hcheck, splitOn_word word_plat, bind, Except.bind]
      exact congrArg Except.ok hloop
  | cab c =>
      have hcab : m.setLocations (under plat cab c) = none :=
        setLocations_none (by
          rw [splitOn_under _ _ word_cab, splitOn_word word_plat]
          exact Nat.lt_succ_self 2)
      have hname : List.intercalate [46] [plat, part cab c] = under plat cab c := by
        simp [List.intercalate, under]
      rw [← hname] at hcab
      have hloop : locationLoop m.setLocations [part cab c, plat] = [] :=
        (locationLoop_none hcab).trans (locationLoop_none hplat)
      simp only [Object.name] at hcheck
      simp only [findObjLocation, Object.name, hcheck, splitOn_under _ _ word_cab,
        splitOn_word word_plat, bind, Except.bind]
      exact congrArg Except.ok hloop
  | place p => exact absurd rfl (ho p)

/-- What can be found of the machine from the platform on, without ever being turned away, are
the platform, the cabinets and the objects of the route table; a client takes those of them for
served that the table has a route for. -/
theorem found_objects_are_routed (m : Machine) (hm : m.numNodes < 2 ^ 31) :
    ∃ table, initRouteTable (some m.genRouteFile) = .ok table ∧
      (∀ name, Found m name → ∃ children loc, m.findChildren name = .ok children ∧
        children.Nodup ∧ m.findObjLocation name = .ok loc ∧ (loc ≠ [] ↔ table name ≠ none)) ∧
      ∀ name, table name ≠ none → Found m name := by
  refine ⟨Place.table m hm, Place.initRouteTable_genRouteFile hm, ?_, ?_⟩
  · intro name hname
    obtain ⟨o, rfl⟩ := found_iff.mp hname
    by_cases hplace : ∃ p, o = .place p
    · obtain ⟨p, rfl⟩ := hplace
      refine ⟨_, _, Object.findChildren_name _, nodup_children _, findObjLocation_place p, ?_⟩
      have hroute : Place.table m hm p.name = some p.id := Place.table_name hm p
      simp [Object.name, hroute, ofString]
    · have hother : ¬ ∃ p : Place m, p.name = o.name := by
        rintro ⟨p, hp⟩
        have hparts := parts_place p
        rw [hp] at hparts
        cases o with
        | plat =>
            rw [Object.name, splitOn_word word_plat] at hparts
            exact absurd hparts (Nat.not_le_of_lt (by decide))
        | cab c =>
            rw [Object.name, splitOn_under _ _ word_cab, splitOn_word word_plat] at hparts
            exact absurd hparts (Nat.not_succ_le_self 2)
        | place q => exact hplace ⟨q, rfl⟩
      refine ⟨_, _, o.findChildren_name, nodup_children o,
        findObjLocation_above fun p hp => hplace ⟨p, hp⟩, ?_⟩
      rw [Place.table_other hm hother]
      simp
  · intro name hname
    by_cases hplace : ∃ p : Place m, p.name = name
    · obtain ⟨p, rfl⟩ := hplace
      exact found_iff.mpr ⟨.place p, rfl⟩
    · exact absurd (Place.table_other hm hplace) hname

theorem found_objects_are_routed_three :
    ∃ table, initRouteTable (some threeNodes.genRouteFile) = .ok table ∧
      (∀ name, Found threeNodes name → ∃ children loc,
        threeNodes.findChildren name = .ok children ∧ children.Nodup ∧
          threeNodes.findObjLocation name = .ok loc ∧ (loc ≠ [] ↔ table name ≠ none)) ∧
      ∀ name, table name ≠ none → Found threeNodes name :=
  found_objects_are_routed threeNodes (by decide)

theorem findParent_of {o o' : Object m}
    (htype : objectMap.idxOf o'.type = objectMap.idxOf o.type + 1) :
    m.findParent o'.name = .ok o.type := by
  have hparent : objectMap[objectMap.idxOf o.type]? = some o.type := by
    cases o with
    | plat => rfl
    | cab c => rfl
    | place p => cases p with
      | board i => rfl
      | node i j => rfl
  simp only [findParent, o'.getObject_name, htype, Nat.add_one_ne_zero, if_false,
    Nat.add_sub_cancel, hparent, orStop, bind, Except.bind]

theorem name_cases (o : Object m) :
    (o.type = plat ∧ o.name = plat) ∨
      (o.name ≠ plat ∧ ∃ front n, o.name = under front o.type n) := by
  have hplat : ∀ (front type : Text) (n : Nat), plat.length ≤ front.length →
      under front type n ≠ plat := by
    intro front type n hfront h
    have hlength := congrArg List.length h
    simp only [under, List.length_append, List.length_cons] at hlength
    omega
  have hnames : ∀ c b, plat.length ≤ (under plat cab c).length ∧
      plat.length ≤ (boardName c b).length := by
    intro c b
    rw [boardName_eq]
    simp only [under, List.length_append]
    omega
  cases o with
  | plat => exact .inl ⟨rfl, rfl⟩
  | cab c => exact .inr ⟨hplat _ _ _ le_rfl, _, _, rfl⟩
  | place p => cases p with
    | board i =>
        simp only [Object.type, Object.name, Place.name, boardName_eq]
        exact .inr ⟨hplat _ _ _ (hnames _ 0).1, _, _, rfl⟩
    | node i j =>
        simp only [Object.type, Object.name, Place.name, nodeName_eq]
        exact .inr ⟨hplat _ _ _ (hnames _ _).2, _, _, rfl⟩

theorem type_ne_under (type front : Text) (n : Nat) : type ≠ under front type n := by
  intro h
  have hlength := congrArg List.length h
  simp only [under, part, List.length_append, List.length_cons] at hlength
  omega

/-- The parent that is reported of a child is the type of the object that it was found under.
For the platform that is its name. Any other object is called by what is in front of it,
its type and a number, and only the type is reported. -/
theorem findParent_of_child {name child : Text} {children : List Text} (hname : Found m name)
    (hchildren : m.findChildren name = .ok children) (hchild : child ∈ children) :
    ∃ o : Object m, o.name = name ∧ m.findParent child = .ok o.type ∧
      (o.type = name ↔ name = plat) ∧ (name ≠ plat → ∃ front n, name = under front o.type n) := by
  obtain ⟨o, rfl⟩ := found_iff.mp hname
  obtain rfl := Except.ok.inj (o.findChildren_name.symm.trans hchildren)
  obtain ⟨o', rfl, htype⟩ := Object.children_objects hchild
  refine ⟨o, rfl, findParent_of htype, ?_⟩
  rcases name_cases o with ⟨hplat, hname⟩ | ⟨hbelow, front, n, hunder⟩
  · exact ⟨iff_of_true (hplat.trans hname.symm) hname, fun hne => (hne hname).elim⟩
  · refine ⟨iff_of_false ?_ hbelow, fun _ => ⟨front, n, hunder⟩⟩
    rw [hunder]
    exact type_ne_under _ _ _

theorem findParent_of_child_board :
    ∃ o : Object threeNodes, o.name = under plat cab 0 ∧
      threeNodes.findParent (boardName 0 1) = .ok o.type ∧
      (o.type = under plat cab 0 ↔ under plat cab 0 = plat) ∧
      (under plat cab 0 ≠ plat → ∃ front n, under plat cab 0 = under front o.type n) := by
  have hcab : (Object.cab (m := threeNodes) ⟨0, by decide⟩).name = under plat cab 0 := rfl
  have hfound : Found threeNodes (under plat cab 0) := found_iff.mpr ⟨_, hcab⟩
  have hchildren := Object.findChildren_name (Object.cab (m := threeNodes) ⟨0, by decide⟩)
  exact findParent_of_child hfound hchildren (List.mem_map_of_mem (by decide))

end Found

end PwrApi.Machine
