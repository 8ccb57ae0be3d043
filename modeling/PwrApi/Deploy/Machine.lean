import Mathlib.Data.List.Nodup
import PwrApi.Router.RouteTable

/-! The machine that an application runs on and its route file: `machine.py`. Nodes are on
boards and boards in cabinets, the last board and the last cabinet being filled in part. -/

namespace PwrApi

open Function Router Text

/-- `numNodes`, `nodesPerBoard` and `boardsPerCab`. The script does not come past a division
by zero. -/
structure Machine where
  numNodes : Nat
  nodesPerBoard : Nat
  boardsPerCab : Nat
  nodesPerBoard_pos : 0 < nodesPerBoard
  boardsPerCab_pos : 0 < boardsPerCab

namespace Machine

section Source

variable (m : Machine)

def parts (total per : Nat) : Nat := if total % per ≠ 0 then total / per + 1 else total / per

def numBoards : Nat := parts m.numNodes m.nodesPerBoard

def numCabs : Nat := parts m.numBoards m.boardsPerCab

/-- `'plat.cab{0}.board{1}'`. -/
def boardName (cab brd : Nat) : Text :=
  ofString "plat.cab" ++ decimal cab ++ ofString ".board" ++ decimal brd

/-- `'plat.cab{0}.board{1}.node{2}'`. -/
def nodeName (cab brd node : Nat) : Text :=
  boardName cab brd ++ ofString ".node" ++ decimal node

/-- `'{0}:{1}:{2}\n'`. -/
def routeLine (name : Text) (rtr pos : Nat) : Text :=
  name ++ 58 :: (decimal rtr ++ 58 :: decimal pos) ++ [10]

/-- The inner loop of `genRouteFile`. -/
def nodeLines (i cab brd : Nat) : List Nat → Nat → Text
  | [], _ => []
  | j :: js, pos =>
      if i * m.nodesPerBoard + j < m.numNodes then
        routeLine (nodeName cab brd j) i pos ++ nodeLines i cab brd js (pos + 1)
      else nodeLines i cab brd js pos

/-- The outer loop of `genRouteFile`. -/
def boardLines : List Nat → Text
  | [] => []
  | i :: is =>
      if i * m.nodesPerBoard ≥ m.numNodes then []
      else
        let cab := i / m.boardsPerCab
        let brd := i % m.boardsPerCab
        routeLine (boardName cab brd) i 0 ++
          nodeLines m i cab brd (List.range m.nodesPerBoard) 1 ++ boardLines is

def genRouteFile : Text := m.boardLines (List.range m.numBoards)

/-- `setLocation( tmp, tmp + '-daemon' )`. -/
def setLocation (locationMap : ObjID → Option Text) (tmp : Text) : ObjID → Option Text :=
  update locationMap tmp (some (tmp ++ ofString "-daemon"))

/-- The three loops of `setLocations`, from the inner one on. -/
def setNodes (cab brd : Nat) (locationMap : ObjID → Option Text) : ObjID → Option Text :=
  (List.range m.nodesPerBoard).foldl (fun locationMap node =>
    let x := cab * m.boardsPerCab * m.nodesPerBoard + brd * m.nodesPerBoard + node
    if x < m.numNodes then setLocation locationMap (nodeName cab brd node) else locationMap)
    locationMap

def setBoards (cab : Nat) (locationMap : ObjID → Option Text) : ObjID → Option Text :=
  (List.range m.boardsPerCab).foldl (fun locationMap brd =>
    if cab * m.boardsPerCab + brd < m.numBoards then
      m.setNodes cab brd (setLocation locationMap (boardName cab brd))
    else locationMap)
    locationMap

def setLocations : ObjID → Option Text :=
  (List.range m.numCabs).foldl (fun locationMap cab => m.setBoards cab locationMap) fun _ => none

end Source

section Numbers

theorem lt_parts {total per i : Nat} (hper : 0 < per) : i < parts total per ↔ i * per < total := by
  have hdiv := Nat.div_add_mod total per
  have hmod := Nat.mod_lt total hper
  unfold parts
  by_cases hrest : total % per ≠ 0
  · rw [if_pos hrest, Nat.lt_succ_iff]
    constructor
    · intro hi
      have := Nat.mul_le_mul_right per hi
      rw [Nat.mul_comm per] at hdiv
      omega
    · intro hi
      by_contra hlt
      have := Nat.mul_le_mul_right per (Nat.succ_le_of_lt (Nat.lt_of_not_le hlt))
      rw [Nat.succ_mul] at this
      rw [Nat.mul_comm per] at hdiv
      omega
  · rw [if_neg hrest]
    rw [not_not] at hrest
    rw [hrest, Nat.add_zero, Nat.mul_comm] at hdiv
    constructor
    · intro hi
      have := Nat.mul_lt_mul_of_pos_right hi hper
      omega
    · intro hi
      by_contra hge
      have := Nat.mul_le_mul_right per (Nat.le_of_not_lt hge)
      omega

variable (m : Machine)

theorem lt_numBoards {i : Nat} : i < m.numBoards ↔ i * m.nodesPerBoard < m.numNodes :=
  lt_parts m.nodesPerBoard_pos

theorem lt_numCabs {c : Nat} : c < m.numCabs ↔ c * m.boardsPerCab < m.numBoards :=
  lt_parts m.boardsPerCab_pos

theorem numBoards_le : m.numBoards ≤ m.numNodes := by
  by_contra hlt
  have hboard : m.numNodes < m.numBoards := Nat.lt_of_not_le hlt
  rw [lt_numBoards] at hboard
  have := Nat.le_mul_of_pos_right m.numNodes m.nodesPerBoard_pos
  omega

def nodesOn (i : Nat) : Nat := min m.nodesPerBoard (m.numNodes - i * m.nodesPerBoard)

theorem lt_nodesOn {i j : Nat} :
    j < m.nodesOn i ↔ j < m.nodesPerBoard ∧ i * m.nodesPerBoard + j < m.numNodes := by
  rw [nodesOn]
  omega

end Numbers

section Names

theorem decimal_inj {a b : Nat} (h : decimal a = decimal b) : a = b := by
  have hvalue := congrArg value h
  rwa [value_decimal, value_decimal] at hvalue

theorem decimal_append_inj {a b : Nat} {s t : Text} (hs : ∀ c ∈ s.head?, isDigit c = false)
    (ht : ∀ c ∈ t.head?, isDigit c = false) (h : decimal a ++ s = decimal b ++ t) :
    a = b ∧ s = t := by
  obtain ⟨hfirst, hrest⟩ := takeWhile_exact (decimalFrom_digits (a + 1) a) hs
  obtain ⟨hfirst', hrest'⟩ := takeWhile_exact (decimalFrom_digits (b + 1) b) ht
  change (decimal a ++ s).takeWhile isDigit = decimal a at hfirst
  change (decimal a ++ s).dropWhile isDigit = s at hrest
  change (decimal b ++ t).takeWhile isDigit = decimal b at hfirst'
  change (decimal b ++ t).dropWhile isDigit = t at hrest'
  rw [h] at hfirst hrest
  exact ⟨decimal_inj (hfirst.symm.trans hfirst'), hrest.symm.trans hrest'⟩

theorem boardName_append_inj {c b c' b' : Nat} {s t : Text}
    (hs : ∀ c ∈ s.head?, isDigit c = false) (ht : ∀ c ∈ t.head?, isDigit c = false)
    (h : boardName c b ++ s = boardName c' b' ++ t) : c = c' ∧ b = b' ∧ s = t := by
  simp only [boardName, List.append_assoc, List.append_cancel_left_eq] at h
  have hdot : ∀ (brd : Nat) (u : Text),
      ∀ c ∈ (ofString ".board" ++ (decimal brd ++ u)).head?, isDigit c = false := by
    intro brd u c hc
    obtain rfl : 46 = c := by simpa [ofString] using hc
    rfl
  obtain ⟨hcab, hrest⟩ := decimal_append_inj (hdot b s) (hdot b' t) h
  rw [List.append_cancel_left_eq] at hrest
  obtain ⟨hbrd, hrest⟩ := decimal_append_inj hs ht hrest
  exact ⟨hcab, hbrd, hrest⟩

theorem boardName_inj {c b c' b' : Nat} (h : boardName c b = boardName c' b') :
    c = c' ∧ b = b' := by
  rw [← List.append_nil (boardName c b), ← List.append_nil (boardName c' b')] at h
  obtain ⟨hcab, hbrd, _⟩ := boardName_append_inj (by simp) (by simp) h
  exact ⟨hcab, hbrd⟩

theorem head_node (node : Nat) :
    ∀ c ∈ (ofString ".node" ++ decimal node).head?, isDigit c = false := by
  intro c hc
  obtain rfl : 46 = c := by simpa [ofString] using hc
  rfl

theorem nodeName_inj {c b n c' b' n' : Nat} (h : nodeName c b n = nodeName c' b' n') :
    c = c' ∧ b = b' ∧ n = n' := by
  rw [nodeName, nodeName, List.append_assoc, List.append_assoc] at h
  obtain ⟨hcab, hbrd, hrest⟩ := boardName_append_inj (head_node n) (head_node n') h
  rw [List.append_cancel_left_eq] at hrest
  exact ⟨hcab, hbrd, decimal_inj hrest⟩

theorem boardName_ne_nodeName (c b c' b' n : Nat) : boardName c b ≠ nodeName c' b' n := by
  intro h
  rw [nodeName, List.append_assoc, ← List.append_nil (boardName c b)] at h
  obtain ⟨_, _, hrest⟩ := boardName_append_inj (by simp) (head_node n) h
  exact absurd hrest.symm (by simp [ofString])

theorem not_mem_nodeName {c : UInt8} (hc : isDigit c = false)
    (hboard : c ∉ ofString "plat.cab.board.node") (cab brd node : Nat) :
    c ∉ boardName cab brd ∧ c ∉ nodeName cab brd node := by
  have hletters : c ∉ ofString "plat.cab" ∧ c ∉ ofString ".board" ∧ c ∉ ofString ".node" := by
    have hsplit : ofString "plat.cab.board.node" =
        ofString "plat.cab" ++ (ofString ".board" ++ ofString ".node") := by decide
    rw [hsplit] at hboard
    simpa only [List.mem_append, not_or] using hboard
  have hdigit := not_mem_decimal hc
  simp only [nodeName, boardName, List.mem_append, not_or]
  exact ⟨⟨⟨⟨hletters.1, hdigit cab⟩, hletters.2.1⟩, hdigit brd⟩,
    ⟨⟨⟨⟨hletters.1, hdigit cab⟩, hletters.2.1⟩, hdigit brd⟩, hletters.2.2⟩, hdigit node⟩

end Names

/-- A board by its number in the machine, or one of its nodes. -/
inductive Place (m : Machine)
  | board (i : Fin m.numBoards)
  | node (i : Fin m.numBoards) (j : Fin (m.nodesOn i))

namespace Place

section Places

variable {m : Machine}

def rtr : Place m → Nat
  | board i => i
  | node i _ => i

def pos : Place m → Nat
  | board _ => 0
  | node _ j => j + 1

def name : Place m → Text
  | board i => boardName (i / m.boardsPerCab) (i % m.boardsPerCab)
  | node i j => nodeName (i / m.boardsPerCab) (i % m.boardsPerCab) j

theorem rtr_lt (p : Place m) : p.rtr < m.numBoards := by
  cases p with
  | board i => exact i.isLt
  | node i _ => exact i.isLt

theorem pos_le (p : Place m) : p.pos ≤ m.numNodes := by
  cases p with
  | board i => exact Nat.zero_le _
  | node i j =>
      have := (lt_nodesOn m).mp j.isLt
      simp only [pos]
      omega

theorem ext_ids {p q : Place m} (hrtr : p.rtr = q.rtr) (hpos : p.pos = q.pos) : p = q := by
  cases p with
  | board i =>
      cases q with
      | board i' => rw [Fin.ext hrtr]
      | node i' j' => cases hpos
  | node i j =>
      cases q with
      | board i' => cases hpos
      | node i' j' =>
          obtain rfl : i = i' := Fin.ext hrtr
          rw [Fin.ext (Nat.succ.inj hpos)]

theorem div_mod_inj {per i i' : Nat} (hdiv : i / per = i' / per) (hmod : i % per = i' % per) :
    i = i' := by
  rw [← Nat.div_add_mod i per, ← Nat.div_add_mod i' per, hdiv, hmod]

theorem name_inj {p q : Place m} (h : p.name = q.name) : p = q := by
  cases p with
  | board i =>
      cases q with
      | board i' =>
          obtain ⟨hcab, hbrd⟩ := boardName_inj h
          exact ext_ids (div_mod_inj hcab hbrd) rfl
      | node i' j' => exact absurd h (boardName_ne_nodeName _ _ _ _ _)
  | node i j =>
      cases q with
      | board i' => exact absurd h.symm (boardName_ne_nodeName _ _ _ _ _)
      | node i' j' =>
          obtain ⟨hcab, hbrd, hnode⟩ := nodeName_inj h
          exact ext_ids (div_mod_inj hcab hbrd) (congrArg Nat.succ hnode)

theorem plain (p : Place m) : 58 ∉ p.name ∧ 10 ∉ p.name := by
  have hcolon := not_mem_nodeName (c := 58) (by decide) (by decide)
  have hnewline := not_mem_nodeName (c := 10) (by decide) (by decide)
  cases p with
  | board i => exact ⟨(hcolon _ _ 0).1, (hnewline _ _ 0).1⟩
  | node i j => exact ⟨(hcolon _ _ _).2, (hnewline _ _ _).2⟩

variable (m)

def places : List (Place m) :=
  (List.finRange m.numBoards).flatMap fun i =>
    board i :: (List.finRange (m.nodesOn i)).map (node i)

variable {m}

theorem mem_places (p : Place m) : p ∈ places m := by
  cases p with
  | board i => exact List.mem_flatMap.mpr ⟨i, List.mem_finRange i, List.mem_cons_self⟩
  | node i j =>
      refine List.mem_flatMap.mpr ⟨i, List.mem_finRange i, List.mem_cons_of_mem _ ?_⟩
      exact List.mem_map_of_mem (List.mem_finRange j)

theorem nodup_places : (places m).Nodup := by
  refine List.nodup_flatMap.mpr ⟨fun i _ => ?_, ?_⟩
  · refine List.nodup_cons.mpr ⟨?_, ?_⟩
    · intro hmem
      obtain ⟨j, _, hj⟩ := List.mem_map.mp hmem
      cases hj
    · refine (List.nodup_finRange _).map fun j j' hj => ?_
      exact Fin.ext (Nat.succ.inj (congrArg pos hj))
  · refine (List.nodup_finRange m.numBoards).imp fun {i i'} hne => ?_
    have hrtr : ∀ (k : Fin m.numBoards) (p : Place m),
        p ∈ board k :: (List.finRange (m.nodesOn k)).map (node k) → p.rtr = k := by
      intro k p hp
      rcases List.mem_cons.mp hp with rfl | hp
      · rfl
      · obtain ⟨j, _, rfl⟩ := List.mem_map.mp hp
        rfl
    intro p hp hp'
    exact hne (Fin.ext ((hrtr i p hp).symm.trans (hrtr i' p hp')))

def entry (hm : m.numNodes < 2 ^ 31) (p : Place m) : RouteEntry where
  name := p.name
  rtr := p.rtr
  srvr := p.pos
  plain := p.plain
  rtr_lt := lt_trans p.rtr_lt (lt_of_le_of_lt m.numBoards_le hm)
  srvr_lt := lt_of_le_of_lt p.pos_le hm

def id (p : Place m) : AppID := appId (UInt32.ofNat p.rtr) (UInt32.ofNat p.pos)

end Places

section File

variable {m : Machine}

theorem file_eq (entries : List RouteEntry) :
    RouteEntry.file true entries = entries.flatMap fun entry => entry.line ++ [10] := by
  induction entries with
  | nil => rfl
  | cons entry entries ih =>
      cases entries with
      | nil => simp [RouteEntry.file]
      | cons second entries =>
          have hcons : RouteEntry.file true (entry :: second :: entries) =
              entry.line ++ 10 :: RouteEntry.file true (second :: entries) := rfl
          rw [hcons, ih]
          simp only [List.flatMap_cons, List.append_assoc, List.singleton_append]

theorem nodeLines_out {i cab brd : Nat} {js : List Nat} (pos : Nat)
    (hjs : ∀ j ∈ js, ¬ i * m.nodesPerBoard + j < m.numNodes) :
    m.nodeLines i cab brd js pos = [] := by
  induction js with
  | nil => rfl
  | cons j js ih =>
      rw [nodeLines, if_neg (hjs j List.mem_cons_self)]
      exact ih fun k hk => hjs k (List.mem_cons_of_mem j hk)

/-- The node `j` is at the position `j + 1`, since those before it are all there. -/
theorem nodeLines_range (i cab brd s count : Nat) (hcount : s + count = m.nodesPerBoard) :
    m.nodeLines i cab brd (List.range' s count) (s + 1) =
      (List.range' s (m.nodesOn i - s)).flatMap fun j =>
        routeLine (nodeName cab brd j) i (j + 1) := by
  induction count generalizing s with
  | zero =>
      have hnone : m.nodesOn i - s = 0 := by
        rw [nodesOn]
        omega
      rw [hnone]
      rfl
  | succ count ih =>
      rw [List.range'_succ, nodeLines]
      by_cases hs : i * m.nodesPerBoard + s < m.numNodes
      · have hmore : m.nodesOn i - s = m.nodesOn i - (s + 1) + 1 := by
          have := (lt_nodesOn m).mpr ⟨by omega, hs⟩
          omega
        rw [if_pos hs, ih (s + 1) (by omega), hmore, List.range'_succ, List.flatMap_cons]
      · have hnone : m.nodesOn i - s = 0 := by
          by_contra hsome
          exact hs ((lt_nodesOn m).mp (by omega)).2
        rw [if_neg hs, hnone]
        apply nodeLines_out
        intro j hj
        have := (List.mem_range'_1.mp hj).1
        omega

theorem boardLines_eq {is : List Nat} (his : ∀ i ∈ is, i < m.numBoards) :
    m.boardLines is = is.flatMap fun i =>
      routeLine (boardName (i / m.boardsPerCab) (i % m.boardsPerCab)) i 0 ++
        (List.range (m.nodesOn i)).flatMap fun j =>
          routeLine (nodeName (i / m.boardsPerCab) (i % m.boardsPerCab) j) i (j + 1) := by
  induction is with
  | nil => rfl
  | cons i is ih =>
      have hi : ¬ i * m.nodesPerBoard ≥ m.numNodes := by
        have := (lt_numBoards m).mp (his i List.mem_cons_self)
        omega
      have hnodes := nodeLines_range (m := m) i (i / m.boardsPerCab) (i % m.boardsPerCab) 0
        m.nodesPerBoard (Nat.zero_add _)
      rw [Nat.zero_add, Nat.sub_zero, ← List.range_eq_range', ← List.range_eq_range'] at hnodes
      rw [boardLines, if_neg hi, List.flatMap_cons]
      simp only [hnodes, ih fun k hk => his k (List.mem_cons_of_mem i hk)]

theorem genRouteFile_eq (hm : m.numNodes < 2 ^ 31) :
    m.genRouteFile = RouteEntry.file true ((places m).map (entry hm)) := by
  rw [genRouteFile, boardLines_eq fun i hi => List.mem_range.mp hi, file_eq, List.flatMap_map,
    places, List.flatMap_assoc, ← List.map_coe_finRange_eq_range, List.flatMap_map]
  congr 1
  funext i
  rw [List.flatMap_cons, List.flatMap_map, ← List.map_coe_finRange_eq_range, List.flatMap_map]
  rfl

end File

section Locations

/-- The change to a map of locations that gives the places of a kind theirs. -/
def Locates (kind : Text → Prop) (f : (ObjID → Option Text) → ObjID → Option Text) : Prop :=
  ∀ locationMap name,
    (kind name → f locationMap name = some (name ++ ofString "-daemon")) ∧
    (¬ kind name → f locationMap name = locationMap name)

theorem locates_set (tmp : Text) :
    Locates (· = tmp) fun locationMap => setLocation locationMap tmp := by
  intro locationMap name
  constructor
  · rintro rfl
    exact update_self _ _ _
  · exact fun hne => update_of_ne hne _ _

theorem Locates.comp {kind kind' : Text → Prop} {f g : (ObjID → Option Text) → ObjID → Option Text}
    (hf : Locates kind f) (hg : Locates kind' g) :
    Locates (fun name => kind name ∨ kind' name) fun locationMap => g (f locationMap) := by
  intro locationMap name
  obtain ⟨hin, hout⟩ := hg (f locationMap) name
  constructor
  · intro hname
    by_cases hkind : kind' name
    · exact hin hkind
    · exact (hout hkind).trans ((hf locationMap name).1 (hname.resolve_right hkind))
  · intro hname
    rw [not_or] at hname
    exact (hout hname.2).trans ((hf locationMap name).2 hname.1)

theorem Locates.guard {kind : Text → Prop} {f : (ObjID → Option Text) → ObjID → Option Text}
    (hf : Locates kind f) (c : Prop) [Decidable c] :
    Locates (fun name => c ∧ kind name) fun locationMap =>
      if c then f locationMap else locationMap := by
  intro locationMap name
  by_cases hc : c
  · simp only [hc, if_true, true_and]
    exact hf locationMap name
  · simp [hc]

theorem Locates.foldl {kind : Nat → Text → Prop}
    {f : Nat → (ObjID → Option Text) → ObjID → Option Text} (hf : ∀ x, Locates (kind x) (f x))
    (xs : List Nat) :
    Locates (fun name => ∃ x ∈ xs, kind x name) fun locationMap =>
      xs.foldl (fun locationMap x => f x locationMap) locationMap := by
  induction xs with
  | nil =>
      intro locationMap name
      exact ⟨fun ⟨x, hx, _⟩ => absurd hx List.not_mem_nil, fun _ => rfl⟩
  | cons x xs ih =>
      have hboth := (hf x).comp ih
      simp only [List.exists_mem_cons_iff]
      exact hboth

variable {m : Machine}

theorem setLocations_kind (m : Machine) :
    Locates (fun name => ∃ cab ∈ List.range m.numCabs, ∃ brd ∈ List.range m.boardsPerCab,
      cab * m.boardsPerCab + brd < m.numBoards ∧ (name = boardName cab brd ∨
        ∃ node ∈ List.range m.nodesPerBoard,
          cab * m.boardsPerCab * m.nodesPerBoard + brd * m.nodesPerBoard + node < m.numNodes ∧
            name = nodeName cab brd node)) fun locationMap =>
      (List.range m.numCabs).foldl (fun locationMap cab => m.setBoards cab locationMap)
        locationMap := by
  apply Locates.foldl
  intro cab
  apply Locates.foldl
  intro brd
  apply Locates.guard
  apply (locates_set _).comp
  apply Locates.foldl
  intro node
  exact (locates_set _).guard _

theorem index_div_mod (cab : Nat) {brd : Nat} (hbrd : brd < m.boardsPerCab) :
    (cab * m.boardsPerCab + brd) / m.boardsPerCab = cab ∧
      (cab * m.boardsPerCab + brd) % m.boardsPerCab = brd := by
  rw [Nat.mul_add_mod', Nat.mod_eq_of_lt hbrd, Nat.add_comm,
    Nat.add_mul_div_right _ _ m.boardsPerCab_pos, Nat.div_eq_of_lt hbrd, Nat.zero_add]
  exact ⟨rfl, rfl⟩

theorem setLocations_eq (name : Text) :
    ((∃ p : Place m, p.name = name) →
        m.setLocations name = some (name ++ ofString "-daemon")) ∧
      ((¬ ∃ p : Place m, p.name = name) → m.setLocations name = none) := by
  obtain ⟨hin, hout⟩ := setLocations_kind m (fun _ => none) name
  constructor
  · rintro ⟨p, rfl⟩
    apply hin
    have hindex : p.rtr / m.boardsPerCab * m.boardsPerCab + p.rtr % m.boardsPerCab = p.rtr :=
      Nat.div_add_mod' _ _
    have hcab : p.rtr / m.boardsPerCab ∈ List.range m.numCabs := by
      rw [List.mem_range, lt_numCabs]
      have := p.rtr_lt
      omega
    have hbrd : p.rtr % m.boardsPerCab ∈ List.range m.boardsPerCab :=
      List.mem_range.mpr (Nat.mod_lt _ m.boardsPerCab_pos)
    refine ⟨_, hcab, _, hbrd, by rw [hindex]; exact p.rtr_lt, ?_⟩
    cases p with
    | board i => exact .inl rfl
    | node i j =>
        obtain ⟨hj, hnode⟩ := (lt_nodesOn m).mp j.isLt
        refine .inr ⟨j, List.mem_range.mpr hj, ?_, rfl⟩
        rw [← Nat.add_mul, hindex]
        exact hnode
  · intro hname
    apply hout
    rintro ⟨cab, _, brd, hbrd, hboard, hnames⟩
    obtain ⟨hdiv, hmod⟩ := index_div_mod cab (List.mem_range.mp hbrd)
    rcases hnames with rfl | ⟨node, hnode, hx, rfl⟩
    · refine hname ⟨.board ⟨_, hboard⟩, ?_⟩
      simp only [Place.name, hdiv, hmod]
    · rw [← Nat.add_mul] at hx
      have hj : node < m.nodesOn (cab * m.boardsPerCab + brd) :=
        (lt_nodesOn m).mpr ⟨List.mem_range.mp hnode, hx⟩
      refine hname ⟨.node ⟨_, hboard⟩ ⟨node, hj⟩, ?_⟩
      simp only [Place.name, hdiv, hmod]

end Locations

section Table

variable {m : Machine}

theorem nodup_names (hm : m.numNodes < 2 ^ 31) :
    (((places m).map (entry hm)).map (·.name)).Nodup := by
  rw [List.map_map]
  exact nodup_places.map fun p q h => name_inj h

theorem id_inj (hm : m.numNodes < 2 ^ 31) {p q : Place m} (h : p.id = q.id) : p = q := by
  have hp := (p.entry hm).rtrIdOf_id
  have hq := (q.entry hm).rtrIdOf_id
  have hid : (p.entry hm).id = (q.entry hm).id := h
  rw [hid] at hp
  exact ext_ids (hp.1.symm.trans hq.1) (hp.2.symm.trans hq.2)

/-- The table that a router reads from the route file. -/
def table (m : Machine) (hm : m.numNodes < 2 ^ 31) : ObjID → Option AppID :=
  RouteEntry.enter (fun _ => none) ((places m).map (entry hm))

theorem initRouteTable_genRouteFile (hm : m.numNodes < 2 ^ 31) :
    initRouteTable (some m.genRouteFile) = .ok (table m hm) := by
  rw [genRouteFile_eq hm, table, ← RouteEntry.addRoute_lines, initRouteTable, orFault_some]
  show (readLines _).foldlM addRoute _ = _
  rw [RouteEntry.readLines_file true]
  rfl

theorem table_name (hm : m.numNodes < 2 ^ 31) (p : Place m) : table m hm p.name = some p.id :=
  RouteEntry.enter_mem (nodup_names hm) _ (List.mem_map_of_mem (mem_places p))

theorem table_other (hm : m.numNodes < 2 ^ 31) {name : Text} (h : ¬ ∃ p : Place m, p.name = name) :
    table m hm name = none := by
  apply RouteEntry.enter_not_mem
  intro hmem
  obtain ⟨entry, hentry, rfl⟩ := List.mem_map.mp hmem
  obtain ⟨p, _, rfl⟩ := List.mem_map.mp hentry
  exact h ⟨p, rfl⟩

end Table

/-- The table that a router reads from the route file has the boards and nodes of the machine
and no other name: each on the router of its board, with the board at position 0 and its nodes
after it in their order. No two have one id, and these are the objects that get a location. -/
theorem route_file_is_complete (m : Machine) (hm : m.numNodes < 2 ^ 31) :
    ∃ table, initRouteTable (some m.genRouteFile) = .ok table ∧
      (∀ p : Place m, table p.name = some (appId (UInt32.ofNat p.rtr) (UInt32.ofNat p.pos))) ∧
      (∀ name, table name ≠ none → ∃ p : Place m, p.name = name) ∧
      (∀ name name' id, table name = some id → table name' = some id → name = name') ∧
      ∀ name, m.setLocations name = (table name).map fun _ => name ++ ofString "-daemon" := by
  refine ⟨table m hm, initRouteTable_genRouteFile hm, table_name hm, ?_, ?_, ?_⟩
  · intro name hname
    by_contra hnone
    exact hname (table_other hm hnone)
  · intro name name' id h h'
    by_cases hname : ∃ p : Place m, p.name = name
    · by_cases hname' : ∃ p : Place m, p.name = name'
      · obtain ⟨p, rfl⟩ := hname
        obtain ⟨q, rfl⟩ := hname'
        rw [table_name hm] at h h'
        rw [id_inj hm (Option.some.inj (h.trans h'.symm))]
      · rw [table_other hm hname'] at h'
        cases h'
    · rw [table_other hm hname] at h
      cases h
  · intro name
    obtain ⟨hin, hout⟩ := setLocations_eq (m := m) name
    by_cases hname : ∃ p : Place m, p.name = name
    · rw [hin hname]
      obtain ⟨p, rfl⟩ := hname
      rw [table_name hm]
      rfl
    · rw [hout hname, table_other hm hname]
      rfl

end Place

/-- Three nodes, two on a board, in one cabinet. -/
def threeNodes : Machine := ⟨3, 2, 4, by decide, by decide⟩

theorem route_file_of_three_nodes :
    ∃ table, initRouteTable (some threeNodes.genRouteFile) = .ok table ∧
      (∀ p : Place threeNodes,
        table p.name = some (appId (UInt32.ofNat p.rtr) (UInt32.ofNat p.pos))) ∧
      (∀ name, table name ≠ none → ∃ p : Place threeNodes, p.name = name) ∧
      (∀ name name' id, table name = some id → table name' = some id → name = name') ∧
      ∀ name, threeNodes.setLocations name =
        (table name).map fun _ => name ++ ofString "-daemon" :=
  Place.route_file_is_complete threeNodes (by decide)

end Machine

end PwrApi
