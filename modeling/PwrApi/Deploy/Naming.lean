import Mathlib.Data.List.SplitBy
import PwrApi.Deploy.Machine

/-! The objects of the machine by their names: `pyConfig.py`, with the levels and the counts
that `machine.py` and `dummy.py` give it. -/

namespace PwrApi.Machine

open Function Router Text Runs

/-- How a call can end without a value. -/
inductive Stop
  /-- `sys.exit`. -/
  | exit
  /-- An exception: a key or an index that is not there, or text that is no number. -/
  | raised
  deriving DecidableEq, Repr

/-- `Foo`, without its child. -/
structure Foo where
  name : Text
  total : Nat
  per : Nat
  deriving DecidableEq, Repr

section Source

def plat : Text := ofString "plat"

def cab : Text := ofString "cab"

def board : Text := ofString "board"

def node : Text := ofString "node"

def orStop {α : Type} (x : Option α) (stop : Stop) : Except Stop α :=
  match x with
  | some a => .ok a
  | none => .error stop

/-- `Foo::getLeafCount`, of a level and those below it. -/
def getLeafCount (stop : Text) : List Foo → Int
  | [] => -1
  | [_] => -1
  | self :: child :: below =>
      if self.name = stop then -1
      else if child.name = stop then self.per
      else getLeafCount stop (child :: below) * self.per

/-- `Foo::getTotalChildren`. -/
def getTotalChildren : List Foo → Nat
  | _ :: child :: _ => child.total
  | _ => 0

/-- `re.findall( r'[^0123456789]+|[0123456789]+', .. )`. -/
def findall (s : Text) : List Text := s.splitBy fun a b => isDigit a == isDigit b

/-- `int( .. )` of a string that is all digits or has none. -/
def int (s : Text) : Except Stop Nat :=
  if s ≠ [] ∧ s.all isDigit then .ok (value s) else .error .raised

/-- The type and the number of one part of a name. -/
def typeNum (part : Text) : Except Stop (Text × Nat) := do
  let y := findall part
  let type ← orStop y[0]? .raised
  if y.length = 2 then do
    let text ← orStop y[1]? .raised
    let num ← int text
    .ok (type, num)
  else .ok (type, 0)

def cutLast (name : Text) : Text × Text :=
  match findLast 46 name with
  | some pos => (name.take pos, name.drop (pos + 1))
  | none => ([], name)

def splitUp (name : Text) : Except Stop (Text × Text × Nat) := do
  let (pre, post) := cutLast name
  let (type, num) ← typeNum post
  .ok (pre, type, num)

variable (m : Machine)

/-- `objMap`, each level with the next one as its child. -/
def objMap : List Foo :=
  [⟨plat, 1, m.numCabs⟩, ⟨cab, m.numCabs, m.boardsPerCab⟩, ⟨board, m.numBoards, m.nodesPerBoard⟩,
    ⟨node, m.numNodes, 0⟩]

/-- `map[ type ]`. -/
def level (map : List Foo) (type : Text) : Except Stop (List Foo) :=
  match map.dropWhile fun foo => foo.name ≠ type with
  | [] => .error .raised
  | found => .ok found

/-- The loop of `calcTypePos` over the parts of a name. -/
def calcTypePosLoop (map : List Foo) (wantType : Text) : List Text → Int → Except Stop Int
  | [], ret => .ok ret
  | val :: vals, ret => do
      let type ← orStop (findall val)[0]? .raised
      if wantType = type then .ok ret
      else do
        let (_, pos) ← typeNum val
        let found ← level map type
        calcTypePosLoop map wantType vals (ret + getLeafCount wantType found * pos)

def calcTypePos (map : List Foo) (name wantType : Text) : Except Stop Int :=
  calcTypePosLoop map wantType (name.splitOn 46) 0

/-- The branches at the end of `calcNumChildren`. -/
def countChildren (myNum : Int) (per totalChildren : Nat) : Except Stop Nat :=
  if (myNum + 1) * per ≤ totalChildren then .ok per
  else if (myNum + 1) * per < totalChildren + per then .ok (totalChildren % per)
  else .error .exit

def calcNumChildren (name : Text) : Except Stop Nat := do
  let (_, type, num) ← splitUp name
  let pos ← calcTypePos m.objMap name type
  let found ← level m.objMap type
  let self ← orStop found[0]? .raised
  countChildren (pos + num) self.per (getTotalChildren found)

/-- `''.join( ch for ch in .. if ch.isalpha() )`. -/
def isAlpha (c : UInt8) : Bool := (97 ≤ c ∧ c ≤ 122) ∨ (65 ≤ c ∧ c ≤ 90)

/-- `objectMap`: the types from the platform down, each the parent of the next. -/
def objectMap : List Text := [plat, cab, board, node]

/-- `getNumChildren` of the object of a type, which is -1, here `none`, for a node. -/
def getNumChildren (type name : Text) : Except Stop (Option Nat) :=
  if type = node then .ok none else (m.calcNumChildren name).map some

theorem cutLast_length {name pre post : Text} (h : cutLast name = (pre, post)) (hpre : pre ≠ []) :
    pre.length < name.length := by
  unfold cutLast at h
  rcases findLast_cases 46 name with ⟨_, hnone⟩ | ⟨front, back, rfl, _, hsome⟩
  · rw [hnone] at h
    exact absurd (congrArg Prod.fst h).symm hpre
  · rw [hsome] at h
    obtain rfl : (front ++ 46 :: back).take front.length = pre := congrArg Prod.fst h
    simp

/-- `_checkName`, which returns if the name is right. -/
def checkName (tmp : Text) : Except Stop Unit :=
  match hcut : cutLast tmp with
  | (pre, post) => do
      let objType := post.filter isAlpha
      if objType ∉ objectMap then .error .exit
      else if hpre : pre = [] then .ok ()
      else do
        let pos := objectMap.idxOf objType
        if pos = 0 then .error .exit
        else do
          let parent ← orStop objectMap[pos - 1]? .raised
          let numChildren ← m.getNumChildren parent pre
          let numChildren ← orStop numChildren .exit
          let number ← int (post.filter isDigit)
          if number ≥ numChildren then .error .exit
          else
            have := cutLast_length hcut hpre
            checkName pre
termination_by tmp.length

/-- `_getObject`, with the object by its type. -/
def getObject (name : Text) : Except Stop Text := do
  m.checkName name
  let last ← orStop (name.splitOn 46).getLast? .raised
  let objType := last.filter isAlpha
  if objType ∈ objectMap then .ok objType else .error .raised

/-- `findChildren` of the module and of the object. -/
def findChildren (name : Text) : Except Stop (List Text) := do
  let objType ← m.getObject name
  let numChildren ← m.getNumChildren objType name
  match numChildren with
  | none => .ok []
  | some numChildren => do
      let child ← orStop objectMap[objectMap.idxOf objType + 1]? .raised
      .ok ((List.range numChildren).map fun i => name ++ 46 :: (child ++ decimal i))

/-- `findParent`: `getName` of the parent's object, which every object of its type shares. -/
def findParent (name : Text) : Except Stop Text := do
  let objType ← m.getObject name
  let pos := objectMap.idxOf objType
  if pos = 0 then .error .raised else orStop objectMap[pos - 1]? .raised

/-- The loop of `findObjLocation`, over the parts of the name from the last to the first. -/
def locationLoop (locationMap : ObjID → Option Text) : List Text → Text
  | [] => []
  | last :: front =>
      match locationMap (List.intercalate [46] (last :: front).reverse) with
      | some loc => loc
      | none => locationLoop locationMap front

def findObjLocation (name : Text) : Except Stop Text := do
  m.checkName name
  .ok (locationLoop m.setLocations (name.splitOn 46).reverse)

end Source

section Words

/-- The text of a type: letters only. -/
structure Word (type : Text) : Prop where
  nonempty : type ≠ []
  alpha : ∀ c ∈ type, isAlpha c = true

theorem word_plat : Word plat := ⟨by decide, List.all_eq_true.mp (by decide)⟩

theorem word_cab : Word cab := ⟨by decide, List.all_eq_true.mp (by decide)⟩

theorem word_board : Word board := ⟨by decide, List.all_eq_true.mp (by decide)⟩

theorem word_node : Word node := ⟨by decide, List.all_eq_true.mp (by decide)⟩

theorem digit_of_alpha {c : UInt8} (hc : isAlpha c = true) : isDigit c = false ∧ c ≠ 46 := by
  simp only [isAlpha, decide_eq_true_eq, UInt8.le_iff_toNat_le, UInt8.reduceToNat] at hc
  constructor
  · simp only [isDigit, decide_eq_false_iff_not, UInt8.le_iff_toNat_le, UInt8.reduceToNat]
    omega
  · rintro rfl
    simp only [UInt8.reduceToNat] at hc
    omega

theorem digits_decimal (n : Nat) : ∀ c ∈ decimal n, isDigit c = true :=
  decimalFrom_digits (n + 1) n

theorem alpha_of_digit {c : UInt8} (hc : isDigit c = true) : isAlpha c = false := by
  by_contra halpha
  rw [Bool.not_eq_false] at halpha
  rw [(digit_of_alpha halpha).1] at hc
  cases hc

def part (type : Text) (n : Nat) : Text := type ++ decimal n

variable {type : Text} (h : Word type) (n : Nat)

theorem Word.no_digit (h : Word type) : ∀ c ∈ type, isDigit c = false :=
  fun c hc => (digit_of_alpha (h.alpha c hc)).1

theorem Word.no_dot (h : Word type) : 46 ∉ type := fun hdot =>
  (digit_of_alpha (h.alpha 46 hdot)).2 rfl

include h

theorem no_dot_part : 46 ∉ part type n := by
  rw [part, List.mem_append, not_or]
  exact ⟨h.no_dot, not_mem_decimal (by decide) n⟩

theorem filter_part :
    (part type n).filter isAlpha = type ∧ (part type n).filter isDigit = decimal n := by
  have hdigits := digits_decimal n
  rw [part, List.filter_append, List.filter_append]
  constructor
  · rw [List.filter_eq_self.mpr h.alpha,
      List.filter_eq_nil_iff.mpr fun c hc => by simp [alpha_of_digit (hdigits c hc)],
      List.append_nil]
  · rw [List.filter_eq_self.mpr hdigits,
      List.filter_eq_nil_iff.mpr fun c hc => by simp [h.no_digit c hc], List.nil_append]

end Words

section Parts

theorem findall_same {s : Text} (hne : s ≠ []) {b : Bool} (hs : ∀ c ∈ s, isDigit c = b) :
    findall s = [s] := by
  apply List.splitBy_of_isChain hne
  apply List.Pairwise.isChain
  apply List.pairwise_of_forall_mem_list
  intro c hc d hd
  rw [hs c hc, hs d hd]
  exact beq_self_eq_true b

variable {type : Text} (h : Word type) (n : Nat)

include h

theorem findall_part : findall (part type n) = [type, decimal n] := by
  have hdigits := digits_decimal n
  have hborder : ∀ c ∈ type.getLast?, ∀ d ∈ (decimal n).head?,
      (isDigit c == isDigit d) = false := by
    intro c hc d hd
    rw [h.no_digit c (List.mem_of_getLast? hc), hdigits d (List.mem_of_head? hd)]
    rfl
  rw [findall, part, List.splitBy_append hborder]
  show findall type ++ findall (decimal n) = _
  rw [findall_same h.nonempty h.no_digit, findall_same (decimal_ne_nil n) hdigits]
  rfl

theorem typeNum_word : typeNum type = .ok (type, 0) := by
  rw [typeNum, findall_same h.nonempty h.no_digit]
  rfl

theorem typeNum_part : typeNum (part type n) = .ok (type, n) := by
  have hint : int (decimal n) = .ok n := by
    rw [int, if_pos ⟨decimal_ne_nil n, List.all_eq_true.mpr (digits_decimal n)⟩, value_decimal]
  rw [typeNum, findall_part h]
  simp [orStop, hint, bind, Except.bind]

end Parts

section Paths

def under (name type : Text) (n : Nat) : Text := name ++ 46 :: part type n

theorem boardName_eq (c b : Nat) : boardName c b = under (under plat cab c) board b := by
  have hplat : ofString "plat.cab" = plat ++ 46 :: cab := by decide
  have hboard : ofString ".board" = 46 :: board := by decide
  simp [boardName, under, part, hplat, hboard]

theorem nodeName_eq (c b n : Nat) : nodeName c b n = under (boardName c b) node n := by
  have hnode : ofString ".node" = 46 :: node := by decide
  simp [nodeName, under, part, hnode]

variable {type : Text} (h : Word type) (name : Text) (n : Nat)

theorem cutLast_word (h : Word type) : cutLast type = ([], type) := by
  rcases findLast_cases 46 type with ⟨_, hnone⟩ | ⟨front, back, htype, _, _⟩
  · rw [cutLast, hnone]
  · exact absurd (by rw [htype]; simp) h.no_dot

theorem cutLast_under (h : Word type) : cutLast (under name type n) = (name, part type n) := by
  rw [cutLast, under, findLast_append (no_dot_part h n)]
  simp

theorem splitOn_under (h : Word type) :
    (under name type n).splitOn 46 = name.splitOn 46 ++ [part type n] := by
  rw [under, List.splitOn_append_cons_self, List.splitOn_eq_singleton (no_dot_part h n)]

theorem splitOn_word (h : Word type) : type.splitOn 46 = [type] :=
  List.splitOn_eq_singleton h.no_dot

end Paths

section Counting

variable {m : Machine}

theorem calcTypePosLoop_part {map found : List Foo} {type wantType val : Text} {pos : Nat}
    (vals : List Text) (ret : Int) (hval : (findall val)[0]? = some type)
    (hpos : typeNum val = .ok (type, pos)) (hne : wantType ≠ type)
    (hfound : level map type = .ok found) :
    calcTypePosLoop map wantType (val :: vals) ret =
      calcTypePosLoop map wantType vals (ret + getLeafCount wantType found * pos) := by
  simp [calcTypePosLoop, orStop, hval, hpos, hne, hfound, bind, Except.bind]

theorem calcTypePosLoop_stop {map : List Foo} {wantType val : Text} (vals : List Text) (ret : Int)
    (hval : (findall val)[0]? = some wantType) :
    calcTypePosLoop map wantType (val :: vals) ret = .ok ret := by
  simp [calcTypePosLoop, orStop, hval, bind, Except.bind]

theorem findall_first {type : Text} (h : Word type) (n : Nat) :
    (findall type)[0]? = some type ∧ (findall (part type n))[0]? = some type := by
  rw [findall_part h, findall_same h.nonempty h.no_digit]
  exact ⟨rfl, rfl⟩

theorem level_plat (m : Machine) : level m.objMap plat = .ok m.objMap := rfl

theorem level_cab (m : Machine) : level m.objMap cab = .ok (m.objMap.drop 1) := rfl

theorem level_board (m : Machine) : level m.objMap board = .ok (m.objMap.drop 2) := rfl

theorem calcTypePos_plat (m : Machine) : calcTypePos m.objMap plat plat = .ok 0 := by
  rw [calcTypePos, splitOn_word word_plat, calcTypePosLoop_stop [] 0 (findall_first word_plat 0).1]

theorem calcTypePos_cab (m : Machine) (c : Nat) :
    calcTypePos m.objMap (under plat cab c) cab = .ok 0 := by
  rw [calcTypePos, splitOn_under _ _ word_cab, splitOn_word word_plat, List.singleton_append,
    calcTypePosLoop_part _ _ (findall_first word_plat 0).1 (typeNum_word word_plat) (by decide)
      (level_plat m),
    calcTypePosLoop_stop _ _ (findall_first word_cab c).2]
  simp

theorem calcTypePos_board (m : Machine) (c b : Nat) :
    calcTypePos m.objMap (boardName c b) board = .ok (c * m.boardsPerCab : Nat) := by
  rw [boardName_eq, calcTypePos, splitOn_under _ _ word_board, splitOn_under _ _ word_cab,
    splitOn_word word_plat, List.append_assoc, List.singleton_append, List.singleton_append,
    calcTypePosLoop_part _ _ (findall_first word_plat 0).1 (typeNum_word word_plat) (by decide)
      (level_plat m),
    calcTypePosLoop_part _ _ (findall_first word_cab c).2 (typeNum_part word_cab c) (by decide)
      (level_cab m),
    calcTypePosLoop_stop _ _ (findall_first word_board b).2]
  have hleaves : getLeafCount board (m.objMap.drop 1) = m.boardsPerCab := rfl
  rw [hleaves, Int.natCast_mul, Int.mul_comm c]
  simp

theorem countChildren_eq {i per total : Nat} (hper : 0 < per) :
    countChildren i per total =
      if i * per < total then .ok (min per (total - i * per)) else .error .exit := by
  have hnext : ((i : Int) + 1) * per = ((i * per + per : Nat) : Int) := by
    rw [Int.add_mul, Int.one_mul]
    push_cast
    rfl
  unfold countChildren
  rw [hnext]
  by_cases hin : i * per < total
  · rw [if_pos hin]
    by_cases hfull : i * per + per ≤ total
    · rw [if_pos (by exact_mod_cast hfull), Nat.min_eq_left (by omega)]
    · have hmod : total % per = total - i * per := by
        have hsplit : total = i * per + (total - i * per) := by omega
        rw [hsplit, Nat.mul_add_mod', Nat.mod_eq_of_lt (by omega)]
        omega
      rw [if_neg (by exact_mod_cast hfull), if_pos (by exact_mod_cast (by omega)), hmod,
        Nat.min_eq_right (by omega)]
  · rw [if_neg hin, if_neg (by exact_mod_cast (by omega)), if_neg (by exact_mod_cast (by omega))]

theorem splitUp_word {type : Text} (h : Word type) : splitUp type = .ok ([], type, 0) := by
  simp [splitUp, cutLast_word h, typeNum_word h, bind, Except.bind]

theorem splitUp_under {type : Text} (h : Word type) (name : Text) (n : Nat) :
    splitUp (under name type n) = .ok (name, type, n) := by
  simp [splitUp, cutLast_under name n h, typeNum_part h, bind, Except.bind]

theorem calcNumChildren_plat (m : Machine) : m.calcNumChildren plat = .ok m.numCabs := by
  have hcount : countChildren (0 + (0 : Nat)) m.numCabs m.numCabs = .ok m.numCabs := by
    simp [countChildren]
  simp only [calcNumChildren, splitUp_word word_plat, calcTypePos_plat, level_plat, bind,
    Except.bind]
  exact hcount

theorem calcNumChildren_cab (m : Machine) (c : Nat) :
    m.calcNumChildren (under plat cab c) =
      if c < m.numCabs then .ok (min m.boardsPerCab (m.numBoards - c * m.boardsPerCab))
      else .error .exit := by
  simp only [calcNumChildren, splitUp_under word_cab, calcTypePos_cab, level_cab, bind,
    Except.bind, lt_numCabs]
  rw [← countChildren_eq m.boardsPerCab_pos]
  show countChildren (0 + (c : Int)) m.boardsPerCab m.numBoards = _
  rw [Int.zero_add]

theorem calcNumChildren_board (m : Machine) (c b : Nat) :
    m.calcNumChildren (boardName c b) =
      if c * m.boardsPerCab + b < m.numBoards then .ok (m.nodesOn (c * m.boardsPerCab + b))
      else .error .exit := by
  have hpos := calcTypePos_board m c b
  rw [boardName_eq] at hpos
  simp only [calcNumChildren, boardName_eq, splitUp_under word_board, hpos, level_board, bind,
    Except.bind, lt_numBoards]
  rw [nodesOn, ← countChildren_eq m.nodesPerBoard_pos, Int.natCast_add]
  rfl

end Counting

section Checking

variable {m : Machine}

theorem checkName_plat (m : Machine) : m.checkName plat = .ok () := by
  rw [checkName]
  split
  next pre post hcut =>
    obtain ⟨rfl, rfl⟩ := Prod.mk.inj ((cutLast_word word_plat).symm.trans hcut)
    rfl

theorem checkName_under {name type parent : Text} {k : Nat} (h : Word type)
    (hmem : type ∈ objectMap) (hpos : objectMap.idxOf type = k + 1)
    (hparent : objectMap[k]? = some parent) (hchildren : parent ≠ node) (hname : name ≠ [])
    (n : Nat) :
    m.checkName (under name type n) = (do
      let numChildren ← m.calcNumChildren name
      if n ≥ numChildren then .error .exit else m.checkName name) := by
  have hint : int (decimal n) = .ok n := by
    rw [int, if_pos ⟨decimal_ne_nil n, List.all_eq_true.mpr (digits_decimal n)⟩, value_decimal]
  rw [checkName]
  split
  next pre post hcut =>
    obtain ⟨rfl, rfl⟩ := Prod.mk.inj ((cutLast_under name n h).symm.trans hcut)
    obtain ⟨halpha, hdigit⟩ := filter_part h n
    simp only [halpha, hdigit, hmem, not_true_eq_false, if_false, dif_neg hname, hpos,
      Nat.add_one_ne_zero, Nat.add_sub_cancel, hparent, orStop, getNumChildren, if_neg hchildren,
      hint, bind, Except.bind, Except.map]
    cases m.calcNumChildren name with
    | error stop => rfl
    | ok numChildren => rfl

theorem under_ne_nil (name type : Text) (n : Nat) : under name type n ≠ [] := by
  simp [under]

theorem checkName_cab (m : Machine) (c : Nat) :
    m.checkName (under plat cab c) = if c < m.numCabs then .ok () else .error .exit := by
  rw [checkName_under word_cab (k := 0) (by decide) (by decide) rfl (by decide) (by decide),
    calcNumChildren_plat]
  show (if c ≥ m.numCabs then _ else _) = _
  by_cases hc : c < m.numCabs
  · rw [if_pos hc, if_neg (by omega), checkName_plat]
  · rw [if_neg hc, if_pos (by omega)]

theorem checkName_board (m : Machine) (c b : Nat) :
    m.checkName (boardName c b) =
      if b < m.boardsPerCab ∧ c * m.boardsPerCab + b < m.numBoards then .ok ()
      else .error .exit := by
  rw [boardName_eq, checkName_under word_board (k := 1) (by decide) (by decide) rfl (by decide)
    (under_ne_nil _ _ _), calcNumChildren_cab, checkName_cab]
  by_cases hc : c < m.numCabs
  · rw [if_pos hc, if_pos hc]
    show (if b ≥ min m.boardsPerCab (m.numBoards - c * m.boardsPerCab) then _ else _) = _
    rw [lt_numCabs] at hc
    by_cases hb : b < m.boardsPerCab ∧ c * m.boardsPerCab + b < m.numBoards
    · rw [if_pos hb, if_neg (by omega)]
    · rw [if_neg hb, if_pos (by omega)]
  · have hout : ¬ (b < m.boardsPerCab ∧ c * m.boardsPerCab + b < m.numBoards) := by
      rw [lt_numCabs] at hc
      omega
    rw [if_neg hc, if_neg hout]
    rfl

theorem checkName_node (m : Machine) (c b n : Nat) :
    m.checkName (nodeName c b n) =
      if b < m.boardsPerCab ∧ c * m.boardsPerCab + b < m.numBoards ∧
        n < m.nodesOn (c * m.boardsPerCab + b) then .ok () else .error .exit := by
  rw [nodeName_eq, checkName_under word_node (k := 2) (by decide) (by decide) rfl (by decide)
    (by rw [boardName_eq]; exact under_ne_nil _ _ _), calcNumChildren_board, checkName_board]
  by_cases hi : c * m.boardsPerCab + b < m.numBoards
  · rw [if_pos hi]
    show (if n ≥ m.nodesOn (c * m.boardsPerCab + b) then _ else _) = _
    by_cases hn : n < m.nodesOn (c * m.boardsPerCab + b)
    · rw [if_neg (by omega)]
      simp only [hi, hn, and_true]
    · rw [if_pos (by omega), if_neg (by omega)]
  · have hout : ¬ (b < m.boardsPerCab ∧ c * m.boardsPerCab + b < m.numBoards ∧
        n < m.nodesOn (c * m.boardsPerCab + b)) := fun h => hi h.2.1
    rw [if_neg hi, if_neg hout]
    rfl

end Checking

end PwrApi.Machine
