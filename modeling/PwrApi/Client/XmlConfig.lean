import Mathlib.Algebra.Order.BigOperators.Group.List
import PwrApi.Client.Config
import PwrApi.Lib.Runs

/-! The configuration read from a file: `xmlConfig.cc` on the elements that the parser
leaves. A missing list of elements and an empty one read the same, and are one here. -/

namespace PwrApi

/-- The `type` of a source; any other text makes it neither. -/
inductive XmlSrcType
  | device | child | other
  deriving DecidableEq, Repr

structure XmlSrc where
  type : XmlSrcType
  name : ObjID
  deriving DecidableEq, Repr

structure XmlAttr where
  name : String
  op : Option String
  srcs : List XmlSrc
  deriving DecidableEq, Repr

structure XmlDev where
  name : ObjID
  device : String
  openString : String
  deriving DecidableEq, Repr

structure XmlObj where
  name : ObjID
  type : String
  location : Option String
  attributes : List XmlAttr
  children : List ObjID
  devices : List XmlDev
  deriving DecidableEq, Repr

structure XmlConfig where
  objects : List XmlObj
  deriving DecidableEq, Repr

namespace XmlConfig

def attrNameToString : AttrName → String
  | .pstate => "PSTATE" | .cstate => "CSTATE" | .cstateLimit => "CSTATE_LIMIT"
  | .sstate => "SSTATE" | .current => "CURRENT" | .voltage => "VOLTAGE"
  | .power => "POWER" | .powerLimitMax => "MAX_POWER" | .powerLimitMin => "MIN_POWER"
  | .freq => "FREQ" | .freqLimitMin => "FREQ_MIN" | .freqLimitMax => "FREQ_MAX"
  | .energy => "ENERGY" | .temp => "TEMP" | .osId => "OS_ID"
  | .throttledTime => "THROTTLED_TIME" | .throttledCount => "THROTTLED_COUNT"
  | .numAttrNames | .invalid | .notSpecified => ""

/-- Power planes, memories and network interfaces all read as cores. -/
def objTypeStrToInt (name : String) : ObjType :=
  if name = "Platform" then .platform
  else if name = "Cabinet" then .cabinet
  else if name = "Chassis" then .chassis
  else if name = "Board" then .board
  else if name = "Node" then .node
  else if name = "Socket" then .socket
  else if name = "Core" then .core
  else if name = "Power Plane" then .core
  else if name = "Memory" then .core
  else if name = "Nic" then .core
  else .invalid

def childName (name child : ObjID) : ObjID := name ++ 46 :: child

/-- What is before the last dot, nothing where there is none. -/
def findParent (name : ObjID) : ObjID :=
  ((name.reverse.dropWhile (· ≠ 46)).drop 1).reverse

variable (xml : XmlConfig)

def findObject (name : ObjID) : Option XmlObj := xml.objects.find? fun obj => obj.name = name

def findAttr (obj : XmlObj) (attr : AttrName) : Option XmlAttr :=
  obj.attributes.find? fun elm => elm.name = attrNameToString attr

def findDev (obj : XmlObj) (name : ObjID) : Option XmlDev :=
  obj.devices.find? fun elm => elm.name = name

/-- The loop of `findObjLocation`, which ends as every parent's name is shorter. -/
def findObjLocationFrom : Nat → ObjID → Except Fault String
  | 0, _ => .error .exhausted
  | fuel + 1, name => do
      let obj ← orFault (xml.findObject name) .assertFailed
      match obj.location with
      | some location => .ok location
      | none =>
          if findParent name = [] then .ok ""
          else findObjLocationFrom fuel (findParent name)

def findObjLocation (name : ObjID) : Except Fault String :=
  xml.findObjLocationFrom (name.length + 1) name

def hasServer (name : ObjID) : Except Fault Bool := do
  let location ← xml.findObjLocation name
  .ok (location ≠ "")

def objType (name : ObjID) : ObjType :=
  match xml.findObject name with
  | some obj => objTypeStrToInt obj.type
  | none => .invalid

def findObjDevs (name : ObjID) (attr : AttrName) : Except Fault (List ObjDev) := do
  let obj ← orFault (xml.findObject name) .assertFailed
  match findAttr obj attr with
  | none => .ok []
  | some elm =>
      (elm.srcs.filter (·.type = .device)).mapM fun src => do
        let dev ← orFault (findDev obj src.name) .assertFailed
        .ok ⟨dev.device, dev.openString⟩

def childNames (elm : XmlAttr) : List ObjID :=
  (elm.srcs.filter (·.type = .child)).map (·.name)

def findAttrChildren (name : ObjID) (attr : AttrName) : Except Fault (List ObjID) := do
  let obj ← orFault (xml.findObject name) .assertFailed
  match findAttr obj attr with
  | none => .ok []
  | some elm => do
      require (childNames elm = [] ∨ obj.children ≠ []) .assertFailed
      .ok ((childNames elm).map (childName obj.name))

def findAttrOp (name : ObjID) (attr : AttrName) : Except Fault String := do
  let obj ← orFault (xml.findObject name) .assertFailed
  match findAttr obj attr with
  | none => .ok ""
  | some elm => .ok (elm.op.getD "")

def findAttrType (_name : ObjID) (_attr : AttrName) : String := "Float"

def toConfig : Config where
  hasServer := xml.hasServer
  findObjDevs := xml.findObjDevs
  findAttrChildren := xml.findAttrChildren
  findAttrOp := xml.findAttrOp
  findAttrType := fun name attr => .ok (findAttrType name attr)
  objType := fun name => .ok (xml.objType name)

section Names

theorem findParent_childName (name : ObjID) {child : ObjID} (hchild : 46 ∉ child) :
    findParent (childName name child) = name := by
  have hreverse : (childName name child).reverse = child.reverse ++ 46 :: name.reverse := by
    simp [childName]
  have hplain : ∀ c ∈ child.reverse, decide (c ≠ 46) = true := by
    intro c hc
    apply decide_eq_true
    intro hdot
    rw [hdot, List.mem_reverse] at hc
    exact hchild hc
  unfold findParent
  rw [hreverse, List.dropWhile_append_of_pos hplain]
  simp

theorem childName_injective (name : ObjID) : Function.Injective (childName name) := by
  intro child child' h
  exact List.tail_eq_of_cons_eq (List.append_cancel_left h)

theorem length_lt_childName (name child : ObjID) :
    name.length < (childName name child).length := by
  simp [childName]

theorem findParent_length (name : ObjID) : (findParent name).length ≤ name.length - 1 := by
  have hdrop := (List.dropWhile_sublist (fun c : UInt8 => c ≠ 46) (l := name.reverse)).length_le
  rw [List.length_reverse] at hdrop
  simp only [findParent, List.length_reverse, List.length_drop]
  omega

end Names

variable {xml}

theorem findObject_name {name : ObjID} {obj : XmlObj} (h : xml.findObject name = some obj) :
    obj.name = name := by
  simpa using List.find?_some h

theorem findObjLocationFrom_terminates {fuel : Nat} {name : ObjID} (h : name.length < fuel) :
    xml.findObjLocationFrom fuel name ≠ .error .exhausted := by
  induction fuel generalizing name with
  | zero => exact absurd h (Nat.not_lt_zero _)
  | succ fuel ih =>
      apply Runs.bind_ne_error (orFault_ne_error (by decide))
      intro obj _
      cases obj.location with
      | some location => exact fun hfault => by cases hfault
      | none =>
          by_cases hparent : findParent name = []
          · simp [hparent]
          · simp only [hparent, if_false]
            apply ih
            have hlength := findParent_length name
            have hpos := List.length_pos_of_ne_nil hparent
            omega

theorem findObjLocation_terminates (name : ObjID) :
    xml.findObjLocation name ≠ .error .exhausted :=
  findObjLocationFrom_terminates (Nat.lt_succ_self _)

section Trees

variable {attr : AttrName}

theorem mem_childSources {name child : ObjID}
    (h : child ∈ xml.toConfig.childSources attr name) :
    ∃ obj elm c, xml.findObject name = some obj ∧ findAttr obj attr = some elm ∧
      c ∈ childNames elm ∧ child = childName name c := by
  simp only [Config.childSources, toConfig, findAttrChildren] at h
  cases hobj : xml.findObject name with
  | none => simp [hobj, orFault, bind, Except.bind] at h
  | some obj =>
      cases helm : findAttr obj attr with
      | none => simp [hobj, helm, bind, Except.bind] at h
      | some elm =>
          by_cases hlist : childNames elm = [] ∨ obj.children ≠ []
          · simp only [hobj, helm, orFault_some, require_of _ hlist, bind, Except.bind,
              List.mem_map] at h
            obtain ⟨c, hc, rfl⟩ := h
            exact ⟨obj, elm, c, rfl, helm, hc, by rw [findObject_name hobj]⟩
          · simp [hobj, helm, require, hlist, bind, Except.bind] at h

theorem childSources_eq {name : ObjID} {obj : XmlObj} {elm : XmlAttr}
    (hobj : xml.findObject name = some obj) (helm : findAttr obj attr = some elm) :
    xml.toConfig.childSources attr name = (childNames elm).map (childName name) ∨
      xml.toConfig.childSources attr name = [] := by
  by_cases hlist : childNames elm = [] ∨ obj.children ≠ []
  · apply Or.inl
    simp [Config.childSources, toConfig, findAttrChildren, hobj, helm, require_of _ hlist, bind,
      Except.bind, findObject_name hobj]
  · apply Or.inr
    simp [Config.childSources, toConfig, findAttrChildren, hobj, helm, require, hlist, bind,
      Except.bind]

/-- No object lists a child source twice for the attribute, and none with a dot in it. -/
structure PlainSources (xml : XmlConfig) (attr : AttrName) : Prop where
  nodup : ∀ obj ∈ xml.objects, ∀ elm, findAttr obj attr = some elm → (childNames elm).Nodup
  noDot : ∀ obj ∈ xml.objects, ∀ elm, findAttr obj attr = some elm →
    ∀ child ∈ childNames elm, 46 ∉ child

theorem childSources_wellFounded (xml : XmlConfig) (attr : AttrName) :
    WellFounded fun child name => child ∈ xml.toConfig.childSources attr name := by
  let bound := (xml.objects.map (·.name.length)).sum + 1
  apply Subrelation.wf (r := fun child name : ObjID => bound - child.length < bound - name.length)
  · intro child name h
    obtain ⟨obj, _, c, hobj, _, _, rfl⟩ := mem_childSources h
    have hmem : obj.name.length ∈ xml.objects.map (·.name.length) :=
      List.mem_map_of_mem (List.mem_of_find?_eq_some hobj)
    have hbound := List.le_sum_of_mem hmem
    rw [findObject_name hobj] at hbound
    have hlength := length_lt_childName name c
    show bound - (childName name c).length < bound - name.length
    omega
  · exact (measure fun name : ObjID => bound - name.length).wf

theorem objectTree (h : xml.PlainSources attr) : xml.toConfig.ObjectTree attr where
  nodup := by
    intro name
    cases hobj : xml.findObject name with
    | none => simp [Config.childSources, toConfig, findAttrChildren, hobj, orFault, bind, Except.bind]
    | some obj =>
        cases helm : findAttr obj attr with
        | none => simp [Config.childSources, toConfig, findAttrChildren, hobj, helm, bind, Except.bind]
        | some elm =>
            rcases childSources_eq hobj helm with hlist | hlist
            · rw [hlist]
              have hnodup := h.nodup obj (List.mem_of_find?_eq_some hobj) elm helm
              exact hnodup.map (childName_injective name)
            · rw [hlist]
              exact List.nodup_nil
  parent_unique := by
    intro name name' child hchild hchild'
    obtain ⟨obj, elm, c, hobj, helm, hc, rfl⟩ := mem_childSources hchild
    obtain ⟨obj', elm', c', hobj', helm', hc', hname⟩ := mem_childSources hchild'
    have hdot := h.noDot obj (List.mem_of_find?_eq_some hobj) elm helm c hc
    have hdot' := h.noDot obj' (List.mem_of_find?_eq_some hobj') elm' helm' c' hc'
    calc name
        = findParent (childName name c) := (findParent_childName name hdot).symm
      _ = findParent (childName name' c') := by rw [hname]
      _ = name' := findParent_childName name' hdot'
  wellFounded := childSources_wellFounded xml attr

end Trees

end XmlConfig

end PwrApi
