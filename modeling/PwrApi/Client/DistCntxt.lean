import Mathlib.Algebra.Field.Defs
import PwrApi.Client.Config
import PwrApi.Client.DistObject
import PwrApi.Lib.Runs

/-! The objects of a context: `distCntxt.cc`, with the constructors of `object.cc` and
`distObject.cc`. The recursion of `traverse` over the configuration takes fuel. -/

namespace PwrApi

open Runs

variable {V : Type}

/-- A context: its configuration, the object it is at the root of, and the devices that
the plugins of its process open, `none` where one fails to. -/
structure DistCntxt (V : Type) where
  config : Config
  rootName : ObjID
  device : ObjDev → Option (Device V)

structure Found (V : Type) where
  devices : List (Device V)
  remote : List ObjID

/-- A `std::set` of names, as the list it iterates over. -/
def insertName (name : ObjID) : List ObjID → List ObjID
  | [] => [name]
  | other :: names =>
      if name = other then other :: names
      else if name < other then name :: other :: names
      else other :: insertName name names

def sumOp [Zero V] [Add V] (values : List V) : V := values.sum

def avgOp [Zero V] [Add V] [Div V] [NatCast V] (values : List V) : V :=
  values.sum / (values.length : V)

/-- The attributes that an object has entries for. -/
def AttrName.indices : List AttrName :=
  [.pstate, .cstate, .cstateLimit, .sstate, .current, .voltage, .power, .powerLimitMin,
    .powerLimitMax, .freq, .freqLimitMin, .freqLimitMax, .energy, .temp, .osId,
    .throttledTime, .throttledCount]

def AttrInfo.empty [Zero V] : AttrInfo V := ⟨[], none, fun _ => 0, .noOp⟩

namespace DistCntxt

/-- `traverse`: an object with a server, but for the root, is left to its server. -/
def traverse (cntxt : DistCntxt V) (attrName : AttrName) :
    Nat → ObjID → Found V → Except Fault (Found V)
  | 0, _, _ => .error .exhausted
  | fuel + 1, objName, found => do
      let served ← cntxt.config.hasServer objName
      if served ∧ objName ≠ cntxt.rootName then
        .ok { found with remote := insertName objName found.remote }
      else do
        let objDev ← cntxt.config.findObjDevs objName attrName
        let devices ← objDev.mapM fun dev => orFault (cntxt.device dev) .assertFailed
        let children ← cntxt.config.findAttrChildren objName attrName
        children.foldlM (fun found child => cntxt.traverse attrName fuel child found)
          { found with devices := found.devices ++ devices }

section Attributes

variable [Zero V] [Add V] [Div V] [NatCast V]

/-- The operations for `op` and `type` of an attribute, `noOp` for any other `op`. -/
def initOps (op type : String) : Except Fault ((List V → V) × ValueOp) :=
  if op = "SUM" then
    if type = "Float" then .ok (sumOp, .fpAdd)
    else if type = "Integer" then .ok (sumOp, .intAdd)
    else .error .assertFailed
  else if op = "AVG" then
    if type = "Float" then .ok (avgOp, .fpAvg)
    else if type = "Integer" then .ok (avgOp, .intAvg)
    else .error .assertFailed
  else .ok (fun _ => 0, .noOp)

def initAttr (cntxt : DistCntxt V) (fuel : Nat) (name : ObjID) (attrName : AttrName) :
    Except Fault (AttrInfo V) := do
  let op ← cntxt.config.findAttrOp name attrName
  let type ← cntxt.config.findAttrType name attrName
  let (opFunc, vOp) ← initOps op type
  if vOp = .noOp then .ok ⟨[], none, opFunc, vOp⟩
  else do
    let found ← cntxt.traverse attrName fuel name ⟨[], []⟩
    let comm := if found.remote = [] then none else some found.remote
    .ok ⟨found.devices, comm, opFunc, vOp⟩

/-- The assertions at the end of the constructor of `DistObject`. -/
def Uniform (attrInfo : AttrName → AttrInfo V) : Prop :=
  (∀ attr ∈ AttrName.indices, (attrInfo attr).comm ≠ none → (attrInfo attr).devices = []) ∧
  ∀ attr ∈ AttrName.indices, ∀ attr' ∈ AttrName.indices, (attrInfo attr).comm ≠ none →
    (attrInfo attr').comm ≠ none → (attrInfo attr).comm = (attrInfo attr').comm

instance (attrInfo : AttrName → AttrInfo V) : Decidable (Uniform attrInfo) :=
  inferInstanceAs (Decidable (_ ∧ _))

/-- A table that passes the assertions, and has no entries but those of an object. -/
def distObject (name : ObjID) (attrInfo : AttrName → AttrInfo V) (huniform : Uniform attrInfo)
    (hothers : ∀ attr, attr ∉ AttrName.indices → attrInfo attr = AttrInfo.empty) :
    DistObject V where
  name := name
  attrInfo := attrInfo
  notMixed := by
    intro attr hcomm
    by_cases hattr : attr ∈ AttrName.indices
    · exact huniform.1 attr hattr hcomm
    · rw [hothers attr hattr]
      rfl
  sameComm := by
    intro attr attr' hcomm hcomm'
    have hmem : ∀ attr, (attrInfo attr).comm ≠ none → attr ∈ AttrName.indices := by
      intro attr hcomm
      by_contra hattr
      rw [hothers attr hattr] at hcomm
      exact hcomm rfl
    exact huniform.2 attr (hmem attr hcomm) attr' (hmem attr' hcomm') hcomm hcomm'

/-- The constructors of `Object`, which fills in `m_attrInfo`, and of `DistObject`. -/
def createObject (cntxt : DistCntxt V) (fuel : Nat) (name : ObjID) :
    Except Fault (DistObject V) :=
  match h : tabulate (cntxt.initAttr fuel name) AttrInfo.empty AttrName.indices with
  | .ok attrInfo =>
      if huniform : Uniform attrInfo then
        .ok (distObject name attrInfo huniform (tabulate_eq_ok h).2)
      else .error .assertFailed
  | .error fault => .error fault

/-- `Cntxt::findObject`. -/
def findObject (cntxt : DistCntxt V) (fuel : Nat) : Cntxt V := fun name => do
  let type ← cntxt.config.objType name
  if type = .invalid then .ok none
  else do
    let obj ← cntxt.createObject fuel name
    .ok (some obj)

end Attributes

section Fuel

theorem traverse_succ {cntxt : DistCntxt V} {attrName : AttrName} {fuel : Nat}
    {objName : ObjID} {found found' : Found V}
    (h : cntxt.traverse attrName fuel objName found = .ok found') :
    cntxt.traverse attrName (fuel + 1) objName found = .ok found' := by
  induction fuel generalizing objName found found' with
  | zero => cases h
  | succ fuel ih =>
      rw [traverse, bind_eq_ok] at h ⊢
      obtain ⟨served, hserved, h⟩ := h
      refine ⟨served, hserved, ?_⟩
      by_cases hremote : served = true ∧ objName ≠ cntxt.rootName
      · rw [if_pos hremote] at h ⊢
        exact h
      · rw [if_neg hremote] at h ⊢
        simp only [bind_eq_ok] at h ⊢
        obtain ⟨objDev, hobjDev, devices, hdevices, children, hchildren, h⟩ := h
        exact ⟨objDev, hobjDev, devices, hdevices, children, hchildren,
          foldlM_mono children (fun _ _ _ => ih) h⟩

theorem traverse_mono {cntxt : DistCntxt V} {attrName : AttrName} {fuel fuel' : Nat}
    {objName : ObjID} {found found' : Found V} (hfuel : fuel ≤ fuel')
    (h : cntxt.traverse attrName fuel objName found = .ok found') :
    cntxt.traverse attrName fuel' objName found = .ok found' := by
  induction hfuel with
  | refl => exact h
  | step _ ih => exact traverse_succ ih

variable [Zero V] [Add V] [Div V] [NatCast V] {cntxt : DistCntxt V} {fuel fuel' : Nat}
  {name : ObjID}

theorem initAttr_mono {attrName : AttrName} {info : AttrInfo V} (hfuel : fuel ≤ fuel')
    (h : cntxt.initAttr fuel name attrName = .ok info) :
    cntxt.initAttr fuel' name attrName = .ok info := by
  simp only [initAttr, bind_eq_ok] at h ⊢
  obtain ⟨op, hop, type, htype, ⟨opFunc, vOp⟩, hops, h⟩ := h
  refine ⟨op, hop, type, htype, (opFunc, vOp), hops, ?_⟩
  by_cases hnoOp : vOp = .noOp
  · simp only [hnoOp, if_true] at h ⊢
    exact h
  · simp only [hnoOp, if_false, bind_eq_ok] at h ⊢
    obtain ⟨found, hfound, h⟩ := h
    exact ⟨found, traverse_mono hfuel hfound, h⟩

theorem createObject_eq_ok {obj : DistObject V} :
    cntxt.createObject fuel name = .ok obj ↔ ∃ attrInfo huniform hothers,
      tabulate (cntxt.initAttr fuel name) AttrInfo.empty AttrName.indices = .ok attrInfo ∧
      obj = distObject name attrInfo huniform hothers := by
  constructor
  · intro h
    unfold createObject at h
    split at h
    case h_1 attrInfo htable =>
      split at h
      case isTrue huniform =>
        obtain rfl := Except.ok.inj h
        exact ⟨attrInfo, huniform, (tabulate_eq_ok htable).2, htable, rfl⟩
      case isFalse => cases h
    case h_2 => cases h
  · intro ⟨attrInfo, huniform, hothers, htable, hobj⟩
    unfold createObject
    split
    case h_1 attrInfo' htable' =>
      rw [htable] at htable'
      obtain rfl := Except.ok.inj htable'
      rw [dif_pos huniform, hobj]
    case h_2 fault htable' =>
      rw [htable] at htable'
      cases htable'

theorem findObject_eq_ok {obj : DistObject V} :
    cntxt.findObject fuel name = .ok (some obj) ↔
      (∃ type, cntxt.config.objType name = .ok type ∧ type ≠ .invalid) ∧
      cntxt.createObject fuel name = .ok obj := by
  rw [findObject, bind_eq_ok]
  constructor
  · intro ⟨type, htype, h⟩
    by_cases hinvalid : type = .invalid
    · rw [if_pos hinvalid] at h
      cases h
    · rw [if_neg hinvalid, bind_eq_ok] at h
      obtain ⟨created, hcreated, h⟩ := h
      obtain rfl := Option.some.inj (Except.ok.inj h)
      exact ⟨⟨type, htype, hinvalid⟩, hcreated⟩
  · intro ⟨⟨type, htype, hinvalid⟩, hcreated⟩
    refine ⟨type, htype, ?_⟩
    rw [if_neg hinvalid, bind_eq_ok]
    exact ⟨obj, hcreated, rfl⟩

theorem findObject_mono {obj : DistObject V} (hfuel : fuel ≤ fuel')
    (h : cntxt.findObject fuel name = .ok (some obj)) :
    cntxt.findObject fuel' name = .ok (some obj) := by
  rw [findObject_eq_ok] at h ⊢
  obtain ⟨htype, hcreated⟩ := h
  refine ⟨htype, ?_⟩
  rw [createObject_eq_ok] at hcreated ⊢
  obtain ⟨attrInfo, huniform, hothers, htable, hobj⟩ := hcreated
  exact ⟨attrInfo, huniform, hothers,
    tabulate_mono (fun _ _ => initAttr_mono hfuel) htable, hobj⟩

theorem findObject_attrInfo {obj : DistObject V} {attrName : AttrName}
    (h : cntxt.findObject fuel name = .ok (some obj)) (hattr : attrName ∈ AttrName.indices) :
    cntxt.initAttr fuel name attrName = .ok (obj.attrInfo attrName) := by
  obtain ⟨attrInfo, _, _, htable, rfl⟩ := createObject_eq_ok.mp (findObject_eq_ok.mp h).2
  exact (tabulate_eq_ok htable).1 attrName hattr

theorem findObject_others {obj : DistObject V} {attrName : AttrName}
    (h : cntxt.findObject fuel name = .ok (some obj)) (hattr : attrName ∉ AttrName.indices) :
    obj.attrInfo attrName = AttrInfo.empty := by
  obtain ⟨attrInfo, _, hothers, _, rfl⟩ := createObject_eq_ok.mp (findObject_eq_ok.mp h).2
  exact hothers attrName hattr

end Fuel

end DistCntxt

end PwrApi
