import PwrApi.Client.Coherence
import PwrApi.Client.Locations
import PwrApi.Lib.Walk

/-! The walks over a configuration come to an end: `traverse` of `distCntxt.cc` and
`findAllObjType` of `cntxt.cc`, whose recursions keep nothing of the names they have seen.
Names grow on the way down, so that no more calls are nested than there are objects. -/

namespace PwrApi

open Function Relation Runs Walk

variable {V : Type}

def Ends {α : Type} (x : Except Fault α) : Prop := ∀ fault, x = .error fault → fault = .assertFailed

namespace Ends

variable {α β : Type} {x : Except Fault α}

theorem ok (a : α) : Ends (.ok a) := fun _ h => by cases h

theorem bind {f : α → Except Fault β} (hx : Ends x) (hf : ∀ a, x = .ok a → Ends (f a)) :
    Ends (x >>= f) := by
  intro fault h
  cases x with
  | error e => exact hx fault (congrArg _ (Except.error.inj h))
  | ok a => exact hf a rfl fault h

theorem require (c : Prop) [Decidable c] : Ends (require c .assertFailed) := by
  intro fault h
  by_cases hc : c
  · rw [require_of _ hc] at h
    cases h
  · simp only [PwrApi.require, hc, if_false, Except.error.injEq] at h
    exact h.symm

theorem orFault (x : Option α) : Ends (orFault x .assertFailed) := by
  intro fault h
  cases x with
  | some a => cases h
  | none => exact (Except.error.inj h).symm

theorem mapM {f : α → Except Fault β} (hf : ∀ a, Ends (f a)) (xs : List α) : Ends (xs.mapM f) := by
  induction xs with
  | nil => exact ok []
  | cons a xs ih =>
      rw [List.mapM_cons]
      exact (hf a).bind fun b _ => ih.bind fun bs _ => ok (b :: bs)

theorem tabulate [DecidableEq α] {f : α → Except Fault β} (hf : ∀ a, Ends (f a)) (default : β)
    (keys : List α) : Ends (tabulate f default keys) := by
  induction keys with
  | nil => exact ok _
  | cons key keys ih => exact (hf key).bind fun _ _ => ih.bind fun _ _ => ok _

end Ends

namespace XmlConfig

variable {xml : XmlConfig}

def rank (xml : XmlConfig) (name : ObjID) : ℕ :=
  (xml.objects.filter fun obj => name.length ≤ obj.name.length).length

theorem rank_le (name : ObjID) : xml.rank name ≤ xml.objects.length :=
  List.length_filter_le _ _

theorem rank_childName {name : ObjID} {obj : XmlObj} (hobj : xml.findObject name = some obj)
    (child : ObjID) : xml.rank (childName name child) < xml.rank name := by
  have hgrows := length_lt_childName name child
  have hfilter : (xml.objects.filter fun obj => (childName name child).length ≤ obj.name.length) =
      (xml.objects.filter fun obj => name.length ≤ obj.name.length).filter
        fun obj => (childName name child).length ≤ obj.name.length := by
    rw [List.filter_filter]
    apply List.filter_congr
    intro other _
    by_cases hlong : (childName name child).length ≤ other.name.length
    · have hless : name.length ≤ other.name.length := by omega
      simp [hlong, hless]
    · simp [hlong]
  rw [rank, hfilter, rank, List.length_filter_lt_length_iff_exists]
  refine ⟨obj, List.mem_filter.mpr ⟨List.mem_of_find?_eq_some hobj, ?_⟩, ?_⟩
  · rw [findObject_name hobj]
    exact decide_eq_true (Nat.le_refl _)
  · rw [findObject_name hobj]
    simpa using hgrows

def listed (xml : XmlConfig) (name : ObjID) : List ObjID :=
  match xml.findChildren name with
  | .ok children => children
  | .error _ => []

theorem listed_eq {name : ObjID} {children : List ObjID} (h : xml.findChildren name = .ok children) :
    xml.listed name = children := by
  rw [listed, h]

theorem rank_listed {name child : ObjID} (h : child ∈ xml.listed name) :
    xml.rank child < xml.rank name := by
  cases hlist : xml.findChildren name with
  | error fault =>
      rw [listed, hlist] at h
      cases h
  | ok children =>
      rw [listed_eq hlist] at h
      obtain ⟨elm, helm, rfl⟩ := findChildren_eq_ok.mp hlist
      obtain ⟨short, _, rfl⟩ := List.mem_map.mp h
      exact rank_childName helm short

theorem ends_findObjLocationFrom {fuel : ℕ} {name : ObjID} (h : name.length < fuel) :
    Ends (xml.findObjLocationFrom fuel name) := by
  induction fuel generalizing name with
  | zero => exact absurd h (Nat.not_lt_zero _)
  | succ fuel ih =>
      refine (Ends.orFault _).bind fun obj _ => ?_
      cases obj.location with
      | some location => exact Ends.ok location
      | none =>
          by_cases hparent : findParent name = []
          · simp only [hparent, if_true]
            exact Ends.ok ""
          · simp only [hparent, if_false]
            have hlength := findParent_length name
            have hpos := List.length_pos_of_ne_nil hparent
            exact ih (by omega)

theorem ends_hasServer (xml : XmlConfig) (name : ObjID) : Ends (xml.hasServer name) :=
  (ends_findObjLocationFrom (Nat.lt_succ_self _)).bind fun _ _ => Ends.ok _

theorem ends_findObjDevs (xml : XmlConfig) (name : ObjID) (attr : AttrName) :
    Ends (xml.findObjDevs name attr) := by
  refine (Ends.orFault _).bind fun obj _ => ?_
  cases findAttr obj attr with
  | none => exact Ends.ok []
  | some elm => exact Ends.mapM (fun src => (Ends.orFault _).bind fun dev _ => Ends.ok _) _

theorem ends_findAttrChildren (xml : XmlConfig) (name : ObjID) (attr : AttrName) :
    Ends (xml.findAttrChildren name attr) := by
  refine (Ends.orFault _).bind fun obj _ => ?_
  cases findAttr obj attr with
  | none => exact Ends.ok []
  | some elm => exact (Ends.require _).bind fun _ _ => Ends.ok _

theorem ends_findAttrOp (xml : XmlConfig) (name : ObjID) (attr : AttrName) :
    Ends (xml.findAttrOp name attr) := by
  refine (Ends.orFault _).bind fun obj _ => ?_
  cases findAttr obj attr with
  | none => exact Ends.ok ""
  | some elm => exact Ends.ok _

theorem ends_findChildren (xml : XmlConfig) (name : ObjID) : Ends (xml.findChildren name) :=
  (Ends.orFault _).bind fun _ _ => Ends.ok _

end XmlConfig

namespace DistCntxt

/-- What `traverse` does at an object before it goes on to the names it returns. -/
def visitAttr (cntxt : DistCntxt V) (attrName : AttrName) (found : Found V) (objName : ObjID) :
    Except Fault (Found V × List ObjID) := do
  let served ← cntxt.config.hasServer objName
  if served ∧ objName ≠ cntxt.rootName then
    .ok ({ found with remote := insertName objName found.remote }, [])
  else do
    let objDev ← cntxt.config.findObjDevs objName attrName
    let devices ← objDev.mapM fun dev => orFault (cntxt.device dev) .assertFailed
    let children ← cntxt.config.findAttrChildren objName attrName
    .ok ({ found with devices := found.devices ++ devices }, children)

/-- The names that `traverse` goes on to from an object. -/
def nextAttr (cntxt : DistCntxt V) (attrName : AttrName) (objName : ObjID) : List ObjID :=
  match cntxt.config.hasServer objName with
  | .ok served =>
      if served ∧ objName ≠ cntxt.rootName then [] else cntxt.config.childSources attrName objName
  | .error _ => []

/-- The object has an answer of `hasServer`, and unless it is left to a server its device
sources are there and open, and it has children if it has child sources. -/
def FitAttr (cntxt : DistCntxt V) (attrName : AttrName) (objName : ObjID) : Prop :=
  ∃ served, cntxt.config.hasServer objName = .ok served ∧
    (¬ (served ∧ objName ≠ cntxt.rootName) →
      (∃ objDev, cntxt.config.findObjDevs objName attrName = .ok objDev ∧
        ∀ dev ∈ objDev, ∃ device, cntxt.device dev = some device) ∧
      ∃ children, cntxt.config.findAttrChildren objName attrName = .ok children)

theorem traverse_eq_walk (cntxt : DistCntxt V) (attrName : AttrName) (fuel : ℕ) (objName : ObjID)
    (found : Found V) : cntxt.traverse attrName fuel objName found =
      walk .exhausted (cntxt.visitAttr attrName) fuel found objName := by
  induction fuel generalizing objName found with
  | zero => rfl
  | succ fuel ih =>
      have hloop : (fun found child => cntxt.traverse attrName fuel child found) =
          walk .exhausted (cntxt.visitAttr attrName) fuel :=
        funext fun found => funext fun child => ih child found
      rw [traverse, walk, visitAttr, hloop]
      cases cntxt.config.hasServer objName with
      | error fault => rfl
      | ok served =>
          simp only [ok_bind]
          by_cases hremote : served = true ∧ objName ≠ cntxt.rootName
          · rw [if_pos hremote, if_pos hremote]
            rfl
          · rw [if_neg hremote, if_neg hremote]
            simp only [bind_assoc, ok_bind]

variable {cntxt : DistCntxt V} {attrName : AttrName}

theorem visitAttr_next {found found' : Found V} {objName : ObjID} {below : List ObjID}
    (h : cntxt.visitAttr attrName found objName = .ok (found', below)) :
    below = cntxt.nextAttr attrName objName := by
  obtain ⟨served, hserved, h⟩ := bind_eq_ok.mp h
  rw [nextAttr, hserved]
  by_cases hremote : served = true ∧ objName ≠ cntxt.rootName
  · rw [if_pos hremote] at h
    simp only [if_pos hremote]
    exact (Prod.mk.inj (Except.ok.inj h)).2.symm
  · simp only [if_neg hremote, bind_eq_ok] at h ⊢
    obtain ⟨_, _, _, _, children, hchildren, h⟩ := h
    rw [← (Prod.mk.inj (Except.ok.inj h)).2, Config.childSources, hchildren]

theorem visitAttr_isOk_iff (found : Found V) (objName : ObjID) :
    (∃ r, cntxt.visitAttr attrName found objName = .ok r) ↔ cntxt.FitAttr attrName objName := by
  unfold visitAttr FitAttr
  simp only [bind_eq_ok]
  constructor
  · rintro ⟨r, served, hserved, h⟩
    refine ⟨served, hserved, fun hlocal => ?_⟩
    simp only [if_neg hlocal, bind_eq_ok] at h
    obtain ⟨objDev, hobjDev, devices, hdevices, children, hchildren, _⟩ := h
    refine ⟨⟨objDev, hobjDev, fun dev hdev => ?_⟩, children, hchildren⟩
    obtain ⟨device, hdevice⟩ := (mapM_isOk _).mp ⟨devices, hdevices⟩ dev hdev
    exact ⟨device, orFault_eq_ok.mp hdevice⟩
  · rintro ⟨served, hserved, h⟩
    by_cases hremote : served = true ∧ objName ≠ cntxt.rootName
    · exact ⟨_, served, hserved, by rw [if_pos hremote]⟩
    · obtain ⟨⟨objDev, hobjDev, hopen⟩, children, hchildren⟩ := h hremote
      obtain ⟨devices, hdevices⟩ : ∃ devices, objDev.mapM
          (fun dev => orFault (cntxt.device dev) .assertFailed) = .ok devices := by
        rw [mapM_isOk]
        intro dev hdev
        obtain ⟨device, hdevice⟩ := hopen dev hdev
        exact ⟨device, orFault_eq_ok.mpr hdevice⟩
      refine ⟨({ found with devices := found.devices ++ devices }, children), served, hserved, ?_⟩
      simp only [if_neg hremote, bind_eq_ok]
      exact ⟨objDev, hobjDev, devices, hdevices, children, hchildren, rfl⟩

end DistCntxt

namespace XmlCntxt

variable {cntxt : XmlCntxt V} {attrName : AttrName}

theorem rank_nextAttr {name child : ObjID}
    (h : child ∈ cntxt.toDistCntxt.nextAttr attrName name) :
    cntxt.xml.rank child < cntxt.xml.rank name := by
  have hchild : child ∈ cntxt.xml.toConfig.childSources attrName name := by
    unfold DistCntxt.nextAttr at h
    cases hserved : cntxt.toDistCntxt.config.hasServer name with
    | error fault =>
        rw [hserved] at h
        cases h
    | ok served =>
        simp only [hserved] at h
        by_cases hremote : served = true ∧ name ≠ cntxt.toDistCntxt.rootName
        · rw [if_pos hremote] at h
          cases h
        · rw [if_neg hremote] at h
          exact h
  obtain ⟨obj, _, short, hobj, _, _, rfl⟩ := XmlConfig.mem_childSources hchild
  exact XmlConfig.rank_childName hobj short

theorem ends_visitAttr (found : Found V) (objName : ObjID) :
    Ends (cntxt.toDistCntxt.visitAttr attrName found objName) := by
  refine (cntxt.xml.ends_hasServer objName).bind fun served _ => ?_
  by_cases hremote : served = true ∧ objName ≠ cntxt.toDistCntxt.rootName
  · rw [if_pos hremote]
    exact Ends.ok _
  · rw [if_neg hremote]
    refine (cntxt.xml.ends_findObjDevs objName attrName).bind fun objDev _ => ?_
    refine (Ends.mapM (fun dev => Ends.orFault _) objDev).bind fun devices _ => ?_
    exact (cntxt.xml.ends_findAttrChildren objName attrName).bind fun _ _ => Ends.ok _

theorem rank_lt_fuel (name : ObjID) : cntxt.xml.rank name < cntxt.fuel :=
  Nat.lt_succ_of_le (XmlConfig.rank_le name)

theorem ends_traverse (cntxt : XmlCntxt V) (attrName : AttrName) (objName : ObjID)
    (found : Found V) : Ends (cntxt.toDistCntxt.traverse attrName cntxt.fuel objName found) := by
  rw [DistCntxt.traverse_eq_walk]
  intro fault h
  have hfault : ∀ s x e, True → cntxt.toDistCntxt.visitAttr attrName s x = .error e →
      e = .assertFailed := fun s x e _ he => ends_visitAttr s x e he
  have hkeep : ∀ s x t below, True → cntxt.toDistCntxt.visitAttr attrName s x = .ok (t, below) →
      True ∧ below = cntxt.toDistCntxt.nextAttr attrName x :=
    fun s x t below _ hok => ⟨trivial, DistCntxt.visitAttr_next hok⟩
  exact walk_error hfault hkeep (fun x y hy => rank_nextAttr hy) (rank_lt_fuel objName) trivial h

theorem traverse_isOk_iff (cntxt : XmlCntxt V) (attrName : AttrName) (objName : ObjID)
    (found : Found V) :
    (∃ found', cntxt.toDistCntxt.traverse attrName cntxt.fuel objName found = .ok found') ↔
      ∀ name, Below (cntxt.toDistCntxt.nextAttr attrName) objName name →
        cntxt.toDistCntxt.FitAttr attrName name := by
  rw [DistCntxt.traverse_eq_walk]
  have hfit : ∀ s x, True → ((∃ r, cntxt.toDistCntxt.visitAttr attrName s x = .ok r) ↔
      cntxt.toDistCntxt.FitAttr attrName x) := fun s x _ => DistCntxt.visitAttr_isOk_iff s x
  refine walk_isOk_iff hfit ?_ (fun x y hy => rank_nextAttr hy) (rank_lt_fuel objName) trivial
  exact fun s x t below _ hok => ⟨trivial, DistCntxt.visitAttr_next hok⟩

/-- The names that `findAllObjType` goes on to from an object. -/
def nextType (cntxt : XmlCntxt V) (type : ObjType) (name : ObjID) : List ObjID :=
  if cntxt.xml.objType name = type then [] else cntxt.xml.listed name

theorem mem_nextType {type : ObjType} {name child : ObjID} (h : child ∈ cntxt.nextType type name) :
    child ∈ cntxt.xml.listed name := by
  unfold nextType at h
  by_cases htype : cntxt.xml.objType name = type
  · rw [if_pos htype] at h
    cases h
  · rwa [if_neg htype] at h

theorem rank_nextType {type : ObjType} {name child : ObjID} (h : child ∈ cntxt.nextType type name) :
    cntxt.xml.rank child < cntxt.xml.rank name :=
  XmlConfig.rank_listed (mem_nextType h)

section Objects

variable [Zero V] [Add V] [Div V] [NatCast V]

theorem ends_initAttr (cntxt : XmlCntxt V) (name : ObjID) (attrName : AttrName) :
    Ends (cntxt.toDistCntxt.initAttr cntxt.fuel name attrName) := by
  refine (cntxt.xml.ends_findAttrOp name attrName).bind fun op _ => ?_
  refine (Ends.ok _).bind fun type htype => ?_
  have hops : Ends (DistCntxt.initOps (V := V) op type) := by
    unfold DistCntxt.initOps
    intro fault hfault
    split_ifs at hfault <;> cases hfault <;> rfl
  refine hops.bind fun ops _ => ?_
  by_cases hnoOp : ops.2 = .noOp
  · simp only [hnoOp, if_true]
    exact Ends.ok _
  · simp only [hnoOp, if_false]
    exact (ends_traverse cntxt attrName name _).bind fun _ _ => Ends.ok _

theorem ends_createObject (cntxt : XmlCntxt V) (name : ObjID) :
    Ends (cntxt.toDistCntxt.createObject cntxt.fuel name) := by
  have htable := Ends.tabulate (ends_initAttr cntxt name) AttrInfo.empty AttrName.indices
  intro fault hfault
  unfold DistCntxt.createObject at hfault
  split at hfault
  case h_1 attrInfo _ =>
    by_cases huniform : DistCntxt.Uniform attrInfo
    · rw [dif_pos huniform] at hfault
      cases hfault
    · rw [dif_neg huniform] at hfault
      exact (Except.error.inj hfault).symm
  case h_2 fault' hfault' =>
    obtain rfl := Except.error.inj hfault
    exact htable fault' hfault'

theorem ends_findObject (cntxt : XmlCntxt V) (s : ObjMap V) (name : ObjID) :
    Ends (cntxt.findObject s name) := by
  unfold findObject
  cases s.objMap name with
  | some obj => exact Ends.ok _
  | none =>
      by_cases htype : cntxt.xml.objType name = .invalid
      · simp only [htype, if_true]
        exact Ends.ok _
      · simp only [htype, if_false]
        exact (ends_createObject cntxt name).bind fun _ _ => Ends.ok _

theorem ends_assertObject (cntxt : XmlCntxt V) (s : ObjMap V) (name : ObjID) :
    Ends (cntxt.assertObject s name) :=
  (ends_findObject cntxt s name).bind fun _ _ => (Ends.orFault _).bind fun _ _ => Ends.ok _

def Makeable (cntxt : XmlCntxt V) (name : ObjID) : Prop :=
  ∃ type obj, cntxt.Makes name type obj

variable {s t : ObjMap V}

theorem assertObject_isOk_iff (h : cntxt.Sound s) (name : ObjID) :
    (∃ r, cntxt.assertObject s name = .ok r) ↔ cntxt.Makeable name := by
  cases hknown : s.objMap name with
  | some obj =>
      obtain ⟨o, ho, rfl⟩ := (h.key name obj).mp hknown
      exact iff_of_true ⟨_, assertObject_known hknown⟩ ⟨_, _, (h.right obj o ho).made⟩
  | none =>
      simp only [assertObject, findObject, hknown, Makeable, Makes]
      by_cases htype : cntxt.xml.objType name = .invalid
      · simp [htype, orFault, bind, Except.bind]
      · simp only [htype, if_false, bind_eq_ok, Prod.exists]
        constructor
        · rintro ⟨_, _, _, _, ⟨obj, hobj, _⟩, _⟩
          exact ⟨_, obj, rfl, htype, hobj⟩
        · rintro ⟨_, obj, rfl, _, hobj⟩
          exact ⟨_, _, _, _, ⟨obj, hobj, rfl⟩, _, rfl, rfl⟩

/-- What `findAllObjType` does at the object of a name before it goes on to the names that
it returns. -/
def visitType (cntxt : XmlCntxt V) (type : ObjType) (found : ObjMap V × DistGrp ℕ) (name : ObjID) :
    Except Fault ((ObjMap V × DistGrp ℕ) × List ObjID) := do
  let (obj, s) ← cntxt.assertObject found.1 name
  let o ← orFault s.objs[obj]? .undefined
  if o.type = type then .ok ((s, (found.2.add (fun _ => o.toDistObject) obj).2), [])
  else do
    let children ← cntxt.xml.findChildren o.name
    .ok ((s, found.2), children)

variable {type : ObjType} {grp : DistGrp ℕ} {name : ObjID}

theorem visitType_sound {found found' : ObjMap V × DistGrp ℕ} {below : List ObjID}
    (h : cntxt.Sound found.1) (hvisit : cntxt.visitType type found name = .ok (found', below)) :
    cntxt.Sound found'.1 ∧ below = cntxt.nextType type name := by
  simp only [visitType, bind_eq_ok, Prod.exists, orFault_eq_ok] at hvisit
  obtain ⟨obj, s, hassert, o, ho, hvisit⟩ := hvisit
  obtain ⟨hsound, _, hmap⟩ := assertObject_spec h hassert
  obtain ⟨o', ho', rfl⟩ := (hsound.key name obj).mp hmap
  obtain rfl := Option.some.inj (ho.symm.trans ho')
  obtain ⟨htype, _⟩ := (hsound.right obj o ho).made
  rw [nextType, htype]
  by_cases hsame : o.type = type
  · simp only [if_pos hsame, Except.ok.injEq, Prod.mk.injEq] at hvisit ⊢
    obtain ⟨rfl, rfl⟩ := hvisit
    exact ⟨hsound, rfl⟩
  · simp only [if_neg hsame, bind_eq_ok, Except.ok.injEq, Prod.mk.injEq] at hvisit ⊢
    obtain ⟨children, hchildren, rfl, rfl⟩ := hvisit
    exact ⟨hsound, (XmlConfig.listed_eq hchildren).symm⟩

theorem Makeable.findChildren (h : cntxt.Makeable name) :
    ∃ children, cntxt.xml.findChildren name = .ok children := by
  obtain ⟨type, _, htype, hvalid, _⟩ := h
  cases helm : cntxt.xml.findObject name with
  | some elm => exact ⟨_, XmlConfig.findChildren_eq_ok.mpr ⟨elm, helm, rfl⟩⟩
  | none =>
      rw [XmlConfig.objType, helm] at htype
      exact absurd htype.symm hvalid

theorem visitType_isOk_iff {found : ObjMap V × DistGrp ℕ} (h : cntxt.Sound found.1)
    (name : ObjID) : (∃ r, cntxt.visitType type found name = .ok r) ↔ cntxt.Makeable name := by
  rw [← assertObject_isOk_iff h]
  constructor
  · rintro ⟨r, hvisit⟩
    obtain ⟨made, hmade, _⟩ := bind_eq_ok.mp hvisit
    exact ⟨made, hmade⟩
  · rintro ⟨⟨obj, s⟩, hassert⟩
    obtain ⟨hsound, _, hmap⟩ := assertObject_spec h hassert
    obtain ⟨o, ho, rfl⟩ := (hsound.key name obj).mp hmap
    simp only [visitType, hassert, ho, orFault_some, ok_bind]
    by_cases hsame : o.type = type
    · exact ⟨_, if_pos hsame⟩
    · obtain ⟨children, hchildren⟩ := Makeable.findChildren ⟨_, _, (hsound.right obj o ho).made⟩
      rw [if_neg hsame, hchildren]
      exact ⟨_, rfl⟩

theorem ends_visitType {found : ObjMap V × DistGrp ℕ} (h : cntxt.Sound found.1) (name : ObjID) :
    Ends (cntxt.visitType type found name) := by
  refine (ends_assertObject cntxt found.1 name).bind ?_
  rintro ⟨obj, s⟩ hmade
  obtain ⟨hsound, _, hmap⟩ := assertObject_spec h hmade
  obtain ⟨o, ho, _⟩ := (hsound.key name obj).mp hmap
  simp only [ho, orFault_some, ok_bind]
  by_cases hsame : o.type = type
  · rw [if_pos hsame]
    exact Ends.ok _
  · rw [if_neg hsame]
    exact (cntxt.xml.ends_findChildren o.name).bind fun _ _ => Ends.ok _

theorem walk_made (h : cntxt.Sound s) {obj : ℕ} (hmade : cntxt.assertObject s name = .ok (obj, t))
    (fuel : ℕ) : walk .exhausted (cntxt.visitType type) fuel (t, grp) name =
      walk .exhausted (cntxt.visitType type) fuel (s, grp) name := by
  cases fuel with
  | zero => rfl
  | succ fuel =>
      obtain ⟨_, _, hmap⟩ := assertObject_spec h hmade
      simp only [walk, visitType, hmade, assertObject_known hmap]

theorem findAllObjType_eq_walk (h : cntxt.Sound s) {obj : ℕ} (hname : s.objMap name = some obj)
    {fuel : ℕ} (hfuel : cntxt.xml.rank name < fuel) :
    cntxt.findAllObjType type fuel obj (s, grp) =
      walk .exhausted (cntxt.visitType type) fuel (s, grp) name := by
  induction fuel generalizing name obj s grp with
  | zero => exact absurd hfuel (Nat.not_lt_zero _)
  | succ fuel ih =>
      obtain ⟨o, ho, rfl⟩ := (h.key name obj).mp hname
      simp only [findAllObjType, walk, visitType, assertObject_known hname, ho, orFault_some, ok_bind]
      by_cases hsame : o.type = type
      · rw [if_pos hsame, if_pos hsame]
        rfl
      · rw [if_neg hsame, if_neg hsame]
        cases hchildren : cntxt.xml.findChildren o.name with
        | error fault => rfl
        | ok children =>
            simp only [ok_bind]
            have hless : ∀ child ∈ children, cntxt.xml.rank child < fuel := by
              intro child hchild
              rw [← XmlConfig.listed_eq hchildren] at hchild
              have hrank := XmlConfig.rank_listed hchild
              omega
            refine foldlM_congr (fun found => cntxt.Sound found.1) ?_ ?_ h
            · rintro ⟨u, grp⟩ child hchild hsound
              have hrank := hless child hchild
              obtain ⟨fuel, rfl⟩ := Nat.exists_eq_add_one_of_ne_zero (Nat.ne_zero_of_lt hrank)
              cases hmade : cntxt.assertObject u child with
              | error fault => simp [walk, visitType, hmade, bind, Except.bind]
              | ok made =>
                  obtain ⟨hsoundMade, _, hmap⟩ := assertObject_spec hsound hmade
                  simp only [ok_bind]
                  rw [ih hsoundMade hmap hrank, walk_made hsound hmade]
            · rintro ⟨u, grp⟩ child _ ⟨u', grp'⟩ hsound hstep
              simp only [bind_eq_ok, Prod.exists] at hstep
              obtain ⟨tmp, v, hmade, hrec⟩ := hstep
              obtain ⟨hsoundMade, _, _⟩ := assertObject_spec hsound hmade
              exact (findAllObjType_sound hsoundMade hrec).1

theorem ends_findAllObjType (h : cntxt.Sound s) {obj : ℕ} (hname : s.objMap name = some obj) :
    Ends (cntxt.findAllObjType type cntxt.fuel obj (s, grp)) := by
  rw [findAllObjType_eq_walk h hname (rank_lt_fuel name)]
  intro fault hwalk
  have hfault : ∀ (found : ObjMap V × DistGrp ℕ) name e, cntxt.Sound found.1 →
      cntxt.visitType type found name = .error e → e = .assertFailed :=
    fun found name e hsound => ends_visitType hsound name e
  have hkeep : ∀ (found : ObjMap V × DistGrp ℕ) name found' below, cntxt.Sound found.1 →
      cntxt.visitType type found name = .ok (found', below) →
      cntxt.Sound found'.1 ∧ below = cntxt.nextType type name :=
    fun _ _ _ _ hsound hvisit => visitType_sound hsound hvisit
  exact walk_error hfault hkeep (fun _ _ => rank_nextType) (rank_lt_fuel name) h hwalk

theorem findAllObjType_isOk_iff (h : cntxt.Sound s) {obj : ℕ} (hname : s.objMap name = some obj) :
    (∃ r, cntxt.findAllObjType type cntxt.fuel obj (s, grp) = .ok r) ↔
      ∀ below, Below (cntxt.nextType type) name below → cntxt.Makeable below := by
  rw [findAllObjType_eq_walk h hname (rank_lt_fuel name)]
  have hfit : ∀ (found : ObjMap V × DistGrp ℕ) name, cntxt.Sound found.1 →
      ((∃ r, cntxt.visitType type found name = .ok r) ↔ cntxt.Makeable name) :=
    fun _ name hsound => visitType_isOk_iff hsound name
  refine walk_isOk_iff hfit ?_ (fun _ _ => rank_nextType) (rank_lt_fuel name) h
  exact fun _ _ _ _ hsound hvisit => visitType_sound hsound hvisit

/-- With no more calls nested in the first than there are objects, both walks come to an end:
normally, or at a failed assertion about one of the objects on the way. -/
theorem walks_end (cntxt : XmlCntxt V) :
    (∀ attrName objName found,
      Ends (cntxt.toDistCntxt.traverse attrName (cntxt.xml.objects.length + 1) objName found) ∧
      ((∃ r, cntxt.toDistCntxt.traverse attrName (cntxt.xml.objects.length + 1) objName found =
          .ok r) ↔
        ∀ name, Below (cntxt.toDistCntxt.nextAttr attrName) objName name →
          cntxt.toDistCntxt.FitAttr attrName name)) ∧
    ∀ s₀ calls s, cntxt.start = .ok s₀ → Run cntxt.step s₀ calls s →
      ∀ type obj (o : CntxtObject V) grp, s.objs[obj]? = some o →
        Ends (cntxt.findAllObjType type (cntxt.xml.objects.length + 1) obj (s, grp)) ∧
        ((∃ r, cntxt.findAllObjType type (cntxt.xml.objects.length + 1) obj (s, grp) = .ok r) ↔
          ∀ name, Below (cntxt.nextType type) o.name name → cntxt.Makeable name) := by
  constructor
  · intro attrName objName found
    exact ⟨ends_traverse cntxt attrName objName found, traverse_isOk_iff cntxt attrName objName found⟩
  · intro s₀ calls s hstart hrun type obj o grp ho
    obtain ⟨hsound, _⟩ := run_sound hstart hrun
    have hname := (hsound.key o.name obj).mpr ⟨o, ho, rfl⟩
    exact ⟨ends_findAllObjType hsound hname, findAllObjType_isOk_iff hsound hname⟩

/-- A platform with a rack, a type that is none, whose device's plugin is not listed. -/
def rackXml : XmlConfig where
  objects :=
    [⟨[112], "Platform", none, [], [[114]], []⟩,
      ⟨[112, 46, 114], "Rack", none, [⟨"ENERGY", some "SUM", [⟨.device, [100]⟩]⟩], [],
        [⟨[100], "rapl", ""⟩]⟩]

def rackCntxt : XmlCntxt Int := ⟨rackXml, [112], fun _ => none⟩

theorem walks_end_rack : ∃ s₀, rackCntxt.start = .ok s₀ ∧
    Ends (rackCntxt.findAllObjType .node 3 0 (s₀, .empty)) := by
  obtain ⟨s₀, hstart⟩ : ∃ s₀, rackCntxt.start = .ok s₀ := ⟨_, rfl⟩
  obtain ⟨hsound, hroot⟩ := run_sound hstart (.nil s₀)
  obtain ⟨o, ho, _⟩ := (hsound.key _ _).mp hroot
  have hfirst : s₀.rootObj = 0 := by
    obtain rfl := Except.ok.inj hstart
    rfl
  exact ⟨s₀, hstart, ((walks_end rackCntxt).2 s₀ [] s₀ hstart (.nil s₀) .node 0 o .empty
    (hfirst ▸ ho)).1⟩

/-- All names are there, and neither of the two ends normally. -/
theorem walks_fail_at_the_rack :
    rackXml.PlainChildren ∧
      rackCntxt.toDistCntxt.traverse .energy 3 [112, 46, 114] ⟨[], []⟩ = .error .assertFailed ∧
      (∀ name, Below (rackCntxt.toDistCntxt.nextAttr .energy) [112, 46, 114] name →
        rackXml.findObject name ≠ none) ∧
      ∃ s, rackCntxt.start = .ok s ∧
        rackCntxt.findAllObjType .node 3 s.rootObj (s, .empty) = .error .assertFailed := by
  refine ⟨⟨by decide, by decide, by decide, by decide⟩, rfl, fun name hbelow => ?_, _, rfl, rfl⟩
  rcases ReflTransGen.cases_head hbelow with rfl | ⟨next, hnext, _⟩
  · decide
  · have hnone : rackCntxt.toDistCntxt.nextAttr .energy [112, 46, 114] = [] := rfl
    rw [hnone] at hnext
    cases hnext

end Objects

end XmlCntxt

end PwrApi
