import PwrApi.Client.Children

/-! The objects that a context makes and keeps: `findObject`, `getParent`, `getChildren` and
`getGrp` of `cntxt.cc`, with what an object keeps of the answers. Pointers to objects are
their places in the order they were made; none is deleted before its context. -/

namespace PwrApi

open Function Runs

variable {V : Type}

/-- `objTypeToString`. -/
def ObjType.toString : ObjType → String
  | .platform => "Platform" | .cabinet => "Cabinet" | .chassis => "Chassis"
  | .board => "Board" | .node => "Node" | .socket => "Socket" | .core => "Core"
  | .powerPlane => "Power Plane" | .mem => "Memory" | .nic => "Nic"
  | .invalid => "Invalid" | .notSpecified => "????"

/-- A context with a configuration from a file. -/
structure XmlCntxt (V : Type) where
  xml : XmlConfig
  rootName : ObjID
  device : ObjDev → Option (Device V)

def XmlCntxt.toDistCntxt (cntxt : XmlCntxt V) : DistCntxt V :=
  ⟨cntxt.xml.toConfig, cntxt.rootName, cntxt.device⟩

def XmlCntxt.fuel (cntxt : XmlCntxt V) : ℕ := cntxt.xml.objects.length + 1

/-- An object with its type, `m_parent` and the members of `m_children`. -/
structure CntxtObject (V : Type) extends DistObject V where
  type : ObjType
  parent : Option ℕ
  children : Option (List ℕ)

/-- The members of a context that change as objects are asked for. -/
structure ObjMap (V : Type) where
  objMap : ObjID → Option ℕ
  objs : List (CntxtObject V)
  rootObj : ℕ

namespace ObjMap

def make (s : ObjMap V) (name : ObjID) (o : CntxtObject V) : ObjMap V :=
  { s with objMap := update s.objMap name (some s.objs.length), objs := s.objs ++ [o] }

def setParent (s : ObjMap V) (obj : ℕ) (parent : Option ℕ) : ObjMap V :=
  { s with objs := s.objs.modify obj fun o => { o with parent } }

def setChildren (s : ObjMap V) (obj : ℕ) (children : List ℕ) : ObjMap V :=
  { s with objs := s.objs.modify obj fun o => { o with children := some children } }

end ObjMap

namespace XmlCntxt

variable [Zero V] [Add V] [Div V] [NatCast V] (cntxt : XmlCntxt V)

def findObject (s : ObjMap V) (name : ObjID) : Except Fault (Option ℕ × ObjMap V) :=
  match s.objMap name with
  | some obj => .ok (some obj, s)
  | none =>
      if cntxt.xml.objType name = .invalid then .ok (none, s)
      else do
        let obj ← cntxt.toDistCntxt.createObject cntxt.fuel name
        .ok (some s.objs.length, s.make name ⟨obj, cntxt.xml.objType name, none, none⟩)

def assertObject (s : ObjMap V) (name : ObjID) : Except Fault (ℕ × ObjMap V) := do
  let (tmp, s) ← cntxt.findObject s name
  let tmp ← orFault tmp .assertFailed
  .ok (tmp, s)

/-- The constructor, which exits where the root is not an object. -/
def start : Except Fault (ObjMap V) := do
  let (rootObj, s) ← cntxt.assertObject ⟨fun _ => none, [], 0⟩ cntxt.rootName
  .ok { s with rootObj }

def getParent (s : ObjMap V) (obj : ℕ) : Except Fault (Option ℕ × ObjMap V) :=
  if obj = s.rootObj then .ok (none, s)
  else do
    let o ← orFault s.objs[obj]? .undefined
    let parentName := XmlConfig.findParent o.name
    if parentName = [] then .ok (none, s)
    else
      match s.objMap parentName with
      | some parent => .ok (some parent, s)
      | none => do
          let (tmp, s) ← cntxt.assertObject s parentName
          .ok (some tmp, { s with objMap := update s.objMap parentName (some tmp) })

/-- `Object::parent`. -/
def parent (s : ObjMap V) (obj : ℕ) : Except Fault (Option ℕ × ObjMap V) := do
  let o ← orFault s.objs[obj]? .undefined
  match o.parent with
  | some parent => .ok (some parent, s)
  | none => do
      let (parent, s) ← cntxt.getParent s obj
      .ok (parent, s.setParent obj parent)

/-- The loop of `getChildren` over the names in the list. -/
def addObject (found : List ℕ × ObjMap V) (child : ObjID) : Except Fault (List ℕ × ObjMap V) := do
  let (tmp, s) ← cntxt.assertObject found.2 child
  .ok ((Grp.add found.1 tmp).2, s)

def getChildren (s : ObjMap V) (obj : ℕ) : Except Fault (List ℕ × ObjMap V) := do
  let o ← orFault s.objs[obj]? .undefined
  let children ← cntxt.xml.findChildren o.name
  children.foldlM cntxt.addObject ([], s)

/-- `Object::children`. -/
def children (s : ObjMap V) (obj : ℕ) : Except Fault (List ℕ × ObjMap V) := do
  let o ← orFault s.objs[obj]? .undefined
  match o.children with
  | some children => .ok (children, s)
  | none => do
      let (children, s) ← cntxt.getChildren s obj
      .ok (children, s.setChildren obj children)

def getObjByName (s : ObjMap V) (name : ObjID) : Except Fault (Option ℕ × ObjMap V) :=
  cntxt.findObject s name

def findAllObjType (type : ObjType) :
    ℕ → ℕ → ObjMap V × DistGrp ℕ → Except Fault (ObjMap V × DistGrp ℕ)
  | 0, _, _ => .error .exhausted
  | fuel + 1, obj, (s, grp) => do
      let o ← orFault s.objs[obj]? .undefined
      if o.type = type then .ok (s, (grp.add (fun _ => o.toDistObject) obj).2)
      else do
        let children ← cntxt.xml.findChildren o.name
        children.foldlM (fun (s, grp) child => do
          let (tmp, s) ← cntxt.assertObject s child
          findAllObjType type fuel tmp (s, grp)) (s, grp)

/-- `getGrp`: `createGrp` of these contexts enters no group in `m_groupMap`, so that none
is found there. -/
def getGrp (s : ObjMap V) (type : ObjType) : Except Fault (Option (DistGrp ℕ) × ObjMap V) := do
  let (s, grp) ← cntxt.findAllObjType type cntxt.fuel s.rootObj (s, .empty)
  if grp.size = 0 then .ok (none, s) else .ok (some grp, s)

/-- The calls of an application that make objects. -/
inductive Call
  | children (obj : ℕ)
  | parent (obj : ℕ)
  | getObjByName (name : ObjID)
  | getGrp (type : ObjType)

def perform (s : ObjMap V) : Call → Except Fault (ObjMap V)
  | .children obj => (cntxt.children s obj).map Prod.snd
  | .parent obj => (cntxt.parent s obj).map Prod.snd
  | .getObjByName name => (cntxt.getObjByName s name).map Prod.snd
  | .getGrp type => (cntxt.getGrp s type).map Prod.snd

def step (s : ObjMap V) (c : Call) (t : ObjMap V) : Prop := cntxt.perform s c = .ok t

end XmlCntxt

namespace ObjMap

def Points (s : ObjMap V) (names : List ObjID) (objs : List ℕ) : Prop :=
  List.Forall₂ (fun name obj => s.objMap name = some obj) names objs

/-- All objects stay, and what they are. -/
structure Extends (s t : ObjMap V) : Prop where
  rootObj : t.rootObj = s.rootObj
  objMap : ∀ name obj, s.objMap name = some obj → t.objMap name = some obj
  objs : ∀ (obj : ℕ) (o : CntxtObject V), s.objs[obj]? = some o →
    ∃ o' : CntxtObject V, t.objs[obj]? = some o' ∧ o'.toDistObject = o.toDistObject ∧ o'.type = o.type

theorem Extends.refl (s : ObjMap V) : Extends s s :=
  ⟨rfl, fun _ _ h => h, fun _ o h => ⟨o, h, rfl, rfl⟩⟩

theorem Extends.trans {s t u : ObjMap V} (h : Extends s t) (h' : Extends t u) : Extends s u where
  rootObj := h'.rootObj.trans h.rootObj
  objMap := fun name obj hobj => h'.objMap name obj (h.objMap name obj hobj)
  objs := by
    intro obj o ho
    obtain ⟨o', ho', hdist, htype⟩ := h.objs obj o ho
    obtain ⟨o'', ho'', hdist', htype'⟩ := h'.objs obj o' ho'
    exact ⟨o'', ho'', hdist'.trans hdist, htype'.trans htype⟩

theorem Points.mono {s t : ObjMap V} {names : List ObjID} {objs : List ℕ} (hst : Extends s t)
    (h : Points s names objs) : Points t names objs :=
  h.imp fun name obj hobj => hst.objMap name obj hobj

theorem Points.concat {s : ObjMap V} {names : List ObjID} {objs : List ℕ} {name : ObjID} {obj : ℕ}
    (h : Points s names objs) (hobj : s.objMap name = some obj) :
    Points s (names ++ [name]) (objs ++ [obj]) :=
  List.rel_append h (.cons hobj .nil)

theorem Points.exists_name {s : ObjMap V} {names : List ObjID} {objs : List ℕ}
    (h : Points s names objs) {obj : ℕ} (hobj : obj ∈ objs) :
    ∃ name ∈ names, s.objMap name = some obj := by
  induction h with
  | nil => cases hobj
  | cons hfirst _ ih =>
      rcases List.mem_cons.mp hobj with rfl | hrest
      · exact ⟨_, List.mem_cons_self, hfirst⟩
      · obtain ⟨name, hname, hmap⟩ := ih hrest
        exact ⟨name, List.mem_cons_of_mem _ hname, hmap⟩

theorem Points.exists_obj {s : ObjMap V} {names : List ObjID} {objs : List ℕ}
    (h : Points s names objs) {name : ObjID} (hname : name ∈ names) :
    ∃ obj ∈ objs, s.objMap name = some obj := by
  induction h with
  | nil => cases hname
  | cons hfirst _ ih =>
      rcases List.mem_cons.mp hname with rfl | hrest
      · exact ⟨_, List.mem_cons_self, hfirst⟩
      · obtain ⟨obj, hobj, hmap⟩ := ih hrest
        exact ⟨obj, List.mem_cons_of_mem _ hobj, hmap⟩

theorem objMap_make (s : ObjMap V) (name : ObjID) (o : CntxtObject V) :
    (s.make name o).objMap = update s.objMap name (some s.objs.length) := rfl

theorem objs_make (s : ObjMap V) (name : ObjID) (o : CntxtObject V) {obj : ℕ}
    {o' : CntxtObject V} : (s.make name o).objs[obj]? = some o' ↔
      s.objs[obj]? = some o' ∨ obj = s.objs.length ∧ o' = o := by
  by_cases hold : obj < s.objs.length
  · rw [make, List.getElem?_append_left hold]
    have hne : obj ≠ s.objs.length := Nat.ne_of_lt hold
    simp [hne]
  · rw [make, List.getElem?_append_right (Nat.le_of_not_lt hold), List.getElem?_singleton,
      List.getElem?_eq_none (Nat.le_of_not_lt hold)]
    have hiff : obj - s.objs.length = 0 ↔ obj = s.objs.length := by omega
    by_cases hobj : obj = s.objs.length
    · simp [hobj, eq_comm]
    · simp [hiff, hobj]

theorem extends_make {s : ObjMap V} {name : ObjID} (hname : s.objMap name = none)
    (o : CntxtObject V) : Extends s (s.make name o) where
  rootObj := rfl
  objMap := by
    intro other obj hobj
    have hne : other ≠ name := by
      rintro rfl
      rw [hname] at hobj
      cases hobj
    rw [objMap_make, update_of_ne hne]
    exact hobj
  objs := fun obj o' ho' => ⟨o', (objs_make s name o).mpr (.inl ho'), rfl, rfl⟩

theorem extends_modify (s : ObjMap V) (obj : ℕ) {f : CntxtObject V → CntxtObject V}
    (hdist : ∀ o, (f o).toDistObject = o.toDistObject) (htype : ∀ o, (f o).type = o.type) :
    Extends s { s with objs := s.objs.modify obj f } where
  rootObj := rfl
  objMap := fun _ _ h => h
  objs := by
    intro other o ho
    refine ⟨if obj = other then f o else o, ?_, ?_, ?_⟩
    · simp [List.getElem?_modify, ho]
    · by_cases h : obj = other <;> simp [h, hdist]
    · by_cases h : obj = other <;> simp [h, htype]

theorem extends_setParent (s : ObjMap V) (obj : ℕ) (parent : Option ℕ) :
    Extends s (s.setParent obj parent) :=
  extends_modify s obj (fun _ => rfl) fun _ => rfl

theorem extends_setChildren (s : ObjMap V) (obj : ℕ) (children : List ℕ) :
    Extends s (s.setChildren obj children) :=
  extends_modify s obj (fun _ => rfl) fun _ => rfl

end ObjMap

namespace XmlCntxt

variable [Zero V] [Add V] [Div V] [NatCast V]

/-- How the object of a name is made, the first time it is asked for. -/
def Makes (cntxt : XmlCntxt V) (name : ObjID) (type : ObjType) (obj : DistObject V) : Prop :=
  cntxt.xml.objType name = type ∧ type ≠ .invalid ∧
    cntxt.toDistCntxt.createObject cntxt.fuel name = .ok obj

/-- An object is as it was made, and keeps right answers only. -/
structure Right (cntxt : XmlCntxt V) (s : ObjMap V) (obj : ℕ) (o : CntxtObject V) : Prop where
  made : cntxt.Makes o.name o.type o.toDistObject
  parent : ∀ parent, o.parent = some parent →
    obj ≠ s.rootObj ∧ s.objMap (XmlConfig.findParent o.name) = some parent
  children : ∀ children, o.children = some children →
    ∃ names objs, cntxt.xml.findChildren o.name = .ok names ∧ s.Points names objs ∧
      children = Grp.distinct objs

/-- The map has every object under its name, so that no name has two. -/
structure Sound (cntxt : XmlCntxt V) (s : ObjMap V) : Prop where
  key : ∀ name obj, s.objMap name = some obj ↔ ∃ o, s.objs[obj]? = some o ∧ o.name = name
  right : ∀ (obj : ℕ) (o : CntxtObject V), s.objs[obj]? = some o → cntxt.Right s obj o

section Keeping

variable {cntxt : XmlCntxt V} {s t : ObjMap V}

theorem createObject_name {name : ObjID} {obj : DistObject V}
    (h : cntxt.toDistCntxt.createObject cntxt.fuel name = .ok obj) : obj.name = name := by
  obtain ⟨_, _, _, _, rfl⟩ := DistCntxt.createObject_eq_ok.mp h
  rfl

theorem Right.mono {obj : ℕ} {o : CntxtObject V} (hst : s.Extends t)
    (h : cntxt.Right s obj o) : cntxt.Right t obj o where
  made := h.made
  parent := by
    intro parent hparent
    obtain ⟨hroot, hmap⟩ := h.parent parent hparent
    exact ⟨hst.rootObj ▸ hroot, hst.objMap _ _ hmap⟩
  children := by
    intro children hchildren
    obtain ⟨names, objs, hnames, hpoints, hdistinct⟩ := h.children children hchildren
    exact ⟨names, objs, hnames, hpoints.mono hst, hdistinct⟩

theorem Sound.name_unique (h : cntxt.Sound s) {obj obj' : ℕ} {o o' : CntxtObject V}
    (ho : s.objs[obj]? = some o) (ho' : s.objs[obj']? = some o') (hname : o.name = o'.name) :
    obj = obj' := by
  have hmap := (h.key o.name obj).mpr ⟨o, ho, rfl⟩
  have hmap' := (h.key o.name obj').mpr ⟨o', ho', hname.symm⟩
  exact Option.some.inj (hmap.symm.trans hmap')

theorem Sound.make (h : cntxt.Sound s) {name : ObjID} (hname : s.objMap name = none)
    {type : ObjType} {obj : DistObject V} (hmakes : cntxt.Makes name type obj)
    (hobj : obj.name = name) : cntxt.Sound (s.make name ⟨obj, type, none, none⟩) where
  key := by
    intro other p
    simp only [ObjMap.objs_make, ObjMap.objMap_make]
    by_cases hother : other = name
    · rw [hother, update_self]
      constructor
      · intro hp
        obtain rfl := Option.some.inj hp
        exact ⟨_, .inr ⟨rfl, rfl⟩, hobj⟩
      · rintro ⟨o, hold | ⟨rfl, _⟩, ho⟩
        · rw [(h.key name p).mpr ⟨o, hold, ho⟩] at hname
          cases hname
        · rfl
    · rw [update_of_ne hother, h.key]
      constructor
      · rintro ⟨o, ho, hnamed⟩
        exact ⟨o, .inl ho, hnamed⟩
      · rintro ⟨o, hold | ⟨_, rfl⟩, ho⟩
        · exact ⟨o, hold, ho⟩
        · exact absurd (ho.symm.trans hobj) hother
  right := by
    intro p o ho
    rcases (ObjMap.objs_make s name _).mp ho with hold | ⟨rfl, rfl⟩
    · exact (h.right p o hold).mono (ObjMap.extends_make hname _)
    · refine ⟨?_, fun _ hparent => ?_, fun _ hchildren => ?_⟩
      · exact hobj ▸ hmakes
      · cases hparent
      · cases hchildren

theorem Sound.modify (h : cntxt.Sound s) {obj : ℕ} {f : CntxtObject V → CntxtObject V}
    (hdist : ∀ o, (f o).toDistObject = o.toDistObject) (htype : ∀ o, (f o).type = o.type)
    (hright : ∀ o, s.objs[obj]? = some o → cntxt.Right s obj (f o)) :
    cntxt.Sound { s with objs := s.objs.modify obj f } where
  key := by
    intro name other
    rw [h.key name other]
    simp only [List.getElem?_modify, Option.map_eq_map, Option.map_eq_some_iff]
    constructor
    · rintro ⟨o, ho, hname⟩
      refine ⟨_, ⟨o, ho, rfl⟩, ?_⟩
      by_cases hobj : obj = other
      · rw [if_pos hobj, hdist, hname]
      · rw [if_neg hobj]
        exact hname
    · rintro ⟨_, ⟨o, ho, rfl⟩, hname⟩
      refine ⟨o, ho, ?_⟩
      by_cases hobj : obj = other
      · rw [if_pos hobj, hdist] at hname
        exact hname
      · rw [if_neg hobj] at hname
        exact hname
  right := by
    intro other o ho
    apply Right.mono (ObjMap.extends_modify s obj hdist htype)
    simp only [List.getElem?_modify, Option.map_eq_map, Option.map_eq_some_iff] at ho
    obtain ⟨o', ho', rfl⟩ := ho
    by_cases hobj : obj = other
    · rw [if_pos hobj]
      exact hobj ▸ hright o' (hobj ▸ ho')
    · rw [if_neg hobj]
      exact h.right other o' ho'

theorem Sound.setParent (h : cntxt.Sound s) {obj : ℕ} {parent : Option ℕ}
    (hparent : ∀ o, s.objs[obj]? = some o → ∀ p, parent = some p →
      obj ≠ s.rootObj ∧ s.objMap (XmlConfig.findParent o.name) = some p) :
    cntxt.Sound (s.setParent obj parent) := by
  refine h.modify (fun _ => rfl) (fun _ => rfl) fun o ho => ?_
  have hright := h.right obj o ho
  exact ⟨hright.made, hparent o ho, hright.children⟩

theorem Sound.setChildren (h : cntxt.Sound s) {obj : ℕ} {names : List ObjID} {objs : List ℕ}
    (hnames : ∀ o, s.objs[obj]? = some o → cntxt.xml.findChildren o.name = .ok names)
    (hobjs : s.Points names objs) : cntxt.Sound (s.setChildren obj (Grp.distinct objs)) := by
  refine h.modify (fun _ => rfl) (fun _ => rfl) fun o ho => ?_
  have hright := h.right obj o ho
  refine ⟨hright.made, hright.parent, fun children hsome => ?_⟩
  exact ⟨names, objs, hnames o ho, hobjs, (Option.some.inj hsome).symm⟩

theorem findObject_known {name : ObjID} {obj : ℕ} (h : s.objMap name = some obj) :
    cntxt.findObject s name = .ok (some obj, s) := by
  simp only [findObject, h]

theorem findObject_spec (h : cntxt.Sound s) {name : ObjID} {found : Option ℕ}
    (hfound : cntxt.findObject s name = .ok (found, t)) :
    cntxt.Sound t ∧ s.Extends t ∧ ∀ obj, found = some obj → t.objMap name = some obj := by
  unfold findObject at hfound
  cases hname : s.objMap name with
  | some obj =>
      simp only [hname, Except.ok.injEq, Prod.mk.injEq] at hfound
      obtain ⟨rfl, rfl⟩ := hfound
      exact ⟨h, .refl s, fun _ hobj => hobj ▸ hname⟩
  | none =>
      by_cases htype : cntxt.xml.objType name = .invalid
      · simp only [hname, htype, if_true, Except.ok.injEq, Prod.mk.injEq] at hfound
        obtain ⟨rfl, rfl⟩ := hfound
        exact ⟨h, .refl s, fun _ hobj => by cases hobj⟩
      · simp only [hname, htype, if_false, bind_eq_ok, Except.ok.injEq, Prod.mk.injEq] at hfound
        obtain ⟨obj, hobj, rfl, rfl⟩ := hfound
        have hmakes : cntxt.Makes name (cntxt.xml.objType name) obj := ⟨rfl, htype, hobj⟩
        refine ⟨h.make hname hmakes (createObject_name hobj), ObjMap.extends_make hname _, ?_⟩
        intro _ hlast
        rw [ObjMap.objMap_make, update_self, hlast]

theorem assertObject_known {name : ObjID} {obj : ℕ} (h : s.objMap name = some obj) :
    cntxt.assertObject s name = .ok (obj, s) := by
  simp [assertObject, findObject_known h, bind, Except.bind]

theorem assertObject_spec (h : cntxt.Sound s) {name : ObjID} {obj : ℕ}
    (hobj : cntxt.assertObject s name = .ok (obj, t)) :
    cntxt.Sound t ∧ s.Extends t ∧ t.objMap name = some obj := by
  simp only [assertObject, bind_eq_ok, Except.ok.injEq, Prod.mk.injEq, Prod.exists,
    orFault_eq_ok] at hobj
  obtain ⟨found, u, hfound, tmp, rfl, rfl, rfl⟩ := hobj
  obtain ⟨hsound, hextends, hname⟩ := findObject_spec h hfound
  exact ⟨hsound, hextends, hname tmp rfl⟩

theorem getParent_spec (h : cntxt.Sound s) {obj : ℕ} {o : CntxtObject V}
    (ho : s.objs[obj]? = some o) {found : Option ℕ}
    (hfound : cntxt.getParent s obj = .ok (found, t)) :
    cntxt.Sound t ∧ s.Extends t ∧ ∀ parent, found = some parent →
      obj ≠ s.rootObj ∧ t.objMap (XmlConfig.findParent o.name) = some parent := by
  unfold getParent at hfound
  by_cases hroot : obj = s.rootObj
  · simp only [hroot, if_true, Except.ok.injEq, Prod.mk.injEq] at hfound
    obtain ⟨rfl, rfl⟩ := hfound
    exact ⟨h, .refl s, fun _ hnone => by cases hnone⟩
  · rw [if_neg hroot, ho, orFault_some, ok_bind] at hfound
    by_cases htop : XmlConfig.findParent o.name = []
    · simp only [htop, if_true, Except.ok.injEq, Prod.mk.injEq] at hfound
      obtain ⟨rfl, rfl⟩ := hfound
      exact ⟨h, .refl s, fun _ hnone => by cases hnone⟩
    · cases hknown : s.objMap (XmlConfig.findParent o.name) with
      | some known =>
          simp only [htop, if_false, hknown, Except.ok.injEq, Prod.mk.injEq] at hfound
          obtain ⟨rfl, rfl⟩ := hfound
          exact ⟨h, .refl s, fun parent hparent => ⟨hroot, hparent ▸ hknown⟩⟩
      | none =>
          simp only [htop, if_false, hknown, bind_eq_ok, Except.ok.injEq, Prod.mk.injEq,
            Prod.exists] at hfound
          obtain ⟨tmp, u, htmp, rfl, rfl⟩ := hfound
          obtain ⟨hsound, hextends, hmap⟩ := assertObject_spec h htmp
          have hsame : update u.objMap (XmlConfig.findParent o.name) (some tmp) = u.objMap := by
            rw [← hmap, update_eq_self]
          rw [hsame]
          refine ⟨hsound, hextends, fun parent hparent => ⟨hroot, ?_⟩⟩
          exact hparent ▸ hmap

theorem parent_spec (h : cntxt.Sound s) {obj : ℕ} {o : CntxtObject V}
    (ho : s.objs[obj]? = some o) {found : Option ℕ}
    (hfound : cntxt.parent s obj = .ok (found, t)) :
    cntxt.Sound t ∧ s.Extends t ∧ ∀ parent, found = some parent →
      obj ≠ s.rootObj ∧ t.objMap (XmlConfig.findParent o.name) = some parent := by
  rw [parent, ho, orFault_some, ok_bind] at hfound
  cases hkept : o.parent with
  | some kept =>
      simp only [hkept, Except.ok.injEq, Prod.mk.injEq] at hfound
      obtain ⟨rfl, rfl⟩ := hfound
      refine ⟨h, .refl s, fun parent hparent => ?_⟩
      exact (h.right obj o ho).parent parent (hkept.trans hparent)
  | none =>
      simp only [hkept, bind_eq_ok, Except.ok.injEq, Prod.mk.injEq, Prod.exists] at hfound
      obtain ⟨got, u, hget, rfl, rfl⟩ := hfound
      obtain ⟨hsound, hextends, hparent⟩ := getParent_spec h ho hget
      refine ⟨hsound.setParent ?_, hextends.trans (ObjMap.extends_setParent u obj got), hparent⟩
      intro o' ho' parent hsome
      obtain ⟨hroot, hmap⟩ := hparent parent hsome
      obtain ⟨o'', ho'', hdist, _⟩ := hextends.objs obj o ho
      obtain rfl := Option.some.inj (ho'.symm.trans ho'')
      exact ⟨hextends.rootObj ▸ hroot, hdist ▸ hmap⟩

theorem addObjects_spec (names : List ObjID) {seen : List ObjID} {objs list : List ℕ}
    (h : cntxt.Sound s) (hobjs : s.Points seen objs)
    (hloop : names.foldlM cntxt.addObject (Grp.distinct objs, s) = .ok (list, t)) :
    cntxt.Sound t ∧ s.Extends t ∧
      ∃ objs, t.Points (seen ++ names) objs ∧ list = Grp.distinct objs := by
  induction names generalizing seen objs s with
  | nil =>
      obtain ⟨rfl, rfl⟩ := Prod.mk.inj (Except.ok.inj hloop)
      exact ⟨h, .refl s, objs, by rwa [List.append_nil], rfl⟩
  | cons name names ih =>
      rw [List.foldlM_cons, bind_eq_ok] at hloop
      obtain ⟨mid, hmid, hrest⟩ := hloop
      simp only [addObject, bind_eq_ok, Prod.exists, Except.ok.injEq] at hmid
      obtain ⟨tmp, u, htmp, rfl⟩ := hmid
      obtain ⟨hsound, hextends, hname⟩ := assertObject_spec h htmp
      rw [Grp.add_distinct] at hrest
      obtain ⟨hsound', hextends', objs', hobjs', hlist⟩ :=
        ih hsound ((hobjs.mono hextends).concat hname) hrest
      rw [List.append_assoc, List.singleton_append] at hobjs'
      exact ⟨hsound', hextends.trans hextends', objs', hobjs', hlist⟩

theorem getChildren_spec (h : cntxt.Sound s) {obj : ℕ} {o : CntxtObject V}
    (ho : s.objs[obj]? = some o) {list : List ℕ}
    (hlist : cntxt.getChildren s obj = .ok (list, t)) :
    cntxt.Sound t ∧ s.Extends t ∧ ∃ names objs, cntxt.xml.findChildren o.name = .ok names ∧
      t.Points names objs ∧ list = Grp.distinct objs := by
  simp only [getChildren, ho, orFault_some, bind_eq_ok, Except.ok.injEq, exists_eq_left'] at hlist
  obtain ⟨names, hnames, hloop⟩ := hlist
  have hempty : s.Points [] [] := .nil
  obtain ⟨hsound, hextends, objs, hobjs, hdistinct⟩ := addObjects_spec names h hempty hloop
  exact ⟨hsound, hextends, names, objs, hnames, hobjs, hdistinct⟩

theorem children_spec (h : cntxt.Sound s) {obj : ℕ} {o : CntxtObject V}
    (ho : s.objs[obj]? = some o) {list : List ℕ}
    (hlist : cntxt.children s obj = .ok (list, t)) :
    cntxt.Sound t ∧ s.Extends t ∧ ∃ names objs, cntxt.xml.findChildren o.name = .ok names ∧
      t.Points names objs ∧ list = Grp.distinct objs := by
  rw [children, ho, orFault_some, ok_bind] at hlist
  cases hkept : o.children with
  | some kept =>
      simp only [hkept, Except.ok.injEq, Prod.mk.injEq] at hlist
      obtain ⟨rfl, rfl⟩ := hlist
      exact ⟨h, .refl s, (h.right obj o ho).children _ hkept⟩
  | none =>
      simp only [hkept, bind_eq_ok, Except.ok.injEq, Prod.mk.injEq, Prod.exists] at hlist
      obtain ⟨got, u, hget, rfl, rfl⟩ := hlist
      obtain ⟨hsound, hextends, names, objs, hnames, hobjs, hdistinct⟩ := getChildren_spec h ho hget
      have hset := ObjMap.extends_setChildren u obj got
      refine ⟨?_, hextends.trans hset, names, objs, hnames, hobjs.mono hset, hdistinct⟩
      rw [hdistinct]
      refine hsound.setChildren (fun o' ho' => ?_) hobjs
      obtain ⟨o'', ho'', hdist, _⟩ := hextends.objs obj o ho
      obtain rfl := Option.some.inj (ho'.symm.trans ho'')
      exact hdist ▸ hnames

theorem findAllObjType_sound {type : ObjType} {fuel obj : ℕ} {grp grp' : DistGrp ℕ}
    (h : cntxt.Sound s)
    (hfind : cntxt.findAllObjType type fuel obj (s, grp) = .ok (t, grp')) :
    cntxt.Sound t ∧ s.Extends t := by
  induction fuel generalizing obj s t grp grp' with
  | zero => cases hfind
  | succ fuel ih =>
      simp only [findAllObjType, bind_eq_ok, orFault_eq_ok] at hfind
      obtain ⟨o, ho, hfind⟩ := hfind
      by_cases htype : o.type = type
      · rw [if_pos htype] at hfind
        obtain ⟨rfl, _⟩ := Prod.mk.inj (Except.ok.inj hfind)
        exact ⟨h, .refl s⟩
      · simp only [if_neg htype, bind_eq_ok] at hfind
        obtain ⟨names, _, hloop⟩ := hfind
        refine foldlM_preserves
          (fun found : ObjMap V × DistGrp ℕ => cntxt.Sound found.1 ∧ s.Extends found.1) names ?_
          ⟨h, .refl s⟩ hloop
        rintro ⟨u, grp⟩ name ⟨u', grp'⟩ _ ⟨hsound, hextends⟩ hstep
        simp only [bind_eq_ok, Prod.exists] at hstep
        obtain ⟨tmp, v, htmp, hrec⟩ := hstep
        obtain ⟨hsoundMid, hextendsMid, _⟩ := assertObject_spec hsound htmp
        obtain ⟨hsoundEnd, hextendsEnd⟩ := ih hsoundMid hrec
        exact ⟨hsoundEnd, (hextends.trans hextendsMid).trans hextendsEnd⟩

theorem getGrp_sound {type : ObjType} {grp : Option (DistGrp ℕ)} (h : cntxt.Sound s)
    (hgrp : cntxt.getGrp s type = .ok (grp, t)) : cntxt.Sound t ∧ s.Extends t := by
  simp only [getGrp, bind_eq_ok, Prod.exists] at hgrp
  obtain ⟨u, found, hfind, hgrp⟩ := hgrp
  have hkept := findAllObjType_sound h hfind
  by_cases hsize : found.size = 0
  · rw [if_pos hsize] at hgrp
    obtain ⟨_, rfl⟩ := Prod.mk.inj (Except.ok.inj hgrp)
    exact hkept
  · rw [if_neg hsize] at hgrp
    obtain ⟨_, rfl⟩ := Prod.mk.inj (Except.ok.inj hgrp)
    exact hkept

theorem step_sound {c : Call} (h : cntxt.Sound s) (hstep : cntxt.step s c t) :
    cntxt.Sound t ∧ s.Extends t := by
  cases c with
  | children obj =>
      obtain ⟨⟨list, _⟩, hcall, rfl⟩ := map_eq_ok.mp hstep
      obtain ⟨o, ho, _⟩ := bind_eq_ok.mp hcall
      obtain ⟨hsound, hextends, _⟩ := children_spec h (orFault_eq_ok.mp ho) hcall
      exact ⟨hsound, hextends⟩
  | parent obj =>
      obtain ⟨⟨found, _⟩, hcall, rfl⟩ := map_eq_ok.mp hstep
      obtain ⟨o, ho, _⟩ := bind_eq_ok.mp hcall
      obtain ⟨hsound, hextends, _⟩ := parent_spec h (orFault_eq_ok.mp ho) hcall
      exact ⟨hsound, hextends⟩
  | getObjByName name =>
      obtain ⟨⟨found, _⟩, hcall, rfl⟩ := map_eq_ok.mp hstep
      obtain ⟨hsound, hextends, _⟩ := findObject_spec h hcall
      exact ⟨hsound, hextends⟩
  | getGrp type =>
      obtain ⟨⟨grp, _⟩, hcall, rfl⟩ := map_eq_ok.mp hstep
      exact getGrp_sound h hcall

theorem start_sound (hstart : cntxt.start = .ok s) :
    cntxt.Sound s ∧ s.objMap cntxt.rootName = some s.rootObj := by
  have hempty : cntxt.Sound ⟨fun _ => none, [], 0⟩ := by
    constructor
    · simp
    · simp
  simp only [start, bind_eq_ok, Prod.exists, Except.ok.injEq] at hstart
  obtain ⟨rootObj, u, hassert, rfl⟩ := hstart
  obtain ⟨hsound, hextends, hroot⟩ := assertObject_spec hempty hassert
  have hfirst : rootObj = u.rootObj := by
    simp only [assertObject, findObject, bind_eq_ok, Prod.exists, orFault_eq_ok, Except.ok.injEq,
      Prod.mk.injEq] at hassert
    obtain ⟨found, v, hfound, tmp, rfl, rfl, rfl⟩ := hassert
    by_cases htype : cntxt.xml.objType cntxt.rootName = .invalid
    · simp [htype] at hfound
    · simp only [htype, if_false, bind_eq_ok, Except.ok.injEq, Prod.mk.injEq] at hfound
      obtain ⟨_, _, htmp, hmade⟩ := hfound
      rw [← Option.some.inj htmp, ← hmade]
      rfl
  rw [hfirst] at hroot ⊢
  exact ⟨hsound, hroot⟩

theorem run_sound {s₀ : ObjMap V} (hstart : cntxt.start = .ok s₀) {calls : List Call}
    (hrun : Run cntxt.step s₀ calls s) :
    cntxt.Sound s ∧ s.objMap cntxt.rootName = some s.rootObj := by
  apply hrun.invariant _ _ (start_sound hstart)
  rintro s c t ⟨hsound, hroot⟩ hstep
  obtain ⟨hsound', hextends⟩ := step_sound hsound hstep
  refine ⟨hsound', ?_⟩
  rw [hextends.rootObj]
  exact hextends.objMap _ _ hroot

end Keeping

end XmlCntxt

end PwrApi
