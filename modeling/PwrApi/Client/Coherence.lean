import PwrApi.Client.Objects

/-! Navigation among the objects of a context: one object a name, and parents and children
that fit. -/

namespace PwrApi

open Function Relation Runs

variable {V : Type}

namespace XmlConfig

def Lists (xml : XmlConfig) (name child : ObjID) : Prop :=
  ∃ children, xml.findChildren name = .ok children ∧ child ∈ children

/-- Different objects have different names, and the listed children exist and have plain
short names. -/
structure PlainChildren (xml : XmlConfig) : Prop where
  distinct : (xml.objects.map (·.name)).Nodup
  found : ∀ obj ∈ xml.objects, ∀ child ∈ obj.children,
    xml.findObject (childName obj.name child) ≠ none
  nonempty : ∀ obj ∈ xml.objects, ∀ child ∈ obj.children, child ≠ []
  noDot : ∀ obj ∈ xml.objects, ∀ child ∈ obj.children, 46 ∉ child

variable {xml : XmlConfig}

theorem findChildren_eq_ok {name : ObjID} {names : List ObjID} :
    xml.findChildren name = .ok names ↔
      ∃ elm, xml.findObject name = some elm ∧ names = elm.children.map (childName name) := by
  simp only [findChildren, bind_eq_ok, orFault_eq_ok, Except.ok.injEq]
  constructor
  · rintro ⟨elm, helm, rfl⟩
    exact ⟨elm, helm, by rw [findObject_name helm]⟩
  · rintro ⟨elm, helm, rfl⟩
    exact ⟨elm, helm, by rw [findObject_name helm]⟩

theorem lists_iff {name child : ObjID} :
    xml.Lists name child ↔
      ∃ elm, xml.findObject name = some elm ∧ ∃ short ∈ elm.children, child = childName name short := by
  constructor
  · rintro ⟨names, hnames, hchild⟩
    obtain ⟨elm, helm, rfl⟩ := findChildren_eq_ok.mp hnames
    obtain ⟨short, hshort, rfl⟩ := List.mem_map.mp hchild
    exact ⟨elm, helm, short, hshort, rfl⟩
  · rintro ⟨elm, helm, short, hshort, rfl⟩
    exact ⟨_, findChildren_eq_ok.mpr ⟨elm, helm, rfl⟩, List.mem_map_of_mem hshort⟩

theorem Lists.length_lt {name child : ObjID} (h : xml.Lists name child) :
    name.length < child.length := by
  obtain ⟨_, _, short, _, rfl⟩ := lists_iff.mp h
  exact length_lt_childName name short

theorem Lists.findParent (hplain : xml.PlainChildren) {name child : ObjID}
    (h : xml.Lists name child) : XmlConfig.findParent child = name := by
  obtain ⟨elm, helm, short, hshort, rfl⟩ := lists_iff.mp h
  exact findParent_childName name (hplain.noDot elm (List.mem_of_find?_eq_some helm) short hshort)

theorem length_le_of_reaches {name below : ObjID} (h : ReflTransGen xml.Lists name below) :
    name.length ≤ below.length := by
  induction h with
  | refl => exact Nat.le_refl _
  | tail _ hlists ih => exact Nat.le_trans ih (Nat.le_of_lt hlists.length_lt)

end XmlConfig

namespace XmlCntxt

variable [Zero V] [Add V] [Div V] [NatCast V]

/-- The members of a group of children: each has the name of a listed child, and its parent
is the object whose children they are, now and after any other calls. -/
def ChildrenOf (cntxt : XmlCntxt V) (obj : ℕ) (name : ObjID) (list : List ℕ) (s : ObjMap V) : Prop :=
  ∀ child ∈ list,
    (∃ c, s.objs[child]? = some c ∧ ∃ elm, cntxt.xml.findObject name = some elm ∧
      ∃ short ∈ elm.children, c.name = XmlConfig.childName name short) ∧
    ∀ calls t, Run cntxt.step s calls t → ∃ u, cntxt.parent t child = .ok (some obj, u)

/-- The objects of a context fit each other and the configuration. -/
structure Coherent (cntxt : XmlCntxt V) (s : ObjMap V) : Prop where
  unique : ∀ (obj obj' : ℕ) (o o' : CntxtObject V), s.objs[obj]? = some o →
    s.objs[obj']? = some o' → o.name = o'.name → obj = obj'
  byName : ∀ (obj : ℕ) (o : CntxtObject V), s.objs[obj]? = some o →
    cntxt.getObjByName s o.name = .ok (some obj, s)
  children : ∀ (obj : ℕ) (o : CntxtObject V) (list : List ℕ) (t : ObjMap V),
    s.objs[obj]? = some o → ReflTransGen cntxt.xml.Lists cntxt.rootName o.name →
    cntxt.children s obj = .ok (list, t) → cntxt.ChildrenOf obj o.name list t
  root : ∃ t, cntxt.parent s s.rootObj = .ok (none, t)

variable {cntxt : XmlCntxt V} {s t : ObjMap V}

theorem parent_root (h : cntxt.Sound s) (hroot : s.objMap cntxt.rootName = some s.rootObj) :
    ∃ t, cntxt.parent s s.rootObj = .ok (none, t) := by
  obtain ⟨o, ho, _⟩ := (h.key _ _).mp hroot
  have hnone : o.parent = none := by
    cases hkept : o.parent with
    | none => rfl
    | some parent => exact absurd rfl ((h.right _ o ho).parent parent hkept).1
  refine ⟨s.setParent s.rootObj none, ?_⟩
  rw [parent, ho, orFault_some, ok_bind]
  simp [hnone, getParent]

theorem parent_listed (hplain : cntxt.xml.PlainChildren) (hname : cntxt.rootName ≠ [])
    (h : cntxt.Sound s) (hroot : s.objMap cntxt.rootName = some s.rootObj) {obj child : ℕ}
    {name : ObjID} {c : CntxtObject V} (hobj : s.objMap name = some obj)
    (hbelow : ReflTransGen cntxt.xml.Lists cntxt.rootName name) (hc : s.objs[child]? = some c)
    (hlists : cntxt.xml.Lists name c.name) : ∃ t, cntxt.parent s child = .ok (some obj, t) := by
  have hparent := hlists.findParent hplain
  rw [parent, hc, orFault_some, ok_bind]
  cases hkept : c.parent with
  | some kept =>
      have hmap := ((h.right child c hc).parent kept hkept).2
      rw [hparent, hobj] at hmap
      exact ⟨s, by rw [Option.some.inj hmap]⟩
  | none =>
      have hlength := XmlConfig.length_le_of_reaches hbelow
      have hchild : child ≠ s.rootObj := by
        rintro rfl
        obtain ⟨o, ho, hnamed⟩ := (h.key _ _).mp hroot
        obtain rfl := Option.some.inj (hc.symm.trans ho)
        have hgrows := hlists.length_lt
        rw [hnamed] at hgrows
        omega
      have htop : name ≠ [] := by
        rintro rfl
        exact hname (List.eq_nil_of_length_eq_zero (Nat.le_zero.mp hlength))
      have hget : cntxt.getParent s child = .ok (some obj, s) := by
        simp [getParent, hchild, hc, hparent, htop, hobj]
      exact ⟨s.setParent child (some obj), by simp [hget]⟩

theorem run_extends {calls : List Call} (h : cntxt.Sound s) (hrun : Run cntxt.step s calls t) :
    cntxt.Sound t ∧ s.Extends t := by
  have hfirst : cntxt.Sound s ∧ s.Extends s := ⟨h, .refl s⟩
  refine hrun.invariant (fun u => cntxt.Sound u ∧ s.Extends u) ?_ hfirst
  rintro u c v ⟨hsound, hextends⟩ hstep
  obtain ⟨hsound', hextends'⟩ := step_sound hsound hstep
  exact ⟨hsound', hextends.trans hextends'⟩

theorem childrenOf_children (hplain : cntxt.xml.PlainChildren) (hname : cntxt.rootName ≠ [])
    (h : cntxt.Sound s) (hroot : s.objMap cntxt.rootName = some s.rootObj) {obj : ℕ}
    {o : CntxtObject V} (ho : s.objs[obj]? = some o)
    (hbelow : ReflTransGen cntxt.xml.Lists cntxt.rootName o.name) {list : List ℕ}
    (hlist : cntxt.children s obj = .ok (list, t)) : cntxt.ChildrenOf obj o.name list t := by
  obtain ⟨hsound, hextends, names, objs, hnames, hobjs, rfl⟩ := children_spec h ho hlist
  intro child hchild
  have hmem : child ∈ objs := Grp.mem_distinct.mp hchild
  obtain ⟨name, hmember, hmap⟩ := hobjs.exists_name hmem
  obtain ⟨c, hc, rfl⟩ := (hsound.key name child).mp hmap
  have hlists : cntxt.xml.Lists o.name c.name := ⟨names, hnames, hmember⟩
  refine ⟨⟨c, hc, XmlConfig.lists_iff.mp hlists⟩, fun calls u hrun => ?_⟩
  obtain ⟨hsound', hextends'⟩ := run_extends hsound hrun
  have hall := hextends.trans hextends'
  obtain ⟨c', hc', hdist, _⟩ := hextends'.objs child c hc
  have hobj := hall.objMap _ _ ((h.key o.name obj).mpr ⟨o, ho, rfl⟩)
  have hroot' : u.objMap cntxt.rootName = some u.rootObj := by
    rw [hall.rootObj]
    exact hall.objMap _ _ hroot
  exact parent_listed hplain hname hsound' hroot' hobj hbelow hc' (hdist ▸ hlists)

/-- Whatever calls are made, the objects stay coherent, if the root has a name: for an
empty one `getParent` answers that there is no parent. -/
theorem navigation_coherent (hplain : cntxt.xml.PlainChildren) (hname : cntxt.rootName ≠ [])
    {s₀ : ObjMap V} (hstart : cntxt.start = .ok s₀) {calls : List Call}
    (hrun : Run cntxt.step s₀ calls s) : cntxt.Coherent s := by
  obtain ⟨hsound, hroot⟩ := run_sound hstart hrun
  constructor
  · exact fun obj obj' o o' ho ho' hsame => hsound.name_unique ho ho' hsame
  · intro obj o ho
    exact findObject_known ((hsound.key o.name obj).mpr ⟨o, ho, rfl⟩)
  · intro obj o list t ho hbelow hlist
    exact childrenOf_children hplain hname hsound hroot ho hbelow hlist
  · exact parent_root hsound hroot

theorem boardXml_plain : Navigation.boardXml.PlainChildren where
  distinct := by decide
  found := by decide
  nonempty := by decide
  noDot := by decide

def boardCntxt : XmlCntxt Int := ⟨Navigation.boardXml, [112], fun _ => none⟩

theorem boardCntxt_calls : ∃ s₀ s t, boardCntxt.start = .ok s₀ ∧
    boardCntxt.step s₀ (.children 0) s ∧ boardCntxt.step s (.parent 1) t := ⟨_, _, _, rfl, rfl, rfl⟩

theorem navigation_coherent_board :
    ∃ s₀ s, boardCntxt.start = .ok s₀ ∧ Run boardCntxt.step s₀ [.children 0, .parent 1] s ∧
      boardCntxt.Coherent s := by
  obtain ⟨s₀, s, t, hstart, hchildren, hparent⟩ := boardCntxt_calls
  have hrun : Run boardCntxt.step s₀ [.children 0, .parent 1] t :=
    .cons hchildren (.cons hparent (.nil t))
  exact ⟨s₀, t, hstart, hrun, navigation_coherent boardXml_plain (by decide) hstart hrun⟩

/-- A platform with an empty name, and one board in it. -/
def namelessXml : XmlConfig where
  objects :=
    [⟨[], "Platform", none, [], [[98]], []⟩, ⟨[46, 98], "Board", none, [], [], []⟩]

def namelessCntxt : XmlCntxt Int := ⟨namelessXml, [], fun _ => none⟩

theorem nameless_root_is_no_parent :
    namelessXml.PlainChildren ∧ ∃ s, namelessCntxt.start = .ok s ∧ ¬ namelessCntxt.Coherent s := by
  constructor
  · exact ⟨by decide, by decide, by decide, by decide⟩
  · refine ⟨_, rfl, fun hcoherent => ?_⟩
    have hchildren := hcoherent.children 0 _ [1] _ rfl .refl rfl
    obtain ⟨u, hparent⟩ := (hchildren 1 List.mem_cons_self).2 [] _ (.nil _)
    cases hparent

end XmlCntxt

end PwrApi
