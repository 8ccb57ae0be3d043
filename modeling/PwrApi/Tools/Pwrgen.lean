import PwrApi.Client.Coherence
import PwrApi.Lib.Forest
import PwrApi.Lib.Text

/-! The configuration that `pwrgen.cc` makes of an hwloc topology: `translate`, `duplicate`
and `flatten`. An element moved to a new parent leaves the old one. -/

namespace PwrApi.Pwrgen

open Forest Text

/-- The hwloc types that have an object; any other is a level to leave out. -/
inductive Kind
  | machine | socket | core
  deriving DecidableEq, Repr

def Kind.name : Kind → ObjID
  | machine => [110, 111, 100, 101]
  | socket => [115, 111, 99, 107, 101, 116]
  | core => [99, 111, 114, 101]

def Kind.type : Kind → String
  | machine => "Node" | socket => "Socket" | core => "Core"

/-- An `obj` element with the name and the type of a kind. -/
structure Elem where
  kind : Kind
  index : ℕ
  deriving DecidableEq, Repr

/-- The elements for the objects below one, and the next index there. -/
def translate : Forest (Option Kind) → ℕ → Forest Elem × ℕ
  | .nil, index => (.nil, index)
  | .cons (some kind) below rest, index =>
      let (later, next) := translate rest (index + 1)
      (.cons ⟨kind, index⟩ (translate below 0).1 later, next)
  | .cons none below rest, index =>
      let (first, mid) := translate below index
      let (later, next) := translate rest mid
      (first ++ later, next)

/-- `DeepClone`, for the elements below one. -/
def deepClone : Forest Elem → Forest Elem
  | .nil => .nil
  | .cons child below rest => .cons child (deepClone below) (deepClone rest)

/-- `duplicate`, which needs an element to clone. -/
def duplicate (plat : Forest Elem) (nodecount : ℕ) : Option (Forest Elem) :=
  if nodecount ≤ 1 then some plat
  else
    match plat with
    | .nil => none
    | .cons node below rest =>
        some ((List.range' 1 (nodecount - 1)).foldl
          (fun plat i => plat ++ .cons { node with index := i } (deepClone below) .nil)
          (.cons node below rest))

/-- `snprintf` into 256 bytes, the last of which ends the string. -/
def snprintf (s : Text) : Text := s.take 255

/-- The names for the `children` of an element, and the objects that are moved to the end. -/
def flatten : ObjID → Forest Elem → List ObjID × List XmlObj
  | _, .nil => ([], [])
  | pre, .cons child below rest =>
      let c := snprintf (child.kind.name ++ decimal child.index)
      let name := snprintf (pre ++ 46 :: (child.kind.name ++ decimal child.index))
      let (children, objs) := flatten name below
      let (later, more) := flatten pre rest
      (c :: later, ⟨name, child.kind.type, none, [], children, []⟩ :: (objs ++ more))

def platName : ObjID := [112, 108, 97, 116]

def pwrgen (topology : Forest (Option Kind)) (nodecount : ℕ) : Option XmlConfig := do
  let plat ← duplicate (translate topology 0).1 nodecount
  let (children, objs) := flatten platName plat
  some ⟨⟨platName, "Platform", none, [], children, []⟩ :: objs⟩

/-- The objects of a topology without the levels between them. -/
def contract : Forest (Option Kind) → Forest Kind
  | .nil => .nil
  | .cons (some kind) below rest => .cons kind (contract below) (contract rest)
  | .cons none below rest => contract below ++ contract rest

/-- The tree to reproduce: the machine comes `nodecount` times, the added ones at the end. -/
def expected (topology : Forest (Option Kind)) (nodecount : ℕ) : Forest Kind :=
  match (contract topology).find? (· = .machine) with
  | some (node, below) => contract topology ++ copies node below (nodecount - 1)
  | none => contract topology

/-- Objects with these names and below each other in this way are found by `findChildren` and
`findParent`. -/
def Recovered (xml : XmlConfig) : ObjID → Forest (ObjID × Kind) → Prop
  | _, .nil => True
  | parent, .cons (name, _) below rest =>
      XmlConfig.findParent name = parent ∧
        xml.findChildren name = .ok (below.roots.map Prod.fst) ∧
        Recovered xml name below ∧ Recovered xml parent rest

/-- The configuration has the objects of a tree under the platform and no others, each of its
own name, and they are found where they are in the tree. -/
structure Reproduces (xml : XmlConfig) (tree : Forest Kind) (named : Forest (ObjID × Kind)) :
    Prop where
  shape : named.map Prod.snd = tree
  distinct : (xml.objects.map (·.name)).Nodup
  objects : ((platName, "Platform") :: named.nodes.map fun obj => (obj.1, obj.2.type)).Perm
    (xml.objects.map fun obj => (obj.name, obj.type))
  children : xml.findChildren platName = .ok (named.roots.map Prod.fst)
  recovered : Recovered xml platName named

def Preserves (topology : Forest (Option Kind)) (nodecount : ℕ) : Prop :=
  ∃ xml, pwrgen topology nodecount = some xml ∧ ∃ named, Reproduces xml (expected topology nodecount) named

/-- The name of an element among its siblings. -/
def Elem.short (elem : Elem) : ObjID := elem.kind.name ++ decimal elem.index

def label : ObjID → Forest Elem → Forest (ObjID × Kind)
  | _, .nil => .nil
  | pre, .cons child below rest =>
      .cons (XmlConfig.childName pre child.short, child.kind)
        (label (XmlConfig.childName pre child.short) below) (label pre rest)

def Fits (topology : Forest (Option Kind)) (nodecount : ℕ) : Prop :=
  ∀ plat, duplicate (translate topology 0).1 nodecount = some plat →
    ∀ obj ∈ (label platName plat).nodes, obj.1.length < 256

def objsOf : ObjID → Forest Elem → List XmlObj
  | _, .nil => []
  | pre, .cons child below rest =>
      ⟨XmlConfig.childName pre child.short, child.kind.type, none, [], below.roots.map Elem.short, []⟩ ::
        (objsOf (XmlConfig.childName pre child.short) below ++ objsOf pre rest)

section Flattening

variable {pre : ObjID} {plat : Forest Elem}

theorem flatten_eq (hfits : ∀ obj ∈ (label pre plat).nodes, obj.1.length < 256) :
    flatten pre plat = (plat.roots.map Elem.short, objsOf pre plat) := by
  induction plat generalizing pre with
  | nil => rfl
  | cons child below rest ihBelow ihRest =>
      simp only [label, nodes, List.forall_mem_cons, List.forall_mem_append] at hfits
      obtain ⟨hname, hbelow, hrest⟩ := hfits
      have hfull : snprintf (pre ++ 46 :: (child.kind.name ++ decimal child.index)) =
          XmlConfig.childName pre child.short :=
        List.take_of_length_le (Nat.le_of_lt_succ hname)
      have hshort : snprintf (child.kind.name ++ decimal child.index) = child.short := by
        apply List.take_of_length_le
        have hless := XmlConfig.length_lt_childName pre child.short
        simp only [XmlConfig.childName, List.length_append, List.length_cons, Elem.short] at hname
        rw [List.length_append]
        omega
      simp only [flatten, hfull, hshort, ihBelow hbelow, ihRest hrest, roots, List.map_cons, objsOf]

theorem map_objsOf : (objsOf pre plat).map (fun obj => (obj.name, obj.type)) =
    (label pre plat).nodes.map fun obj => (obj.1, obj.2.type) := by
  induction plat generalizing pre with
  | nil => rfl
  | cons child below rest ihBelow ihRest =>
      simp only [objsOf, label, nodes, List.map_cons, List.map_append, ihBelow, ihRest]

theorem roots_label : (label pre plat).roots =
    plat.roots.map fun child => (XmlConfig.childName pre child.short, child.kind) := by
  induction plat with
  | nil => rfl
  | cons child below rest _ ih => rw [label, roots, ih, roots, List.map_cons]

theorem map_label : (label pre plat).map Prod.snd = plat.map Elem.kind := by
  induction plat generalizing pre with
  | nil => rfl
  | cons child below rest ihBelow ihRest => rw [label, map, ihBelow, ihRest, map]

end Flattening

section Names

theorem Kind.name_letters (kind : Kind) : ∀ c ∈ kind.name, isDigit c = false ∧ c ≠ 46 := by
  have hall : (kind.name.all fun c => !isDigit c && c != 46) = true := by
    cases kind <;> decide
  simpa using hall

theorem Kind.name_inj {kind kind' : Kind} (h : kind.name = kind'.name) : kind = kind' := by
  cases kind <;> cases kind' <;> first | rfl | (revert h; decide)

theorem Kind.type_inj {kind kind' : Kind} (h : kind.type = kind'.type) : kind = kind' := by
  cases kind <;> cases kind' <;> first | rfl | (revert h; decide)

theorem Elem.dot_not_mem_short (elem : Elem) : 46 ∉ elem.short := by
  intro hdot
  rcases List.mem_append.mp hdot with hname | hindex
  · exact (elem.kind.name_letters 46 hname).2 rfl
  · exact not_mem_decimal rfl _ hindex

theorem Elem.short_inj {elem elem' : Elem} (h : elem.short = elem'.short) : elem = elem' := by
  have hcut : ∀ elem : Elem, elem.short.takeWhile (fun c => !isDigit c) = elem.kind.name ∧
      elem.short.dropWhile (fun c => !isDigit c) = decimal elem.index := by
    intro elem
    apply takeWhile_exact
    · intro c hc
      rw [(elem.kind.name_letters c hc).1]
      rfl
    · intro c hc
      have hdigit := decimalFrom_digits _ _ c (List.mem_of_mem_head? hc)
      rw [hdigit]
      rfl
  obtain ⟨hname, hindex⟩ := hcut elem
  obtain ⟨hname', hindex'⟩ := hcut elem'
  rw [h] at hname hindex
  have hkind := Kind.name_inj (hname.symm.trans hname')
  have hvalue := congrArg value (hindex.symm.trans hindex')
  rw [value_decimal, value_decimal] at hvalue
  cases elem
  cases elem'
  cases hkind
  cases hvalue
  rfl

def steps : Forest Elem → List (List ObjID)
  | .nil => []
  | .cons child below rest =>
      [child.short] :: ((steps below).map (child.short :: ·) ++ steps rest)

def SiblingsDiffer : Forest Elem → Prop
  | .nil => True
  | .cons child below rest => child ∉ rest.roots ∧ SiblingsDiffer below ∧ SiblingsDiffer rest

variable {pre : ObjID} {plat : Forest Elem}

theorem names_objsOf : (objsOf pre plat).map (·.name) =
    (steps plat).map fun path => pre ++ path.flatMap (46 :: ·) := by
  induction plat generalizing pre with
  | nil => rfl
  | cons child below rest ihBelow ihRest =>
      simp only [objsOf, steps, List.map_cons, List.map_append, List.map_map, ihBelow, ihRest]
      congr 1
      · simp [XmlConfig.childName]
      · congr 1
        apply List.map_congr_left
        intro path _
        simp [XmlConfig.childName]

theorem mem_steps {path : List ObjID} (h : path ∈ steps plat) :
    (∃ child ∈ plat.roots, path.head? = some child.short) ∧ ∀ s ∈ path, 46 ∉ s := by
  induction plat generalizing path with
  | nil => cases h
  | cons child below rest ihBelow ihRest =>
      rw [steps, List.mem_cons, List.mem_append, List.mem_map] at h
      rcases h with rfl | ⟨path, hpath, rfl⟩ | hrest
      · refine ⟨⟨child, List.mem_cons_self, rfl⟩, fun s hs => ?_⟩
        rw [List.mem_singleton.mp hs]
        exact child.dot_not_mem_short
      · refine ⟨⟨child, List.mem_cons_self, rfl⟩, ?_⟩
        rw [List.forall_mem_cons]
        exact ⟨child.dot_not_mem_short, (ihBelow hpath).2⟩
      · obtain ⟨⟨other, hother, hhead⟩, hdots⟩ := ihRest hrest
        exact ⟨⟨other, List.mem_cons_of_mem child hother, hhead⟩, hdots⟩

theorem nodup_steps (h : SiblingsDiffer plat) : (steps plat).Nodup := by
  induction plat with
  | nil => exact .nil
  | cons child below rest ihBelow ihRest =>
      obtain ⟨hchild, hbelow, hrest⟩ := h
      have hapart : ∀ path ∈ steps rest, path.head? ≠ some child.short := by
        intro path hpath hhead
        obtain ⟨⟨other, hother, hfirst⟩, _⟩ := mem_steps hpath
        rw [hhead, Option.some.injEq] at hfirst
        exact hchild (Elem.short_inj hfirst ▸ hother)
      have hdeep : ((steps below).map (child.short :: ·)).Nodup :=
        (ihBelow hbelow).map fun _ _ hsame => (List.cons.inj hsame).2
      rw [steps, List.nodup_cons, List.nodup_append, List.mem_append, List.mem_map]
      refine ⟨?_, hdeep, ihRest hrest, ?_⟩
      · rintro (⟨path, hpath, hsame⟩ | hpath)
        · obtain ⟨⟨_, _, hhead⟩, _⟩ := mem_steps hpath
          rw [(List.cons.inj hsame).2] at hhead
          cases hhead
        · exact hapart _ hpath rfl
      · rintro path hpath _ hother rfl
        obtain ⟨path, _, rfl⟩ := List.mem_map.mp hpath
        exact hapart _ hother rfl

theorem path_inj {path path' : List ObjID} (hpath : ∀ s ∈ path, 46 ∉ s)
    (hpath' : ∀ s ∈ path', 46 ∉ s)
    (h : pre ++ path.flatMap (46 :: ·) = pre ++ path'.flatMap (46 :: ·)) : path = path' := by
  have hjoin : ∀ (s : ObjID) (path : List ObjID),
      List.intercalate [46] (s :: path) = s ++ path.flatMap (46 :: ·) := by
    intro s path
    induction path generalizing s with
    | nil => simp
    | cons next path ih =>
        rw [List.intercalate_cons_cons, ih, List.flatMap_cons, List.append_assoc]
        rfl
  have hempty : (46 : UInt8) ∉ ([] : ObjID) := List.not_mem_nil
  have hall := intercalate_inj (List.cons_ne_nil [] path) (List.cons_ne_nil [] path')
    (List.forall_mem_cons.mpr ⟨hempty, hpath⟩) (List.forall_mem_cons.mpr ⟨hempty, hpath'⟩)
    (by rw [hjoin, hjoin, List.append_cancel_left h])
  exact (List.cons.inj hall).2

end Names

section Translating

theorem siblingsDiffer_append {f g : Forest Elem} : SiblingsDiffer (f ++ g) ↔
    SiblingsDiffer f ∧ SiblingsDiffer g ∧ ∀ child ∈ f.roots, child ∉ g.roots := by
  induction f with
  | nil => simp [SiblingsDiffer, roots]
  | cons child below rest _ ih =>
      simp only [cons_append, SiblingsDiffer, roots_append, ih, roots, List.mem_append, not_or,
        List.forall_mem_cons]
      constructor
      · rintro ⟨⟨hrest, hg⟩, hbelow, hdiffer, hlast, hapart⟩
        exact ⟨⟨hrest, hbelow, hdiffer⟩, hlast, hg, hapart⟩
      · rintro ⟨⟨hrest, hbelow, hdiffer⟩, hlast, hg, hapart⟩
        exact ⟨⟨hrest, hg⟩, hbelow, hdiffer, hlast, hapart⟩

theorem map_translate (topology : Forest (Option Kind)) (index : ℕ) :
    (translate topology index).1.map Elem.kind = contract topology := by
  induction topology generalizing index with
  | nil => rfl
  | cons kind below rest ihBelow ihRest =>
      cases kind with
      | some kind => simp only [translate, contract, map, ihBelow, ihRest]
      | none => simp only [translate, contract, map_append, ihBelow, ihRest]

theorem translate_index (topology : Forest (Option Kind)) (index : ℕ) :
    index ≤ (translate topology index).2 ∧
      ∀ child ∈ (translate topology index).1.roots,
        index ≤ child.index ∧ child.index < (translate topology index).2 := by
  induction topology generalizing index with
  | nil => exact ⟨Nat.le_refl _, fun _ hchild => by cases hchild⟩
  | cons kind below rest ihBelow ihRest =>
      cases kind with
      | some kind =>
          obtain ⟨hle, hroots⟩ := ihRest (index + 1)
          simp only [translate, roots, List.forall_mem_cons]
          refine ⟨by omega, ⟨Nat.le_refl _, hle⟩, fun child hchild => ?_⟩
          obtain ⟨hlow, hhigh⟩ := hroots child hchild
          exact ⟨by omega, hhigh⟩
      | none =>
          obtain ⟨hleBelow, hrootsBelow⟩ := ihBelow index
          obtain ⟨hleRest, hrootsRest⟩ := ihRest (translate below index).2
          simp only [translate, roots_append, List.forall_mem_append]
          refine ⟨by omega, fun child hchild => ?_, fun child hchild => ?_⟩
          · obtain ⟨hlow, hhigh⟩ := hrootsBelow child hchild
            exact ⟨hlow, by omega⟩
          · obtain ⟨hlow, hhigh⟩ := hrootsRest child hchild
            exact ⟨by omega, hhigh⟩

theorem translate_differ (topology : Forest (Option Kind)) (index : ℕ) :
    SiblingsDiffer (translate topology index).1 := by
  induction topology generalizing index with
  | nil => exact trivial
  | cons kind below rest ihBelow ihRest =>
      cases kind with
      | some kind =>
          refine ⟨fun hmem => ?_, ihBelow 0, ihRest (index + 1)⟩
          have hlow := ((translate_index rest (index + 1)).2 _ hmem).1
          exact absurd hlow (Nat.not_succ_le_self index)
      | none =>
          refine siblingsDiffer_append.mpr ⟨ihBelow index, ihRest _, fun child hchild hmem => ?_⟩
          have hhigh := ((translate_index below index).2 child hchild).2
          have hlow := ((translate_index rest _).2 child hmem).1
          omega

theorem translate_nil {topology : Forest (Option Kind)} {index : ℕ}
    (h : (translate topology index).1 = .nil) : (translate topology index).2 = index := by
  induction topology generalizing index with
  | nil => rfl
  | cons kind below rest ihBelow ihRest =>
      cases kind with
      | some kind => cases h
      | none =>
          simp only [translate] at h ⊢
          cases hbelow : (translate below index).1 with
          | cons _ _ _ =>
              rw [hbelow] at h
              cases h
          | nil =>
              rw [hbelow, nil_append] at h
              rw [ihRest h, ihBelow hbelow]

theorem translate_first {topology : Forest (Option Kind)} {index : ℕ} {first : Elem}
    {below rest : Forest Elem} (h : (translate topology index).1 = .cons first below rest) :
    first.index = index := by
  induction topology generalizing index below rest with
  | nil => cases h
  | cons kind under later ihBelow ihRest =>
      cases kind with
      | some kind =>
          simp only [translate, cons.injEq] at h
          exact congrArg Elem.index h.1.symm
      | none =>
          simp only [translate] at h
          cases hbelow : (translate under index).1 with
          | cons _ _ _ =>
              rw [hbelow, cons_append, cons.injEq] at h
              exact ihBelow (h.1 ▸ hbelow)
          | nil =>
              rw [hbelow, nil_append] at h
              exact (ihRest h).trans (translate_nil hbelow)

end Translating

section Duplicating

variable {plat below : Forest Elem} {node : Elem}

@[simp] theorem deepClone_eq (f : Forest Elem) : deepClone f = f := by
  induction f with
  | nil => rfl
  | cons child below rest ihBelow ihRest => rw [deepClone, ihBelow, ihRest]

/-- The loop of `duplicate`, over the indices for the clones. -/
def addClones (node : Elem) (below plat : Forest Elem) (indices : List ℕ) : Forest Elem :=
  indices.foldl (fun plat i => plat ++ .cons { node with index := i } below .nil) plat

theorem roots_addClones (indices : List ℕ) : (addClones node below plat indices).roots =
    plat.roots ++ indices.map fun i => { node with index := i } := by
  induction indices generalizing plat with
  | nil => simp [addClones]
  | cons i indices ih =>
      rw [addClones, List.foldl_cons, ← addClones, ih]
      simp [roots]

theorem map_addClones (indices : List ℕ) : (addClones node below plat indices).map Elem.kind =
    plat.map Elem.kind ++ copies node.kind (below.map Elem.kind) indices.length := by
  induction indices generalizing plat with
  | nil => simp [addClones, copies]
  | cons i indices ih =>
      rw [addClones, List.foldl_cons, ← addClones, ih, map_append, Forest.append_assoc]
      rfl

theorem differ_addClones {indices : List ℕ} (hplat : SiblingsDiffer plat)
    (hbelow : SiblingsDiffer below) (hindices : indices.Nodup)
    (hnew : ∀ i ∈ indices, { node with index := i } ∉ plat.roots) :
    SiblingsDiffer (addClones node below plat indices) := by
  induction indices generalizing plat with
  | nil => exact hplat
  | cons i indices ih =>
      obtain ⟨hfirst, hlater⟩ := List.nodup_cons.mp hindices
      obtain ⟨hi, hrest⟩ := List.forall_mem_cons.mp hnew
      rw [addClones, List.foldl_cons, ← addClones]
      apply ih _ hlater
      · intro j hj hmem
        rw [roots_append, List.mem_append] at hmem
        rcases hmem with hold | hclone
        · exact hrest j hj hold
        · have hsame : j = i := congrArg Elem.index (List.mem_singleton.mp hclone)
          exact hfirst (hsame ▸ hj)
      · refine siblingsDiffer_append.mpr ⟨hplat, ⟨List.not_mem_nil, hbelow, trivial⟩, ?_⟩
        intro child hchild hclone
        exact hi (List.mem_singleton.mp hclone ▸ hchild)

theorem duplicate_cons {rest : Forest Elem} (nodecount : ℕ) :
    duplicate (.cons node below rest) nodecount =
      some (addClones node below (.cons node below rest) (List.range' 1 (nodecount - 1))) := by
  unfold duplicate
  by_cases hone : nodecount ≤ 1
  · have hnone : nodecount - 1 = 0 := by omega
    rw [if_pos hone, hnone]
    rfl
  · rw [if_neg hone]
    simp only [deepClone_eq]
    rfl

end Duplicating

section Reproducing

variable {xml : XmlConfig} {pre : ObjID} {plat : Forest Elem}

/-- What `flatten` makes of the elements below the platform, if no name is cut. -/
def config (plat : Forest Elem) : XmlConfig :=
  ⟨⟨platName, "Platform", none, [], plat.roots.map Elem.short, []⟩ :: objsOf platName plat⟩

theorem findObject_of_mem (hdistinct : (xml.objects.map (·.name)).Nodup) {obj : XmlObj}
    (hobj : obj ∈ xml.objects) : xml.findObject obj.name = some obj := by
  cases hfound : xml.findObject obj.name with
  | none =>
      have hnone := List.find?_eq_none.mp hfound obj hobj
      exact absurd (decide_eq_true rfl) hnone
  | some other =>
      have hother := List.mem_of_find?_eq_some hfound
      rw [List.inj_on_of_nodup_map hdistinct hother hobj (XmlConfig.findObject_name hfound)]

theorem recovered_label (hfound : ∀ obj ∈ objsOf pre plat, xml.findObject obj.name = some obj) :
    Recovered xml pre (label pre plat) := by
  induction plat generalizing pre with
  | nil => exact trivial
  | cons child below rest ihBelow ihRest =>
      simp only [objsOf, List.forall_mem_cons, List.forall_mem_append] at hfound
      obtain ⟨hobj, hbelow, hrest⟩ := hfound
      refine ⟨XmlConfig.findParent_childName pre child.dot_not_mem_short, ?_, ihBelow hbelow,
        ihRest hrest⟩
      rw [XmlConfig.findChildren_eq_ok]
      refine ⟨_, hobj, ?_⟩
      rw [roots_label, List.map_map, List.map_map]
      rfl

theorem children_config : (config plat).findChildren platName =
    .ok (plat.roots.map fun child => XmlConfig.childName platName child.short) := by
  rw [XmlConfig.findChildren_eq_ok]
  refine ⟨⟨platName, "Platform", none, [], plat.roots.map Elem.short, []⟩, ?_, ?_⟩
  · simp [config, XmlConfig.findObject]
  · rw [List.map_map]
    rfl

theorem nodup_config (hdiffer : SiblingsDiffer plat) :
    ((config plat).objects.map (·.name)).Nodup := by
  have hnames : (config plat).objects.map (·.name) =
      ([] :: steps plat).map fun path => platName ++ path.flatMap (46 :: ·) := by
    rw [config, List.map_cons, names_objsOf, List.map_cons, List.flatMap_nil, List.append_nil]
  have hdots : ∀ path ∈ [] :: steps plat, ∀ s ∈ path, 46 ∉ s := by
    rw [List.forall_mem_cons]
    exact ⟨fun _ hs => absurd hs List.not_mem_nil, fun path hpath => (mem_steps hpath).2⟩
  have htop : [] ∉ steps plat := by
    intro hmem
    obtain ⟨⟨_, _, hhead⟩, _⟩ := mem_steps hmem
    cases hhead
  rw [hnames]
  refine List.Nodup.map_on ?_ (List.nodup_cons.mpr ⟨htop, nodup_steps hdiffer⟩)
  exact fun path hpath path' hpath' => path_inj (hdots path hpath) (hdots path' hpath')

theorem config_reproduces (hdiffer : SiblingsDiffer plat) :
    Reproduces (config plat) (plat.map Elem.kind) (label platName plat) where
  shape := map_label
  distinct := nodup_config hdiffer
  objects := by
    rw [config, List.map_cons, map_objsOf]
  children := by
    rw [children_config, roots_label, List.map_map]
    rfl
  recovered := recovered_label fun _ hobj =>
    findObject_of_mem (nodup_config hdiffer) (List.mem_cons_of_mem _ hobj)

end Reproducing

section Topologies

variable {topology : Forest (Option Kind)} {nodecount : ℕ} {first : Elem} {below rest : Forest Elem}

theorem count_contract (kind : Kind) (topology : Forest (Option Kind)) :
    (contract topology).nodes.count kind = topology.nodes.count (some kind) := by
  induction topology with
  | nil => rfl
  | cons level below rest ihBelow ihRest =>
      cases level with
      | some other => simp [contract, nodes, List.count_cons, ihBelow, ihRest]
      | none => simp [contract, nodes, ihBelow, ihRest]

def nodesOf (first : Elem) (below rest : Forest Elem) (nodecount : ℕ) : Forest Elem :=
  addClones first below (.cons first below rest) (List.range' 1 (nodecount - 1))

theorem pwrgen_eq (hplat : (translate topology 0).1 = .cons first below rest)
    (hfits : Fits topology nodecount) :
    pwrgen topology nodecount = some (config (nodesOf first below rest nodecount)) := by
  have hdup : duplicate (translate topology 0).1 nodecount =
      some (nodesOf first below rest nodecount) := by
    rw [hplat]
    exact duplicate_cons nodecount
  simp only [pwrgen, hdup, flatten_eq (hfits _ hdup), Option.bind_eq_bind, Option.bind_some]
  rfl

theorem exists_first (hmachine : topology.nodes.count (some .machine) = 1) :
    ∃ first below rest, (translate topology 0).1 = .cons first below rest := by
  cases hplat : (translate topology 0).1 with
  | cons first below rest => exact ⟨first, below, rest, rfl⟩
  | nil =>
      have hnil := map_translate topology 0
      rw [hplat] at hnil
      rw [← count_contract, ← hnil] at hmachine
      cases hmachine

theorem contract_eq (hplat : (translate topology 0).1 = .cons first below rest) :
    contract topology = .cons first.kind (below.map Elem.kind) (rest.map Elem.kind) := by
  rw [← map_translate topology 0, hplat, map]

theorem preserves_of_first (hmachine : topology.nodes.count (some .machine) = 1)
    (hplat : (translate topology 0).1 = .cons first below rest)
    (hfirst : nodecount ≤ 1 ∨ first.kind = .machine) (hfits : Fits topology nodecount) :
    Preserves topology nodecount := by
  have hcontract := contract_eq hplat
  have hnew : ∀ i ∈ List.range' 1 (nodecount - 1),
      { first with index := i } ∉ (Forest.cons first below rest).roots := by
    intro i hi hmem
    rw [List.mem_range'_1] at hi
    rcases hfirst with hone | hkind
    · omega
    · rcases List.mem_cons.mp hmem with hsame | hlater
      · have hzero := translate_first hplat
        have hindex : i = first.index := congrArg Elem.index hsame
        omega
      · have hother : Kind.machine ∈ (rest.map Elem.kind).nodes := by
          have hclone : first.kind ∈ rest.roots.map Elem.kind :=
            List.mem_map.mpr ⟨_, hlater, rfl⟩
          apply mem_nodes_of_mem_roots
          rw [roots_map, ← hkind]
          exact hclone
        have hpos := List.count_pos_iff.mpr hother
        rw [← count_contract, hcontract, nodes, hkind, List.count_cons_self, List.count_append]
          at hmachine
        omega
  have hdiffer : SiblingsDiffer (Forest.cons first below rest) := hplat ▸ translate_differ topology 0
  have hshape : (nodesOf first below rest nodecount).map Elem.kind = expected topology nodecount := by
    rw [nodesOf, map_addClones, List.length_range', map, ← hcontract, expected]
    rcases hfirst with hone | hkind
    · have hnone : nodecount - 1 = 0 := by omega
      rw [hnone]
      cases (contract topology).find? (· = .machine) with
      | some found => rfl
      | none => exact append_nil _
    · simp only [hcontract, find?, hkind, decide_true, if_true]
  refine ⟨_, pwrgen_eq hplat hfits, _, hshape ▸ config_reproduces ?_⟩
  exact differ_addClones hdiffer hdiffer.2.1 List.nodup_range' hnew

theorem expected_last (hmachine : topology.nodes.count (some .machine) = 1) (hmany : 1 < nodecount) :
    (expected topology nodecount).roots.getLast? = some .machine := by
  obtain ⟨last, hlast⟩ : ∃ last, nodecount - 1 = last + 1 := ⟨nodecount - 2, by omega⟩
  have hpos : Kind.machine ∈ (contract topology).nodes := by
    rw [← List.count_pos_iff, count_contract, hmachine]
    exact Nat.one_pos
  obtain ⟨⟨kind, under⟩, hfind⟩ := find?_isSome (p := (· = .machine)) hpos (decide_eq_true rfl)
  have hp := find?_fst hfind
  have hkind : kind = .machine := of_decide_eq_true hp
  rw [expected, hfind, roots_append, roots_copies, hlast, hkind, List.replicate_succ',
    ← List.append_assoc, List.getLast?_concat]

theorem nodesOf_last (hmany : 1 < nodecount) :
    ∃ i, (nodesOf first below rest nodecount).roots.getLast? = some { first with index := i } := by
  obtain ⟨last, hlast⟩ : ∃ last, nodecount - 1 = last + 1 := ⟨nodecount - 2, by omega⟩
  refine ⟨1 + last, ?_⟩
  rw [nodesOf, roots_addClones, hlast, List.range'_1_concat, List.map_append,
    ← List.append_assoc, List.map_singleton, List.getLast?_concat]

theorem Reproduces.type_unique {xml : XmlConfig} {tree : Forest Kind}
    {named : Forest (ObjID × Kind)} (h : Reproduces xml tree named) {name : ObjID}
    {type type' : String} (hmem : (name, type) ∈ xml.objects.map fun obj => (obj.name, obj.type))
    (hmem' : (name, type') ∈ xml.objects.map fun obj => (obj.name, obj.type)) : type = type' := by
  obtain ⟨obj, hobj, hpair⟩ := List.mem_map.mp hmem
  obtain ⟨obj', hobj', hpair'⟩ := List.mem_map.mp hmem'
  obtain ⟨hname, rfl⟩ := Prod.mk.inj hpair
  obtain ⟨hname', rfl⟩ := Prod.mk.inj hpair'
  rw [List.inj_on_of_nodup_map h.distinct hobj hobj' (hname.trans hname'.symm)]

theorem first_of_preserves (hmachine : topology.nodes.count (some .machine) = 1)
    (hplat : (translate topology 0).1 = .cons first below rest) (hfits : Fits topology nodecount)
    (h : Preserves topology nodecount) : nodecount ≤ 1 ∨ first.kind = .machine := by
  by_cases hone : nodecount ≤ 1
  · exact .inl hone
  · have hmany : 1 < nodecount := Nat.lt_of_not_le hone
    obtain ⟨xml, hxml, named, hrep⟩ := h
    obtain rfl := Option.some.inj ((pwrgen_eq hplat hfits).symm.trans hxml)
    have htree : (named.roots.map Prod.snd).getLast? = some Kind.machine := by
      rw [← roots_map, hrep.shape, expected_last hmachine hmany]
    obtain ⟨i, hclone⟩ := @nodesOf_last nodecount first below rest hmany
    have hnames : named.roots.map Prod.fst = (nodesOf first below rest nodecount).roots.map
        fun child => XmlConfig.childName platName child.short :=
      Except.ok.inj (hrep.children.symm.trans children_config)
    have hname := congrArg List.getLast? hnames
    rw [List.getLast?_map, List.getLast?_map, hclone] at hname
    rw [List.getLast?_map] at htree
    obtain ⟨⟨name, _⟩, hobj, rfl⟩ := Option.map_eq_some_iff.mp htree
    rw [hobj, Option.map_some, Option.map_some, Option.some.injEq] at hname
    -- both are the object of one name
    have hwanted : (name, "Node") ∈ (config (nodesOf first below rest nodecount)).objects.map
        fun obj => (obj.name, obj.type) := by
      have hnode := mem_nodes_of_mem_roots (List.mem_of_getLast? hobj)
      exact hrep.objects.mem_iff.mp (List.mem_cons_of_mem _ (List.mem_map.mpr ⟨_, hnode, rfl⟩))
    have hmade : (name, first.kind.type) ∈
        (config (nodesOf first below rest nodecount)).objects.map fun obj => (obj.name, obj.type) := by
      rw [config, List.map_cons, map_objsOf]
      refine List.mem_cons_of_mem _ (List.mem_map.mpr ⟨(name, first.kind), ?_, rfl⟩)
      apply mem_nodes_of_mem_roots
      rw [roots_label]
      exact List.mem_map.mpr ⟨_, List.mem_of_getLast? hclone, by rw [← hname]⟩
    exact .inr (Kind.type_inj (hrep.type_unique hmade hwanted))

/-- The topology is preserved if and only if there is one node, or the machine is the first
object that is not left out. -/
theorem pwrgen_preserves_iff (hmachine : topology.nodes.count (some .machine) = 1)
    (hfits : Fits topology nodecount) : Preserves topology nodecount ↔
      nodecount ≤ 1 ∨ (contract topology).roots.head? = some .machine := by
  obtain ⟨first, below, rest, hplat⟩ := exists_first hmachine
  have hhead : (contract topology).roots.head? = some first.kind := by
    rw [contract_eq hplat]
    rfl
  rw [hhead, Option.some.injEq]
  exact ⟨first_of_preserves hmachine hplat hfits,
    fun hfirst => preserves_of_first hmachine hplat hfirst hfits⟩

def twoSockets : Forest (Option Kind) :=
  .cons none (.cons (some .machine) (.cons (some .socket) .nil (.cons (some .socket) .nil .nil))
    .nil) .nil

theorem twoSockets_fits : Fits twoSockets 2 := by
  intro plat hplat
  obtain rfl := Option.some.inj hplat
  decide

theorem pwrgen_preserves_iff_twoSockets : Preserves twoSockets 2 ↔
    2 ≤ 1 ∨ (contract twoSockets).roots.head? = some .machine :=
  pwrgen_preserves_iff rfl twoSockets_fits

def socketFirst : Forest (Option Kind) :=
  .cons (some .socket) .nil (.cons (some .machine) .nil .nil)

theorem socketFirst_fits : Fits socketFirst 2 := by
  intro plat hplat
  obtain rfl := Option.some.inj hplat
  decide

/-- The socket comes twice, and the machine once. -/
theorem socket_is_duplicated :
    socketFirst.nodes.count (some .machine) = 1 ∧ Fits socketFirst 2 ∧ ¬ Preserves socketFirst 2 := by
  refine ⟨rfl, socketFirst_fits, fun hpreserves => ?_⟩
  rcases first_of_preserves rfl rfl socketFirst_fits hpreserves with hone | hkind
  · exact absurd hone (by decide)
  · cases hkind

end Topologies

end PwrApi.Pwrgen
