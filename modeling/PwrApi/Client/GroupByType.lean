import PwrApi.Client.Walks

/-! The groups of all objects of a type, `getGrp` of `cntxt.cc`: what they are to have, and
when they do. -/

namespace PwrApi

open Function Relation Runs Walk

variable {V : Type}

namespace DistGrp

variable {α : Type} [DecidableEq α] {remote : α → Bool} {all xs : List α} {x : α}

/-- `m_allObjs` after an object more: only the remote ones are looked for first. -/
def push (remote : α → Bool) (all : List α) (x : α) : List α :=
  if remote x = true ∧ x ∈ all then all else all ++ [x]

theorem mem_foldl_push : x ∈ xs.foldl (push remote) all ↔ x ∈ all ∨ x ∈ xs := by
  induction xs generalizing all with
  | nil => simp
  | cons y xs ih =>
      rw [List.foldl_cons, ih, List.mem_cons, ← or_assoc]
      apply or_congr_left
      by_cases hknown : remote y = true ∧ y ∈ all
      · rw [push, if_pos hknown]
        refine ⟨.inl, fun h => h.elim id ?_⟩
        rintro rfl
        exact hknown.2
      · simp [push, hknown]

theorem count_foldl_push [BEq α] [LawfulBEq α] (hlocal : remote x = false) :
    (xs.foldl (push remote) all).count x = all.count x + xs.count x := by
  induction xs generalizing all with
  | nil => rfl
  | cons y xs ih =>
      rw [List.foldl_cons, ih, List.count_cons]
      by_cases hxy : y = x
      · subst hxy
        simp [push, hlocal]
        omega
      · by_cases hknown : remote y = true ∧ y ∈ all
        · simp [push, hknown, hxy]
        · simp [push, hknown, hxy]

theorem foldl_push_eq [BEq α] [LawfulBEq α] (hlocal : ∀ x, remote x = false → xs.count x ≤ 1) :
    xs.foldl (push remote) [] = Grp.distinct xs := by
  induction xs using List.reverseRecOn with
  | nil => rfl
  | append_singleton xs x ih =>
      have hbefore : ∀ y, remote y = false → xs.count y ≤ 1 := by
        intro y hy
        have hcount := hlocal y hy
        rw [List.count_append] at hcount
        omega
      rw [List.foldl_append, ih hbefore, ← Grp.add_distinct]
      by_cases hmem : x ∈ xs
      · have hremote : remote x = true := by
          cases hx : remote x with
          | true => rfl
          | false =>
              have hcount := hlocal x hx
              have hpos := List.count_pos_iff.mpr hmem
              rw [List.count_append, List.count_singleton_self] at hcount
              omega
        simp [push, Grp.add, hremote, hmem]
      · simp [push, Grp.add, hmem]

end DistGrp

namespace XmlCntxt

/-- The type in the configuration is the name of `type`. -/
def Typed (cntxt : XmlCntxt V) (type : ObjType) (name : ObjID) : Prop :=
  ∃ elm, cntxt.xml.findObject name = some elm ∧ elm.type = type.toString

/-- An object above it, at or below the root, is of the type. -/
def UnderTyped (cntxt : XmlCntxt V) (type : ObjType) (name : ObjID) : Prop :=
  ∃ above, Below cntxt.xml.listed cntxt.rootName above ∧ cntxt.Typed type above ∧
    StrictlyBelow cntxt.xml.listed above name

open Classical in
/-- What a group of all objects of a type is to have: the highest ones of the type, each once
and in depth-first order. -/
noncomputable def highest (cntxt : XmlCntxt V) (type : ObjType) : List ObjID :=
  Grp.distinct ((order cntxt.xml.listed cntxt.fuel cntxt.rootName).filter fun name =>
    cntxt.Typed type name ∧ ¬ cntxt.UnderTyped type name)

section Highest

variable {cntxt : XmlCntxt V} {type : ObjType} {name : ObjID}

theorem mem_order_listed : name ∈ order cntxt.xml.listed cntxt.fuel cntxt.rootName ↔
    Below cntxt.xml.listed cntxt.rootName name :=
  mem_order_iff (fun _ _ => XmlConfig.rank_listed) (rank_lt_fuel _)

theorem mem_highest : name ∈ cntxt.highest type ↔
    Below cntxt.xml.listed cntxt.rootName name ∧ cntxt.Typed type name ∧
      ¬ cntxt.UnderTyped type name := by
  simp [highest, mem_order_listed]

theorem Typed.objType (h : cntxt.Typed type name) :
    cntxt.xml.objType name = XmlConfig.objTypeStrToInt type.toString := by
  obtain ⟨elm, helm, htype⟩ := h
  rw [XmlConfig.objType, helm, ← htype]

theorem exists_highest (hbelow : Below cntxt.xml.listed cntxt.rootName name)
    (htyped : cntxt.Typed type name) : ∃ top, top ∈ cntxt.highest type := by
  induction hrank : cntxt.fuel - cntxt.xml.rank name using Nat.strong_induction_on
    generalizing name with
  | _ n ih =>
      by_cases hunder : cntxt.UnderTyped type name
      · obtain ⟨above, habove, htypedAbove, hstrict⟩ := hunder
        have hless := hstrict.rank_lt fun _ _ => XmlConfig.rank_listed
        have hfuel : cntxt.xml.rank above < cntxt.fuel := rank_lt_fuel above
        exact ih _ (by omega) habove htypedAbove rfl
      · exact ⟨name, mem_highest.mpr ⟨hbelow, htyped, hunder⟩⟩

def hits (cntxt : XmlCntxt V) (type : ObjType) (names : List ObjID) : List ObjID :=
  names.filter fun name => cntxt.xml.objType name = type

theorem count_hits (htype : cntxt.xml.objType name = type) (names : List ObjID) :
    (cntxt.hits type names).count name = names.count name :=
  List.count_filter (by simpa using htype)

end Highest

variable [Zero V] [Add V] [Div V] [NatCast V]

/-- The group has these objects, and there is none exactly if there are no such objects. -/
def ExactGrp (cntxt : XmlCntxt V) (type : ObjType) (s : ObjMap V) : Prop :=
  ∃ grp t, cntxt.getGrp s type = .ok (grp, t) ∧
    match grp with
    | none => cntxt.highest type = []
    | some grp => cntxt.highest type ≠ [] ∧ t.Points (cntxt.highest type) grp.allObjs

def isRemote (cntxt : XmlCntxt V) (name : ObjID) : Bool :=
  match cntxt.toDistCntxt.createObject cntxt.fuel name with
  | .ok obj => !obj.isLocal
  | .error _ => false

/-- All objects that the search comes to can be made, and are converted to the type if and
only if they are of it; those of the type have none of the type above them; and the search
comes to the local ones of these in one way only. -/
structure Searchable (cntxt : XmlCntxt V) (type : ObjType) : Prop where
  made : ∀ name, Below (cntxt.nextType type) cntxt.rootName name → cntxt.Makeable name
  converts : ∀ name, Below (cntxt.nextType type) cntxt.rootName name →
    (cntxt.xml.objType name = type ↔ cntxt.Typed type name)
  highest : ∀ name, Below (cntxt.nextType type) cntxt.rootName name → cntxt.Typed type name →
    ¬ cntxt.UnderTyped type name
  once : ∀ name, Below (cntxt.nextType type) cntxt.rootName name → cntxt.Typed type name →
    cntxt.isRemote name = false →
    (order (cntxt.nextType type) cntxt.fuel cntxt.rootName).count name ≤ 1

variable {cntxt : XmlCntxt V} {type : ObjType} {s t : ObjMap V} {grp : DistGrp ℕ}
  {members : List ObjID} {name : ObjID}

/-- The group has the objects of `members`, of which the remote ones can be looked for. -/
structure Gathers (s : ObjMap V) (members : List ObjID) (grp : DistGrp ℕ) : Prop where
  all : s.Points members grp.allObjs
  dist : ∀ obj, obj ∈ grp.distObjs ↔
    obj ∈ grp.allObjs ∧ ∃ o, s.objs[obj]? = some o ∧ o.isLocal = false

theorem isRemote_made {o : CntxtObject V} (h : cntxt.Makes name type o.toDistObject) :
    cntxt.isRemote name = !o.isLocal := by
  rw [isRemote, h.2.2]

theorem mem_allObjs (h : cntxt.Sound s) (hall : s.Points members grp.allObjs) {obj : ℕ}
    (hname : s.objMap name = some obj) : obj ∈ grp.allObjs ↔ name ∈ members := by
  constructor
  · intro hobj
    obtain ⟨other, hother, hmap⟩ := hall.exists_name hobj
    obtain ⟨o, ho, rfl⟩ := (h.key name obj).mp hname
    obtain ⟨o', ho', rfl⟩ := (h.key other obj).mp hmap
    obtain rfl := Option.some.inj (ho.symm.trans ho')
    exact hother
  · intro hmember
    obtain ⟨obj', hobj', hmap⟩ := hall.exists_obj hmember
    rw [hname] at hmap
    rwa [Option.some.inj hmap]

theorem Gathers.mono (h : cntxt.Sound s) (hst : s.Extends t) (hgathers : Gathers s members grp) :
    Gathers t members grp where
  all := hgathers.all.mono hst
  dist := by
    intro obj
    rw [hgathers.dist]
    refine and_congr_right fun hobj => ?_
    obtain ⟨name, _, hname⟩ := hgathers.all.exists_name hobj
    obtain ⟨o, ho, _⟩ := (h.key name obj).mp hname
    obtain ⟨o', ho', hdist, _⟩ := hst.objs obj o ho
    simp [ho, ho', hdist]

theorem Gathers.add (h : cntxt.Sound s) (hgathers : Gathers s members grp) {obj : ℕ}
    {o : CntxtObject V} (ho : s.objs[obj]? = some o) :
    Gathers s (DistGrp.push cntxt.isRemote members o.name)
      (grp.add (fun _ => o.toDistObject) obj).2 := by
  have hname := (h.key o.name obj).mpr ⟨o, ho, rfl⟩
  have hmem := mem_allObjs h hgathers.all hname
  have hremote := isRemote_made (h.right obj o ho).made
  have hdist := hgathers.dist obj
  simp only [ho, Option.some.injEq, exists_eq_left'] at hdist
  cases hlocal : o.isLocal with
  | true =>
      rw [hlocal, Bool.not_true] at hremote
      rw [hlocal] at hdist
      simp only [DistGrp.add, hlocal, if_true]
      have hpush : DistGrp.push cntxt.isRemote members o.name = members ++ [o.name] := by
        simp [DistGrp.push, hremote]
      rw [hpush]
      refine ⟨hgathers.all.concat hname, fun other => ?_⟩
      by_cases hother : other = obj
      · subst hother
        simp [hdist, ho, hlocal]
      · simp [hgathers.dist other, hother]
  | false =>
      rw [hlocal, Bool.not_false] at hremote
      by_cases hknown : obj ∈ grp.distObjs
      · simp only [DistGrp.add, hlocal, Bool.false_eq_true, hknown, if_true, if_false]
        have hpush : DistGrp.push cntxt.isRemote members o.name = members := by
          simp [DistGrp.push, hremote, hmem.mp (hdist.mp hknown).1]
        rwa [hpush]
      · simp only [DistGrp.add, hlocal, Bool.false_eq_true, hknown, if_false]
        have hnew : o.name ∉ members := fun hmember =>
          hknown (hdist.mpr ⟨hmem.mpr hmember, hlocal⟩)
        have hpush : DistGrp.push cntxt.isRemote members o.name = members ++ [o.name] := by
          simp [DistGrp.push, hnew]
        rw [hpush]
        refine ⟨hgathers.all.concat hname, fun other => ?_⟩
        by_cases hother : other = obj
        · subst hother
          simp [ho, hlocal]
        · simp [hgathers.dist other, hother]

/-- From one state to another the objects of the type among those of some names are added. -/
def Adds (cntxt : XmlCntxt V) (type : ObjType) (found : ObjMap V × DistGrp ℕ) (names : List ObjID)
    (found' : ObjMap V × DistGrp ℕ) : Prop :=
  ∀ members, Gathers found.1 members found.2 →
    Gathers found'.1 ((cntxt.hits type names).foldl (DistGrp.push cntxt.isRemote) members) found'.2

theorem Adds.append {found found' found'' : ObjMap V × DistGrp ℕ} {names names' : List ObjID}
    (h : cntxt.Adds type found names found') (h' : cntxt.Adds type found' names' found'') :
    cntxt.Adds type found (names ++ names') found'' := by
  intro members hgathers
  rw [hits, List.filter_append, List.foldl_append]
  exact h' _ (h members hgathers)

theorem visitType_adds {found found' : ObjMap V × DistGrp ℕ} {below : List ObjID}
    (h : cntxt.Sound found.1) (hvisit : cntxt.visitType type found name = .ok (found', below)) :
    cntxt.Adds type found [name] found' := by
  intro members hgathers
  simp only [visitType, bind_eq_ok, Prod.exists, orFault_eq_ok] at hvisit
  obtain ⟨obj, s, hassert, o, ho, hvisit⟩ := hvisit
  obtain ⟨hsound, hextends, hmap⟩ := assertObject_spec h hassert
  obtain ⟨o', ho', rfl⟩ := (hsound.key name obj).mp hmap
  obtain rfl := Option.some.inj (ho.symm.trans ho')
  obtain ⟨htype, _⟩ := (hsound.right obj o ho).made
  have hmid := hgathers.mono h hextends
  by_cases hsame : o.type = type
  · simp only [if_pos hsame, Except.ok.injEq, Prod.mk.injEq] at hvisit
    obtain ⟨rfl, _⟩ := hvisit
    have hhit : cntxt.hits type [o.name] = [o.name] := by simp [hits, htype, hsame]
    rw [hhit]
    exact hmid.add hsound ho
  · simp only [if_neg hsame, bind_eq_ok, Except.ok.injEq, Prod.mk.injEq] at hvisit
    obtain ⟨_, _, rfl, _⟩ := hvisit
    have hmiss : cntxt.hits type [o.name] = [] := by simp [hits, htype, hsame]
    rw [hmiss]
    exact hmid

theorem findAllObjType_gathers (h : cntxt.Sound s) {obj : ℕ} (hname : s.objMap name = some obj)
    (hgathers : Gathers s members grp) {grp' : DistGrp ℕ}
    (hfind : cntxt.findAllObjType type cntxt.fuel obj (s, grp) = .ok (t, grp')) :
    Gathers t ((cntxt.hits type (order (cntxt.nextType type) cntxt.fuel name)).foldl
      (DistGrp.push cntxt.isRemote) members) grp' ∧ cntxt.Sound t := by
  rw [findAllObjType_eq_walk h hname (rank_lt_fuel name)] at hfind
  have heffect : ∀ (found : ObjMap V × DistGrp ℕ) name found' below, cntxt.Sound found.1 →
      cntxt.visitType type found name = .ok (found', below) →
      cntxt.Adds type found [name] found' ∧ cntxt.Sound found'.1 ∧
        below = cntxt.nextType type name := by
    intro found name found' below hsound hvisit
    exact ⟨visitType_adds hsound hvisit, visitType_sound hsound hvisit⟩
  have hnil : ∀ found, cntxt.Adds type found [] found := fun _ _ hsame => hsame
  obtain ⟨hadds, hsound⟩ := walk_effect hnil Adds.append heffect h hfind
  exact ⟨hadds members hgathers, hsound⟩

theorem Points.unique (h : cntxt.Sound s) {names names' : List ObjID} {objs : List ℕ}
    (hpoints : s.Points names objs) (hpoints' : s.Points names' objs) : names = names' := by
  refine List.left_unique_forall₂' ?_ hpoints hpoints'
  intro name other obj hname hother
  obtain ⟨o, ho, rfl⟩ := (h.key name obj).mp hname
  obtain ⟨o', ho', rfl⟩ := (h.key other obj).mp hother
  rw [Option.some.inj (ho.symm.trans ho')]

def gathered (cntxt : XmlCntxt V) (type : ObjType) : List ObjID :=
  (cntxt.hits type (order (cntxt.nextType type) cntxt.fuel cntxt.rootName)).foldl
    (DistGrp.push cntxt.isRemote) []

theorem getGrp_gathers (h : cntxt.Sound s) (hroot : s.objMap cntxt.rootName = some s.rootObj)
    {found : DistGrp ℕ}
    (hfind : cntxt.findAllObjType type cntxt.fuel s.rootObj (s, .empty) = .ok (t, found)) :
    cntxt.Sound t ∧ t.Points (cntxt.gathered type) found.allObjs ∧
      (found.size = 0 ↔ cntxt.gathered type = []) := by
  have hempty : Gathers s [] (.empty : DistGrp ℕ) := ⟨.nil, fun obj => by simp [DistGrp.empty]⟩
  obtain ⟨hgathers, hsound⟩ := findAllObjType_gathers h hroot hempty hfind
  refine ⟨hsound, hgathers.all, ?_⟩
  rw [DistGrp.size, ← hgathers.all.length_eq, List.length_eq_zero_iff]
  exact Iff.rfl

theorem exactGrp_iff (h : cntxt.Sound s) (hroot : s.objMap cntxt.rootName = some s.rootObj) :
    cntxt.ExactGrp type s ↔
      (∀ name, Below (cntxt.nextType type) cntxt.rootName name → cntxt.Makeable name) ∧
        cntxt.gathered type = cntxt.highest type := by
  have hends : (∃ r, cntxt.findAllObjType type cntxt.fuel s.rootObj (s, .empty) = .ok r) ↔ _ :=
    findAllObjType_isOk_iff h hroot
  rw [← hends]
  constructor
  · rintro ⟨grp, t, hgrp, hexact⟩
    simp only [getGrp, bind_eq_ok, Prod.exists] at hgrp
    obtain ⟨u, found, hfind, hgrp⟩ := hgrp
    obtain ⟨hsound, hpoints, hsize⟩ := getGrp_gathers h hroot hfind
    refine ⟨⟨_, hfind⟩, ?_⟩
    by_cases hnone : found.size = 0
    · simp only [if_pos hnone, Except.ok.injEq, Prod.mk.injEq] at hgrp
      obtain ⟨rfl, rfl⟩ := hgrp
      rw [hsize.mp hnone, hexact]
    · simp only [if_neg hnone, Except.ok.injEq, Prod.mk.injEq] at hgrp
      obtain ⟨rfl, rfl⟩ := hgrp
      exact Points.unique hsound hpoints hexact.2
  · rintro ⟨⟨⟨u, found⟩, hfind⟩, hsame⟩
    obtain ⟨_, hpoints, hsize⟩ := getGrp_gathers h hroot hfind
    rw [hsame] at hpoints hsize
    by_cases hnone : found.size = 0
    · exact ⟨none, u, by simp [getGrp, hfind, hnone], hsize.mp hnone⟩
    · exact ⟨some found, u, by simp [getGrp, hfind, hnone], fun hnil => hnone (hsize.mpr hnil), hpoints⟩

theorem mem_gathered : name ∈ cntxt.gathered type ↔
    Below (cntxt.nextType type) cntxt.rootName name ∧ cntxt.xml.objType name = type := by
  have horder : name ∈ order (cntxt.nextType type) cntxt.fuel cntxt.rootName ↔ _ :=
    mem_order_iff (fun _ _ => rank_nextType) (rank_lt_fuel _)
  simp [gathered, DistGrp.mem_foldl_push, hits, horder]

theorem count_gathered (htype : cntxt.xml.objType name = type)
    (hlocal : cntxt.isRemote name = false) : (cntxt.gathered type).count name =
      (order (cntxt.nextType type) cntxt.fuel cntxt.rootName).count name := by
  rw [gathered, DistGrp.count_foldl_push hlocal, List.count_nil, Nat.zero_add, count_hits htype]

theorem Searchable.gathered_eq (h : cntxt.Searchable type) :
    cntxt.gathered type = cntxt.highest type := by
  classical
  have hfilter : (order cntxt.xml.listed cntxt.fuel cntxt.rootName).filter
      (fun name => decide (cntxt.Typed type name ∧ ¬ cntxt.UnderTyped type name)) =
      cntxt.hits type (order (cntxt.nextType type) cntxt.fuel cntxt.rootName) := by
    have hnext : ∀ name, cntxt.nextType type name =
        if cntxt.xml.objType name = type then [] else cntxt.xml.listed name := fun _ => rfl
    rw [filter_order hnext]
    · apply List.filter_congr
      intro name hname
      have hbelow := mem_order hname
      rw [decide_eq_decide, h.converts name hbelow]
      exact ⟨And.left, fun htyped => ⟨htyped, h.highest name hbelow htyped⟩⟩
    · intro above name habove htype hstrict
      have htyped := (h.converts above habove).mp htype
      have hunder : cntxt.UnderTyped type name :=
        ⟨above, habove.mono fun _ _ => mem_nextType, htyped, hstrict⟩
      simp [hunder]
  have honce : ∀ name, cntxt.isRemote name = false →
      (cntxt.hits type (order (cntxt.nextType type) cntxt.fuel cntxt.rootName)).count name ≤ 1 := by
    intro name hlocal
    by_cases hmem : name ∈ cntxt.hits type (order (cntxt.nextType type) cntxt.fuel cntxt.rootName)
    · obtain ⟨hname, htype⟩ := List.mem_filter.mp hmem
      have hbelow := mem_order hname
      rw [count_hits (of_decide_eq_true htype)]
      exact h.once name hbelow ((h.converts name hbelow).mp (of_decide_eq_true htype)) hlocal
    · rw [List.count_eq_zero_of_not_mem hmem]
      exact Nat.zero_le 1
  rw [gathered, DistGrp.foldl_push_eq honce, XmlCntxt.highest, ← hfilter]

theorem searchable_of_gathered_eq
    (hmade : ∀ name, Below (cntxt.nextType type) cntxt.rootName name → cntxt.Makeable name)
    (h : cntxt.gathered type = cntxt.highest type) : cntxt.Searchable type := by
  have hhit : ∀ name, Below (cntxt.nextType type) cntxt.rootName name →
      cntxt.xml.objType name = type → cntxt.Typed type name ∧ ¬ cntxt.UnderTyped type name := by
    intro name hbelow htype
    have hmem := mem_gathered.mpr ⟨hbelow, htype⟩
    rw [h] at hmem
    exact (mem_highest.mp hmem).2
  have hconverts : ∀ name, Below (cntxt.nextType type) cntxt.rootName name →
      (cntxt.xml.objType name = type ↔ cntxt.Typed type name) := by
    intro name hbelow
    refine ⟨fun htype => (hhit name hbelow htype).1, fun htyped => ?_⟩
    obtain ⟨top, htop⟩ := exists_highest (hbelow.mono fun _ _ => mem_nextType) htyped
    have htypedTop := (mem_highest.mp htop).2.1
    rw [← h] at htop
    rw [htyped.objType, ← htypedTop.objType]
    exact (mem_gathered.mp htop).2
  refine ⟨hmade, hconverts, fun name hbelow htyped => ?_, fun name hbelow htyped hlocal => ?_⟩
  · exact (hhit name hbelow ((hconverts name hbelow).mpr htyped)).2
  · have htype := (hconverts name hbelow).mpr htyped
    rw [← count_gathered htype hlocal, h]
    exact List.nodup_iff_count_le_one.mp (Grp.nodup_distinct _) name

/-- Whatever calls are made before, a group by type is exact if and only if the search for it
can tell the type. -/
theorem getGrp_exact_iff {s₀ : ObjMap V} (hstart : cntxt.start = .ok s₀) {calls : List Call}
    (hrun : Run cntxt.step s₀ calls s) (type : ObjType) :
    cntxt.ExactGrp type s ↔ cntxt.Searchable type := by
  obtain ⟨hsound, hroot⟩ := run_sound hstart hrun
  rw [exactGrp_iff hsound hroot]
  constructor
  · rintro ⟨hmade, hgathered⟩
    exact searchable_of_gathered_eq hmade hgathered
  · exact fun h => ⟨h.made, h.gathered_eq⟩

theorem getGrp_exact_iff_board : ∃ s₀ s, boardCntxt.start = .ok s₀ ∧
    Run boardCntxt.step s₀ [.children 0, .parent 1] s ∧
    (boardCntxt.ExactGrp .board s ↔ boardCntxt.Searchable .board) := by
  obtain ⟨s₀, s, t, hstart, hchildren, hparent⟩ := boardCntxt_calls
  have hrun : Run boardCntxt.step s₀ [.children 0, .parent 1] t :=
    .cons hchildren (.cons hparent (.nil t))
  exact ⟨s₀, t, hstart, hrun, getGrp_exact_iff hstart hrun .board⟩

def memoryXml : XmlConfig where
  objects :=
    [⟨[112], "Platform", none, [], [[109]], []⟩, ⟨[112, 46, 109], "Memory", none, [], [], []⟩]

def memoryCntxt : XmlCntxt Int := ⟨memoryXml, [112], fun _ => none⟩

/-- There is a memory, and no group of memories. -/
theorem no_group_of_memories :
    memoryXml.PlainChildren ∧ (∀ obj ∈ memoryXml.objects, obj.children.Nodup) ∧
      ∃ s, memoryCntxt.start = .ok s ∧ ¬ memoryCntxt.ExactGrp .mem s := by
  refine ⟨⟨by decide, by decide, by decide, by decide⟩, by decide, _, rfl, ?_⟩
  rintro ⟨grp, t, hgrp, hexact⟩
  have hnone : grp = none := (Prod.mk.inj (Except.ok.inj hgrp)).1.symm
  subst hnone
  have hbelow : Below memoryXml.listed [112] [112, 46, 109] := .single (by decide)
  have htyped : memoryCntxt.Typed .mem [112, 46, 109] := ⟨_, rfl, rfl⟩
  obtain ⟨top, htop⟩ := exists_highest hbelow htyped
  rw [hexact] at htop
  cases htop

end XmlCntxt

end PwrApi
