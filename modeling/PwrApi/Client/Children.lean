import PwrApi.Client.DistGroup
import PwrApi.Client.XmlConfig
import PwrApi.Lib.Distinct
import PwrApi.Lib.Table

/-! The groups of children that objects keep and hand out: `Object::children` and
`Cntxt::getChildren`, with the calls of `pwr.cc` on the groups. -/

namespace PwrApi

open Runs

variable {V : Type}

/-- The names are the object's joined with those of its `child` elements. -/
def XmlConfig.findChildren (xml : XmlConfig) (name : ObjID) : Except Fault (List ObjID) := do
  let obj ← orFault (xml.findObject name) .assertFailed
  .ok (obj.children.map (childName obj.name))

section Members

variable {α : Type} [DecidableEq α] {list : List α} {obj : α}

theorem Grp.add_eq_self : (Grp.add list obj).2 = list ↔ obj ∈ list := by
  unfold Grp.add
  by_cases hobj : obj ∈ list
  · simp [hobj]
  · simp [hobj]

theorem Grp.remove_eq_self : (Grp.remove list obj).2 = list ↔ obj ∉ list :=
  List.erase_eq_self_iff

/-- Each object once, in the order that they are first listed in. -/
def Grp.distinct (objs : List α) : List α := objs.eraseDups

@[simp] theorem Grp.distinct_nil : distinct ([] : List α) = [] := rfl

@[simp] theorem Grp.mem_distinct {objs : List α} : obj ∈ distinct objs ↔ obj ∈ objs :=
  List.mem_eraseDups

theorem Grp.add_distinct (objs : List α) (obj : α) :
    (Grp.add (distinct objs) obj).2 = distinct (objs ++ [obj]) := by
  rw [distinct, distinct, Distinct.eraseDups_concat, Grp.add]
  by_cases hobj : obj ∈ objs
  · simp [hobj]
  · simp [hobj]

theorem Grp.nodup_distinct (objs : List α) : (distinct objs).Nodup :=
  Distinct.nodup_eraseDups objs

end Members

/-- A context with `findChildren` of its configuration. An object is known by its name
here, as a context has one for each. -/
structure Navigation (V : Type) where
  findObject : Cntxt V
  findChildren : ObjID → Except Fault (List ObjID)

/-- The groups of a context, `m_list` of each by its address, and `m_children` of its
objects. There is no group at an address that is free. -/
structure ChildGroups where
  grps : ℕ → Option (List ObjID)
  children : ObjID → Option ℕ

def ChildGroups.empty : ChildGroups := ⟨fun _ => none, fun _ => none⟩

/-- The calls of an application, with the address for a group that `new` has to make. -/
inductive ChildCall
  | objGetChildren (obj : ObjID) (addr : ℕ)
  | grpAddObj (grp : ℕ) (obj : ObjID)
  | grpRemoveObj (grp : ℕ) (obj : ObjID)
  | grpDestroy (grp : ℕ)
  deriving DecidableEq, Repr

namespace Navigation

variable (nav : Navigation V)

/-- What the loop of `getChildren` does for a child. -/
def addChild (list : List ObjID) (child : ObjID) : Except Fault (List ObjID) := do
  let tmp ← nav.findObject child
  require (tmp.isSome = true) .assertFailed
  .ok (Grp.add list child).2

/-- The members of the group that `getChildren` makes. -/
def getChildren (name : ObjID) : Except Fault (List ObjID) := do
  let children ← nav.findChildren name
  children.foldlM nav.addChild []

/-- `PWR_ObjGetChildren`: the group and what it leaves. -/
def objGetChildren (s : ChildGroups) (name : ObjID) (addr : ℕ) : Except Fault (ℕ × ChildGroups) :=
  match s.children name with
  | some grp => .ok (grp, s)
  | none => do
      let list ← nav.getChildren name
      .ok (addr,
        { grps := Function.update s.grps addr (some list)
          children := Function.update s.children name (some addr) })

end Navigation

namespace ChildGroups

/-- `PWR_GrpAddObj` and `PWR_GrpRemoveObj` but for what they do to `m_list`. -/
def changeGrp (s : ChildGroups) (grp : ℕ) (change : List ObjID → Int32 × List ObjID) :
    Except Fault (Int32 × ChildGroups) := do
  let list ← orFault (s.grps grp) .useAfterFree
  .ok ((change list).1, { s with grps := Function.update s.grps grp (some (change list).2) })

def grpAddObj (s : ChildGroups) (grp : ℕ) (obj : ObjID) : Except Fault (Int32 × ChildGroups) :=
  s.changeGrp grp fun list => Grp.add list obj

def grpRemoveObj (s : ChildGroups) (grp : ℕ) (obj : ObjID) : Except Fault (Int32 × ChildGroups) :=
  s.changeGrp grp fun list => Grp.remove list obj

/-- `PWR_GrpDestroy`, which deletes the group whoever keeps it. -/
def grpDestroy (s : ChildGroups) (grp : ℕ) : Except Fault (Int32 × ChildGroups) := do
  let _ ← orFault (s.grps grp) .useAfterFree
  .ok (Ret.success, { s with grps := Function.update s.grps grp none })

end ChildGroups

namespace Navigation

variable (nav : Navigation V)

def perform (s : ChildGroups) : ChildCall → Except Fault ChildGroups
  | .objGetChildren obj addr => (nav.objGetChildren s obj addr).map Prod.snd
  | .grpAddObj grp obj => (s.grpAddObj grp obj).map Prod.snd
  | .grpRemoveObj grp obj => (s.grpRemoveObj grp obj).map Prod.snd
  | .grpDestroy grp => (s.grpDestroy grp).map Prod.snd

def Free (s : ChildGroups) : ChildCall → Prop
  | .objGetChildren obj addr => s.children obj = none → s.grps addr = none
  | _ => True

def step (s : ChildGroups) (c : ChildCall) (t : ChildGroups) : Prop :=
  Free s c ∧ nav.perform s c = .ok t

def Lists (name : ObjID) (members : List ObjID) : Prop :=
  ∃ children, nav.findChildren name = .ok children ∧
    (∀ child ∈ children, ∃ obj, nav.findObject child = .ok (some obj)) ∧
    members = Grp.distinct children

/-- Any object's children can be asked for, and the group that is returned then has not
been destroyed and has exactly the listed members. -/
def Stable (s : ChildGroups) : Prop :=
  ∀ name members addr, nav.Lists name members → (s.children name = none → s.grps addr = none) →
    ∃ grp t, nav.objGetChildren s name addr = .ok (grp, t) ∧ t.grps grp = some members

/-- The call destroys no group, and none gets a member by it or loses one. -/
def Keeps (s : ChildGroups) : ChildCall → Prop
  | .objGetChildren _ _ => True
  | .grpAddObj grp obj => ∀ list, s.grps grp = some list → obj ∈ list
  | .grpRemoveObj grp obj => ∀ list, s.grps grp = some list → obj ∉ list
  | .grpDestroy _ => False

def Kept (s : ChildGroups) : Prop :=
  ∀ grp list, s.grps grp = some list →
    ∃ name members, s.children name = some grp ∧ nav.Lists name members

section Stability

variable {nav}

theorem Lists.unique {name : ObjID} {members members' : List ObjID}
    (h : nav.Lists name members) (h' : nav.Lists name members') : members = members' := by
  obtain ⟨children, hchildren, _, rfl⟩ := h
  obtain ⟨children', hchildren', _, rfl⟩ := h'
  rw [hchildren] at hchildren'
  rw [Except.ok.inj hchildren']

theorem addChild_eq_ok {list members : List ObjID} {child : ObjID} :
    nav.addChild list child = .ok members ↔
      (∃ obj, nav.findObject child = .ok (some obj)) ∧ (Grp.add list child).2 = members := by
  simp only [addChild, bind_eq_ok, require_eq_ok, Except.ok.injEq, Option.isSome_iff_exists]
  constructor
  · intro ⟨tmp, htmp, _, ⟨obj, hobj⟩, hmembers⟩
    exact ⟨⟨obj, hobj ▸ htmp⟩, hmembers⟩
  · intro ⟨⟨obj, hobj⟩, hmembers⟩
    exact ⟨some obj, hobj, (), ⟨obj, rfl⟩, hmembers⟩

theorem addChildren_eq_ok (children members : List ObjID) :
    children.foldlM nav.addChild [] = .ok members ↔
      (∀ child ∈ children, ∃ obj, nav.findObject child = .ok (some obj)) ∧
        members = Grp.distinct children := by
  induction children using List.reverseRecOn generalizing members with
  | nil => simp [pure, Except.pure, eq_comm]
  | append_singleton children child ih =>
      rw [List.foldlM_append, bind_eq_ok]
      simp only [ih, List.foldlM_cons, List.foldlM_nil, bind_pure, addChild_eq_ok]
      constructor
      · intro ⟨list, ⟨hchildren, hlist⟩, hchild, hmembers⟩
        rw [hlist, Grp.add_distinct] at hmembers
        refine ⟨fun other hother => ?_, hmembers.symm⟩
        rcases List.mem_append.mp hother with hmem | hlast
        · exact hchildren other hmem
        · exact List.mem_singleton.mp hlast ▸ hchild
      · intro ⟨hall, hmembers⟩
        refine ⟨Grp.distinct children, ⟨fun other hother => ?_, rfl⟩, ?_, ?_⟩
        · exact hall other (List.mem_append_left _ hother)
        · exact hall child (List.mem_append_right _ List.mem_cons_self)
        · rw [Grp.add_distinct, hmembers]

theorem getChildren_eq_ok {name : ObjID} {members : List ObjID} :
    nav.getChildren name = .ok members ↔ nav.Lists name members := by
  unfold getChildren Lists
  rw [bind_eq_ok]
  exact exists_congr fun children => and_congr_right fun _ => addChildren_eq_ok children members

theorem objGetChildren_kept {s : ChildGroups} {name : ObjID} {grp : ℕ}
    (hname : s.children name = some grp) (addr : ℕ) :
    nav.objGetChildren s name addr = .ok (grp, s) := by
  simp only [objGetChildren, hname]

theorem objGetChildren_new {s : ChildGroups} {name : ObjID} {list : List ObjID}
    (hname : s.children name = none) (hlist : nav.getChildren name = .ok list) (addr : ℕ) :
    nav.objGetChildren s name addr =
      .ok (addr,
        { grps := Function.update s.grps addr (some list)
          children := Function.update s.children name (some addr) }) := by
  simp only [objGetChildren, hname, hlist, bind, Except.bind]

/-- Objects that have asked for no group yet will get theirs, so what matters is what the
others keep. -/
theorem stable_iff {s : ChildGroups} :
    nav.Stable s ↔ ∀ name grp members, s.children name = some grp → nav.Lists name members →
      s.grps grp = some members := by
  constructor
  · intro hstable name grp members hkept hlists
    have hcached : s.children name = none → s.grps 0 = none :=
      fun hnone => absurd (hkept.symm.trans hnone) (Option.some_ne_none grp)
    obtain ⟨grp', t, hcall, hmembers⟩ := hstable name members 0 hlists hcached
    rw [nav.objGetChildren_kept hkept] at hcall
    obtain ⟨rfl, rfl⟩ := Prod.mk.inj (Except.ok.inj hcall)
    exact hmembers
  · intro hkept name members addr hlists _
    cases hname : s.children name with
    | some grp =>
        exact ⟨grp, s, nav.objGetChildren_kept hname addr, hkept name grp members hname hlists⟩
    | none =>
        have hcall := nav.objGetChildren_new hname (getChildren_eq_ok.mpr hlists) addr
        exact ⟨addr, _, hcall, Function.update_self addr (some members) s.grps⟩

theorem stable_change_iff {s : ChildGroups} {grp : ℕ} {list : List ObjID} (hkept : nav.Kept s)
    (hstable : nav.Stable s) (hgrp : s.grps grp = some list) (list' : Option (List ObjID)) :
    nav.Stable { s with grps := Function.update s.grps grp list' } ↔ list' = some list := by
  constructor
  · intro hchanged
    obtain ⟨name, members, hname, hlists⟩ := hkept grp list hgrp
    have hbefore := stable_iff.mp hstable name grp members hname hlists
    have hafter : Function.update s.grps grp list' grp = some members :=
      stable_iff.mp hchanged name grp members hname hlists
    rw [Function.update_self] at hafter
    rw [hafter, ← hbefore, hgrp]
  · intro hsame
    rw [hsame, ← hgrp, Function.update_eq_self]
    exact hstable

theorem changeGrp_eq_ok {s t : ChildGroups} {grp : ℕ} {change : List ObjID → Int32 × List ObjID} :
    (s.changeGrp grp change).map Prod.snd = .ok t ↔
      ∃ list, s.grps grp = some list ∧
        { s with grps := Function.update s.grps grp (some (change list).2) } = t := by
  unfold ChildGroups.changeGrp
  cases s.grps grp with
  | none => simp [bind, Except.bind, Except.map, orFault]
  | some list => simp [bind, Except.bind, Except.map]

theorem grpDestroy_eq_ok {s t : ChildGroups} {grp : ℕ} :
    (s.grpDestroy grp).map Prod.snd = .ok t ↔
      ∃ list, s.grps grp = some list ∧
        { s with grps := Function.update s.grps grp none } = t := by
  unfold ChildGroups.grpDestroy
  cases s.grps grp with
  | none => simp [bind, Except.bind, Except.map, orFault]
  | some list => simp [bind, Except.bind, Except.map]

theorem objGetChildren_cases {s t : ChildGroups} {name : ObjID} {addr : ℕ}
    (h : nav.perform s (.objGetChildren name addr) = .ok t) :
    t = s ∨ ∃ list, s.children name = none ∧ nav.Lists name list ∧
      t = { grps := Function.update s.grps addr (some list)
            children := Function.update s.children name (some addr) } := by
  obtain ⟨⟨grp, t'⟩, hcall, rfl⟩ := map_eq_ok.mp h
  cases hname : s.children name with
  | some kept =>
      rw [nav.objGetChildren_kept hname] at hcall
      exact .inl (Prod.mk.inj (Except.ok.inj hcall)).2.symm
  | none =>
      apply Or.inr
      simp only [objGetChildren, hname, bind_eq_ok, Except.ok.injEq, Prod.mk.injEq] at hcall
      obtain ⟨list, hlist, _, rfl⟩ := hcall
      exact ⟨list, rfl, getChildren_eq_ok.mp hlist, rfl⟩

theorem stable_objGetChildren {s t : ChildGroups} {name : ObjID} {addr : ℕ}
    (hstable : nav.Stable s) (hstep : nav.step s (.objGetChildren name addr) t) :
    nav.Stable t := by
  rcases objGetChildren_cases hstep.2 with rfl | ⟨list, hname, hlists, rfl⟩
  · exact hstable
  · have hfree : s.grps addr = none := hstep.1 hname
    rw [stable_iff] at hstable ⊢
    intro other grp members hkept hmembers
    rcases Table.update_some hkept with ⟨rfl, rfl⟩ | ⟨_, hbefore⟩
    · rw [← hlists.unique hmembers]
      exact Function.update_self addr (some list) s.grps
    · have hlive := hstable other grp members hbefore hmembers
      have hne : grp ≠ addr := by
        rintro rfl
        exact absurd (hfree.symm.trans hlive) (by simp)
      exact (Function.update_of_ne hne (some list) s.grps).trans hlive

theorem kept_objGetChildren {s t : ChildGroups} {name : ObjID} {addr : ℕ} (hkept : nav.Kept s)
    (hstep : nav.step s (.objGetChildren name addr) t) : nav.Kept t := by
  rcases objGetChildren_cases hstep.2 with rfl | ⟨list, hname, hlists, rfl⟩
  · exact hkept
  · intro grp members hgrp
    rcases Table.update_some hgrp with ⟨rfl, rfl⟩ | ⟨_, hbefore⟩
    · exact ⟨name, list, Function.update_self name (some grp) s.children, hlists⟩
    · obtain ⟨other, listed, hother, hlisted⟩ := hkept grp members hbefore
      have hne : other ≠ name := by
        rintro rfl
        exact absurd (hname.symm.trans hother) (by simp)
      refine ⟨other, listed, ?_, hlisted⟩
      exact (Function.update_of_ne hne (some addr) s.children).trans hother

theorem stable_step_iff {s t : ChildGroups} {c : ChildCall} (hkept : nav.Kept s)
    (hstable : nav.Stable s) (hstep : nav.step s c t) : nav.Stable t ↔ Keeps s c := by
  cases c with
  | objGetChildren name addr => exact iff_of_true (stable_objGetChildren hstable hstep) trivial
  | grpAddObj grp obj =>
      obtain ⟨list, hgrp, rfl⟩ := changeGrp_eq_ok.mp hstep.2
      rw [stable_change_iff hkept hstable hgrp, Option.some.injEq, Grp.add_eq_self]
      simp [Keeps, hgrp]
  | grpRemoveObj grp obj =>
      obtain ⟨list, hgrp, rfl⟩ := changeGrp_eq_ok.mp hstep.2
      rw [stable_change_iff hkept hstable hgrp, Option.some.injEq, Grp.remove_eq_self]
      simp [Keeps, hgrp]
  | grpDestroy grp =>
      obtain ⟨list, hgrp, rfl⟩ := grpDestroy_eq_ok.mp hstep.2
      rw [stable_change_iff hkept hstable hgrp]
      simp [Keeps]

theorem kept_step {s t : ChildGroups} {c : ChildCall} (hkept : nav.Kept s)
    (hstep : nav.step s c t) (hkeeps : Keeps s c) : nav.Kept t := by
  cases c with
  | objGetChildren name addr => exact kept_objGetChildren hkept hstep
  | grpAddObj grp obj =>
      obtain ⟨list, hgrp, rfl⟩ := changeGrp_eq_ok.mp hstep.2
      rw [Grp.add_eq_self.mpr (hkeeps list hgrp), ← hgrp, Function.update_eq_self]
      exact hkept
  | grpRemoveObj grp obj =>
      obtain ⟨list, hgrp, rfl⟩ := changeGrp_eq_ok.mp hstep.2
      rw [Grp.remove_eq_self.mpr (hkeeps list hgrp), ← hgrp, Function.update_eq_self]
      exact hkept
  | grpDestroy grp => exact hkeeps.elim

/-- Whatever calls an application makes, every object's children are right all the time
exactly if it destroys no group, adds to one only what is in it and removes only what is
not. -/
theorem children_stable_iff {s : ChildGroups} {calls : List ChildCall}
    (hrun : Run nav.step .empty calls s) :
    Along nav.step nav.Stable .empty calls ↔ EachStep nav.step Keeps .empty calls := by
  apply hrun.along_iff nav.Kept
  · exact fun s c t hkept _ hstep hkeeps => kept_step hkept hstep hkeeps
  · exact fun s c t hkept hstable hstep => stable_step_iff hkept hstable hstep
  · exact fun s c t t' ht ht' => Except.ok.inj (ht.2.symm.trans ht'.2)
  · exact fun grp list hgrp => by cases hgrp
  · exact stable_iff.mpr fun name grp members hname _ => by cases hname

/-- A platform `p` with one board `p.b`. -/
def boardXml : XmlConfig where
  objects :=
    [⟨[112], "Platform", none, [], [[98]], []⟩, ⟨[112, 46, 98], "Board", none, [], [], []⟩]

def boards : Navigation Int where
  findObject := (⟨boardXml.toConfig, [112], fun _ => none⟩ : DistCntxt Int).findObject 1
  findChildren := boardXml.findChildren

theorem boards_lists : boards.Lists [112] [[112, 46, 98]] := by
  refine ⟨[[112, 46, 98]], rfl, fun child hchild => ?_, rfl⟩
  obtain rfl := List.mem_singleton.mp hchild
  exact ⟨_, rfl⟩

def asked : ChildGroups where
  grps := Function.update (fun _ => none) 0 (some [[112, 46, 98]])
  children := Function.update (fun _ => none) [112] (some 0)

theorem boards_asked : boards.step .empty (.objGetChildren [112] 0) asked := by
  have hname : ChildGroups.empty.children [112] = none := rfl
  have hlist := getChildren_eq_ok.mpr boards_lists
  refine ⟨fun _ => rfl, ?_⟩
  rw [perform, boards.objGetChildren_new hname hlist]
  rfl

/-- The children are asked for, used and asked for again. -/
theorem children_stable_iff_asked :
    Along boards.step boards.Stable .empty
        [.objGetChildren [112] 0, .grpAddObj 0 [112, 46, 98], .objGetChildren [112] 1] ↔
      EachStep boards.step Keeps .empty
        [.objGetChildren [112] 0, .grpAddObj 0 [112, 46, 98], .objGetChildren [112] 1] := by
  refine children_stable_iff (.cons boards_asked
    (.cons ⟨trivial, rfl⟩ (.cons ⟨fun _ => ?_, rfl⟩ (.nil _))))
  rfl

/-- Asked for again after they were destroyed, the children are the group that is gone. -/
theorem children_are_destroyed :
    (∃ s, Run boards.step .empty [.objGetChildren [112] 0, .grpDestroy 0] s ∧
      boards.objGetChildren s [112] 1 = .ok (0, s) ∧ s.grps 0 = none) ∧
    ¬ Along boards.step boards.Stable .empty [.objGetChildren [112] 0, .grpDestroy 0] := by
  have hdestroyed : boards.step asked (.grpDestroy 0)
      { asked with grps := Function.update asked.grps 0 none } := ⟨trivial, rfl⟩
  constructor
  · exact ⟨_, .cons boards_asked (.cons hdestroyed (.nil _)), rfl, rfl⟩
  · intro ⟨_, hasked⟩
    obtain ⟨_, hrest⟩ := hasked asked boards_asked
    have hgone := stable_iff.mp (hrest _ hdestroyed) [112] 0 _ rfl boards_lists
    exact absurd hgone (by simp)

end Stability

end Navigation

end PwrApi
