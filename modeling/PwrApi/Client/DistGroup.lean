import PwrApi.Client.DistCntxt

/-! Groups of local and remote objects: `group.h`, `distGroup.h` and the calls of `pwr.cc`
that change their members. Objects are compared as the pointers that `heap` follows. -/

namespace PwrApi

open Runs

variable {V α : Type}

/-- `m_comm` of an object, the communicator of the first attribute that has one. -/
def DistObject.getComm (obj : DistObject V) : Option (List ObjID) :=
  AttrName.indices.findSome? fun attr => (obj.attrInfo attr).comm

def DistObject.isLocal (obj : DistObject V) : Bool := obj.getComm.isNone

theorem DistObject.comm_eq_none {obj : DistObject V} (hlocal : obj.isLocal = true)
    {name : AttrName} (hname : name ∈ AttrName.indices) : (obj.attrInfo name).comm = none := by
  rw [isLocal, Option.isNone_iff_eq_none, getComm, List.findSome?_eq_none_iff] at hlocal
  exact hlocal name hname

theorem DistObject.getComm_eq {obj : DistObject V} {name : AttrName} {objs : List ObjID}
    (hname : name ∈ AttrName.indices) (hcomm : (obj.attrInfo name).comm = some objs) :
    obj.getComm = some objs := by
  cases hfound : obj.getComm with
  | none =>
      have hnone := comm_eq_none (Option.isNone_iff_eq_none.mpr hfound) hname
      rw [hcomm] at hnone
      cases hnone
  | some found =>
      obtain ⟨other, _, hother⟩ := List.exists_of_findSome?_eq_some hfound
      rw [← hother, ← hcomm]
      apply obj.sameComm
      · rw [hother]
        exact Option.some_ne_none found
      · rw [hcomm]
        exact Option.some_ne_none objs

/-- `m_list`, `m_distObjs` and `m_allObjs` of a group, and the members that its
communicator was made with. -/
structure DistGrp (α : Type) where
  list : List α
  distObjs : List α
  allObjs : List α
  comm : Option (List (List ObjID))
  deriving DecidableEq, Repr

def DistGrp.empty : DistGrp α := ⟨[], [], [], none⟩

section Members

variable [DecidableEq α] (heap : α → DistObject V)

/-- `Grp::add`, on `m_list` alone. -/
def Grp.add (list : List α) (obj : α) : Int32 × List α :=
  if obj ∈ list then (Ret.failure, list) else (Ret.success, list ++ [obj])

/-- `Grp::remove`, on `m_list` alone. -/
def Grp.remove (list : List α) (obj : α) : Int32 × List α := (Ret.success, list.erase obj)

namespace DistGrp

def size (grp : DistGrp α) : Nat := grp.allObjs.length

def getObj (grp : DistGrp α) (i : Nat) : Option α := grp.allObjs[i]?

/-- `DistGrp::add`, which does not look at what `Grp::add` returns. -/
def add (grp : DistGrp α) (obj : α) : Int32 × DistGrp α :=
  if (heap obj).isLocal then
    (Ret.success, { grp with
      list := (Grp.add grp.list obj).2
      allObjs := grp.allObjs ++ [obj] })
  else if obj ∈ grp.distObjs then (Ret.failure, grp)
  else
    (Ret.success, { grp with
      distObjs := grp.distObjs ++ [obj]
      allObjs := grp.allObjs ++ [obj] })

/-- `PWR_GrpRemoveObj`: the pointer is one to `Grp`, whose `remove` is not virtual. -/
def grpRemoveObj (grp : DistGrp α) (obj : α) : Int32 × DistGrp α :=
  let (retval, list) := Grp.remove grp.list obj
  (retval, { grp with list })

variable {heap} {grp : DistGrp α} {obj : α}

theorem add_local (hlocal : (heap obj).isLocal = true) :
    grp.add heap obj = (Ret.success, { grp with
      list := (Grp.add grp.list obj).2
      allObjs := grp.allObjs ++ [obj] }) :=
  if_pos hlocal

theorem add_known (hremote : (heap obj).isLocal = false) (hmem : obj ∈ grp.distObjs) :
    grp.add heap obj = (Ret.failure, grp) := by
  simp [add, hremote, hmem]

theorem add_remote (hremote : (heap obj).isLocal = false) (hnew : obj ∉ grp.distObjs) :
    grp.add heap obj = (Ret.success, { grp with
      distObjs := grp.distObjs ++ [obj]
      allObjs := grp.allObjs ++ [obj] }) := by
  simp [add, hremote, hnew]

end DistGrp

/-- The two calls that change the members of a group. -/
inductive GrpOp (α : Type)
  | addObj (obj : α)
  | removeObj (obj : α)

def DistGrp.apply (grp : DistGrp α) : GrpOp α → Int32 × DistGrp α
  | .addObj obj => grp.add heap obj
  | .removeObj obj => grp.grpRemoveObj obj

end Members

section Membership

variable [DecidableEq α]

/-- What the calls are for: a list of different objects in the order they were added. -/
def Members.apply (members : List α) : GrpOp α → Int32 × List α
  | .addObj obj =>
      if obj ∈ members then (Ret.failure, members) else (Ret.success, members ++ [obj])
  | .removeObj obj => (Ret.success, members.erase obj)

/-- The group stores `members` once in order, and split into local and remote objects;
its size and its objects by index are those of `members`. -/
structure Represents (heap : α → DistObject V) (grp : DistGrp α) (members : List α) : Prop where
  nodup : members.Nodup
  all : grp.allObjs = members
  list : grp.list = members.filter fun obj => (heap obj).isLocal
  dist : grp.distObjs = members.filter fun obj => !(heap obj).isLocal
  size : grp.size = members.length
  getObj : ∀ i, grp.getObj i = members[i]?

omit [DecidableEq α] in
theorem represents_of {heap : α → DistObject V} {grp : DistGrp α} {members : List α}
    (hnodup : members.Nodup) (hall : grp.allObjs = members)
    (hlist : grp.list = members.filter fun obj => (heap obj).isLocal)
    (hdist : grp.distObjs = members.filter fun obj => !(heap obj).isLocal) :
    Represents heap grp members where
  nodup := hnodup
  all := hall
  list := hlist
  dist := hdist
  size := by rw [DistGrp.size, hall]
  getObj := fun i => by rw [DistGrp.getObj, hall]

/-- A group beside the members it should have, and the codes of the last call. -/
structure Tracked (α : Type) where
  grp : DistGrp α
  members : List α
  returned : Int32
  expected : Int32

namespace Tracked

def start : Tracked α := ⟨.empty, [], Ret.success, Ret.success⟩

def next (heap : α → DistObject V) (s : Tracked α) (op : GrpOp α) : Tracked α where
  grp := (s.grp.apply heap op).2
  members := (Members.apply s.members op).2
  returned := (s.grp.apply heap op).1
  expected := (Members.apply s.members op).1

def step (heap : α → DistObject V) (s : Tracked α) (op : GrpOp α) (s' : Tracked α) : Prop :=
  s' = s.next heap op

/-- The group has the members it should, and the last call returned what it should. -/
def Agrees (heap : α → DistObject V) (s : Tracked α) : Prop :=
  Represents heap s.grp s.members ∧ s.returned = s.expected

/-- No local member is added again, and no member is removed. -/
def Plain (heap : α → DistObject V) (s : Tracked α) : GrpOp α → Prop
  | .addObj obj => (heap obj).isLocal → obj ∉ s.members
  | .removeObj obj => obj ∉ s.members

variable {heap : α → DistObject V} {s : Tracked α}

omit [DecidableEq α] in
theorem agrees_start : Agrees heap (start : Tracked α) :=
  ⟨represents_of List.nodup_nil rfl rfl rfl, rfl⟩

theorem agrees_add_local {obj : α} (hs : Agrees heap s) (hlocal : (heap obj).isLocal = true)
    (hnew : obj ∉ s.members) : Agrees heap (s.next heap (.addObj obj)) := by
  have hlist : obj ∉ s.grp.list := by
    rw [hs.1.list]
    exact fun hmem => hnew (List.mem_of_mem_filter hmem)
  constructor
  · apply represents_of
    · simpa [next, Members.apply, hnew] using hs.1.nodup.concat hnew
    · simp [next, DistGrp.apply, DistGrp.add, Members.apply, hlocal, hnew, hs.1.all]
    · simp only [next, DistGrp.apply, DistGrp.add, hlocal, if_true, Grp.add, hlist, if_false]
      simp [Members.apply, hnew, hlocal, hs.1.list]
    · simp [next, DistGrp.apply, DistGrp.add, Members.apply, hlocal, hnew, hs.1.dist]
  · simp [next, DistGrp.apply, DistGrp.add, Members.apply, hlocal, hnew]

theorem agrees_add_remote {obj : α} (hs : Agrees heap s) (hremote : (heap obj).isLocal = false) :
    Agrees heap (s.next heap (.addObj obj)) := by
  have hdist : obj ∈ s.grp.distObjs ↔ obj ∈ s.members := by
    rw [hs.1.dist, List.mem_filter]
    simp [hremote]
  by_cases hmem : obj ∈ s.members
  · have hdup := hdist.mpr hmem
    constructor
    · apply represents_of
      · simpa [next, Members.apply, hmem] using hs.1.nodup
      · simp [next, DistGrp.apply, DistGrp.add, Members.apply, hremote, hmem, hdup, hs.1.all]
      · simp [next, DistGrp.apply, DistGrp.add, Members.apply, hremote, hmem, hdup, hs.1.list]
      · simp only [next, DistGrp.apply, DistGrp.add, hremote, hdup, Bool.false_eq_true, if_true,
          if_false, Members.apply, hmem]
        exact hs.1.dist
    · simp [next, DistGrp.apply, DistGrp.add, Members.apply, hremote, hmem, hdup]
  · have hnew : obj ∉ s.grp.distObjs := fun h => hmem (hdist.mp h)
    constructor
    · apply represents_of
      · simpa [next, Members.apply, hmem] using hs.1.nodup.concat hmem
      · simp [next, DistGrp.apply, DistGrp.add, Members.apply, hremote, hmem, hnew, hs.1.all]
      · simp [next, DistGrp.apply, DistGrp.add, Members.apply, hremote, hmem, hnew, hs.1.list]
      · simp only [next, DistGrp.apply, DistGrp.add, hremote, hnew, Bool.false_eq_true, if_false,
          Members.apply, hmem, List.filter_append]
        simp [hs.1.dist, hremote]
    · simp [next, DistGrp.apply, DistGrp.add, Members.apply, hremote, hmem, hnew]

theorem agrees_remove {obj : α} (hs : Agrees heap s) (hother : obj ∉ s.members) :
    Agrees heap (s.next heap (.removeObj obj)) := by
  have hlist : obj ∉ s.grp.list := by
    rw [hs.1.list]
    exact fun hmem => hother (List.mem_of_mem_filter hmem)
  have hmembers : s.members.erase obj = s.members := List.erase_of_not_mem hother
  have hkept : s.grp.list.erase obj = s.grp.list := List.erase_of_not_mem hlist
  constructor
  · apply represents_of
    · simpa [next, Members.apply, hmembers] using hs.1.nodup
    · simpa [next, DistGrp.apply, DistGrp.grpRemoveObj, Members.apply, hmembers] using hs.1.all
    · simpa [next, DistGrp.apply, DistGrp.grpRemoveObj, Grp.remove, Members.apply, hmembers,
        hkept] using hs.1.list
    · simpa [next, DistGrp.apply, DistGrp.grpRemoveObj, Members.apply, hmembers] using hs.1.dist
  · rfl

theorem agrees_next_iff (hs : Agrees heap s) (op : GrpOp α) :
    Agrees heap (s.next heap op) ↔ Plain heap s op := by
  cases op with
  | addObj obj =>
      cases hlocal : (heap obj).isLocal with
      | true =>
          constructor
          · intro hnext _ hmem
            have hcode := hnext.2
            simp [next, DistGrp.apply, DistGrp.add, Members.apply, hlocal, hmem, Ret.success,
              Ret.failure] at hcode
          · intro hplain
            exact agrees_add_local hs hlocal (hplain hlocal)
      | false =>
          apply iff_of_true (agrees_add_remote hs hlocal)
          intro htrue
          rw [hlocal] at htrue
          cases htrue
  | removeObj obj =>
      constructor
      · intro hnext hmem
        have hall : s.grp.allObjs = s.members.erase obj := hnext.1.all
        rw [hs.1.all] at hall
        have hlength := List.length_erase_of_mem hmem
        rw [← hall] at hlength
        have hpos := List.length_pos_of_mem hmem
        omega
      · exact agrees_remove hs

theorem exists_run (heap : α → DistObject V) (s : Tracked α) (ops : List (GrpOp α)) :
    ∃ s', Run (step heap) s ops s' := by
  induction ops generalizing s with
  | nil => exact ⟨s, .nil s⟩
  | cons op ops ih =>
      obtain ⟨s', hrun⟩ := ih (s.next heap op)
      exact ⟨s', .cons rfl hrun⟩

/-- A group keeps its members through a sequence of calls exactly if each call is plain. -/
theorem members_kept_iff (heap : α → DistObject V) (ops : List (GrpOp α)) :
    Along (step heap) (Agrees heap) start ops ↔
      EachStep (step heap) (Plain heap) start ops := by
  obtain ⟨_, hrun⟩ := exists_run heap start ops
  apply hrun.along_iff (fun _ => True)
  · exact fun _ _ _ _ _ _ _ => trivial
  · intro s op s' _ hs hstep
    obtain rfl := hstep
    exact agrees_next_iff hs op
  · intro s op s' s'' h h'
    exact h.trans h'.symm
  · trivial
  · exact agrees_start

def nodeHeap (obj : Bool) : DistObject Int where
  name := [110]
  attrInfo := fun _ => ⟨[], if obj then none else some [[110]], List.sum, .fpAdd⟩
  notMixed := fun _ _ => rfl
  sameComm := fun _ _ _ _ => rfl

/-- A member that is removed stays one, and a local one that is added again is there twice. -/
theorem removed_member_stays :
    ¬ Along (step nodeHeap) (Agrees nodeHeap) start [.addObj true, .removeObj true] ∧
    ¬ Along (step nodeHeap) (Agrees nodeHeap) start [.addObj true, .addObj true] := by
  constructor
  · intro h
    have hlast := (h.2 _ rfl).2 _ rfl
    exact absurd hlast.1.all (by decide)
  · intro h
    have hlast := (h.2 _ rfl).2 _ rfl
    exact absurd hlast.1.all (by decide)

end Tracked

end Membership

end PwrApi
