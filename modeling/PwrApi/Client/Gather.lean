import PwrApi.Client.DistCntxt

/-! What one traversal gathers: the devices and the remote objects that together stand for
the subtree of an object. -/

namespace PwrApi

open Runs

section Names

theorem insertName_perm {name : ObjID} {names : List ObjID} (hname : name ∉ names) :
    (insertName name names).Perm (name :: names) := by
  induction names with
  | nil => exact .refl _
  | cons other names ih =>
      rw [List.mem_cons, not_or] at hname
      unfold insertName
      rw [if_neg hname.1]
      by_cases hless : name < other
      · rw [if_pos hless]
      · rw [if_neg hless]
        exact ((ih hname.2).cons other).trans (.swap name other names)

def insertNames (names : List ObjID) (found : List ObjID) : List ObjID :=
  names.foldl (fun found name => insertName name found) found

theorem insertNames_append (names names' found : List ObjID) :
    insertNames (names ++ names') found = insertNames names' (insertNames names found) :=
  List.foldl_append

theorem insertNames_perm {names found : List ObjID} (hnodup : (names ++ found).Nodup) :
    (insertNames names found).Perm (names ++ found) := by
  induction names generalizing found with
  | nil => exact .refl _
  | cons name names ih =>
      have hmiddle : (name :: (names ++ found)).Perm (names ++ name :: found) :=
        List.perm_middle.symm
      rw [List.cons_append] at hnodup
      have hname : name ∉ found := fun hmem =>
        (List.nodup_cons.mp hnodup).1 (List.mem_append_right names hmem)
      have hinsert := insertName_perm hname
      have hnodup' : (names ++ insertName name found).Nodup :=
        ((hinsert.append_left names).trans hmiddle.symm).nodup_iff.mpr hnodup
      exact (ih hnodup').trans ((hinsert.append_left names).trans hmiddle.symm)

end Names

variable {V : Type}

def DistCntxt.Remote (cntxt : DistCntxt V) (name : ObjID) : Prop :=
  cntxt.config.hasServer name = .ok true ∧ name ≠ cntxt.rootName

variable [AddCommMonoid V] {attr : AttrName}

def sourceSum (config : Config) (attr : AttrName) (value : ObjID → ObjDev → V)
    (name : ObjID) : V :=
  ((config.deviceSources attr name).map (value name)).sum

/-- The values of all device sources that are reached through child sources. -/
noncomputable def plainSum {config : Config} (tree : config.ObjectTree attr)
    (value : ObjID → ObjDev → V) (name : ObjID) : V :=
  tree.branching.total (sourceSum config attr value) name

/-- Wherever the traversal of `name` comes in this context, the devices it opens read as
the values of the sources. -/
def ReadsFixed (cntxt : DistCntxt V) (tree : cntxt.config.ObjectTree attr)
    (value : ObjID → ObjDev → V) (name : ObjID) : Prop :=
  ∀ y, tree.branching.Reaches name y → ¬ cntxt.Remote y →
    ∀ dev ∈ cntxt.config.deviceSources attr y, ∀ device, cntxt.device dev = some device →
      ∀ i, ∃ time, device.read i attr = (Ret.success, value y dev, time)

structure Gathers (cntxt : DistCntxt V) (tree : cntxt.config.ObjectTree attr)
    (value : ObjID → ObjDev → V) (roots : List ObjID) (devices : List (Device V))
    (names : List ObjID) : Prop where
  nodup : names.Nodup
  reached : ∀ name ∈ names, ∃ root ∈ roots, tree.branching.Reaches root name
  notRoot : ∀ name ∈ names, name ≠ cntxt.rootName
  reads : ∀ device ∈ devices, ∀ i, (device.read i attr).1 = Ret.success
  sum : ∀ i, (devices.map fun device => (device.read i attr).2.1).sum +
    (names.map (plainSum tree value)).sum = (roots.map (plainSum tree value)).sum

variable {cntxt : DistCntxt V} {tree : cntxt.config.ObjectTree attr}
  {value : ObjID → ObjDev → V}

theorem gathers_nil : Gathers cntxt tree value [] [] [] where
  nodup := List.nodup_nil
  reached := by simp
  notRoot := by simp
  reads := by simp
  sum := by simp

theorem gathers_remote {name : ObjID} (hroot : name ≠ cntxt.rootName) :
    Gathers cntxt tree value [name] [] [name] where
  nodup := List.nodup_singleton name
  reached := fun other hother => ⟨other, hother, Branching.reaches_refl other⟩
  notRoot := by
    intro other hother
    rw [List.mem_singleton.mp hother]
    exact hroot
  reads := by simp
  sum := by simp

theorem Gathers.append {roots roots' names names' : List ObjID}
    {devices devices' : List (Device V)} (h : Gathers cntxt tree value roots devices names)
    (h' : Gathers cntxt tree value roots' devices' names')
    (hapart : ∀ root ∈ roots, ∀ root' ∈ roots', ∀ name, tree.branching.Reaches root name →
      ¬ tree.branching.Reaches root' name) :
    Gathers cntxt tree value (roots ++ roots') (devices ++ devices') (names ++ names') where
  nodup := by
    apply List.Nodup.append h.nodup h'.nodup
    intro name hname hname'
    obtain ⟨root, hroot, hreach⟩ := h.reached name hname
    obtain ⟨root', hroot', hreach'⟩ := h'.reached name hname'
    exact hapart root hroot root' hroot' name hreach hreach'
  reached := by
    intro name hname
    rcases List.mem_append.mp hname with hname | hname
    · obtain ⟨root, hroot, hreach⟩ := h.reached name hname
      exact ⟨root, List.mem_append_left _ hroot, hreach⟩
    · obtain ⟨root, hroot, hreach⟩ := h'.reached name hname
      exact ⟨root, List.mem_append_right _ hroot, hreach⟩
  notRoot := by
    intro name hname
    rcases List.mem_append.mp hname with hname | hname
    · exact h.notRoot name hname
    · exact h'.notRoot name hname
  reads := by
    intro device hdevice
    rcases List.mem_append.mp hdevice with hdevice | hdevice
    · exact h.reads device hdevice
    · exact h'.reads device hdevice
  sum := by
    intro i
    simp only [List.map_append, List.sum_append]
    rw [← h.sum i, ← h'.sum i]
    exact add_add_add_comm _ _ _ _

theorem Gathers.parent {name : ObjID} {names : List ObjID} {own devices : List (Device V)}
    (h : Gathers cntxt tree value (tree.branching.children name) devices names)
    (hreads : ∀ device ∈ own, ∀ i, (device.read i attr).1 = Ret.success)
    (hown : ∀ i, (own.map fun device => (device.read i attr).2.1).sum =
      sourceSum cntxt.config attr value name) :
    Gathers cntxt tree value [name] (own ++ devices) names where
  nodup := h.nodup
  reached := by
    intro name' hname'
    obtain ⟨child, hchild, hreach⟩ := h.reached name' hname'
    exact ⟨name, List.mem_singleton_self name, Branching.reaches_child hchild hreach⟩
  notRoot := h.notRoot
  reads := by
    intro device hdevice
    rcases List.mem_append.mp hdevice with hdevice | hdevice
    · exact hreads device hdevice
    · exact h.reads device hdevice
  sum := by
    intro i
    have htotal : plainSum tree value name = sourceSum cntxt.config attr value name +
        ((tree.branching.children name).map (plainSum tree value)).sum :=
      tree.branching.total_eq _ name
    rw [List.map_append, List.sum_append, hown i, add_assoc, h.sum i, List.map_singleton,
      List.sum_singleton, htotal]

theorem own_devices {name : ObjID} {objDev : List ObjDev} {own : List (Device V)}
    (hobjDev : cntxt.config.findObjDevs name attr = .ok objDev)
    (hown : objDev.mapM (fun dev => orFault (cntxt.device dev) .assertFailed) = .ok own)
    (hreads : ∀ dev ∈ objDev, ∀ device, cntxt.device dev = some device →
      ∀ i, ∃ time, device.read i attr = (Ret.success, value name dev, time)) :
    (∀ device ∈ own, ∀ i, (device.read i attr).1 = Ret.success) ∧
    ∀ i, (own.map fun device => (device.read i attr).2.1).sum =
      sourceSum cntxt.config attr value name := by
  have hsources : cntxt.config.deviceSources attr name = objDev := by
    simp [Config.deviceSources, hobjDev]
  constructor
  · intro device hdevice i
    obtain ⟨dev, hdev, hopen⟩ := mem_of_mapM hown hdevice
    obtain ⟨time, hread⟩ := hreads dev hdev device (orFault_eq_ok.mp hopen) i
    rw [hread]
  · intro i
    rw [sourceSum, hsources]
    have hall := mapM_eq_ok.mp hown
    clear hown hobjDev hsources
    induction hall with
    | nil => rfl
    | @cons dev device objDev own hopen _ ih =>
        obtain ⟨time, hread⟩ :=
          hreads dev List.mem_cons_self device (orFault_eq_ok.mp hopen) i
        rw [List.map_cons, List.map_cons, List.sum_cons, List.sum_cons, hread,
          ih fun dev hdev => hreads dev (List.mem_cons_of_mem _ hdev)]

theorem traverse_children {fuel : Nat} (name : ObjID)
    (ih : ∀ child ∈ tree.branching.children name, ∀ found found',
      cntxt.traverse attr fuel child found = .ok found' → ∃ devices names,
        Gathers cntxt tree value [child] devices names ∧
        found' = ⟨found.devices ++ devices, insertNames names found.remote⟩)
    (children : List ObjID) (hchildren : ∀ child ∈ children, child ∈ tree.branching.children name)
    (hnodup : children.Nodup) {found found' : Found V}
    (h : children.foldlM (fun found child => cntxt.traverse attr fuel child found) found =
      .ok found') :
    ∃ devices names, Gathers cntxt tree value children devices names ∧
      found' = ⟨found.devices ++ devices, insertNames names found.remote⟩ := by
  induction children generalizing found with
  | nil =>
      obtain rfl := Except.ok.inj h
      exact ⟨[], [], gathers_nil, by simp [insertNames]⟩
  | cons child children ihChildren =>
      rw [List.foldlM_cons, bind_eq_ok] at h
      obtain ⟨mid, hmid, hrest⟩ := h
      have hchild := hchildren child List.mem_cons_self
      obtain ⟨devices, names, hgathers, rfl⟩ := ih child hchild found mid hmid
      have hnodup' := List.nodup_cons.mp hnodup
      obtain ⟨devices', names', hgathers', rfl⟩ := ihChildren
        (fun c hc => hchildren c (List.mem_cons_of_mem child hc)) hnodup'.2 hrest
      refine ⟨devices ++ devices', names ++ names', ?_, ?_⟩
      · apply hgathers.append hgathers'
        intro root hroot root' hroot' reached hreach hreach'
        obtain rfl := List.mem_singleton.mp hroot
        have hsame := Branching.child_unique hchild
          (hchildren root' (List.mem_cons_of_mem root hroot')) hreach hreach'
        rw [← hsame] at hroot'
        exact hnodup'.1 hroot'
      · rw [List.append_assoc, insertNames_append]

theorem traverse_gathers {fuel : Nat} {name : ObjID} {found found' : Found V}
    (hreads : ReadsFixed cntxt tree value name)
    (h : cntxt.traverse attr fuel name found = .ok found') :
    ∃ devices names, Gathers cntxt tree value [name] devices names ∧
      found' = ⟨found.devices ++ devices, insertNames names found.remote⟩ := by
  induction fuel generalizing name found found' with
  | zero => cases h
  | succ fuel ih =>
      rw [DistCntxt.traverse, bind_eq_ok] at h
      obtain ⟨served, hserved, h⟩ := h
      by_cases hremote : served = true ∧ name ≠ cntxt.rootName
      · rw [if_pos hremote] at h
        obtain rfl := Except.ok.inj h
        exact ⟨[], [name], gathers_remote hremote.2, by simp [insertNames]⟩
      · rw [if_neg hremote] at h
        simp only [bind_eq_ok] at h
        obtain ⟨objDev, hobjDev, own, hown, children, hchildren, h⟩ := h
        have hlocal : ¬ cntxt.Remote name := by
          rintro ⟨htrue, hroot⟩
          rw [hserved] at htrue
          exact hremote ⟨Except.ok.inj htrue, hroot⟩
        have hsources : tree.branching.children name = children := by
          show cntxt.config.childSources attr name = children
          simp [Config.childSources, hchildren]
        obtain ⟨hownReads, hownSum⟩ := own_devices hobjDev hown fun dev hdev =>
          hreads name (Branching.reaches_refl name) hlocal dev
            (by simpa [Config.deviceSources, hobjDev] using hdev)
        obtain ⟨devices, names, hgathers, rfl⟩ := traverse_children name
          (fun child hchild found found' hfound => ih
            (fun y hy => hreads y (Branching.reaches_child hchild hy)) hfound)
          children (fun child hchild => hsources ▸ hchild) (hsources ▸ tree.nodup name) h
        rw [← hsources] at hgathers
        refine ⟨own ++ devices, names, hgathers.parent hownReads hownSum, ?_⟩
        rw [List.append_assoc]

end PwrApi
