import Mathlib.Algebra.Field.Rat
import Mathlib.Tactic.NormNum
import PwrApi.Client.Locations
import PwrApi.Lib.Parts

/-! Reads of an object without locations: the operation of its entry over the devices of
its whole subtree, against the reads of its child sources. -/

namespace PwrApi

open Runs

namespace XmlConfig

variable (xml : XmlConfig) (attr : AttrName)

/-- The operation of an entry whose `op` is "SUM" or "AVG". -/
def opAt (name : ObjID) : Reduce :=
  match xml.findAttrOp name attr with
  | .ok "AVG" => .avg
  | _ => .sum

noncomputable def devicesBelow : ObjID → List ObjDev :=
  (childSources_wellFounded xml attr).fix fun name below =>
    xml.toConfig.deviceSources attr name ++
      (xml.toConfig.childSources attr name).attach.flatMap fun child => below child.1 child.2

noncomputable def parts (name : ObjID) : List (Part ObjDev) :=
  (xml.toConfig.deviceSources attr name).map (fun dev => ⟨.sum, [dev]⟩) ++
    (xml.toConfig.childSources attr name).map fun child =>
      ⟨xml.opAt attr child, xml.devicesBelow attr child⟩

def Below : ObjID → ObjID → Prop :=
  Relation.ReflTransGen fun name child => child ∈ xml.toConfig.childSources attr name

variable {xml attr}

theorem devicesBelow_eq (name : ObjID) :
    xml.devicesBelow attr name = xml.toConfig.deviceSources attr name ++
      (xml.toConfig.childSources attr name).flatMap (xml.devicesBelow attr) := by
  rw [devicesBelow, WellFounded.fix_eq]
  simp [List.flatMap_subtype]

theorem flatMap_parts (name : ObjID) :
    (xml.parts attr name).flatMap (·.leaves) = xml.devicesBelow attr name := by
  rw [devicesBelow_eq, parts, List.flatMap_append, List.flatMap_map, List.flatMap_map]
  simp

theorem below_mem (names : List ObjID) {name y : ObjID} (hname : name ∈ names)
    (hclosed : ∀ x ∈ names, ∀ child ∈ xml.toConfig.childSources attr x, child ∈ names)
    (h : xml.Below attr name y) : y ∈ names := by
  induction h with
  | refl => exact hname
  | tail _ hchild ih => exact hclosed _ ih _ hchild

theorem effectiveLocation_empty (hlocation : ∀ obj ∈ xml.objects, obj.location = none)
    (name : ObjID) : xml.effectiveLocation name = "" := by
  have hnone : ∀ ancestor, xml.ownLocation ancestor = none := by
    intro ancestor
    cases hobj : xml.findObject ancestor with
    | none => simp [ownLocation, hobj]
    | some obj => simp [ownLocation, hobj, hlocation obj (List.mem_of_find?_eq_some hobj)]
  simp [effectiveLocation, List.findSome?_eq_none_iff.mpr fun ancestor _ => hnone ancestor]

end XmlConfig

namespace DistCntxt

section Reading

variable {V : Type}

def ofDevices (xml : XmlConfig) (rootName : ObjID) (device : ObjDev → Device V) : DistCntxt V :=
  ⟨xml.toConfig, rootName, fun dev => some (device dev)⟩

variable {xml : XmlConfig} {rootName : ObjID} {device : ObjDev → Device V} {attr : AttrName}

theorem traverse_devicesBelow (hlocation : ∀ obj ∈ xml.objects, obj.location = none)
    {fuel : Nat} {name : ObjID} {found found' : Found V}
    (h : (ofDevices xml rootName device).traverse attr fuel name found = .ok found') :
    found' = ⟨found.devices ++ (xml.devicesBelow attr name).map device, found.remote⟩ := by
  induction fuel generalizing name found found' with
  | zero => cases h
  | succ fuel ih =>
      have hchildren : ∀ (children : List ObjID) (found found' : Found V),
          children.foldlM (fun found child =>
            (ofDevices xml rootName device).traverse attr fuel child found) found = .ok found' →
          found' = ⟨found.devices ++ (children.flatMap (xml.devicesBelow attr)).map device,
            found.remote⟩ := by
        intro children
        induction children with
        | nil =>
            intro found found' h
            obtain rfl := Except.ok.inj h
            simp
        | cons child children ihChildren =>
            intro found found' h
            rw [List.foldlM_cons, bind_eq_ok] at h
            obtain ⟨mid, hmid, hrest⟩ := h
            rw [ihChildren mid found' hrest, ih hmid]
            simp
      obtain ⟨served, hserved, _⟩ := bind_eq_ok.mp h
      have hlocal : ¬ (served = true ∧ name ≠ (ofDevices xml rootName device).rootName) := by
        obtain ⟨_, rfl⟩ := XmlConfig.hasServer_eq_ok.mp hserved
        simp [XmlConfig.effectiveLocation_empty hlocation name]
      rw [traverse_served hserved, if_neg hlocal] at h
      simp only [collect, bind_eq_ok] at h
      obtain ⟨objDev, hobjDev, devices, hdevices, children, hfound, h⟩ := h
      have hown : devices = objDev.map device := by
        have hopen : objDev.mapM (fun dev =>
            orFault ((ofDevices xml rootName device).device dev) .assertFailed) =
            .ok (objDev.map device) := mapM_of_ok fun dev _ => rfl
        exact Except.ok.inj (hdevices.symm.trans hopen)
      have hsources : xml.toConfig.deviceSources attr name = objDev := by
        have hobjDev' : xml.toConfig.findObjDevs name attr = .ok objDev := hobjDev
        simp [Config.deviceSources, hobjDev']
      have hchild : xml.toConfig.childSources attr name = children := by
        have hfound' : xml.toConfig.findAttrChildren name attr = .ok children := hfound
        simp [Config.childSources, hfound']
      rw [hchildren children _ found' h, XmlConfig.devicesBelow_eq, hsources, hchild, hown]
      simp

theorem attrGetValue_local [Zero V] {obj : DistObject V}
    (hcomm : (obj.attrInfo attr).comm = none) (hdevices : (obj.attrInfo attr).devices ≠ [])
    (hreads : ∀ dev ∈ (obj.attrInfo attr).devices, (dev.read 0 attr).1 = Ret.success)
    (cntxt : Cntxt V)
    (answer : List ObjID → CommReqEvent V → Except Fault (CommRespEvent V)) (buf : V × PwrTime) :
    ∃ time, obj.attrGetValue cntxt answer attr buf = .ok (Ret.success,
      (obj.attrInfo attr).operation
        ((obj.attrInfo attr).devices.map fun dev => (dev.read 0 attr).2.1), time) := by
  have hvalid : (obj.attrInfo attr).isValid := .inl hdevices
  have hcells := mapM_of_ok fun dev hdev => getValue_of_success (hreads dev hdev)
  have hlocal : ∃ time, Object.attrGetValuesDevice (obj.attrInfo attr) attr 0 =
      .ok ((obj.attrInfo attr).operation
        ((obj.attrInfo attr).devices.map fun dev => (dev.read 0 attr).2.1), time) := by
    unfold Object.attrGetValuesDevice
    rw [hcells]
    cases hlist : (obj.attrInfo attr).devices with
    | nil => exact absurd hlist hdevices
    | cons dev devices => simp [bind, Except.bind, Function.comp_def]
  obtain ⟨time, hlocal⟩ := hlocal
  refine ⟨time, ?_⟩
  simp [DistObject.attrGetValue, DistObject.attrGetValues, DistObject.attrGetValuesStart,
    DistObject.commOf, Object.attrGetValues, Object.attrGetValuesFrom, hvalid, hlocal, hcomm,
    require, Status.retval, overlay, Ret.success, Ret.status, bind, Except.bind, pure,
    Except.pure]

end Reading

section Hierarchy

def Reads (cntxt : DistCntxt ℚ) (attr : AttrName) (name : ObjID) (v : ℚ) : Prop :=
  ∃ fuel obj, cntxt.findObject fuel name = .ok (some obj) ∧
    ∀ objects answer buf, ∃ time, obj.attrGetValue objects answer attr buf =
      .ok (Ret.success, v, time)

def Shows (device : ObjDev → Device ℚ) (attr : AttrName) (value : ObjDev → ℚ) : Prop :=
  ∀ dev i, ∃ time, (device dev).read i attr = (Ret.success, value dev, time)

/-- Whatever the devices answer, a read of the object is the operation of its entry on the
values of its device sources and the reads of its child sources. -/
def Hierarchical (xml : XmlConfig) (rootName : ObjID) (attr : AttrName) (name : ObjID) : Prop :=
  ∀ device value, Shows device attr value →
    ∃ v vs, Reads (ofDevices xml rootName device) attr name v ∧
      List.Forall₂ (Reads (ofDevices xml rootName device) attr)
        (xml.toConfig.childSources attr name) vs ∧
      v = (xml.opAt attr name).apply ((xml.toConfig.deviceSources attr name).map value ++ vs)

/-- A file without locations, in which the attribute is defined from the object on down,
with sources everywhere, and the objects that are read pass their constructors. -/
structure ReadTree (xml : XmlConfig) (rootName : ObjID) (attr : AttrName) (name : ObjID) :
    Prop where
  indexed : attr ∈ AttrName.indices
  noLocation : ∀ obj ∈ xml.objects, obj.location = none
  op : ∀ y, xml.Below attr name y →
    xml.findAttrOp y attr = .ok "SUM" ∨ xml.findAttrOp y attr = .ok "AVG"
  sources : ∀ y, xml.Below attr name y →
    xml.toConfig.deviceSources attr y ≠ [] ∨ xml.toConfig.childSources attr y ≠ []
  created : ∀ (device : ObjDev → Device ℚ) (y : ObjID),
    y = name ∨ y ∈ xml.toConfig.childSources attr name →
    ∃ fuel obj, (ofDevices xml rootName device).findObject fuel y = .ok (some obj)

variable {xml : XmlConfig} {rootName : ObjID} {attr : AttrName} {name : ObjID}

theorem devicesBelow_ne_nil (h : ∀ y, xml.Below attr name y →
      xml.toConfig.deviceSources attr y ≠ [] ∨ xml.toConfig.childSources attr y ≠ []) :
    xml.devicesBelow attr name ≠ [] := by
  induction name using (XmlConfig.childSources_wellFounded xml attr).induction with
  | _ name ih =>
      rw [XmlConfig.devicesBelow_eq]
      intro hnil
      obtain ⟨hown, hbelow⟩ := List.append_eq_nil_iff.mp hnil
      rcases h name .refl with hdevices | hchildren
      · exact hdevices hown
      · obtain ⟨child, hchild⟩ := List.exists_mem_of_ne_nil _ hchildren
        have hleaf := List.flatMap_eq_nil_iff.mp hbelow child hchild
        exact ih child hchild (fun y hy => h y (.head hchild hy)) hleaf

theorem ReadTree.op_of (h : ReadTree xml rootName attr name) {y : ObjID}
    (hy : y = name ∨ y ∈ xml.toConfig.childSources attr name) : xml.Below attr name y := by
  rcases hy with rfl | hchild
  · exact .refl
  · exact .single hchild

theorem ReadTree.attrInfo (h : ReadTree xml rootName attr name) {y : ObjID}
    (hy : xml.Below attr name y) {device : ObjDev → Device ℚ} {fuel : Nat} {obj : DistObject ℚ}
    (hobj : (ofDevices xml rootName device).findObject fuel y = .ok (some obj)) :
    (obj.attrInfo attr).devices = (xml.devicesBelow attr y).map device ∧
      (obj.attrInfo attr).comm = none ∧
      (obj.attrInfo attr).operation = (xml.opAt attr y).apply := by
  have hinit := findObject_attrInfo hobj h.indexed
  simp only [initAttr, bind_eq_ok] at hinit
  obtain ⟨op, hop, type, htype, ⟨opFunc, vOp⟩, hops, hinit⟩ := hinit
  obtain rfl : "Float" = type := Except.ok.inj htype
  have hop' : xml.findAttrOp y attr = .ok op := hop
  have hfunc : opFunc = (xml.opAt attr y).apply ∧ vOp ≠ .noOp := by
    rcases h.op y hy with hsum | havg
    · obtain rfl : op = "SUM" := Except.ok.inj (hop'.symm.trans hsum)
      obtain ⟨rfl, rfl⟩ : sumOp = opFunc ∧ ValueOp.fpAdd = vOp := by
        simpa [initOps] using hops
      simp only [XmlConfig.opAt, hsum]
      exact ⟨rfl, by decide⟩
    · obtain rfl : op = "AVG" := Except.ok.inj (hop'.symm.trans havg)
      obtain ⟨rfl, rfl⟩ : avgOp = opFunc ∧ ValueOp.fpAvg = vOp := by
        simpa [initOps] using hops
      simp only [XmlConfig.opAt, havg]
      exact ⟨rfl, by decide⟩
  simp only [hfunc.2, if_false, bind_eq_ok, Except.ok.injEq] at hinit
  obtain ⟨found, hfound, hinfo⟩ := hinit
  obtain rfl := traverse_devicesBelow h.noLocation hfound
  rw [← hinfo]
  exact ⟨rfl, rfl, hfunc.1⟩

theorem ReadTree.reads_iff (h : ReadTree xml rootName attr name) {device : ObjDev → Device ℚ}
    {value : ObjDev → ℚ} (hshows : Shows device attr value) {y : ObjID}
    (hy : y = name ∨ y ∈ xml.toConfig.childSources attr name) {v : ℚ} :
    Reads (ofDevices xml rootName device) attr y v ↔
      v = (xml.opAt attr y).apply ((xml.devicesBelow attr y).map value) := by
  have hbelow := h.op_of hy
  have hread : ∀ fuel obj, (ofDevices xml rootName device).findObject fuel y = .ok (some obj) →
      ∀ objects answer buf, ∃ time, obj.attrGetValue objects answer attr buf = .ok (Ret.success,
        (xml.opAt attr y).apply ((xml.devicesBelow attr y).map value), time) := by
    intro fuel obj hobj objects answer buf
    obtain ⟨hdevices, hcomm, hop⟩ := h.attrInfo hbelow hobj
    have hne : (obj.attrInfo attr).devices ≠ [] := by
      rw [hdevices]
      intro hnil
      exact devicesBelow_ne_nil (fun z hz => h.sources z (hbelow.trans hz))
        (List.map_eq_nil_iff.mp hnil)
    have hanswers : ∀ dev, ((device dev).read 0 attr).1 = Ret.success ∧
        ((device dev).read 0 attr).2.1 = value dev := by
      intro dev
      obtain ⟨time, hread⟩ := hshows dev 0
      rw [hread]
      exact ⟨rfl, rfl⟩
    obtain ⟨time, hvalue⟩ := attrGetValue_local hcomm hne (by
      intro dev hdev
      rw [hdevices] at hdev
      obtain ⟨source, _, rfl⟩ := List.mem_map.mp hdev
      exact (hanswers source).1) objects answer buf
    refine ⟨time, ?_⟩
    rw [hvalue, hop, hdevices, List.map_map]
    simp only [Function.comp_def, (hanswers _).2]
  constructor
  · intro ⟨fuel, obj, hobj, hvalue⟩
    obtain ⟨_, hgot⟩ := hvalue (fun _ => .ok none) (fun _ _ => .error .undefined) (0, 0)
    obtain ⟨_, hread⟩ := hread fuel obj hobj (fun _ => .ok none) (fun _ _ => .error .undefined)
      (0, 0)
    rw [hread] at hgot
    exact (congrArg (·.2.1) (Except.ok.inj hgot)).symm
  · rintro rfl
    obtain ⟨fuel, obj, hobj⟩ := h.created device y hy
    exact ⟨fuel, obj, hobj, hread fuel obj hobj⟩

theorem ReadTree.forall₂_reads_iff (h : ReadTree xml rootName attr name)
    {device : ObjDev → Device ℚ} {value : ObjDev → ℚ} (hshows : Shows device attr value)
    {vs : List ℚ} :
    List.Forall₂ (Reads (ofDevices xml rootName device) attr)
        (xml.toConfig.childSources attr name) vs ↔
      vs = (xml.toConfig.childSources attr name).map fun child =>
        (xml.opAt attr child).apply ((xml.devicesBelow attr child).map value) := by
  have hall : ∀ (children : List ObjID) (vs : List ℚ),
      (∀ child ∈ children, child ∈ xml.toConfig.childSources attr name) →
      (List.Forall₂ (Reads (ofDevices xml rootName device) attr) children vs ↔
        vs = children.map fun child =>
          (xml.opAt attr child).apply ((xml.devicesBelow attr child).map value)) := by
    intro children
    induction children with
    | nil => exact fun vs _ => List.forall₂_nil_left_iff
    | cons child children ih =>
        intro vs hchildren
        rw [List.forall₂_cons_left_iff, List.map_cons]
        constructor
        · intro ⟨v, vs', hv, hvs', hvs⟩
          rw [hvs, (h.reads_iff hshows (.inr (hchildren child List.mem_cons_self))).mp hv,
            (ih vs' fun c hc => hchildren c (List.mem_cons_of_mem child hc)).mp hvs']
        · intro hvs
          exact ⟨_, _, (h.reads_iff hshows (.inr (hchildren child List.mem_cons_self))).mpr rfl,
            (ih _ fun c hc => hchildren c (List.mem_cons_of_mem child hc)).mpr rfl, hvs⟩
  exact hall _ vs fun child hchild => hchild

theorem byParts_parts (op : Reduce) (value : ObjDev → ℚ) :
    op.byParts (xml.parts attr name) value =
      op.apply ((xml.toConfig.deviceSources attr name).map value ++
        (xml.toConfig.childSources attr name).map fun child =>
          (xml.opAt attr child).apply ((xml.devicesBelow attr child).map value)) := by
  simp [Reduce.byParts, XmlConfig.parts, Reduce.apply, Function.comp_def]

def steady (v : ℚ) : Device ℚ where
  read := fun _ _ => (Ret.success, v, 0)
  write := fun _ _ _ => Ret.success
  logStart := none
  logStop := none
  samples := none

theorem shows_steady (value : ObjDev → ℚ) : Shows (fun dev => steady (value dev)) attr value :=
  fun _ _ => ⟨0, rfl⟩

theorem ReadTree.hierarchical_eq (h : ReadTree xml rootName attr name) :
    Hierarchical xml rootName attr name ↔
      ∀ value : ObjDev → ℚ, (xml.opAt attr name).inOneGo (xml.parts attr name) value =
        (xml.opAt attr name).byParts (xml.parts attr name) value := by
  constructor
  · intro hhier value
    obtain ⟨v, vs, hv, hvs, heq⟩ := hhier _ value (shows_steady value)
    rw [Reduce.inOneGo, XmlConfig.flatMap_parts, byParts_parts,
      ← (h.reads_iff (shows_steady value) (.inl rfl)).mp hv, heq,
      (h.forall₂_reads_iff (shows_steady value)).mp hvs]
  · intro hall device value hshows
    refine ⟨_, _, (h.reads_iff hshows (.inl rfl)).mpr rfl,
      (h.forall₂_reads_iff hshows).mpr rfl, ?_⟩
    rw [← byParts_parts, ← hall value, Reduce.inOneGo, XmlConfig.flatMap_parts]

theorem ReadTree.parts_ne_nil (h : ReadTree xml rootName attr name) :
    ∀ part ∈ xml.parts attr name, part.leaves ≠ [] := by
  intro part hpart
  rcases List.mem_append.mp hpart with hown | hchild
  · obtain ⟨dev, _, rfl⟩ := List.mem_map.mp hown
    exact List.cons_ne_nil dev []
  · obtain ⟨child, hsource, rfl⟩ := List.mem_map.mp hchild
    exact devicesBelow_ne_nil fun y hy => h.sources y (.head hsource hy)

theorem ReadTree.flat_avg_iff (h : ReadTree xml rootName attr name)
    (hnodup : (xml.devicesBelow attr name).Nodup) :
    Reduce.avg.Flat ℚ (xml.parts attr name) ↔
      (∀ part ∈ xml.parts attr name, part.reduce = .sum → part.leaves.length = 1) ∧
        ∀ part ∈ xml.parts attr name, ∀ part' ∈ xml.parts attr name,
          part.leaves.length = part'.leaves.length :=
  Reduce.flat_avg_iff h.parts_ne_nil (XmlConfig.flatMap_parts name ▸ hnodup)

/-- One operation over the devices of the subtree is the operation over the sources, each
read for itself, exactly where the sources of the object are flat for its operation. -/
theorem hierarchical_iff (h : ReadTree xml rootName attr name) :
    Hierarchical xml rootName attr name ↔
      (xml.opAt attr name).Flat ℚ (xml.parts attr name) := by
  rw [h.hierarchical_eq]
  exact Reduce.inOneGo_eq_byParts_iff _ h.parts_ne_nil

/-- A node "p" whose temperature is the average of a socket with two sensors and one with
a single sensor. -/
def sensorXml : XmlConfig where
  objects :=
    [⟨[112], "Node", none, [⟨"TEMP", some "AVG", [⟨.child, [97]⟩, ⟨.child, [98]⟩]⟩],
        [[97], [98]], []⟩,
      ⟨[112, 46, 97], "Socket", none,
        [⟨"TEMP", some "AVG", [⟨.device, [49]⟩, ⟨.device, [50]⟩]⟩], [],
        [⟨[49], "Dummy", "1"⟩, ⟨[50], "Dummy", "2"⟩]⟩,
      ⟨[112, 46, 98], "Socket", none, [⟨"TEMP", some "AVG", [⟨.device, [51]⟩]⟩], [],
        [⟨[51], "Dummy", "3"⟩]⟩]

theorem sensorXml_below {y : ObjID} (hy : sensorXml.Below .temp [112] y) :
    y = [112] ∨ y = [112, 46, 97] ∨ y = [112, 46, 98] := by
  have hmem := XmlConfig.below_mem [[112], [112, 46, 97], [112, 46, 98]] (by decide) (by decide) hy
  simpa using hmem

theorem sensorXml_readTree : ReadTree sensorXml [112] .temp [112] where
  indexed := by decide
  noLocation := by decide
  op := by
    intro y hy
    rcases sensorXml_below hy with rfl | rfl | rfl <;> exact .inr rfl
  sources := by
    intro y hy
    rcases sensorXml_below hy with rfl | rfl | rfl <;> decide
  created := by
    intro device y hy
    have hbelow : sensorXml.Below .temp [112] y := by
      rcases hy with rfl | hchild
      · exact .refl
      · exact .single hchild
    rcases sensorXml_below hbelow with rfl | rfl | rfl <;> exact ⟨2, _, rfl⟩

theorem hierarchical_iff_sensor :
    Hierarchical sensorXml [112] .temp [112] ↔
      (sensorXml.opAt .temp [112]).Flat ℚ (sensorXml.parts .temp [112]) :=
  hierarchical_iff sensorXml_readTree

/-- The node reads as 2 where the third sensor reads as 6 and the others as 0, but the
average of its sockets is 3. -/
theorem sensors_are_flattened : ¬ Hierarchical sensorXml [112] .temp [112] := by
  rw [sensorXml_readTree.hierarchical_eq]
  intro h
  have hleft : sensorXml.devicesBelow .temp [112, 46, 97] = [⟨"Dummy", "1"⟩, ⟨"Dummy", "2"⟩] := by
    rw [XmlConfig.devicesBelow_eq]
    rfl
  have hright : sensorXml.devicesBelow .temp [112, 46, 98] = [⟨"Dummy", "3"⟩] := by
    rw [XmlConfig.devicesBelow_eq]
    rfl
  have hparts : sensorXml.parts .temp [112] =
      [⟨.avg, [⟨"Dummy", "1"⟩, ⟨"Dummy", "2"⟩]⟩, ⟨.avg, [⟨"Dummy", "3"⟩]⟩] := by
    rw [← hleft, ← hright]
    rfl
  have hop : sensorXml.opAt .temp [112] = .avg := rfl
  have hvalue := h fun dev => if dev.openString = "3" then 6 else 0
  rw [hparts, hop] at hvalue
  simp [Reduce.inOneGo, Reduce.byParts, Reduce.apply] at hvalue
  norm_num at hvalue

end Hierarchy

end DistCntxt

end PwrApi
