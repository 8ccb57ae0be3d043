import Mathlib.Data.List.Infix
import PwrApi.Client.DistCntxt
import PwrApi.Client.XmlConfig

/-! Which objects a context leaves to a server, against the locations of the file. -/

namespace PwrApi

open Runs

namespace XmlConfig

/-- The parts of a name before one of its dots, the longest first. -/
def properAncestors (name : ObjID) : List ObjID :=
  (((List.range name.length).reverse.filter fun i => name[i]? = some 46 ∧ i ≠ 0).map
    fun i => name.take i)

def ancestors (name : ObjID) : List ObjID := name :: properAncestors name

variable (xml : XmlConfig)

def ownLocation (name : ObjID) : Option String :=
  (xml.findObject name).bind (·.location)

/-- The location of the nearest ancestor or self that has one, empty if none has. -/
def effectiveLocation (name : ObjID) : String :=
  ((ancestors name).findSome? xml.ownLocation).getD ""

/-- Every name on the way up to the nearest location is that of an object. -/
def Placed (name : ObjID) : Prop :=
  ∀ ancestor ∈ (ancestors name).takeWhile (xml.ownLocation · = none),
    ∃ obj, xml.findObject ancestor = some obj

section Ancestors

theorem findParent_concat (name : ObjID) (c : UInt8) :
    findParent (name ++ [c]) = if c = 46 then name else findParent name := by
  by_cases hdot : c = 46
  · simp [findParent, hdot]
  · simp [findParent, hdot]

theorem properAncestors_concat (name : ObjID) (c : UInt8) :
    properAncestors (name ++ [c]) =
      if c = 46 ∧ name ≠ [] then name :: properAncestors name else properAncestors name := by
  have hlast : (name ++ [c])[name.length]? = some c := by simp
  have hfilter : ((List.range name.length).reverse.filter fun i =>
      (name ++ [c])[i]? = some 46 ∧ i ≠ 0) =
      (List.range name.length).reverse.filter fun i => name[i]? = some 46 ∧ i ≠ 0 := by
    apply List.filter_congr
    intro i hi
    have hless : i < name.length := by simpa using hi
    rw [List.getElem?_append_left hless]
  have htake : ((List.range name.length).reverse.filter fun i =>
      name[i]? = some 46 ∧ i ≠ 0).map (fun i => (name ++ [c]).take i) = properAncestors name := by
    apply List.map_congr_left
    intro i hi
    have hless : i < name.length := by
      simpa using List.mem_of_mem_filter hi
    rw [List.take_append_of_le_length (by omega)]
  have hsplit : (List.range (name ++ [c]).length).reverse =
      name.length :: (List.range name.length).reverse := by
    rw [List.length_append, List.length_singleton, List.range_succ, List.reverse_append]
    rfl
  unfold properAncestors at htake ⊢
  rw [hsplit, List.filter_cons, hlast, hfilter]
  by_cases hname : c = 46 ∧ name ≠ []
  · have hkept : decide (some c = some 46 ∧ name.length ≠ 0) = true := by
      simpa using hname
    rw [if_pos hkept, if_pos hname, List.map_cons, htake, List.take_left]
  · rw [if_neg hname]
    simpa [hname] using htake

theorem properAncestors_eq (name : ObjID) :
    properAncestors name = if findParent name = [] then [] else ancestors (findParent name) := by
  induction name using List.reverseRecOn with
  | nil => rfl
  | append_singleton name c ih =>
      rw [properAncestors_concat, findParent_concat]
      by_cases hdot : c = 46
      · by_cases hname : name = []
        · simp [hdot, hname, properAncestors]
        · simp [hdot, hname, ancestors]
      · simp only [hdot, false_and, if_false]
        exact ih

end Ancestors

section Lookup

variable {xml}

theorem placed_of_location {name : ObjID} {location : String}
    (h : xml.ownLocation name = some location) :
    xml.Placed name ∧ xml.effectiveLocation name = location := by
  constructor
  · simp [Placed, ancestors, h]
  · simp [effectiveLocation, ancestors, h]

theorem placed_of_parent {name : ObjID} {obj : XmlObj} (hobj : xml.findObject name = some obj)
    (hnone : obj.location = none) (hparent : findParent name ≠ []) :
    (xml.Placed name ↔ xml.Placed (findParent name)) ∧
      xml.effectiveLocation name = xml.effectiveLocation (findParent name) := by
  have hown : xml.ownLocation name = none := by simp [ownLocation, hobj, hnone]
  have hancestors : ancestors name = name :: ancestors (findParent name) := by
    rw [ancestors, properAncestors_eq, if_neg hparent]
  constructor
  · rw [Placed, hancestors]
    simp [hown, hobj, Placed]
  · simp [effectiveLocation, hancestors, hown]

theorem placed_of_top {name : ObjID} {obj : XmlObj} (hobj : xml.findObject name = some obj)
    (hnone : obj.location = none) (hparent : findParent name = []) :
    xml.Placed name ∧ xml.effectiveLocation name = "" := by
  have hown : xml.ownLocation name = none := by simp [ownLocation, hobj, hnone]
  have hancestors : ancestors name = [name] := by
    rw [ancestors, properAncestors_eq, if_pos hparent]
  constructor
  · simp [Placed, hancestors, hown, hobj]
  · simp [effectiveLocation, hancestors, hown]

theorem not_placed {name : ObjID} (hobj : xml.findObject name = none) : ¬ xml.Placed name := by
  intro hplaced
  obtain ⟨obj, hsome⟩ := hplaced name (by simp [ancestors, ownLocation, hobj])
  rw [hobj] at hsome
  cases hsome

theorem findObjLocationFrom_eq_ok {fuel : Nat} {name : ObjID} {location : String}
    (hfuel : name.length < fuel) :
    xml.findObjLocationFrom fuel name = .ok location ↔
      xml.Placed name ∧ location = xml.effectiveLocation name := by
  induction fuel generalizing name with
  | zero => exact absurd hfuel (Nat.not_lt_zero _)
  | succ fuel ih =>
      rw [findObjLocationFrom, bind_eq_ok]
      cases hobj : xml.findObject name with
      | none => simp [not_placed hobj, orFault]
      | some obj =>
          simp only [orFault_some, Except.ok.injEq, exists_eq_left']
          cases hlocation : obj.location with
          | some own =>
              have hplaced : xml.Placed name ∧ xml.effectiveLocation name = own :=
                placed_of_location (by simp [ownLocation, hobj, hlocation])
              simp [hplaced, eq_comm]
          | none =>
              by_cases hparent : findParent name = []
              · have hplaced := placed_of_top hobj hlocation hparent
                simp [hparent, hplaced, eq_comm]
              · have hplaced := placed_of_parent hobj hlocation hparent
                have hlength := findParent_length name
                have hpos := List.length_pos_of_ne_nil hparent
                simp only [hparent, if_false]
                rw [ih (by omega), hplaced.1, hplaced.2]

theorem findObjLocation_eq_ok {name : ObjID} {location : String} :
    xml.findObjLocation name = .ok location ↔
      xml.Placed name ∧ location = xml.effectiveLocation name :=
  findObjLocationFrom_eq_ok (Nat.lt_succ_self _)

theorem hasServer_eq_ok {name : ObjID} {served : Bool} :
    xml.hasServer name = .ok served ↔
      xml.Placed name ∧ served = decide (xml.effectiveLocation name ≠ "") := by
  rw [hasServer, bind_eq_ok]
  constructor
  · intro ⟨location, hlocation, h⟩
    obtain ⟨hplaced, rfl⟩ := findObjLocation_eq_ok.mp hlocation
    exact ⟨hplaced, (Except.ok.inj h).symm⟩
  · intro ⟨hplaced, hserved⟩
    refine ⟨_, findObjLocation_eq_ok.mpr ⟨hplaced, rfl⟩, ?_⟩
    rw [hserved]

end Lookup

end XmlConfig

namespace DistCntxt

variable {V : Type}

def collect (cntxt : DistCntxt V) (attrName : AttrName) (fuel : Nat) (objName : ObjID)
    (found : Found V) : Except Fault (Found V) := do
  let objDev ← cntxt.config.findObjDevs objName attrName
  let devices ← objDev.mapM fun dev => orFault (cntxt.device dev) .assertFailed
  let children ← cntxt.config.findAttrChildren objName attrName
  children.foldlM (fun found child => cntxt.traverse attrName fuel child found)
    { found with devices := found.devices ++ devices }

/-- Wherever `traverse` comes to the object it only enters it in the remote set. -/
def TreatsRemote (cntxt : DistCntxt V) (objName : ObjID) : Prop :=
  ∀ attrName fuel found, cntxt.traverse attrName (fuel + 1) objName found =
    .ok { found with remote := insertName objName found.remote }

/-- The object has an answer of `hasServer`, and `traverse` collects its devices and
children. -/
def TreatsLocal (cntxt : DistCntxt V) (objName : ObjID) : Prop :=
  (∃ served, cntxt.config.hasServer objName = .ok served) ∧
  ∀ attrName fuel found, cntxt.traverse attrName (fuel + 1) objName found =
    cntxt.collect attrName fuel objName found

/-- The context at `rootName` leaves an object to a server exactly when the two are at
different locations. -/
def Agrees (cntxt : DistCntxt V) (xml : XmlConfig) (objName : ObjID) : Prop :=
  (xml.effectiveLocation objName ≠ xml.effectiveLocation cntxt.rootName →
    cntxt.TreatsRemote objName) ∧
  (xml.effectiveLocation objName = xml.effectiveLocation cntxt.rootName →
    cntxt.TreatsLocal objName)

variable {cntxt : DistCntxt V} {objName : ObjID}

theorem traverse_served {served : Bool} (hserved : cntxt.config.hasServer objName = .ok served)
    (attrName : AttrName) (fuel : Nat) (found : Found V) :
    cntxt.traverse attrName (fuel + 1) objName found =
      if served ∧ objName ≠ cntxt.rootName then
        .ok { found with remote := insertName objName found.remote }
      else cntxt.collect attrName fuel objName found := by
  rw [traverse, hserved]
  rfl

theorem collect_ne_remote (attrName : AttrName) :
    cntxt.collect attrName 0 objName ⟨[], []⟩ ≠ .ok ⟨[], insertName objName []⟩ := by
  intro h
  simp only [collect, bind_eq_ok] at h
  obtain ⟨objDev, _, devices, _, children, _, h⟩ := h
  cases children with
  | nil => cases h
  | cons child children => cases h

theorem treatsRemote_iff :
    cntxt.TreatsRemote objName ↔
      cntxt.config.hasServer objName = .ok true ∧ objName ≠ cntxt.rootName := by
  constructor
  · intro h
    have hfound := h .power 0 ⟨[], []⟩
    obtain ⟨served, hserved, _⟩ := bind_eq_ok.mp hfound
    rw [traverse_served hserved] at hfound
    by_cases hremote : served = true ∧ objName ≠ cntxt.rootName
    · exact ⟨hremote.1 ▸ hserved, hremote.2⟩
    · rw [if_neg hremote] at hfound
      exact absurd hfound (collect_ne_remote .power)
  · intro ⟨hserved, hroot⟩ attrName fuel found
    rw [traverse_served hserved, if_pos ⟨rfl, hroot⟩]

theorem treatsLocal_iff :
    cntxt.TreatsLocal objName ↔ ∃ served, cntxt.config.hasServer objName = .ok served ∧
      ¬ (served = true ∧ objName ≠ cntxt.rootName) := by
  constructor
  · intro ⟨⟨served, hserved⟩, h⟩
    refine ⟨served, hserved, fun hremote => ?_⟩
    have hfound := h .power 0 ⟨[], []⟩
    rw [traverse_served hserved, if_pos hremote] at hfound
    exact collect_ne_remote .power hfound.symm
  · intro ⟨served, hserved, hlocal⟩
    refine ⟨⟨served, hserved⟩, fun attrName fuel found => ?_⟩
    rw [traverse_served hserved, if_neg hlocal]

/-- A context agrees with the locations where its root has none, and otherwise on the root
itself and on what is at another place: an object that inherits the location of the root
is left to a server, which is the process itself. -/
theorem agrees_iff (xml : XmlConfig) (rootName : ObjID) (device : ObjDev → Option (Device V))
    (objName : ObjID) :
    Agrees ⟨xml.toConfig, rootName, device⟩ xml objName ↔
      xml.Placed objName ∧ (objName = rootName ∨ xml.effectiveLocation rootName = "" ∨
        (xml.effectiveLocation objName ≠ "" ∧
          xml.effectiveLocation objName ≠ xml.effectiveLocation rootName)) := by
  have hremote := @treatsRemote_iff V ⟨xml.toConfig, rootName, device⟩ objName
  have hlocal := @treatsLocal_iff V ⟨xml.toConfig, rootName, device⟩ objName
  simp only [XmlConfig.toConfig, XmlConfig.hasServer_eq_ok] at hremote hlocal
  constructor
  · rintro ⟨hdiffer, hsame⟩
    by_cases hplace : xml.effectiveLocation objName = xml.effectiveLocation rootName
    · obtain ⟨served, ⟨hplaced, hserved⟩, hnot⟩ := hlocal.mp (hsame hplace)
      refine ⟨hplaced, ?_⟩
      by_cases hroot : objName = rootName
      · exact .inl hroot
      · have hempty : xml.effectiveLocation objName = "" := by
          by_contra hown
          exact hnot ⟨by rw [hserved]; exact decide_eq_true hown, hroot⟩
        exact .inr (.inl (hplace ▸ hempty))
    · obtain ⟨⟨hplaced, hserved⟩, _⟩ := hremote.mp (hdiffer hplace)
      exact ⟨hplaced, .inr (.inr ⟨of_decide_eq_true hserved.symm, hplace⟩)⟩
  · rintro ⟨hplaced, hcases⟩
    constructor
    · intro hplace
      apply hremote.mpr
      rcases hcases with hroot | hempty | ⟨hown, _⟩
      · exact absurd (hroot ▸ rfl) hplace
      · have hown : xml.effectiveLocation objName ≠ "" := fun hown =>
          hplace (hown.trans hempty.symm)
        exact ⟨⟨hplaced, (decide_eq_true hown).symm⟩, fun hroot => hplace (hroot ▸ rfl)⟩
      · exact ⟨⟨hplaced, (decide_eq_true hown).symm⟩, fun hroot => hplace (hroot ▸ rfl)⟩
    · intro hplace
      refine hlocal.mpr ⟨_, ⟨hplaced, rfl⟩, ?_⟩
      rintro ⟨hserved, hroot⟩
      have hown := of_decide_eq_true hserved
      rcases hcases with hself | hempty | ⟨_, hother⟩
      · exact hroot hself
      · exact hown (hplace.trans hempty)
      · exact hother hplace

/-- A server of `p.c`, where the location is, and the board `p.c.b` in it. -/
def servedCabinet : XmlConfig where
  objects :=
    [⟨[112], "Platform", none, [], [[99]], []⟩,
      ⟨[112, 46, 99], "Cabinet", some "cab0-daemon", [], [[98]], []⟩,
      ⟨[112, 46, 99, 46, 98], "Board", none, [], [], []⟩]

/-- The server of the cabinet leaves the cabinet's own board to a server. -/
theorem cabinet_leaves_its_board :
    ¬ Agrees (⟨servedCabinet.toConfig, [112, 46, 99], fun _ => none⟩ : DistCntxt Int)
      servedCabinet [112, 46, 99, 46, 98] := by
  intro ⟨_, hsame⟩
  have hlocal := (hsame (by decide)).2 .power 0 ⟨[], []⟩
  have hremote : (⟨servedCabinet.toConfig, [112, 46, 99], fun _ => none⟩ :
      DistCntxt Int).traverse .power 1 [112, 46, 99, 46, 98] ⟨[], []⟩ =
      .ok ⟨[], [[112, 46, 99, 46, 98]]⟩ := rfl
  rw [hremote] at hlocal
  exact collect_ne_remote .power hlocal.symm

end DistCntxt

end PwrApi
