import PwrApi.Client.DistObject

/-! What a call for several attributes leaves of each: the loops of `attrGetValues` and
`attrSetValues` end at the first attribute that fails. -/

namespace PwrApi

variable {V : Type}

namespace Object

section Writes

/-- The places of the devices that take the value, up to the first that does not. -/
def writes (call : Device V → Int32) : Nat → List (Device V) → List Nat
  | _, [] => []
  | place, dev :: devices =>
      if call dev = Ret.success then place :: writes call (place + 1) devices else []

/-- `attrSetValuesFrom` with the devices written, each as the place of its attribute in the
call and its own place in the entry of the attribute. -/
def attrSetValuesTrace (obj : Object V) :
    Nat → List (AttrName × V) → List (Nat × Nat) × Status
  | _, [] => ([], [])
  | i, (name, value) :: values =>
      if (obj.attrInfo name).isValid then
        let written := (writes (·.write i name value) 0 (obj.attrInfo name).devices).map (i, ·)
        let retval := runDevices (·.write i name value) (obj.attrInfo name).devices
        if retval = Ret.success then
          let (trace, status) := obj.attrSetValuesTrace (i + 1) values
          (written ++ trace, status)
        else (written, [⟨some obj.name, name, retval⟩])
      else ([], [⟨some obj.name, name, Ret.invalid⟩])

theorem attrSetValuesTrace_status (obj : Object V) (i : Nat) (values : List (AttrName × V)) :
    (obj.attrSetValuesTrace i values).2 = obj.attrSetValuesFrom i values := by
  induction values generalizing i with
  | nil => rfl
  | cons entry values ih =>
      obtain ⟨name, value⟩ := entry
      rw [attrSetValuesTrace, attrSetValuesFrom]
      by_cases hvalid : (obj.attrInfo name).isValid
      · rw [if_pos hvalid, if_pos hvalid]
        dsimp only
        split
        · exact ih (i + 1)
        · rfl
      · rw [if_neg hvalid, if_neg hvalid]

theorem mem_writes {call : Device V → Int32} {devices : List (Device V)}
    (hall : ∀ dev ∈ devices, call dev = Ret.success) (start : Nat) {place : Nat}
    (hplace : place < devices.length) : start + place ∈ writes call start devices := by
  induction devices generalizing start place with
  | nil => exact absurd hplace (Nat.not_lt_zero place)
  | cons dev devices ih =>
      rw [writes, if_pos (hall dev List.mem_cons_self)]
      cases place with
      | zero => exact List.mem_cons_self
      | succ place =>
          have hrest := ih (fun d hd => hall d (List.mem_cons_of_mem dev hd)) (start + 1)
            (Nat.lt_of_succ_lt_succ hplace)
          rw [show start + (place + 1) = start + 1 + place by omega]
          exact List.mem_cons_of_mem start hrest

end Writes

section Accounts

def Reported (obj : Object V) (status : Status) (name : AttrName) : Prop :=
  ∃ error ∈ status, error.obj = some obj.name ∧ error.name = name

/-- Wherever the attribute `name` stands in the call, its cell holds the value and time of
its devices after the call, or the `Status` names it; `i` is the place of the first. -/
def GetsAccounted [Zero V] (obj : Object V) (i : Nat) (names : List AttrName) : Prop :=
  ∀ buf : List (V × PwrTime), names.length ≤ buf.length →
    ∀ (k : Nat) (name : AttrName), names[k]? = some name →
      ((obj.attrInfo name).devices ≠ [] ∧
        ∃ cell, attrGetValuesDevice (obj.attrInfo name) name (i + k) = .ok cell ∧
          (overlay (obj.attrGetValuesFrom i names).1 buf)[k]? = some cell) ∨
      obj.Reported (obj.attrGetValuesFrom i names).2 name

/-- Wherever the attribute `name` stands in the call, its value has been written to all its
devices after the call, or the `Status` names it. -/
def SetsAccounted (obj : Object V) (i : Nat) (values : List (AttrName × V)) : Prop :=
  ∀ (k : Nat) (name : AttrName) (value : V), values[k]? = some (name, value) →
    ((obj.attrInfo name).devices ≠ [] ∧
      ∀ place < (obj.attrInfo name).devices.length,
        (i + k, place) ∈ (obj.attrSetValuesTrace i values).1) ∨
    obj.Reported (obj.attrSetValuesFrom i values) name

/-- After the first attribute that fails there is no other attribute in the call. -/
def AlikeAfter {α : Type} (fails : Nat → α → Prop) (attr : α → AttrName) :
    Nat → List α → Prop
  | _, [] => True
  | i, x :: xs =>
      (fails i x → ∀ y ∈ xs, attr y = attr x) ∧
      (¬ fails i x → AlikeAfter fails attr (i + 1) xs)

def GetFails (obj : Object V) (i : Nat) (name : AttrName) : Prop :=
  ¬ (obj.attrInfo name).Succeeds fun dev => (dev.read i name).1

def SetFails (obj : Object V) (i : Nat) (entry : AttrName × V) : Prop :=
  ¬ (obj.attrInfo entry.1).Succeeds (·.write i entry.1 entry.2)

variable {obj : Object V}

theorem attrGetValuesFrom_fails_head [Zero V] {i : Nat} {name : AttrName}
    (hfails : obj.GetFails i name) (names : List AttrName) :
    ∃ retval, obj.attrGetValuesFrom i (name :: names) =
      ([(0, 0)], [⟨some obj.name, name, retval⟩]) := by
  rw [attrGetValuesFrom]
  by_cases hvalid : (obj.attrInfo name).isValid
  · rw [if_pos hvalid]
    cases hcell : attrGetValuesDevice (obj.attrInfo name) name i with
    | ok cell => exact absurd ⟨hvalid, attrGetValuesDevice_isOk.mp ⟨cell, hcell⟩⟩ hfails
    | error retval => exact ⟨retval, rfl⟩
  · rw [if_neg hvalid]
    exact ⟨Ret.invalid, rfl⟩

theorem attrGetValuesFrom_head [Zero V] {i : Nat} {name : AttrName}
    (hok : ¬ obj.GetFails i name) (names : List AttrName) :
    ∃ cell, attrGetValuesDevice (obj.attrInfo name) name i = .ok cell ∧
      obj.attrGetValuesFrom i (name :: names) =
        (cell :: (obj.attrGetValuesFrom (i + 1) names).1,
          (obj.attrGetValuesFrom (i + 1) names).2) := by
  obtain ⟨hvalid, hdevices⟩ := not_not.mp hok
  obtain ⟨cell, hcell⟩ := attrGetValuesDevice_isOk.mpr hdevices
  refine ⟨cell, hcell, ?_⟩
  rw [attrGetValuesFrom, if_pos hvalid, hcell]

theorem reported_singleton {name other : AttrName} {retval : Int32} :
    obj.Reported [⟨some obj.name, name, retval⟩] other ↔ other = name := by
  simp [Reported, eq_comm]

theorem devices_ne_nil (hlocal : ∀ name, (obj.attrInfo name).comm = none) {name : AttrName}
    {call : Device V → Int32} (hok : (obj.attrInfo name).Succeeds call) :
    (obj.attrInfo name).devices ≠ [] := by
  rcases hok.1 with hdevices | hcomm
  · exact hdevices
  · exact absurd (hlocal name) hcomm

theorem getsAccounted_fails [Zero V] {i : Nat} {name : AttrName} (hfails : obj.GetFails i name)
    (names : List AttrName) :
    obj.GetsAccounted i (name :: names) ↔ ∀ other ∈ names, other = name := by
  obtain ⟨retval, hloop⟩ := attrGetValuesFrom_fails_head hfails names
  simp only [GetsAccounted, hloop, reported_singleton]
  constructor
  · intro h other hother
    obtain ⟨k, hk, hother⟩ := List.getElem_of_mem hother
    have hget : (name :: names)[k + 1]? = some other := by simp [← hother, hk]
    -- a buffer whose time differs from what the devices would give
    let given := (attrGetValuesDevice (obj.attrInfo other) other (i + (k + 1))).toOption
    let time : PwrTime := given.elim 0 fun cell => cell.2 + 1
    rcases h (List.replicate (names.length + 1) (0, time)) (by simp) (k + 1) other hget with
      ⟨_, cell, hcell, hbuf⟩ | hname
    · have hk' : k < names.length := hk
      simp only [overlay, List.singleton_append, List.length_singleton, List.drop_replicate,
        List.getElem?_cons_succ, List.getElem?_replicate] at hbuf
      rw [if_pos (by omega)] at hbuf
      have htime : time = cell.2 + 1 := by
        simp only [time, given, hcell, Except.toOption, Option.elim_some]
      have hsame : cell.2 + 1 = cell.2 := htime ▸ congrArg Prod.snd (Option.some.inj hbuf)
      exact absurd hsame (by simp)
    · exact hname
  · intro hall buf _ k other hget
    apply Or.inr
    cases k with
    | zero => exact (Option.some.inj hget).symm
    | succ k => exact hall other (List.mem_of_getElem? hget)

theorem getsAccounted_succeeds [Zero V] (hlocal : ∀ name, (obj.attrInfo name).comm = none)
    {i : Nat} {name : AttrName} (hok : ¬ obj.GetFails i name) (names : List AttrName) :
    obj.GetsAccounted i (name :: names) ↔ obj.GetsAccounted (i + 1) names := by
  obtain ⟨cell, hcell, hloop⟩ := attrGetValuesFrom_head hok names
  have hdevices := devices_ne_nil hlocal (not_not.mp hok)
  simp only [GetsAccounted, hloop]
  constructor
  · intro h buf hbuf k other hget
    have hnext := h ((0, 0) :: buf) (by simpa using hbuf) (k + 1) other hget
    rw [show i + (k + 1) = i + 1 + k by omega] at hnext
    simpa [overlay] using hnext
  · intro h buf hbuf k other hget
    cases buf with
    | nil => simp at hbuf
    | cons first buf =>
        cases k with
        | zero =>
            obtain rfl := Option.some.inj hget
            exact .inl ⟨hdevices, cell, hcell, by simp [overlay]⟩
        | succ k =>
            have hnext := h buf (by simpa using hbuf) k other hget
            rw [show i + (k + 1) = i + 1 + k by omega]
            simpa [overlay] using hnext

theorem getsAccounted_cons [Zero V] (hlocal : ∀ name, (obj.attrInfo name).comm = none)
    (i : Nat) (name : AttrName) (names : List AttrName) :
    obj.GetsAccounted i (name :: names) ↔
      (obj.GetFails i name → ∀ other ∈ names, other = name) ∧
      (¬ obj.GetFails i name → obj.GetsAccounted (i + 1) names) := by
  by_cases hfails : obj.GetFails i name
  · simp only [getsAccounted_fails hfails, hfails, true_implies, not_true_eq_false,
      false_implies, and_true]
  · simp only [getsAccounted_succeeds hlocal hfails, hfails, false_implies, not_false_eq_true,
      true_implies, true_and]

theorem attrSetValuesTrace_fails_head {i : Nat} {name : AttrName} {value : V}
    (hfails : obj.SetFails i (name, value)) (values : List (AttrName × V)) :
    ∃ trace retval, obj.attrSetValuesTrace i ((name, value) :: values) =
      (trace, [⟨some obj.name, name, retval⟩]) ∧ ∀ entry ∈ trace, entry.1 = i := by
  rw [attrSetValuesTrace]
  by_cases hvalid : (obj.attrInfo name).isValid
  · have hretval : runDevices (·.write i name value) (obj.attrInfo name).devices ≠
        Ret.success := fun hsuccess =>
      hfails ⟨hvalid, (runDevices_eq_success _ _).mp hsuccess⟩
    rw [if_pos hvalid]
    dsimp only
    rw [if_neg hretval]
    refine ⟨_, _, rfl, fun entry hentry => ?_⟩
    obtain ⟨place, _, rfl⟩ := List.mem_map.mp hentry
    rfl
  · rw [if_neg hvalid]
    exact ⟨[], Ret.invalid, rfl, fun entry hentry => absurd hentry List.not_mem_nil⟩

theorem attrSetValuesTrace_head {i : Nat} {name : AttrName} {value : V}
    (hok : ¬ obj.SetFails i (name, value)) (values : List (AttrName × V)) :
    ∃ written, obj.attrSetValuesTrace i ((name, value) :: values) =
        (written ++ (obj.attrSetValuesTrace (i + 1) values).1,
          (obj.attrSetValuesTrace (i + 1) values).2) ∧
      (∀ place < (obj.attrInfo name).devices.length, (i, place) ∈ written) ∧
      ∀ entry ∈ written, entry.1 = i := by
  obtain ⟨hvalid, hdevices⟩ := not_not.mp hok
  refine ⟨(writes (·.write i name value) 0 (obj.attrInfo name).devices).map (i, ·), ?_, ?_, ?_⟩
  · rw [attrSetValuesTrace, if_pos hvalid]
    dsimp only
    rw [if_pos ((runDevices_eq_success _ _).mpr hdevices)]
  · intro place hplace
    have hwritten := mem_writes hdevices 0 hplace
    rw [Nat.zero_add] at hwritten
    exact List.mem_map_of_mem hwritten
  · intro entry hentry
    obtain ⟨place, _, rfl⟩ := List.mem_map.mp hentry
    rfl

theorem setsAccounted_fails {i : Nat} {name : AttrName} {value : V}
    (hfails : obj.SetFails i (name, value)) (values : List (AttrName × V)) :
    obj.SetsAccounted i ((name, value) :: values) ↔ ∀ other ∈ values, other.1 = name := by
  obtain ⟨trace, retval, hloop, htrace⟩ := attrSetValuesTrace_fails_head hfails values
  simp only [SetsAccounted, ← attrSetValuesTrace_status, hloop, reported_singleton]
  constructor
  · intro h other hother
    obtain ⟨k, hk, hother⟩ := List.getElem_of_mem hother
    have hget : ((name, value) :: values)[k + 1]? = some (other.1, other.2) := by
      simp [← hother, hk]
    rcases h (k + 1) other.1 other.2 hget with ⟨hdevices, hall⟩ | hname
    · have hplace := htrace _ (hall 0 (List.length_pos_of_ne_nil hdevices))
      omega
    · exact hname
  · intro hall k other value' hget
    apply Or.inr
    cases k with
    | zero => exact (congrArg Prod.fst (Option.some.inj hget)).symm
    | succ k => exact hall (other, value') (List.mem_of_getElem? hget)

theorem setsAccounted_succeeds (hlocal : ∀ name, (obj.attrInfo name).comm = none) {i : Nat}
    {name : AttrName} {value : V} (hok : ¬ obj.SetFails i (name, value))
    (values : List (AttrName × V)) :
    obj.SetsAccounted i ((name, value) :: values) ↔ obj.SetsAccounted (i + 1) values := by
  obtain ⟨written, hloop, hwritten, hplaces⟩ := attrSetValuesTrace_head hok values
  have hdevices := devices_ne_nil hlocal (not_not.mp hok)
  simp only [SetsAccounted, ← attrSetValuesTrace_status, hloop]
  constructor
  · intro h k other value' hget
    rcases h (k + 1) other value' hget with ⟨hne, hall⟩ | hreported
    · refine .inl ⟨hne, fun place hplace => ?_⟩
      rcases List.mem_append.mp (hall place hplace) with hmem | hmem
      · have hsame := hplaces _ hmem
        omega
      · rwa [show i + (k + 1) = i + 1 + k by omega] at hmem
    · exact .inr hreported
  · intro h k other value' hget
    cases k with
    | zero =>
        obtain ⟨rfl, rfl⟩ := Prod.mk.inj (Option.some.inj hget)
        exact .inl ⟨hdevices, fun place hplace => List.mem_append_left _ (hwritten place hplace)⟩
    | succ k =>
        rcases h k other value' hget with ⟨hne, hall⟩ | hreported
        · refine .inl ⟨hne, fun place hplace => ?_⟩
          rw [show i + (k + 1) = i + 1 + k by omega]
          exact List.mem_append_right _ (hall place hplace)
        · exact .inr hreported

theorem setsAccounted_cons (hlocal : ∀ name, (obj.attrInfo name).comm = none) (i : Nat)
    (entry : AttrName × V) (values : List (AttrName × V)) :
    obj.SetsAccounted i (entry :: values) ↔
      (obj.SetFails i entry → ∀ other ∈ values, other.1 = entry.1) ∧
      (¬ obj.SetFails i entry → obj.SetsAccounted (i + 1) values) := by
  obtain ⟨name, value⟩ := entry
  by_cases hfails : obj.SetFails i (name, value)
  · simp only [setsAccounted_fails hfails, hfails, true_implies, not_true_eq_false,
      false_implies, and_true]
  · simp only [setsAccounted_succeeds hlocal hfails, hfails, false_implies, not_false_eq_true,
      true_implies, true_and]

/-- Every attribute of a call on an object of this process is accounted for exactly when
the first that fails is the last but for further mentions of itself. -/
theorem accounted_iff [Zero V] (obj : Object V)
    (hlocal : ∀ name, (obj.attrInfo name).comm = none) (names : List AttrName)
    (values : List (AttrName × V)) :
    (obj.GetsAccounted 0 names ↔ AlikeAfter obj.GetFails id 0 names) ∧
      (obj.SetsAccounted 0 values ↔ AlikeAfter obj.SetFails Prod.fst 0 values) := by
  have hgets : ∀ i, obj.GetsAccounted i names ↔ AlikeAfter obj.GetFails id i names := by
    induction names with
    | nil =>
        intro i
        refine iff_of_true (fun _ _ k name hname => ?_) trivial
        cases hname
    | cons name names ih =>
        intro i
        rw [getsAccounted_cons hlocal, ih (i + 1)]
        exact Iff.rfl
  have hsets : ∀ i, obj.SetsAccounted i values ↔ AlikeAfter obj.SetFails Prod.fst i values := by
    induction values with
    | nil =>
        intro i
        refine iff_of_true (fun k name value hname => ?_) trivial
        cases hname
    | cons entry values ih =>
        intro i
        rw [setsAccounted_cons hlocal, ih (i + 1)]
        exact Iff.rfl
  exact ⟨hgets 0, hsets 0⟩

/-- An object with a meter for its power and no other attribute. -/
def metered : Object Int where
  name := [110]
  attrInfo := fun name =>
    if name = .power then
      ⟨[⟨fun _ _ => (Ret.success, 7, 1), fun _ _ _ => Ret.success, none, none, none⟩], none,
        List.sum, .fpAdd⟩
    else ⟨[], none, List.sum, .noOp⟩

theorem metered_local (name : AttrName) : (metered.attrInfo name).comm = none := by
  by_cases hname : name = .power <;> simp [metered, hname]

theorem accounted_iff_metered :
    (metered.GetsAccounted 0 [.power, .voltage] ↔
        AlikeAfter metered.GetFails id 0 [.power, .voltage]) ∧
      (metered.SetsAccounted 0 [(.power, 1), (.voltage, 1), (.voltage, 2)] ↔
        AlikeAfter metered.SetFails Prod.fst 0 [(.power, 1), (.voltage, 1), (.voltage, 2)]) :=
  accounted_iff metered metered_local [.power, .voltage]
    [(.power, 1), (.voltage, 1), (.voltage, 2)]

/-- After the voltage, which the object does not have, its power is neither read nor
written, and the `Status` does not say so. -/
theorem power_is_not_attempted :
    ¬ metered.GetsAccounted 0 [.voltage, .power] ∧
      ¬ metered.SetsAccounted 0 [(.voltage, 1), (.power, 1)] := by
  constructor
  · intro h
    rcases h [(0, 0), (3, 0)] (by decide) 1 .power rfl with ⟨_, cell, hcell, hbuf⟩ | hreported
    · obtain rfl : (3, 0) = cell := Option.some.inj hbuf
      exact absurd (congrArg (fun r => r.map Prod.fst) hcell) (by decide)
    · obtain ⟨error, herror, _, hname⟩ := hreported
      obtain rfl := List.mem_singleton.mp herror
      cases hname
  · intro h
    rcases h 1 .power 1 rfl with ⟨_, hall⟩ | hreported
    · exact absurd (hall 0 (by decide)) (by decide)
    · obtain ⟨error, herror, _, hname⟩ := hreported
      obtain rfl := List.mem_singleton.mp herror
      cases hname

end Accounts

end Object

end PwrApi
