import PwrApi.Router.State

/-! Objects on the devices of one process: `object.cc`, with `device.h`, `attrInfo.h`
and `status.h`. -/

namespace PwrApi

variable {V : Type}

namespace Ret

def success : Int32 := 0
def failure : Int32 := -1
def invalid : Int32 := -4
def status : Int32 := -15

end Ret

/-- `PWR_AttrAccessError`, with the object by its name. -/
structure AttrAccessError where
  obj : Option ObjID
  name : AttrName
  error : Int32
  deriving DecidableEq, Repr

abbrev Status := List AttrAccessError

/-- A device, as what its plugin answers: `i` is the place of the attribute in the call,
and the last three entries may be missing. -/
structure Device (V : Type) where
  read : Nat → AttrName → Int32 × V × PwrTime
  write : Nat → AttrName → V → Int32
  logStart : Option (AttrName → Int32)
  logStop : Option (AttrName → Int32)
  samples : Option (AttrName → V → UInt32 → Int32 × PwrTime × List V)

namespace Device

def getValue (dev : Device V) (i : Nat) (name : AttrName) : Except Int32 (V × PwrTime) :=
  let (retval, value, time) := dev.read i name
  if retval = Ret.success then .ok (value, time) else .error retval

def startLog (dev : Device V) (name : AttrName) : Int32 :=
  match dev.logStart with
  | some start => start name
  | none => Ret.failure

def stopLog (dev : Device V) (name : AttrName) : Int32 :=
  match dev.logStop with
  | some stop => stop name
  | none => Ret.failure

def getSamples (dev : Device V) (name : AttrName) (period : V) (count : UInt32) :
    Int32 × PwrTime × List V :=
  match dev.samples with
  | some samples => samples name period count
  | none => (Ret.failure, 0, [])

end Device

/-- `AttrInfo`; a communicator is the sorted list of its objects, of which a context has
one each. -/
structure AttrInfo (V : Type) where
  devices : List (Device V)
  comm : Option (List ObjID)
  operation : List V → V
  valueOp : ValueOp

def AttrInfo.isValid (info : AttrInfo V) : Prop := info.devices ≠ [] ∨ info.comm ≠ none

instance (info : AttrInfo V) : Decidable info.isValid :=
  inferInstanceAs (Decidable (_ ∨ _))

def timeOp (x : List PwrTime) : PwrTime := x.headD 0

/-- An object with `m_attrInfo` as a function of the index. -/
structure Object (V : Type) where
  name : ObjID
  attrInfo : AttrName → AttrInfo V

/-- What `attrGetSamples` reads and fills in. -/
structure Samples (V : Type) where
  start : PwrTime
  count : UInt32
  data : List V

/-- The loop over the devices that stops at the first code other than success. -/
def runDevices (call : Device V → Int32) : List (Device V) → Int32
  | [] => Ret.success
  | dev :: devices =>
      if call dev = Ret.success then runDevices call devices else call dev

namespace Object

section Values

variable [Zero V]

def attrGetValuesDevice (info : AttrInfo V) (name : AttrName) (i : Nat) :
    Except Int32 (V × PwrTime) := do
  let cells ← info.devices.mapM fun dev => dev.getValue i name
  match cells with
  | [] => .ok (0, 0)
  | cells => .ok (info.operation (cells.map Prod.fst), timeOp (cells.map Prod.snd))

/-- The loop of `attrGetValues` from place `i` on: the cells it writes, up to the first
error, and the errors. -/
def attrGetValuesFrom (obj : Object V) : Nat → List AttrName → List (V × PwrTime) × Status
  | _, [] => ([], [])
  | i, name :: names =>
      if (obj.attrInfo name).isValid then
        match attrGetValuesDevice (obj.attrInfo name) name i with
        | .ok cell =>
            let (cells, status) := obj.attrGetValuesFrom (i + 1) names
            (cell :: cells, status)
        | .error retval => ([(0, 0)], [⟨some obj.name, name, retval⟩])
      else ([(0, 0)], [⟨some obj.name, name, Ret.invalid⟩])

def attrGetValues (obj : Object V) (names : List AttrName) : List (V × PwrTime) × Status :=
  obj.attrGetValuesFrom 0 names

end Values

def attrSetValuesFrom (obj : Object V) : Nat → List (AttrName × V) → Status
  | _, [] => []
  | i, (name, value) :: values =>
      if (obj.attrInfo name).isValid then
        let retval := runDevices (·.write i name value) (obj.attrInfo name).devices
        if retval = Ret.success then obj.attrSetValuesFrom (i + 1) values
        else [⟨some obj.name, name, retval⟩]
      else [⟨some obj.name, name, Ret.invalid⟩]

def attrSetValues (obj : Object V) (values : List (AttrName × V)) : Status :=
  obj.attrSetValuesFrom 0 values

/-- `attrStartLog` and `attrStopLog` but for the call of the device. -/
def attrLog (obj : Object V) (name : AttrName) (call : Device V → Int32) : Int32 :=
  if (obj.attrInfo name).isValid then runDevices call (obj.attrInfo name).devices
  else Ret.failure

def attrStartLog (obj : Object V) (name : AttrName) : Int32 :=
  obj.attrLog name (·.startLog name)

def attrStopLog (obj : Object V) (name : AttrName) : Int32 :=
  obj.attrLog name (·.stopLog name)

/-- The samples are added to what the buffer holds, the places that the device did not
fill as zeros. -/
def addSamples [Zero V] [Add V] (buf : List V) (count : Nat) (data : List V) : List V :=
  let data := data.take count ++ List.replicate (count - data.length) 0
  buf.zipWith (· + ·) data ++ buf.drop count

def attrGetSamples [Zero V] [Add V] (obj : Object V) (name : AttrName) (period : V)
    (samples : Samples V) : Except Fault (Int32 × Samples V) := do
  if (obj.attrInfo name).isValid then
    require ((obj.attrInfo name).devices.length ≤ 1) .assertFailed
    match (obj.attrInfo name).devices with
    | [] => .ok (Ret.success, samples)
    | dev :: _ =>
        let (retval, start, data) := dev.getSamples name period samples.count
        if retval = Ret.success then
          .ok (Ret.success,
            { samples with start, data := addSamples samples.data samples.count.toNat data })
        else .ok (retval, samples)
  else .ok (Ret.failure, samples)

end Object

section Failures

def AttrInfo.Succeeds (info : AttrInfo V) (call : Device V → Int32) : Prop :=
  info.isValid ∧ ∀ dev ∈ info.devices, call dev = Ret.success

theorem runDevices_eq_success (call : Device V → Int32) (devices : List (Device V)) :
    runDevices call devices = Ret.success ↔ ∀ dev ∈ devices, call dev = Ret.success := by
  induction devices with
  | nil => simp [runDevices]
  | cons dev devices ih =>
      unfold runDevices
      by_cases hdev : call dev = Ret.success
      · simp [hdev, ih]
      · simp [hdev]

theorem getValue_of_success {dev : Device V} {i : Nat} {name : AttrName}
    (h : (dev.read i name).1 = Ret.success) :
    dev.getValue i name = .ok ((dev.read i name).2.1, (dev.read i name).2.2) := by
  unfold Device.getValue
  simp [h]

theorem getValue_isOk {dev : Device V} {i : Nat} {name : AttrName} :
    (∃ cell, dev.getValue i name = .ok cell) ↔ (dev.read i name).1 = Ret.success := by
  unfold Device.getValue
  by_cases hread : (dev.read i name).1 = Ret.success <;> simp [hread]

namespace Object

theorem attrGetValuesDevice_isOk [Zero V] {info : AttrInfo V} {name : AttrName} {i : Nat} :
    (∃ cell, attrGetValuesDevice info name i = .ok cell) ↔
      ∀ dev ∈ info.devices, (dev.read i name).1 = Ret.success := by
  have hcells : (∃ cells, info.devices.mapM (fun dev => dev.getValue i name) = .ok cells) ↔
      ∀ dev ∈ info.devices, (dev.read i name).1 = Ret.success := by
    rw [Runs.mapM_isOk]
    exact forall₂_congr fun dev _ => getValue_isOk
  rw [← hcells]
  constructor
  · intro ⟨cell, hcell⟩
    obtain ⟨cells, hcells, _⟩ := Runs.bind_eq_ok.mp hcell
    exact ⟨cells, hcells⟩
  · intro ⟨cells, hcells⟩
    cases cells with
    | nil => exact ⟨(0, 0), by simp [attrGetValuesDevice, hcells, bind, Except.bind]⟩
    | cons cell cells =>
        refine ⟨(info.operation ((cell :: cells).map Prod.fst),
          timeOp ((cell :: cells).map Prod.snd)), ?_⟩
        simp [attrGetValuesDevice, hcells, bind, Except.bind]

theorem attrGetValuesFrom_status [Zero V] (obj : Object V) (i : Nat) (names : List AttrName) :
    (obj.attrGetValuesFrom i names).2 = [] ↔
      ∀ (k : Nat) (name : AttrName), names[k]? = some name →
        (obj.attrInfo name).Succeeds fun dev => (dev.read (i + k) name).1 := by
  induction names generalizing i with
  | nil => simp [attrGetValuesFrom]
  | cons name names ih =>
      have hsplit : (∀ (k : Nat) (other : AttrName), (name :: names)[k]? = some other →
          (obj.attrInfo other).Succeeds fun dev => (dev.read (i + k) other).1) ↔
          ((obj.attrInfo name).Succeeds fun dev => (dev.read i name).1) ∧
          ∀ (k : Nat) (other : AttrName), names[k]? = some other →
            (obj.attrInfo other).Succeeds fun dev => (dev.read (i + 1 + k) other).1 := by
        constructor
        · intro h
          refine ⟨h 0 name rfl, fun k other hk => ?_⟩
          have := h (k + 1) other hk
          rwa [show i + (k + 1) = i + 1 + k by omega] at this
        · intro ⟨hhead, htail⟩ k other hk
          cases k with
          | zero =>
              obtain rfl := Option.some.inj hk
              exact hhead
          | succ k =>
              rw [show i + (k + 1) = i + 1 + k by omega]
              exact htail k other hk
      rw [attrGetValuesFrom, hsplit, ← ih]
      by_cases hvalid : (obj.attrInfo name).isValid
      · rw [if_pos hvalid]
        cases hcell : attrGetValuesDevice (obj.attrInfo name) name i with
        | ok cell =>
            have hdevices := attrGetValuesDevice_isOk.mp ⟨cell, hcell⟩
            exact ⟨fun h => ⟨⟨hvalid, hdevices⟩, h⟩, fun h => h.2⟩
        | error retval =>
            refine iff_of_false (by simp) ?_
            intro ⟨hhead, _⟩
            obtain ⟨cell, hok⟩ := attrGetValuesDevice_isOk.mpr hhead.2
            rw [hcell] at hok
            cases hok
      · rw [if_neg hvalid]
        exact iff_of_false (by simp) fun h => hvalid h.1.1

theorem invalid_ne_success : Ret.invalid ≠ Ret.success := by decide

theorem attrGetValuesDevice_fails [Zero V] (info : AttrInfo V) (name : AttrName) (i : Nat) :
    attrGetValuesDevice info name i ≠ .error Ret.success := by
  apply Runs.bind_ne_error
  · apply Runs.mapM_ne_error
    intro dev _ herror
    unfold Device.getValue at herror
    by_cases hread : (dev.read i name).1 = Ret.success
    · simp [hread] at herror
    · simp [hread] at herror
  · intro cells _ herror
    cases cells <;> cases herror

theorem attrGetValuesFrom_fails [Zero V] (obj : Object V) (i : Nat) (names : List AttrName) :
    ∀ e ∈ (obj.attrGetValuesFrom i names).2, e.error ≠ Ret.success := by
  induction names generalizing i with
  | nil => exact fun e he => absurd he List.not_mem_nil
  | cons name names ih =>
      rw [attrGetValuesFrom]
      by_cases hvalid : (obj.attrInfo name).isValid
      · rw [if_pos hvalid]
        cases hcell : attrGetValuesDevice (obj.attrInfo name) name i with
        | ok cell => exact ih (i + 1)
        | error retval =>
            intro e he hsuccess
            obtain rfl := List.mem_singleton.mp he
            rw [show retval = Ret.success from hsuccess] at hcell
            exact attrGetValuesDevice_fails _ _ _ hcell
      · rw [if_neg hvalid]
        intro e he
        obtain rfl := List.mem_singleton.mp he
        exact invalid_ne_success

theorem attrSetValuesFrom_fails (obj : Object V) (i : Nat) (values : List (AttrName × V)) :
    ∀ e ∈ obj.attrSetValuesFrom i values, e.error ≠ Ret.success := by
  induction values generalizing i with
  | nil => exact fun e he => absurd he List.not_mem_nil
  | cons entry values ih =>
      obtain ⟨name, value⟩ := entry
      rw [attrSetValuesFrom]
      by_cases hvalid : (obj.attrInfo name).isValid
      · rw [if_pos hvalid]
        dsimp only
        split
        · exact ih (i + 1)
        · next hretval =>
          intro e he
          obtain rfl := List.mem_singleton.mp he
          exact hretval
      · rw [if_neg hvalid]
        intro e he
        obtain rfl := List.mem_singleton.mp he
        exact invalid_ne_success

theorem attrGetValuesFrom_length_le [Zero V] (obj : Object V) (i : Nat)
    (names : List AttrName) : (obj.attrGetValuesFrom i names).1.length ≤ names.length := by
  induction names generalizing i with
  | nil => exact le_rfl
  | cons name names ih =>
      rw [attrGetValuesFrom]
      by_cases hvalid : (obj.attrInfo name).isValid
      · rw [if_pos hvalid]
        cases attrGetValuesDevice (obj.attrInfo name) name i with
        | ok cell => exact Nat.succ_le_succ (ih (i + 1))
        | error retval => exact Nat.succ_le_succ (Nat.zero_le _)
      · rw [if_neg hvalid]
        exact Nat.succ_le_succ (Nat.zero_le _)

theorem attrGetValuesFrom_length [Zero V] (obj : Object V) (i : Nat) (names : List AttrName)
    (h : (obj.attrGetValuesFrom i names).2 = []) :
    (obj.attrGetValuesFrom i names).1.length = names.length := by
  induction names generalizing i with
  | nil => rfl
  | cons name names ih =>
      rw [attrGetValuesFrom] at h ⊢
      by_cases hvalid : (obj.attrInfo name).isValid
      · rw [if_pos hvalid] at h ⊢
        cases hcell : attrGetValuesDevice (obj.attrInfo name) name i with
        | ok cell =>
            rw [hcell] at h
            rw [List.length_cons, List.length_cons, ih (i + 1) h]
        | error retval =>
            rw [hcell] at h
            cases h
      · rw [if_neg hvalid] at h
        cases h

theorem attrSetValuesFrom_eq_nil (obj : Object V) (i : Nat) (values : List (AttrName × V)) :
    obj.attrSetValuesFrom i values = [] ↔
      ∀ (k : Nat) (name : AttrName) (value : V), values[k]? = some (name, value) →
        (obj.attrInfo name).Succeeds fun dev => dev.write (i + k) name value := by
  induction values generalizing i with
  | nil => simp [attrSetValuesFrom]
  | cons entry values ih =>
      obtain ⟨name, value⟩ := entry
      have hsplit : (∀ (k : Nat) (other : AttrName) (v : V),
          ((name, value) :: values)[k]? = some (other, v) →
          (obj.attrInfo other).Succeeds fun dev => dev.write (i + k) other v) ↔
          ((obj.attrInfo name).Succeeds fun dev => dev.write i name value) ∧
          ∀ (k : Nat) (other : AttrName) (v : V), values[k]? = some (other, v) →
            (obj.attrInfo other).Succeeds fun dev => dev.write (i + 1 + k) other v := by
        constructor
        · intro h
          refine ⟨h 0 name value rfl, fun k other v hk => ?_⟩
          have := h (k + 1) other v hk
          rwa [show i + (k + 1) = i + 1 + k by omega] at this
        · intro ⟨hhead, htail⟩ k other v hk
          cases k with
          | zero =>
              obtain ⟨rfl, rfl⟩ := Prod.mk.inj (Option.some.inj hk)
              exact hhead
          | succ k =>
              rw [show i + (k + 1) = i + 1 + k by omega]
              exact htail k other v hk
      rw [attrSetValuesFrom, hsplit, ← ih]
      by_cases hvalid : (obj.attrInfo name).isValid
      · rw [if_pos hvalid]
        have hrun := runDevices_eq_success (·.write i name value) (obj.attrInfo name).devices
        dsimp only
        by_cases hretval :
            runDevices (·.write i name value) (obj.attrInfo name).devices = Ret.success
        · rw [if_pos hretval]
          exact ⟨fun h => ⟨⟨hvalid, hrun.mp hretval⟩, h⟩, fun h => h.2⟩
        · rw [if_neg hretval]
          exact iff_of_false (by simp) fun h => hretval (hrun.mpr h.1.2)
      · rw [if_neg hvalid]
        exact iff_of_false (by simp) fun h => hvalid h.1.1

theorem attrLog_eq_success (obj : Object V) (name : AttrName) (call : Device V → Int32) :
    obj.attrLog name call = Ret.success ↔ (obj.attrInfo name).Succeeds call := by
  unfold attrLog AttrInfo.Succeeds
  by_cases hvalid : (obj.attrInfo name).isValid
  · rw [if_pos hvalid, runDevices_eq_success]
    exact (and_iff_right hvalid).symm
  · rw [if_neg hvalid]
    exact iff_of_false (by decide) fun h => hvalid h.1

end Object

end Failures

end PwrApi
