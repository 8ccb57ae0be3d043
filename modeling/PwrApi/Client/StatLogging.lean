import Mathlib.Data.List.TakeWhile
import Mathlib.Logic.Function.Basic
import PwrApi.Client.DeviceStat

/-! Starting, stopping and clearing a statistic: `DeviceStat::start`, `stop` and `clear`, and
the calls of `pwr.cc` that reach them. -/

namespace PwrApi

open Runs

/-- A stat, and the logs of the devices of its objects that are running. -/
structure Logging where
  stat : DeviceStat
  running : ObjID → Bool

/-- `PWR_StatStart`, `PWR_StatStop` and `PWR_StatClear`. -/
inductive StatOp
  | start | stop | clear
  deriving DecidableEq, Repr

/-- A call at a time, with what `attrStartLog` or `attrStopLog` of each object returns in
it: a log is as the call wants it when that is success, and as it was when it is not. -/
structure StatCall where
  op : StatOp
  now : PwrTime
  codes : ObjID → Int32

theorem attrLog_device {V : Type} {obj : DistObject V} {attr : AttrName} {dev : Device V}
    (hobj : HasDevice obj attr dev) (call : Device V → Int32) :
    obj.toObject.attrLog attr call = call dev := by
  have hvalid : (obj.attrInfo attr).isValid := .inl (by simp [hobj.devices])
  rw [Object.attrLog, if_pos hvalid, hobj.devices]
  by_cases hcall : call dev = Ret.success
  · simp [runDevices, hcall]
  · simp [runDevices, hcall]

/-- Any codes are those of objects with one device each, as a stat of a group has them. -/
theorem exists_codes (attr : AttrName) (codes : ObjID → Int32) :
    ∃ (objects : ObjID → DistObject ℚ) (devices : ObjID → Device ℚ), ∀ name,
      HasDevice (objects name) attr (devices name) ∧
      (objects name).toObject.attrStartLog attr = codes name ∧
      (objects name).toObject.attrStopLog attr = codes name := by
  let device (name : ObjID) : Device ℚ :=
    { DeviceStat.oneReading with
      logStart := some fun _ => codes name
      logStop := some fun _ => codes name }
  let object (name : ObjID) : DistObject ℚ :=
    { name
      attrInfo := fun _ => ⟨[device name], none, List.sum, .fpAdd⟩
      notMixed := fun _ hcomm => absurd rfl hcomm
      sameComm := fun _ _ hcomm => absurd rfl hcomm }
  refine ⟨object, device, fun name => ?_⟩
  have hdevice : HasDevice (object name) attr (device name) := ⟨rfl, rfl⟩
  exact ⟨hdevice, attrLog_device hdevice (·.startLog attr), attrLog_device hdevice (·.stopLog attr)⟩

namespace DeviceStat

def objs (stat : DeviceStat) : List ObjID :=
  match stat.obj with
  | some name => [name]
  | none => stat.grp

def setLog (codes : ObjID → Int32) (on : Bool) (running : ObjID → Bool) (name : ObjID) :
    ObjID → Bool :=
  if codes name = Ret.success then Function.update running name on else running

/-- `startGrp` and `stopGrp` but for the call on each object. -/
def logGrp (codes : ObjID → Int32) (on : Bool) :
    List ObjID → (ObjID → Bool) → Int32 × (ObjID → Bool)
  | [], running => (Ret.success, running)
  | name :: names, running =>
      if codes name = Ret.success then logGrp codes on names (setLog codes on running name)
      else (codes name, setLog codes on running name)

def startObj (codes : ObjID → Int32) (name : ObjID) (running : ObjID → Bool) :
    Int32 × (ObjID → Bool) :=
  (codes name, setLog codes true running name)

def startGrp (codes : ObjID → Int32) : List ObjID → (ObjID → Bool) → Int32 × (ObjID → Bool) :=
  logGrp codes true

def stopObj (codes : ObjID → Int32) (name : ObjID) (running : ObjID → Bool) :
    Int32 × (ObjID → Bool) :=
  (codes name, setLog codes false running name)

def stopGrp (codes : ObjID → Int32) : List ObjID → (ObjID → Bool) → Int32 × (ObjID → Bool) :=
  logGrp codes false

def start (s : Logging) (now : PwrTime) (codes : ObjID → Int32) : Int32 × Logging :=
  let stat : DeviceStat :=
    { s.stat with
      isLogging := true, startTime := now, period := double (1 / 10)
      period_ne_zero := tenth_ne_zero }
  let (retval, running) :=
    match s.stat.obj with
    | some name => startObj codes name s.running
    | none => startGrp codes s.stat.grp s.running
  (retval, ⟨stat, running⟩)

def stop (s : Logging) (now : PwrTime) (codes : ObjID → Int32) : Int32 × Logging :=
  let stat : DeviceStat := { s.stat with isLogging := false, stopTime := now }
  let (retval, running) :=
    match s.stat.obj with
    | some name => stopObj codes name s.running
    | none => stopGrp codes s.stat.grp s.running
  (retval, ⟨stat, running⟩)

def clear (s : Logging) (now : PwrTime) : Int32 × Logging :=
  (Ret.success, { s with stat := { s.stat with startTime := now } })

end DeviceStat

/-- `PWR_StatClear` calls `stop()`. -/
def statCall (s : Logging) (c : StatCall) : Int32 × Logging :=
  match c.op with
  | .start => DeviceStat.start s c.now c.codes
  | .stop => DeviceStat.stop s c.now c.codes
  | .clear => DeviceStat.stop s c.now c.codes

namespace DeviceStat

theorem logGrp_eq_success (codes : ObjID → Int32) (on : Bool) (names : List ObjID)
    (running : ObjID → Bool) :
    (logGrp codes on names running).1 = Ret.success ↔ ∀ name ∈ names, codes name = Ret.success := by
  induction names generalizing running with
  | nil => simp [logGrp]
  | cons name names ih =>
      rw [logGrp, List.forall_mem_cons]
      by_cases hname : codes name = Ret.success
      · rw [if_pos hname, ih]
        exact (and_iff_right hname).symm
      · rw [if_neg hname]
        exact iff_of_false hname fun h => hname h.1

theorem logGrp_running (codes : ObjID → Int32) (on : Bool) (names : List ObjID)
    (running : ObjID → Bool) (name : ObjID) :
    (logGrp codes on names running).2 name =
      if name ∈ names.takeWhile fun name => codes name = Ret.success then on
      else running name := by
  induction names generalizing running with
  | nil => simp [logGrp]
  | cons first names ih =>
      rw [logGrp]
      by_cases hfirst : codes first = Ret.success
      · rw [if_pos hfirst, ih, List.takeWhile_cons_of_pos (by simpa using hfirst)]
        by_cases hname : name = first
        · simp [setLog, hfirst, hname]
        · simp [setLog, hfirst, hname]
      · rw [if_neg hfirst, List.takeWhile_cons_of_neg (by simpa using hfirst)]
        simp [setLog, hfirst]

theorem logGrp_singleton (codes : ObjID → Int32) (on : Bool) (name : ObjID)
    (running : ObjID → Bool) :
    logGrp codes on [name] running = (codes name, setLog codes on running name) := by
  by_cases hname : codes name = Ret.success
  · simp [logGrp, hname]
  · simp [logGrp, hname]

theorem start_eq (s : Logging) (now : PwrTime) (codes : ObjID → Int32) :
    start s now codes =
      ((logGrp codes true s.stat.objs s.running).1,
        { stat :=
            { s.stat with
              isLogging := true, startTime := now, period := double (1 / 10)
              period_ne_zero := tenth_ne_zero }
          running := (logGrp codes true s.stat.objs s.running).2 }) := by
  unfold start objs
  cases s.stat.obj with
  | none => rfl
  | some name =>
      simp only [logGrp_singleton]
      rfl

theorem start_eq_success {s : Logging} {now : PwrTime} {codes : ObjID → Int32} :
    (start s now codes).1 = Ret.success ↔ ∀ name ∈ s.stat.objs, codes name = Ret.success := by
  rw [start_eq]
  exact logGrp_eq_success ..

theorem stop_eq (s : Logging) (now : PwrTime) (codes : ObjID → Int32) :
    stop s now codes =
      ((logGrp codes false s.stat.objs s.running).1,
        { stat := { s.stat with isLogging := false, stopTime := now }
          running := (logGrp codes false s.stat.objs s.running).2 }) := by
  unfold stop objs
  cases s.stat.obj with
  | none => rfl
  | some name =>
      simp only [logGrp_singleton]
      rfl

theorem stop_eq_success {s : Logging} {now : PwrTime} {codes : ObjID → Int32} :
    (stop s now codes).1 = Ret.success ↔ ∀ name ∈ s.stat.objs, codes name = Ret.success := by
  rw [stop_eq]
  exact logGrp_eq_success ..

end DeviceStat

namespace Logging

/-- The flag is up exactly while the logs of all objects are running. -/
def InStep (s : Logging) : Prop :=
  s.stat.isLogging = true ↔ ∀ name ∈ s.stat.objs, s.running name = true

/-- What a call that returned `retval` and left `t` has to be true to. -/
def Truthful (s : Logging) (c : StatCall) (retval : Int32) (t : Logging) : Prop :=
  match c.op with
  | .start =>
      (retval = Ret.success → t.InStep) ∧
      (retval ≠ Ret.success →
        (∀ name, t.running name = true → s.running name = true) ∧
        t.stat.isLogging = s.stat.isLogging ∧ t.stat.startTime = s.stat.startTime)
  | .stop => retval = Ret.success → t.InStep
  | .clear => t = (DeviceStat.clear s c.now).2

/-- The objects that the loop over a call comes to with success. -/
def reached (s : Logging) (c : StatCall) : List ObjID :=
  s.stat.objs.takeWhile fun name => c.codes name = Ret.success

/-- A start fails nowhere, or it has nothing to set and no log to start. A stop has an
object to stop, and a clear has nothing to stop and no time to move. -/
def Harmless (s : Logging) (c : StatCall) : Prop :=
  match c.op with
  | .start =>
      (∀ name ∈ s.stat.objs, c.codes name = Ret.success) ∨
      s.stat.isLogging = true ∧ s.stat.startTime = c.now ∧
        ∀ name ∈ s.reached c, s.running name = true
  | .stop => s.stat.objs ≠ []
  | .clear =>
      s.stat.isLogging = false ∧ s.stat.startTime = c.now ∧ s.stat.stopTime = c.now ∧
        ∀ name ∈ s.reached c, s.running name = false

def step (s : Logging) (c : StatCall) (t : Logging) : Prop := t = (statCall s c).2

variable {s : Logging} {c : StatCall}

theorem reached_eq (h : ∀ name ∈ s.stat.objs, c.codes name = Ret.success) :
    s.reached c = s.stat.objs :=
  List.takeWhile_eq_self_iff.mpr fun name hname => decide_eq_true (h name hname)

theorem logGrp_reached (on : Bool) (name : ObjID) :
    (DeviceStat.logGrp c.codes on s.stat.objs s.running).2 name =
      if name ∈ s.reached c then on else s.running name :=
  DeviceStat.logGrp_running ..

theorem start_inStep (h : ∀ name ∈ s.stat.objs, c.codes name = Ret.success) :
    (DeviceStat.start s c.now c.codes).2.InStep := by
  simp only [InStep, DeviceStat.start_eq, logGrp_reached, reached_eq h]
  exact iff_of_true trivial fun name hname => if_pos hname

theorem stop_inStep_iff (h : ∀ name ∈ s.stat.objs, c.codes name = Ret.success) :
    (DeviceStat.stop s c.now c.codes).2.InStep ↔ s.stat.objs ≠ [] := by
  simp only [InStep, DeviceStat.stop_eq, logGrp_reached, reached_eq h]
  constructor
  · intro hinStep hnone
    have hflag := hinStep.mpr fun name hname => absurd (hnone ▸ hname) List.not_mem_nil
    exact Bool.false_ne_true hflag
  · intro hsome
    obtain ⟨name, hname⟩ := List.exists_mem_of_ne_nil _ hsome
    refine iff_of_false Bool.false_ne_true fun hall => ?_
    exact Bool.false_ne_true ((if_pos hname).symm.trans (hall name hname))

theorem start_truthful_iff (hop : c.op = .start) :
    Truthful s c (DeviceStat.start s c.now c.codes).1 (DeviceStat.start s c.now c.codes).2 ↔
      Harmless s c := by
  unfold Truthful Harmless
  rw [hop]
  simp only [DeviceStat.start_eq_success, ne_eq]
  by_cases hcodes : ∀ name ∈ s.stat.objs, c.codes name = Ret.success
  · exact iff_of_true ⟨fun _ => start_inStep hcodes, fun hfails => absurd hcodes hfails⟩
      (.inl hcodes)
  · have hrunning : (∀ name, (DeviceStat.start s c.now c.codes).2.running name = true →
        s.running name = true) ↔ ∀ name ∈ s.reached c, s.running name = true := by
      simp only [DeviceStat.start_eq, logGrp_reached]
      constructor
      · intro hall name hname
        exact hall name (if_pos hname)
      · intro hall name hname
        by_cases hreached : name ∈ s.reached c
        · exact hall name hreached
        · exact (if_neg hreached).symm.trans hname
    simp only [hcodes, false_implies, not_false_eq_true, true_implies, true_and, false_or,
      hrunning]
    rw [DeviceStat.start_eq]
    simp only
    tauto

theorem clear_truthful_iff (hop : c.op = .clear) :
    Truthful s c (DeviceStat.stop s c.now c.codes).1 (DeviceStat.stop s c.now c.codes).2 ↔
      Harmless s c := by
  have hrunning : (DeviceStat.logGrp c.codes false s.stat.objs s.running).2 = s.running ↔
      ∀ name ∈ s.reached c, s.running name = false := by
    constructor
    · intro hsame name hname
      rw [← hsame, logGrp_reached]
      exact if_pos hname
    · intro hall
      funext name
      rw [logGrp_reached]
      by_cases hreached : name ∈ s.reached c
      · rw [hall name hreached]
        exact if_pos hreached
      · exact if_neg hreached
  unfold Truthful Harmless
  rw [hop, DeviceStat.stop_eq]
  obtain ⟨⟨obj, grp, attrName, op, period, startTime, stopTime, isLogging, hperiod⟩, running⟩ := s
  simp only [DeviceStat.clear, mk.injEq, DeviceStat.mk.injEq, true_and] at hrunning ⊢
  rw [hrunning]
  tauto

theorem stop_truthful_iff (hop : c.op = .stop) :
    Truthful s c (DeviceStat.stop s c.now c.codes).1 (DeviceStat.stop s c.now c.codes).2 ↔
      Harmless s c := by
  unfold Truthful Harmless
  rw [hop]
  simp only [DeviceStat.stop_eq_success]
  constructor
  · intro htrue hnone
    have hcodes : ∀ name ∈ s.stat.objs, c.codes name = Ret.success :=
      fun name hname => absurd (hnone ▸ hname) List.not_mem_nil
    exact (stop_inStep_iff hcodes).mp (htrue hcodes) hnone
  · intro hsome hcodes
    exact (stop_inStep_iff hcodes).mpr hsome

theorem truthful_iff (s : Logging) (c : StatCall) :
    Truthful s c (statCall s c).1 (statCall s c).2 ↔ Harmless s c := by
  unfold statCall
  cases hop : c.op with
  | start => exact start_truthful_iff hop
  | stop => exact stop_truthful_iff hop
  | clear => exact clear_truthful_iff hop

/-- Along any sequence of calls, each is true to what it is for exactly if each is
harmless. -/
theorem calls_truthful_iff (s : Logging) (calls : List StatCall) :
    EachStep step (fun s c => Truthful s c (statCall s c).1 (statCall s c).2) s calls ↔
      EachStep step Harmless s calls :=
  EachStep.congr (fun _ => True) (fun _ _ _ _ _ => trivial) (fun s c _ => truthful_iff s c)
    trivial

def groupStat : Logging where
  stat := { DeviceStat.meanPower with obj := none, grp := [[110], [111]] }
  running := fun _ => false

/-- The log of `n` runs after a start that fails on `o`, with the flag up, and a clear
after a start stops the logs. -/
theorem logs_are_left :
    ¬ EachStep step (fun s c => Truthful s c (statCall s c).1 (statCall s c).2) groupStat
        [⟨.start, 5, fun name => if name = [111] then Ret.failure else Ret.success⟩] ∧
      ¬ EachStep step (fun s c => Truthful s c (statCall s c).1 (statCall s c).2) groupStat
        [⟨.start, 5, fun _ => Ret.success⟩, ⟨.clear, 7, fun _ => Ret.success⟩] := by
  constructor
  · intro ⟨⟨_, hfails⟩, _⟩
    obtain ⟨hrunning, _⟩ := hfails (by decide)
    exact absurd (hrunning [110] rfl) (by decide)
  · intro ⟨_, hrest⟩
    obtain ⟨hclear, _⟩ := hrest _ rfl
    have hflag := congrArg (fun s : Logging => s.stat.isLogging) hclear
    exact absurd hflag (by decide)

end Logging

end PwrApi
