import Mathlib.Algebra.BigOperators.Group.List.Basic
import Mathlib.Algebra.Order.Floor.Ring
import Mathlib.Algebra.Order.Ring.Rat
import Mathlib.Data.Int.Log
import Mathlib.Data.Rat.Floor
import Mathlib.Tactic.FieldSimp
import Mathlib.Tactic.Linarith
import PwrApi.Client.Samples
import PwrApi.Lib.Extremum

/-! Statistics over the samples of an object: `stat.h`, `deviceStat.cc` and the operations
of `cntxt.cc`. A double is its exact value here; only where the code truncates a quotient of
doubles, to the number of samples it asks for, is the rounding of doubles modelled too. -/

namespace PwrApi

open Extremum Runs

/-- `PWR_TimePeriod`. -/
structure TimePeriod where
  start : PwrTime
  stop : PwrTime
  instant : PwrTime
  deriving DecidableEq, Repr

def timeUninit : PwrTime := 0

section Numbers

/-- The nearest integer, of two the even one. -/
def nearestEven (x : ℚ) : ℤ :=
  let n := ⌊x⌋
  if x - n < 1 / 2 then n
  else if 1 / 2 < x - n then n + 1
  else if n % 2 = 0 then n else n + 1

/-- The nearest double. Its exponent has no bounds here: beyond those of a double a quotient
comes to no sample or to more than an `unsigned int` holds either way. -/
def double (x : ℚ) : ℚ :=
  if x = 0 then 0
  else
    let ulp : ℚ := 2 ^ (Int.log 2 |x| - 52)
    nearestEven (x / ulp) * ulp

/-- A double as an integer, towards zero. -/
def truncate (x : ℚ) : ℤ := if 0 ≤ x then ⌊x⌋ else ⌈x⌉

def FitsTime (n : ℤ) : Prop := -2 ^ 63 ≤ n ∧ n < 2 ^ 63

instance (n : ℤ) : Decidable (FitsTime n) := inferInstanceAs (Decidable (_ ∧ _))

/-- What does not fit its type has no defined value, here and in the two after. -/
def timeOfInt (n : ℤ) : Except Fault PwrTime := do
  require (FitsTime n) .undefined
  .ok (Int64.ofInt n)

def toTime (x : ℚ) : Except Fault PwrTime := timeOfInt (truncate x)

def toUnsigned (x : ℚ) : Except Fault UInt32 := do
  require (0 ≤ truncate x ∧ truncate x < 2 ^ 32) .undefined
  .ok (UInt32.ofNat (truncate x).toNat)

end Numbers

/-- The value of an operation, `none` when it is not a number, and the place it is from. -/
abbrev OpResult := Option ℚ × ℤ

def opAvg (data : List ℚ) : Except Fault OpResult :=
  .ok (if data.length = 0 then none else some (data.sum / data.length), -1)

/-- `opMin` and `opMax` but for their comparison. -/
def opExtremum (r : ℚ → ℚ → Prop) [DecidableRel r] (data : List ℚ) : Except Fault OpResult := do
  let first ← orFault data.head? .undefined
  let (result, pos) := scan r 1 (first, 0) data.tail
  .ok (some result, pos)

def opMin (data : List ℚ) : Except Fault OpResult := opExtremum (· < ·) data

def opMax (data : List ℚ) : Except Fault OpResult := opExtremum (· > ·) data

/-- The operations that `getOp` knows. -/
inductive AttrStat
  | avg | min | max
  deriving DecidableEq, Repr

def getOp : AttrStat → List ℚ → Except Fault OpResult
  | .avg => opAvg
  | .min => opMin
  | .max => opMax

/-- `Stat` and `DeviceStat`: of one object, or of a group where there is none. -/
structure DeviceStat where
  obj : Option ObjID
  grp : List ObjID
  attrName : AttrName
  op : AttrStat
  period : ℚ
  startTime : PwrTime
  stopTime : PwrTime
  isLogging : Bool
  period_ne_zero : period ≠ 0

theorem tenth_ne_zero : double (1 / 10) ≠ 0 := by decide +kernel

/-- What a call writes through its pointers. -/
structure StatOut where
  value : Option ℚ
  statTimes : TimePeriod
  deriving DecidableEq, Repr

namespace DeviceStat

def window (stat : DeviceStat) (now : PwrTime) (statTimes : TimePeriod) : TimePeriod :=
  { statTimes with
    start := if statTimes.start = timeUninit then stat.startTime else statTimes.start
    stop :=
      if statTimes.stop = timeUninit then if stat.isLogging then now else stat.stopTime
      else statTimes.stop }

/-- `nSamples`, the number of samples asked for. -/
def requested (stat : DeviceStat) (now : PwrTime) (statTimes : TimePeriod) :
    Except Fault UInt32 := do
  let statTimes := stat.window now statTimes
  let length ← timeOfInt (statTimes.stop.toInt - statTimes.start.toInt)
  let windowTime := double length.toInt
  let windowTime := double (windowTime / 1000000000)
  toUnsigned (double (windowTime / stat.period))

def after (stat : DeviceStat) (start : PwrTime) (periods : ℕ) : Except Fault PwrTime :=
  toTime (start.toInt + periods * stat.period * 1000000000)

/-- `objGetValue` at the time `now`, with what `timeStamp` holds before it is assigned: its
code, and what it leaves in `*value` and `*statTimes`. -/
def objGetValue (stat : DeviceStat) (obj : DistObject ℚ)
    (answer : List ObjID → CommGetSamplesReqEvent ℚ → Except Fault (CommGetSamplesRespEvent ℚ))
    (now timeStamp : PwrTime) (out : StatOut) : Except Fault (Int32 × StatOut) := do
  let nSamples ← stat.requested now out.statTimes
  let out := { out with statTimes := stat.window now out.statTimes }
  let values := List.replicate nSamples.toNat 0
  let (retval, samples, _) ←
    obj.attrGetSamples answer stat.attrName stat.period ⟨timeStamp, nSamples, values⟩
  let out := { out with statTimes.start := samples.start }
  let stop ← stat.after samples.start samples.count.toNat
  let out := { out with statTimes.stop := stop, statTimes.instant := timeUninit }
  let (value, pos) ← getOp stat.op samples.data
  let out := { out with value }
  if pos > -1 then do
    let instant ← stat.after out.statTimes.start pos.toNat
    .ok (retval, { out with statTimes.instant := instant })
  else .ok (retval, out)

end DeviceStat

section Numbers

theorem truncate_mono {x y : ℚ} (h : x ≤ y) : truncate x ≤ truncate y := by
  unfold truncate
  by_cases hx : 0 ≤ x
  · rw [if_pos hx, if_pos (hx.trans h)]
    exact Int.floor_mono h
  · rw [if_neg hx]
    have hneg : ⌈x⌉ ≤ 0 := Int.ceil_le.mpr (by simpa using (not_le.mp hx).le)
    by_cases hy : 0 ≤ y
    · rw [if_pos hy]
      exact hneg.trans (Int.floor_nonneg.mpr hy)
    · rw [if_neg hy]
      exact Int.ceil_mono h

theorem truncate_intCast (n : ℤ) : truncate n = n := by
  unfold truncate
  split
  · exact Int.floor_intCast n
  · exact Int.ceil_intCast n

theorem fitsTime_toInt (time : PwrTime) : FitsTime time.toInt :=
  ⟨time.le_toInt, time.toInt_lt⟩

theorem toTime_isOk {x : ℚ} : (∃ time, toTime x = .ok time) ↔ FitsTime (truncate x) := by
  unfold toTime timeOfInt
  by_cases hfits : FitsTime (truncate x)
  · exact iff_of_true ⟨_, by rw [require_of _ hfits]; rfl⟩ hfits
  · simp [require, hfits, bind, Except.bind]

theorem toTime_between {x y z : ℚ} (hx : FitsTime (truncate x)) (hz : FitsTime (truncate z))
    (h : (x ≤ y ∧ y ≤ z) ∨ (z ≤ y ∧ y ≤ x)) : ∃ time, toTime y = .ok time := by
  rw [toTime_isOk]
  rcases h with ⟨hxy, hyz⟩ | ⟨hzy, hyx⟩
  · exact ⟨hx.1.trans (truncate_mono hxy), (truncate_mono hyz).trans_lt hz.2⟩
  · exact ⟨hz.1.trans (truncate_mono hzy), (truncate_mono hyx).trans_lt hx.2⟩

end Numbers

namespace DeviceStat

theorem after_isOk_of_le (stat : DeviceStat) {start stop : PwrTime} {i n : ℕ}
    (hstop : stat.after start n = .ok stop) (hi : i ≤ n) :
    ∃ time, stat.after start i = .ok time := by
  have hstart : FitsTime (truncate (start.toInt : ℚ)) := by
    rw [truncate_intCast]
    exact fitsTime_toInt start
  have hend := toTime_isOk.mp ⟨stop, hstop⟩
  have hcast : (i : ℚ) ≤ n := Nat.cast_le.mpr hi
  have hnonneg : (0 : ℚ) ≤ i := Nat.cast_nonneg i
  refine toTime_between hstart hend ?_
  rcases le_total 0 stat.period with hperiod | hperiod
  · have hfirst : 0 ≤ i * stat.period := mul_nonneg hnonneg hperiod
    have hlast : i * stat.period ≤ n * stat.period := mul_le_mul_of_nonneg_right hcast hperiod
    exact .inl ⟨by linarith, by linarith⟩
  · have hfirst : i * stat.period ≤ 0 := mul_nonpos_of_nonneg_of_nonpos hnonneg hperiod
    have hlast : n * stat.period ≤ i * stat.period := mul_le_mul_of_nonpos_right hcast hperiod
    exact .inr ⟨by linarith, by linarith⟩

end DeviceStat

section Operations

variable {r : ℚ → ℚ → Prop} {data : List ℚ} {x : ℚ} {i n : ℕ}

theorem opExtremum_firstBest [IsStrictOrder ℚ r] [DecidableRel r] (hdata : data ≠ []) :
    ∃ (x : ℚ) (i : ℕ), opExtremum r data = .ok (some x, (i : ℤ)) ∧ FirstBest r data x i := by
  cases data with
  | nil => exact absurd rfl hdata
  | cons first rest => exact ⟨_, _, rfl, scan_first first rest⟩

theorem firstBest_padded [IsStrictTotalOrder ℚ r] [DecidableRel r] (hdata : data ≠ [])
    (hshort : data.length ≤ n) (h : FirstBest r (padded n data) x i) :
    FirstBest r data x i ↔ data.length = n ∨ ∃ y ∈ data, ¬ r 0 y := by
  obtain ⟨y, j, _, hy⟩ := opExtremum_firstBest (r := r) hdata
  have hzeros : (∀ z ∈ List.replicate (n - data.length) (0 : ℚ), ¬ r z y) ↔
      data.length = n ∨ ∃ z ∈ data, ¬ r 0 z := by
    constructor
    · intro hall
      by_cases hfull : data.length = n
      · exact .inl hfull
      · have hzero : (0 : ℚ) ∈ List.replicate (n - data.length) (0 : ℚ) :=
          List.mem_replicate.mpr ⟨by omega, rfl⟩
        exact .inr ⟨y, hy.mem, hall 0 hzero⟩
    · intro hsome z hz hbetter
      obtain ⟨hmissing, rfl⟩ := List.mem_replicate.mp hz
      rcases hsome with hfull | ⟨z, hz, hworse⟩
      · omega
      · rcases trichotomous_of r z y with hlt | heq | hgt
        · exact hy.best z hz hlt
        · exact hworse (heq ▸ hbetter)
        · exact hworse (trans_of r hbetter hgt)
  rw [← hzeros, ← hy.append_eq_iff h]
  constructor
  · intro hx
    exact (hx.unique hy).1
  · intro heq
    have hsame := h.unique (hy.append fun z hz => heq ▸ h.best z (List.mem_append_right _ hz))
    rw [hsame.1, hsame.2]
    exact hy

end Operations

/-- The operation's value over the samples stays as it is when zeros come after them. -/
def AttrStat.IgnoresZeros : AttrStat → List ℚ → Prop
  | .avg, data => data.sum = 0
  | .min, data => ∃ x ∈ data, x ≤ 0
  | .max, data => ∃ x ∈ data, 0 ≤ x

/-- The object answers for the device, in its own process or through its server. -/
inductive Reads (servers : ObjID → Option (Cntxt ℚ)) (obj : DistObject ℚ) (attr : AttrName)
    (dev : Device ℚ) :
    (List ObjID → CommGetSamplesReqEvent ℚ → Except Fault (CommGetSamplesRespEvent ℚ)) → Prop
  | device (hobj : HasDevice obj attr dev)
      (answer : List ObjID → CommGetSamplesReqEvent ℚ →
        Except Fault (CommGetSamplesRespEvent ℚ)) :
      Reads servers obj attr dev answer
  | server {name : ObjID} (hobj : DeviceServed servers obj attr dev name) (depth : ℕ) :
      Reads servers obj attr dev
        (routeCommGetSamplesReq (serveCommGetSamplesReq servers (depth + 1)))

theorem Reads.attrGetSamples {servers : ObjID → Option (Cntxt ℚ)} {obj : DistObject ℚ}
    {attr : AttrName} {dev : Device ℚ} {period : ℚ} {count : UInt32} {start : PwrTime}
    {data : List ℚ}
    {answer : List ObjID → CommGetSamplesReqEvent ℚ → Except Fault (CommGetSamplesRespEvent ℚ)}
    (hreads : Reads servers obj attr dev answer)
    (hreply : Replies dev attr period count start data) (timeStamp : PwrTime) :
    obj.attrGetSamples answer attr period ⟨timeStamp, count, List.replicate count.toNat 0⟩ =
      .ok (Ret.success, ⟨start, count, padded count.toNat data⟩, []) := by
  have hbuf : Replies dev attr period
      (⟨timeStamp, count, List.replicate count.toNat 0⟩ : Samples ℚ).count start data := hreply
  cases hreads with
  | device hobj answer =>
      have hzeros := zeros_add (padded count.toNat data)
      rw [length_padded hreply.short] at hzeros
      rw [attrGetSamples_local hobj hbuf]
      simp [hzeros]
  | server hobj depth =>
      rw [attrGetSamples_remote hobj hbuf]
      simp

namespace DeviceStat

/-- What a call shows of samples: the time they take, the operation's value over them, and
for the least and the greatest the time of the first sample that has it. -/
def Shows (stat : DeviceStat) (start : PwrTime) (data : List ℚ) (value : ℚ)
    (shown : TimePeriod) : Prop :=
  shown.start = start ∧ stat.after start data.length = .ok shown.stop ∧
    match stat.op with
    | .avg => value = data.sum / data.length
    | .min => ∃ i, FirstBest (· < ·) data value i ∧ stat.after start i = .ok shown.instant
    | .max => ∃ i, FirstBest (· > ·) data value i ∧ stat.after start i = .ok shown.instant

/-- A call is about exactly the samples that the device had, and where it failed or had
none the call fails and leaves `*value` and `*statTimes` as they were. -/
def Told (stat : DeviceStat) (code : Int32) (start : PwrTime) (data : List ℚ)
    (statTimes : TimePeriod) (call : StatOut → Except Fault (Int32 × StatOut)) : Prop :=
  ∀ prior : Option ℚ,
    if code = Ret.success ∧ data ≠ [] then
      ∃ value shown, call ⟨prior, statTimes⟩ = .ok (Ret.success, ⟨some value, shown⟩) ∧
        stat.Shows start data value shown
    else ∃ retval, retval ≠ Ret.success ∧
      call ⟨prior, statTimes⟩ = .ok (retval, ⟨prior, statTimes⟩)

variable {stat : DeviceStat} {start : PwrTime} {data : List ℚ} {value : ℚ} {shown : TimePeriod}
  {n : ℕ}

theorem extremum_padded (r : ℚ → ℚ → Prop) [IsStrictTotalOrder ℚ r] [DecidableRel r]
    (hdata : data ≠ []) (hshort : data.length ≤ n)
    (h : ∃ i, FirstBest r (padded n data) value i ∧ stat.after start i = .ok shown.instant) :
    (∃ i, FirstBest r data value i ∧ stat.after start i = .ok shown.instant) ↔
      data.length = n ∨ ∃ y ∈ data, ¬ r 0 y := by
  obtain ⟨i, hpadded, hinstant⟩ := h
  rw [← firstBest_padded hdata hshort hpadded]
  constructor
  · intro ⟨j, hvalue, _⟩
    have hzeros : ∀ z ∈ List.replicate (n - data.length) (0 : ℚ), ¬ r z value :=
      fun z hz => hpadded.best z (List.mem_append_right data hz)
    rw [(hpadded.unique (hvalue.append hzeros)).2]
    exact hvalue
  · intro hvalue
    exact ⟨i, hvalue, hinstant⟩

theorem avg_padded (hdata : data ≠ []) (hshort : data.length ≤ n) :
    (padded n data).sum / (padded n data).length = data.sum / data.length ↔
      data.length = n ∨ data.sum = 0 := by
  have hpos : 0 < data.length := List.length_pos_iff.mpr hdata
  have hsamples : (data.length : ℚ) ≠ 0 := Nat.cast_ne_zero.mpr (by omega)
  have hcount : (n : ℚ) ≠ 0 := Nat.cast_ne_zero.mpr (by omega)
  have hsum : (padded n data).sum = data.sum := by simp [padded]
  rw [hsum, length_padded hshort, div_eq_div_iff hcount hsamples, mul_eq_mul_left_iff,
    Nat.cast_inj]

theorem shows_padded (hdata : data ≠ []) (hshort : data.length ≤ n)
    (h : stat.Shows start (padded n data) value shown) :
    stat.Shows start data value shown ↔
      data.length = n ∨
        stat.op.IgnoresZeros data ∧ stat.after start data.length = .ok shown.stop := by
  obtain ⟨hstart, hstop, hvalue⟩ := h
  rw [length_padded hshort] at hstop
  have hsame : data.length = n → stat.after start data.length = .ok shown.stop :=
    fun hfull => hfull ▸ hstop
  have hop : (match stat.op with
      | .avg => value = data.sum / data.length
      | .min => ∃ i, FirstBest (· < ·) data value i ∧ stat.after start i = .ok shown.instant
      | .max => ∃ i, FirstBest (· > ·) data value i ∧ stat.after start i = .ok shown.instant) ↔
      data.length = n ∨ stat.op.IgnoresZeros data := by
    cases hstat : stat.op with
    | avg =>
        rw [hstat] at hvalue
        simp only at hvalue ⊢
        rw [hvalue, avg_padded hdata hshort]
        rfl
    | min =>
        rw [hstat] at hvalue
        simp only at hvalue ⊢
        rw [extremum_padded (· < ·) hdata hshort hvalue]
        simp only [AttrStat.IgnoresZeros, not_lt]
    | max =>
        rw [hstat] at hvalue
        simp only at hvalue ⊢
        rw [extremum_padded (· > ·) hdata hshort hvalue]
        simp only [AttrStat.IgnoresZeros, gt_iff_lt, not_lt]
  unfold Shows
  rw [hop]
  tauto

theorem objGetValue_shows {servers : ObjID → Option (Cntxt ℚ)} {obj : DistObject ℚ}
    {dev : Device ℚ} {count : UInt32} {stop : PwrTime}
    {answer : List ObjID → CommGetSamplesReqEvent ℚ → Except Fault (CommGetSamplesRespEvent ℚ)}
    (hreads : Reads servers obj stat.attrName dev answer) (now timeStamp : PwrTime)
    (prior : Option ℚ) (statTimes : TimePeriod)
    (hcount : stat.requested now statTimes = .ok count)
    (hreply : Replies dev stat.attrName stat.period count start data)
    (hdata : padded count.toNat data ≠ []) (hstop : stat.after start count.toNat = .ok stop) :
    ∃ value shown,
      stat.objGetValue obj answer now timeStamp ⟨prior, statTimes⟩ =
        .ok (Ret.success, ⟨some value, shown⟩) ∧
      stat.Shows start (padded count.toNat data) value shown ∧ shown.stop = stop := by
  have hlength := length_padded hreply.short
  have hsamples := hreads.attrGetSamples hreply timeStamp
  have hcall : stat.objGetValue obj answer now timeStamp ⟨prior, statTimes⟩ = (do
      let (value, pos) ← getOp stat.op (padded count.toNat data)
      if pos > -1 then do
        let instant ← stat.after start pos.toNat
        .ok (Ret.success, ⟨value, ⟨start, stop, instant⟩⟩)
      else .ok (Ret.success, ⟨value, ⟨start, stop, timeUninit⟩⟩)) := by
    simp only [objGetValue, hcount, hsamples, hstop, bind, Except.bind]
  have hextremum : ∀ (r : ℚ → ℚ → Prop) [IsStrictOrder ℚ r] [DecidableRel r],
      ∃ value i instant, opExtremum r (padded count.toNat data) = .ok (some value, (i : ℕ)) ∧
        FirstBest r (padded count.toNat data) value i ∧ stat.after start i = .ok instant := by
    intro r _ _
    obtain ⟨value, i, hvalue, hbest⟩ := opExtremum_firstBest (r := r) hdata
    have hi : i ≤ count.toNat := hlength ▸ hbest.lt_length.le
    obtain ⟨instant, hinstant⟩ := stat.after_isOk_of_le hstop hi
    exact ⟨value, i, instant, hvalue, hbest, hinstant⟩
  have hpos : ∀ i : ℕ, (i : ℤ) > -1 := fun i => by omega
  rw [hcall]
  unfold Shows
  rw [hlength]
  cases hop : stat.op with
  | avg =>
      have hne : count.toNat ≠ 0 := by
        rw [← hlength]
        exact fun hnone => hdata (List.length_eq_zero_iff.mp hnone)
      refine ⟨(padded count.toNat data).sum / count.toNat, ⟨start, stop, timeUninit⟩, ?_,
        ⟨rfl, hstop, rfl⟩, rfl⟩
      simp only [getOp, opAvg, hlength, if_neg hne, bind, Except.bind]
      rfl
  | min =>
      obtain ⟨value, i, instant, hvalue, hbest, hinstant⟩ := hextremum (· < ·)
      refine ⟨value, ⟨start, stop, instant⟩, ?_, ⟨rfl, hstop, i, hbest, hinstant⟩, rfl⟩
      simp only [getOp, opMin, hvalue, if_pos (hpos i), Int.toNat_natCast, hinstant, bind,
        Except.bind]
  | max =>
      obtain ⟨value, i, instant, hvalue, hbest, hinstant⟩ := hextremum (· > ·)
      refine ⟨value, ⟨start, stop, instant⟩, ?_, ⟨rfl, hstop, i, hbest, hinstant⟩, rfl⟩
      simp only [getOp, opMax, hvalue, if_pos (hpos i), Int.toNat_natCast, hinstant, bind,
        Except.bind]

theorem objGetValue_prior (obj : DistObject ℚ)
    (answer : List ObjID → CommGetSamplesReqEvent ℚ → Except Fault (CommGetSamplesRespEvent ℚ))
    (now timeStamp : PwrTime) (prior prior' : Option ℚ) (statTimes : TimePeriod) :
    stat.objGetValue obj answer now timeStamp ⟨prior, statTimes⟩ =
      stat.objGetValue obj answer now timeStamp ⟨prior', statTimes⟩ := rfl

/-- A call never leaves `*value` as it was, whatever that is. -/
theorem objGetValue_overwrites (obj : DistObject ℚ)
    (answer : List ObjID → CommGetSamplesReqEvent ℚ → Except Fault (CommGetSamplesRespEvent ℚ))
    (now timeStamp : PwrTime) (statTimes : TimePeriod) :
    ∃ prior, ∀ retval shown,
      stat.objGetValue obj answer now timeStamp ⟨prior, statTimes⟩ ≠
        .ok (retval, ⟨prior, shown⟩) := by
  by_contra hall
  push Not at hall
  obtain ⟨_, _, hnone⟩ := hall none
  obtain ⟨_, _, hzero⟩ := hall (some 0)
  rw [objGetValue_prior obj answer now timeStamp none (some 0), hzero] at hnone
  simp at hnone

/-- A device that has one sample of 6 W, taken when the clock showed one second. -/
def oneReading : Device ℚ where
  read := fun _ _ => (Ret.success, 6, 1000000000)
  write := fun _ _ _ => Ret.success
  logStart := some fun _ => Ret.success
  logStop := some fun _ => Ret.success
  samples := some fun _ _ _ => (Ret.success, 1000000000, [6])

def metered : DistObject ℚ where
  name := [110]
  attrInfo := fun _ => ⟨[oneReading], none, List.sum, .fpAdd⟩
  notMixed := fun _ hcomm => absurd rfl hcomm
  sameComm := fun _ _ hcomm => absurd rfl hcomm

def meanPower : DeviceStat where
  obj := some [110]
  grp := []
  attrName := .power
  op := .avg
  period := double (1 / 10)
  startTime := 0
  stopTime := 0
  isLogging := false
  period_ne_zero := tenth_ne_zero

/-- The window of some tenths of a second from the first second on. -/
def tenths (n : ℕ) : TimePeriod := ⟨1000000000, Int64.ofNat (1000000000 + n * 100000000), 0⟩

/-- The quotient of the doubles for three tenths and one is less than three. -/
example : meanPower.requested 0 (tenths 3) = .ok 2 := by decide +kernel

end DeviceStat

end PwrApi
