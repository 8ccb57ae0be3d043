import Mathlib.Tactic.NormNum
import Mathlib.Tactic.Ring
import PwrApi.Lib.Bits

/-! The power that the plugin for AMD processors decodes from registers: `pwr_apmdev.c`, with
rationals for its floating-point numbers. -/

namespace PwrApi.Apm

/-- `MSR( X, Y, Z )`. -/
def msr (x mask shift : UInt64) : UInt64 := (x &&& mask) >>> shift

/-- `LMSR( X, Y, Z )`. -/
def lmsr (x mask shift : UInt64) : UInt64 := (x &&& mask) <<< shift

/-- What `apmdev_gather` uses of a `node_t`. -/
structure Node where
  number : UInt64
  tdpToWatt : ℚ
  runAvgRange : ℕ
  avgDivideBy : ℚ

/-- `apmdev_read`: the value of a register at an offset of a node, `none` for a failed call of
`setpci`. -/
abbrev Read := UInt64 → UInt64 → UInt64 → Option UInt64

/-- What `pwr_apmdev_init` sets for a node. -/
def init (read : Read) (number : UInt64) : Option Node := do
  let watt ← read number 0x5 0xe8
  let range ← read number 0x5 0xe0
  let runAvgRange := (msr range 0x000f 0).toNat
  some
    { number
      tdpToWatt := (lmsr watt 0x03ff 6 ||| msr watt 0xfc00 10).toNat / 65536
      runAvgRange
      avgDivideBy := 2 ^ (runAvgRange + 1) }

/-- `run_avg_acc_cap`, with its sign restored in an unsigned number. -/
def runAvgAccCap (value : UInt64) : UInt64 :=
  let cap := msr value 0x03ffffff 4
  if cap ≥ 0x00200000 then -((~~~(cap &&& 0x001fffff) &&& 0x001fffff) + 1) else cap

def gather (read : Read) (node : Node) : Option ℚ := do
  let limit ← read node.number 0x5 0xe8
  let apmTdpLimit : ℚ := (msr limit 0x1fffffff 16).toNat
  let cap ← read node.number 0x5 0xe0
  some ((apmTdpLimit - (runAvgAccCap cap).toNat / node.avgDivideBy) * node.tdpToWatt)

/-- Bits 28 to 16, unsigned. -/
def limitField (limit : UInt64) : ℕ := (limit.toBitVec.extractLsb 28 16).toNat

/-- Bits 25 to 4, in two's complement. -/
def accField (cap : UInt64) : ℤ := (cap.toBitVec.extractLsb 25 4).toInt

/-- The power that two register values stand for. -/
def power (node : Node) (limit cap : UInt64) : ℚ :=
  (limitField limit - accField cap / 2 ^ (node.runAvgRange + 1)) * node.tdpToWatt

section Fields

theorem msr_limit (limit : UInt64) : (msr limit 0x1fffffff 16).toNat = limitField limit := by
  have hmask : (0x1fffffff : UInt64).toNat = 2 ^ 29 - 1 := rfl
  have hshift : (16 : UInt64).toNat = 16 := rfl
  rw [msr, Bits.toNat_field hmask hshift (by decide), limitField, BitVec.extractLsb_toNat,
    Nat.shiftRight_eq_div_pow, UInt64.toNat_toBitVec]
  omega

theorem msr_cap (cap : UInt64) : (msr cap 0x03ffffff 4).toNat = cap.toNat / 2 ^ 4 % 2 ^ 22 := by
  have hmask : (0x03ffffff : UInt64).toNat = 2 ^ 26 - 1 := rfl
  have hshift : (4 : UInt64).toNat = 4 := rfl
  rw [msr, Bits.toNat_field hmask hshift (by decide)]
  omega

theorem bit_25 (cap : UInt64) :
    cap.toBitVec.getLsbD 25 = true ↔ 2 ^ 21 ≤ cap.toNat / 2 ^ 4 % 2 ^ 22 := by
  rw [BitVec.getLsbD, UInt64.toNat_toBitVec, Nat.testBit_eq_decide_div_mod_eq, decide_eq_true_eq]
  omega

theorem accField_eq (cap : UInt64) : accField cap =
    (cap.toNat / 2 ^ 4 % 2 ^ 22 : ℕ) - if cap.toBitVec.getLsbD 25 = true then 2 ^ 22 else 0 := by
  rw [accField, BitVec.toInt_eq_toNat_cond, BitVec.extractLsb_toNat, Nat.shiftRight_eq_div_pow,
    UInt64.toNat_toBitVec]
  simp only [bit_25]
  split_ifs <;> omega

theorem runAvgAccCap_eq (cap : UInt64) : ((runAvgAccCap cap).toNat : ℤ) =
    accField cap + if cap.toBitVec.getLsbD 25 = true then 2 ^ 64 else 0 := by
  have hraw := msr_cap cap
  have hbound := Nat.mod_lt (cap.toNat / 2 ^ 4) (Nat.two_pow_pos 22)
  rw [accField_eq, runAvgAccCap]
  simp only [ge_iff_le, UInt64.le_iff_toNat_le, hraw, bit_25]
  have hneg : (0x00200000 : UInt64).toNat = 2 ^ 21 := rfl
  rw [hneg]
  by_cases hbit : 2 ^ 21 ≤ cap.toNat / 2 ^ 4 % 2 ^ 22
  · have hmask : (0x001fffff : UInt64).toNat = 2 ^ 21 - 1 := rfl
    have hlow : (msr cap 0x03ffffff 4 &&& 0x001fffff).toNat = cap.toNat / 2 ^ 4 % 2 ^ 22 - 2 ^ 21 := by
      rw [Bits.toNat_and_mask hmask, hraw]
      omega
    have hcomplement := Bits.toNat_not_and_mask hmask (by decide)
      (show (msr cap 0x03ffffff 4 &&& 0x001fffff).toNat < 2 ^ 21 by omega)
    have hone : (1 : UInt64).toNat = 1 := rfl
    have hsize : UInt64.size = 2 ^ 64 := rfl
    simp only [if_pos hbit, UInt64.toNat_neg, UInt64.toNat_add, hcomplement, hlow, hone, hsize]
    omega
  · simp only [if_neg hbit, hraw]
    omega

end Fields

section Gathering

variable {read : Read} {node : Node} {limit cap : UInt64}

theorem gather_eq (hlimit : read node.number 0x5 0xe8 = some limit)
    (hcap : read node.number 0x5 0xe0 = some cap) : gather read node =
      some ((limitField limit - (runAvgAccCap cap).toNat / node.avgDivideBy) * node.tdpToWatt) := by
  simp only [gather, hlimit, hcap, Option.bind_eq_bind, Option.bind_some, msr_limit]

theorem init_avgDivideBy {number : UInt64} (hinit : init read number = some node) :
    node.avgDivideBy = 2 ^ (node.runAvgRange + 1) := by
  simp only [init, Option.bind_eq_bind, Option.bind_eq_some_iff] at hinit
  obtain ⟨_, _, _, _, hnode⟩ := hinit
  obtain rfl := Option.some.inj hnode
  rfl

theorem gather_power {start : Read} {number : UInt64} (hinit : init start number = some node)
    (hlimit : read node.number 0x5 0xe8 = some limit)
    (hcap : read node.number 0x5 0xe0 = some cap) : gather read node =
      some (power node limit cap - (if cap.toBitVec.getLsbD 25 = true then 2 ^ 64 else 0) /
        2 ^ (node.runAvgRange + 1) * node.tdpToWatt) := by
  have hvalue : ((runAvgAccCap cap).toNat : ℚ) =
      accField cap + if cap.toBitVec.getLsbD 25 = true then 2 ^ 64 else 0 := by
    have hcast := congrArg (Int.cast : ℤ → ℚ) (runAvgAccCap_eq cap)
    rw [Int.cast_natCast, Int.cast_add] at hcast
    rw [hcast]
    split_ifs <;> norm_num
  rw [gather_eq hlimit hcap, power, init_avgDivideBy hinit, hvalue, Option.some.injEq]
  ring

/-- The power is right if and only if the accumulated average is not negative or its weight
is zero. -/
theorem gather_power_iff {start : Read} {number : UInt64} (hinit : init start number = some node)
    (hlimit : read node.number 0x5 0xe8 = some limit)
    (hcap : read node.number 0x5 0xe0 = some cap) : gather read node = some (power node limit cap) ↔
      cap.toBitVec.getLsbD 25 = false ∨ node.tdpToWatt = 0 := by
  have hrange : (2 : ℚ) ^ (node.runAvgRange + 1) ≠ 0 := pow_ne_zero _ two_ne_zero
  have hsize : (2 : ℚ) ^ 64 ≠ 0 := pow_ne_zero _ two_ne_zero
  rw [gather_power hinit hlimit hcap, Option.some.injEq, sub_eq_self, mul_eq_zero, div_eq_zero_iff,
    or_iff_left hrange]
  apply or_congr_left
  cases cap.toBitVec.getLsbD 25 with
  | false => simp
  | true => simp [hsize]

/-- The accumulator reads as -1, and the other registers as 0x10001. -/
def minusOne : Read := fun _ _ offset => if offset = 0xe0 then some 0x03fffff0 else some 0x10001

def minusOneNode : Node where
  number := 0
  tdpToWatt := (64 : ℕ) / 65536
  runAvgRange := 0
  avgDivideBy := 2 ^ (0 + 1)

theorem init_minusOne : init minusOne 0 = some minusOneNode := rfl

theorem gather_power_iff_minusOne :
    gather minusOne minusOneNode = some (power minusOneNode 0x10001 0x03fffff0) ↔
      (0x03fffff0 : UInt64).toBitVec.getLsbD 25 = false ∨ minusOneNode.tdpToWatt = 0 :=
  gather_power_iff init_minusOne rfl rfl

/-- With an accumulator of -1 the power is 2 ^ 53 too low. -/
theorem negative_average_wraps : init minusOne 0 = some minusOneNode ∧
    gather minusOne minusOneNode ≠ some (power minusOneNode 0x10001 0x03fffff0) := by
  refine ⟨init_minusOne, ?_⟩
  have hbit : (0x03fffff0 : UInt64).toBitVec.getLsbD 25 = true := rfl
  rw [gather_power init_minusOne rfl rfl, hbit]
  simp [minusOneNode]

end Gathering

end PwrApi.Apm
