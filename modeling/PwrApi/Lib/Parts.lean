import Mathlib.Algebra.BigOperators.Field
import Mathlib.Algebra.BigOperators.Ring.List
import Mathlib.Algebra.CharZero.Defs
import Mathlib.Algebra.Order.BigOperators.Group.List

/-! Sums and averages over parts: all leaves reduced in one go, against the reductions of
the parts reduced once more. -/

namespace PwrApi

inductive Reduce
  | sum | avg
  deriving DecidableEq, Repr

/-- Leaves, with the reduction that the part has for itself. -/
structure Part (ι : Type) where
  reduce : Reduce
  leaves : List ι

namespace Reduce

variable {ι K : Type} [Field K]

def apply : Reduce → List K → K
  | sum, values => values.sum
  | avg, values => values.sum / (values.length : K)

def inOneGo (op : Reduce) (parts : List (Part ι)) (value : ι → K) : K :=
  op.apply ((parts.flatMap (·.leaves)).map value)

def byParts (op : Reduce) (parts : List (Part ι)) (value : ι → K) : K :=
  op.apply (parts.map fun part => part.reduce.apply (part.leaves.map value))

/-- The weight of a leaf in the average of a list. -/
def share (K : Type) [Field K] [DecidableEq ι] (leaves : List ι) (leaf : ι) : K :=
  (leaves.count leaf : K) / (leaves.length : K)

/-- No part with the other reduction has more than one leaf, and in an average every leaf
has the weight that it has on average in the parts. -/
def Flat (K : Type) [Field K] [DecidableEq ι] : Reduce → List (Part ι) → Prop
  | sum, parts => ∀ part ∈ parts, part.reduce = avg → part.leaves.length = 1
  | avg, parts => (∀ part ∈ parts, part.reduce = sum → part.leaves.length = 1) ∧
      ∀ leaf, share K (parts.flatMap (·.leaves)) leaf =
        (parts.map fun part => share K part.leaves leaf).sum / (parts.length : K)

section Sums

theorem sum_flatMap (parts : List (Part ι)) (value : ι → K) :
    ((parts.flatMap (·.leaves)).map value).sum =
      (parts.map fun part => (part.leaves.map value).sum).sum := by
  induction parts with
  | nil => rfl
  | cons part parts ih => simp [ih]

theorem length_flatMap (parts : List (Part ι)) :
    (parts.flatMap (·.leaves)).length = (parts.map fun part => part.leaves.length).sum := by
  induction parts with
  | nil => rfl
  | cons part parts ih => simp [ih]

theorem eq_of_sum_eq {α : Type} {f g : α → ℕ} {xs : List α} (hle : ∀ x ∈ xs, f x ≤ g x)
    (hsum : (xs.map g).sum = (xs.map f).sum) : ∀ x ∈ xs, f x = g x := by
  induction xs with
  | nil => exact fun x hx => absurd hx List.not_mem_nil
  | cons x xs ih =>
      have htail : (xs.map f).sum ≤ (xs.map g).sum :=
        List.sum_le_sum fun y hy => hle y (List.mem_cons_of_mem x hy)
      have hhead := hle x List.mem_cons_self
      simp only [List.map_cons, List.sum_cons] at hsum
      intro y hy
      rcases List.mem_cons.mp hy with rfl | hy
      · omega
      · exact ih (fun z hz => hle z (List.mem_cons_of_mem x hz)) (by omega) y hy

theorem length_ne_zero [CharZero K] {α : Type} {xs : List α} (hne : xs ≠ []) :
    (xs.length : K) ≠ 0 := by
  exact_mod_cast fun hzero => hne (List.length_eq_zero_iff.mp hzero)

theorem apply_one (op : Reduce) {leaves : List ι} (value : ι → K) (hone : leaves.length = 1) :
    op.apply (leaves.map value) = (leaves.map value).sum := by
  cases op with
  | sum => rfl
  | avg => simp [apply, hone]

theorem sum_eq_count [DecidableEq ι] (leaves : List ι) (value : ι → K) {s : Finset ι}
    (hs : leaves.toFinset ⊆ s) :
    (leaves.map value).sum = ∑ leaf ∈ s, (leaves.count leaf : K) * value leaf := by
  rw [Finset.sum_list_map_count, ← Finset.sum_subset hs]
  · exact Finset.sum_congr rfl fun leaf _ => nsmul_eq_mul _ _
  · intro leaf _ hleaf
    rw [List.mem_toFinset] at hleaf
    rw [List.count_eq_zero_of_not_mem hleaf, Nat.cast_zero, zero_mul]

theorem avg_eq_share [DecidableEq ι] (leaves : List ι) (value : ι → K) {s : Finset ι}
    (hs : leaves.toFinset ⊆ s) :
    avg.apply (leaves.map value) = ∑ leaf ∈ s, share K leaves leaf * value leaf := by
  rw [apply, sum_eq_count leaves value hs, List.length_map, Finset.sum_div]
  apply Finset.sum_congr rfl
  intro leaf _
  rw [share, div_mul_eq_mul_div]

end Sums

section Flattening

variable [CharZero K]

theorem apply_ones (op : Reduce) {leaves : List ι} (hne : leaves ≠ []) :
    op.apply (leaves.map fun _ => (1 : K)) =
      ((if op = sum then leaves.length else 1 : ℕ) : K) := by
  cases op with
  | sum => simp [apply]
  | avg => simp [apply, length_ne_zero hne]

theorem sum_ones {parts : List (Part ι)} (hne : ∀ part ∈ parts, part.leaves ≠ []) :
    (parts.map fun part => part.reduce.apply (part.leaves.map fun _ => (1 : K))).sum =
      (((parts.map fun part => if part.reduce = sum then part.leaves.length else 1).sum : ℕ)
        : K) := by
  rw [Nat.cast_list_sum, List.map_map]
  congr 1
  apply List.map_congr_left
  exact fun part hpart => apply_ones part.reduce (hne part hpart)

omit [CharZero K] in
theorem avg_indicator [DecidableEq ι] (leaves : List ι) (leaf : ι) :
    avg.apply (leaves.map fun other => if other = leaf then (1 : K) else 0) =
      share K leaves leaf := by
  have hcount : (leaves.map fun other => if other = leaf then (1 : K) else 0).sum =
      (leaves.count leaf : K) := by
    induction leaves with
    | nil => simp
    | cons other leaves ih =>
        rw [List.map_cons, List.sum_cons, ih, List.count_cons]
        by_cases hleaf : other = leaf <;> simp [hleaf, add_comm]
  rw [apply, hcount, List.length_map, share]

theorem flat_sum {parts : List (Part ι)} (hne : ∀ part ∈ parts, part.leaves ≠ [])
    (h : ∀ value : ι → K, inOneGo sum parts value = byParts sum parts value) :
    ∀ part ∈ parts, part.reduce = avg → part.leaves.length = 1 := by
  have hones : ((parts.flatMap (·.leaves)).map fun _ => (1 : K)).sum =
      (parts.map fun part => part.reduce.apply (part.leaves.map fun _ => (1 : K))).sum :=
    h fun _ => 1
  rw [sum_ones hne, List.map_const', List.sum_replicate, nsmul_eq_mul, mul_one,
    length_flatMap] at hones
  have hle : ∀ part ∈ parts, (if part.reduce = sum then part.leaves.length else 1) ≤
      part.leaves.length := by
    intro part hpart
    have hpos := List.length_pos_iff.mpr (hne part hpart)
    by_cases hreduce : part.reduce = sum
    · rw [if_pos hreduce]
    · rw [if_neg hreduce]
      exact hpos
  intro part hpart hreduce
  have heq := eq_of_sum_eq hle (Nat.cast_injective hones) part hpart
  rw [if_neg (by simp [hreduce])] at heq
  exact heq.symm

theorem flat_avg {parts : List (Part ι)} (hne : ∀ part ∈ parts, part.leaves ≠ [])
    (h : ∀ value : ι → K, inOneGo avg parts value = byParts avg parts value) :
    ∀ part ∈ parts, part.reduce = sum → part.leaves.length = 1 := by
  intro part hpart hreduce
  have hflat : parts.flatMap (·.leaves) ≠ [] := by
    intro hnil
    exact hne part hpart (List.flatMap_eq_nil_iff.mp hnil part hpart)
  have hones := h fun _ => 1
  rw [inOneGo, apply_ones avg hflat, byParts, apply, sum_ones hne] at hones
  simp only [reduceCtorEq, if_false, Nat.cast_one, List.length_map] at hones
  rw [eq_div_iff (length_ne_zero (List.ne_nil_of_mem hpart)), one_mul] at hones
  have hle : ∀ part ∈ parts, 1 ≤ (if part.reduce = sum then part.leaves.length else 1) := by
    intro part hpart
    have hpos := List.length_pos_iff.mpr (hne part hpart)
    by_cases hreduce : part.reduce = sum
    · rw [if_pos hreduce]
      exact hpos
    · rw [if_neg hreduce]
  have hsum : (parts.map fun part => if part.reduce = sum then part.leaves.length else 1).sum =
      (parts.map fun _ => 1).sum := by
    rw [List.map_const', List.sum_replicate, nsmul_eq_mul, Nat.cast_id, mul_one]
    exact (Nat.cast_injective hones).symm
  have heq := eq_of_sum_eq hle hsum part hpart
  rw [if_pos hreduce] at heq
  exact heq.symm

omit [CharZero K] in
theorem apply_eq_avg {part : Part ι} (hone : part.reduce = sum → part.leaves.length = 1)
    (value : ι → K) :
    part.reduce.apply (part.leaves.map value) = avg.apply (part.leaves.map value) := by
  cases hreduce : part.reduce with
  | sum => rw [apply_one sum value (hone hreduce), apply_one avg value (hone hreduce)]
  | avg => rfl

omit [CharZero K] in
theorem byParts_avg [DecidableEq ι] {parts : List (Part ι)}
    (hone : ∀ part ∈ parts, part.reduce = sum → part.leaves.length = 1) (value : ι → K) :
    byParts avg parts value = ∑ leaf ∈ (parts.flatMap (·.leaves)).toFinset,
      (parts.map fun part => share K part.leaves leaf).sum / (parts.length : K) *
        value leaf := by
  have hparts : ∀ parts' : List (Part ι), (∀ part ∈ parts', part ∈ parts) →
      (parts'.map fun part => part.reduce.apply (part.leaves.map value)).sum =
        ∑ leaf ∈ (parts.flatMap (·.leaves)).toFinset,
          (parts'.map fun part => share K part.leaves leaf).sum * value leaf := by
    intro parts' hparts'
    induction parts' with
    | nil => simp
    | cons part parts' ih =>
        have hpart := hparts' part List.mem_cons_self
        have hleaves : part.leaves.toFinset ⊆ (parts.flatMap (·.leaves)).toFinset := by
          intro leaf hleaf
          rw [List.mem_toFinset] at hleaf ⊢
          exact List.mem_flatMap.mpr ⟨part, hpart, hleaf⟩
        rw [List.map_cons, List.sum_cons, ih fun p hp => hparts' p (List.mem_cons_of_mem part hp),
          apply_eq_avg (hone part hpart), avg_eq_share _ _ hleaves, ← Finset.sum_add_distrib]
        apply Finset.sum_congr rfl
        intro leaf _
        rw [List.map_cons, List.sum_cons, add_mul]
  rw [byParts, apply, hparts parts fun part hpart => hpart, List.length_map, Finset.sum_div]
  apply Finset.sum_congr rfl
  intro leaf _
  rw [div_mul_eq_mul_div]

/-- One reduction of all leaves is the reduction of the parts' reductions, whatever the
values of the leaves, exactly for parts that are flat for the operation. -/
theorem inOneGo_eq_byParts_iff [DecidableEq ι] (op : Reduce) {parts : List (Part ι)}
    (hne : ∀ part ∈ parts, part.leaves ≠ []) :
    (∀ value : ι → K, inOneGo op parts value = byParts op parts value) ↔ Flat K op parts := by
  cases op with
  | sum =>
      refine ⟨flat_sum hne, fun hflat value => ?_⟩
      rw [inOneGo, apply, sum_flatMap, byParts, apply]
      congr 1
      apply List.map_congr_left
      intro part hpart
      cases hreduce : part.reduce with
      | sum => rfl
      | avg => rw [apply_one avg value (hflat part hpart hreduce)]
  | avg =>
      constructor
      · intro h
        have hone := flat_avg hne h
        refine ⟨hone, fun leaf => ?_⟩
        have hleaf := h fun other => if other = leaf then 1 else 0
        rw [inOneGo, avg_indicator, byParts, apply, List.length_map] at hleaf
        rw [hleaf]
        congr 2
        apply List.map_congr_left
        intro part hpart
        rw [apply_eq_avg (hone part hpart), avg_indicator]
      · intro ⟨hone, hshare⟩ value
        rw [inOneGo, avg_eq_share _ value (Finset.Subset.refl _), byParts_avg hone]
        apply Finset.sum_congr rfl
        intro leaf _
        rw [hshare leaf]

end Flattening

section Distinct

variable [DecidableEq ι] {parts : List (Part ι)}

theorem share_of_not_mem {leaves : List ι} {leaf : ι} (hleaf : leaf ∉ leaves) :
    share K leaves leaf = 0 := by
  rw [share, List.count_eq_zero_of_not_mem hleaf, Nat.cast_zero, zero_div]

theorem share_of_mem {leaves : List ι} {leaf : ι} (hnodup : leaves.Nodup) (hleaf : leaf ∈ leaves) :
    share K leaves leaf = 1 / (leaves.length : K) := by
  rw [share, List.count_eq_one_of_mem hnodup hleaf, Nat.cast_one]

theorem sum_share (hnodup : (parts.flatMap (·.leaves)).Nodup) {part : Part ι}
    (hpart : part ∈ parts) {leaf : ι} (hleaf : leaf ∈ part.leaves) :
    (parts.map fun part => share K part.leaves leaf).sum = 1 / (part.leaves.length : K) := by
  induction parts with
  | nil => exact absurd hpart List.not_mem_nil
  | cons first parts ih =>
      rw [List.flatMap_cons, List.nodup_append] at hnodup
      obtain ⟨hfirst, hrest, hapart⟩ := hnodup
      rw [List.map_cons, List.sum_cons]
      rcases List.mem_cons.mp hpart with rfl | hpart
      · have hothers : ∀ x ∈ parts.map fun part => share K part.leaves leaf, x = 0 := by
          intro x hx
          obtain ⟨other, hother, rfl⟩ := List.mem_map.mp hx
          apply share_of_not_mem
          intro hmem
          exact hapart leaf hleaf leaf (List.mem_flatMap.mpr ⟨other, hother, hmem⟩) rfl
        rw [List.sum_eq_zero hothers, add_zero, share_of_mem hfirst hleaf]
      · have habsent : leaf ∉ first.leaves := fun hmem =>
          hapart leaf hmem leaf (List.mem_flatMap.mpr ⟨part, hpart, hleaf⟩) rfl
        rw [share_of_not_mem habsent, zero_add, ih hrest hpart]

theorem flat_avg_iff [CharZero K] (hne : ∀ part ∈ parts, part.leaves ≠ [])
    (hnodup : (parts.flatMap (·.leaves)).Nodup) :
    avg.Flat K parts ↔ (∀ part ∈ parts, part.reduce = sum → part.leaves.length = 1) ∧
      ∀ part ∈ parts, ∀ part' ∈ parts, part.leaves.length = part'.leaves.length := by
  apply and_congr_right
  intro _
  constructor
  · intro hshare
    have hlength : ∀ part ∈ parts,
        part.leaves.length * parts.length = (parts.flatMap (·.leaves)).length := by
      intro part hpart
      obtain ⟨leaf, hleaf⟩ := List.exists_mem_of_ne_nil _ (hne part hpart)
      have hflat : leaf ∈ parts.flatMap (·.leaves) := List.mem_flatMap.mpr ⟨part, hpart, hleaf⟩
      have hproduct : (part.leaves.length : K) * (parts.length : K) ≠ 0 :=
        mul_ne_zero (length_ne_zero (hne part hpart)) (length_ne_zero (List.ne_nil_of_mem hpart))
      have h := hshare leaf
      rw [sum_share hnodup hpart hleaf, share_of_mem hnodup hflat, div_div,
        div_eq_div_iff (length_ne_zero (List.ne_nil_of_mem hflat)) hproduct, one_mul,
        one_mul] at h
      exact_mod_cast h
    intro part hpart part' hpart'
    apply Nat.eq_of_mul_eq_mul_right (List.length_pos_of_mem hpart)
    rw [hlength part hpart, hlength part' hpart']
  · intro heven leaf
    by_cases hleaf : leaf ∈ parts.flatMap (·.leaves)
    · obtain ⟨part, hpart, hmem⟩ := List.mem_flatMap.mp hleaf
      have hlength : (parts.flatMap (·.leaves)).length = part.leaves.length * parts.length := by
        rw [length_flatMap, List.map_congr_left fun other hother =>
          heven other hother part hpart, List.map_const', List.sum_replicate, nsmul_eq_mul,
          Nat.cast_id, Nat.mul_comm]
      rw [sum_share hnodup hpart hmem, share_of_mem hnodup hleaf, hlength, Nat.cast_mul, div_div]
    · have hothers : ∀ x ∈ parts.map fun part => share K part.leaves leaf, x = 0 := by
        intro x hx
        obtain ⟨part, hpart, rfl⟩ := List.mem_map.mp hx
        exact share_of_not_mem fun hmem => hleaf (List.mem_flatMap.mpr ⟨part, hpart, hmem⟩)
      rw [List.sum_eq_zero hothers, zero_div, share_of_not_mem hleaf]

end Distinct

end Reduce

end PwrApi
