import Mathlib.Algebra.BigOperators.Group.Finset.Basic
import Mathlib.Data.Set.Finite.Lattice
import Mathlib.Logic.Relation
import Mathlib.Order.WellFounded

/-! Forests given by the list of children of every node, and sums over their subtrees.

The sum over a subtree is the weight of its root and the sums over the subtrees of the
root's children, which is what a recursive traversal adds up. -/

namespace PwrApi

open Relation

/-- Children lists in which no node occurs twice and no branch is infinite. -/
structure Branching (α : Type) where
  children : α → List α
  nodup : ∀ x, (children x).Nodup
  parent_unique : ∀ {x y c}, c ∈ children x → c ∈ children y → x = y
  wellFounded : WellFounded fun c x => c ∈ children x

namespace Branching

variable {α : Type} (b : Branching α)

/-- `y` lies in the subtree of `x`. -/
def Reaches (x y : α) : Prop := ReflTransGen (fun x c => c ∈ b.children x) x y

variable {b}

theorem reaches_refl (x : α) : b.Reaches x x := .refl

theorem reaches_child {x c y : α} (hc : c ∈ b.children x) (h : b.Reaches c y) :
    b.Reaches x y := .head hc h

theorem reaches_iff {x y : α} :
    b.Reaches x y ↔ y = x ∨ ∃ c ∈ b.children x, b.Reaches c y := by
  constructor
  · intro h
    rcases ReflTransGen.cases_head h with rfl | ⟨c, hc, hcy⟩
    · exact .inl rfl
    · exact .inr ⟨c, hc, hcy⟩
  · intro h
    rcases h with rfl | ⟨c, hc, hcy⟩
    · exact reaches_refl y
    · exact reaches_child hc hcy

theorem not_reaches_parent {x c : α} (hc : c ∈ b.children x) : ¬ b.Reaches c x := by
  intro h
  have hcycle : TransGen (fun x c => c ∈ b.children x) x x := TransGen.head' hc h
  exact b.wellFounded.transGen.irrefl.irrefl x (transGen_swap.mpr hcycle)

theorem reaches_linear {x y z : α} (hx : b.Reaches x z) (hy : b.Reaches y z) :
    b.Reaches x y ∨ b.Reaches y x := by
  induction hx with
  | refl => exact .inr hy
  | tail hxu huz ih =>
      rcases ReflTransGen.cases_tail hy with rfl | ⟨v, hyv, hvz⟩
      · exact .inl (.tail hxu huz)
      · rw [b.parent_unique hvz huz] at hyv
        exact ih hyv

theorem child_unique {x c d y : α} (hc : c ∈ b.children x) (hd : d ∈ b.children x)
    (hcy : b.Reaches c y) (hdy : b.Reaches d y) : c = d := by
  have side : ∀ {c d : α}, c ∈ b.children x → d ∈ b.children x → b.Reaches c d → c = d := by
    intro c d hc hd h
    rcases ReflTransGen.cases_tail h with rfl | ⟨v, hcv, hvd⟩
    · rfl
    · rw [b.parent_unique hvd hd] at hcv
      exact (not_reaches_parent hc hcv).elim
  rcases reaches_linear hcy hdy with h | h
  · exact side hc hd h
  · exact (side hd hc h).symm

theorem induction_below {P : α → Prop}
    (step : ∀ x, (∀ y, b.Reaches x y → y ≠ x → P y) → P x) (x : α) : P x := by
  induction x using b.wellFounded.transGen.induction with
  | _ x ih =>
      apply step
      intro y hy hne
      rcases reflTransGen_iff_eq_or_transGen.mp hy with heq | hbelow
      · exact (hne heq).elim
      · exact ih y (transGen_swap.mpr hbelow)

theorem finite_reaches (x : α) : {y | b.Reaches x y}.Finite := by
  induction x using b.wellFounded.induction with
  | _ x ih =>
      have hsplit : {y | b.Reaches x y} =
          insert x (⋃ c ∈ {c | c ∈ b.children x}, {y | b.Reaches c y}) := by
        ext y
        simp only [Set.mem_ofPred_eq, Set.mem_insert_iff, Set.mem_iUnion, exists_prop]
        exact reaches_iff
      rw [hsplit]
      exact ((List.finite_toSet _).biUnion ih).insert x

variable (b)

noncomputable def subtree (x : α) : Finset α := (finite_reaches (b := b) x).toFinset

variable {b}

@[simp]
theorem mem_subtree {x y : α} : y ∈ b.subtree x ↔ b.Reaches x y :=
  Set.Finite.mem_toFinset _

section Totals

variable {M : Type} [AddCommMonoid M] (b) (w : α → M)

/-- The weights of a subtree, each node counted once. -/
noncomputable def total (x : α) : M := ∑ y ∈ b.subtree x, w y

theorem total_eq (x : α) :
    b.total w x = w x + ((b.children x).map (b.total w)).sum := by
  classical
  have hsplit : b.subtree x = insert x ((b.children x).toFinset.biUnion b.subtree) := by
    ext y
    simp only [mem_subtree, Finset.mem_insert, Finset.mem_biUnion, List.mem_toFinset]
    exact reaches_iff
  have hroot : x ∉ (b.children x).toFinset.biUnion b.subtree := by
    intro hmem
    obtain ⟨c, hc, hcx⟩ := Finset.mem_biUnion.mp hmem
    exact not_reaches_parent (List.mem_toFinset.mp hc) (mem_subtree.mp hcx)
  have hdisjoint : Set.PairwiseDisjoint ↑(b.children x).toFinset b.subtree := by
    intro c hc d hd hne
    apply Finset.disjoint_left.mpr
    intro y hcy hdy
    exact hne (child_unique (List.mem_toFinset.mp hc) (List.mem_toFinset.mp hd)
      (mem_subtree.mp hcy) (mem_subtree.mp hdy))
  calc b.total w x
      = ∑ y ∈ insert x ((b.children x).toFinset.biUnion b.subtree), w y := by
        rw [total, hsplit]
    _ = w x + ∑ c ∈ (b.children x).toFinset, b.total w c := by
        rw [Finset.sum_insert hroot, Finset.sum_biUnion hdisjoint]
        rfl
    _ = w x + ((b.children x).map (b.total w)).sum := by
        rw [List.sum_toFinset _ (b.nodup x)]

end Totals

end Branching

end PwrApi
