import Mathlib.Order.RelClasses

/-! The first best element of a list, and the loop that keeps the best one so far with its
place. -/

namespace PwrApi.Extremum

variable {α : Type}

/-- No element is better than the one at the place, and it stands nowhere before. -/
structure FirstBest (r : α → α → Prop) (xs : List α) (x : α) (i : ℕ) : Prop where
  place : xs[i]? = some x
  best : ∀ y ∈ xs, ¬ r y x
  first : ∀ j < i, xs[j]? ≠ some x

/-- The loop over the elements from place `i` on. -/
def scan (r : α → α → Prop) [DecidableRel r] : ℕ → α × ℕ → List α → α × ℕ
  | _, kept, [] => kept
  | i, kept, x :: xs => scan r (i + 1) (if r x kept.1 then (x, i) else kept) xs

section Steps

variable {r : α → α → Prop} {xs : List α} {x y : α} {i : ℕ}

theorem FirstBest.mem (h : FirstBest r xs x i) : x ∈ xs := List.mem_of_getElem? h.place

theorem FirstBest.lt_length (h : FirstBest r xs x i) : i < xs.length := by
  by_contra hlength
  have hnone := List.getElem?_eq_none (Nat.le_of_not_lt hlength)
  exact absurd (hnone.symm.trans h.place) (by simp)

theorem FirstBest.append (h : FirstBest r xs x i) {ys : List α} (hys : ∀ y ∈ ys, ¬ r y x) :
    FirstBest r (xs ++ ys) x i where
  place := by
    rw [List.getElem?_append_left h.lt_length]
    exact h.place
  best := fun y hy => (List.mem_append.mp hy).elim (h.best y) (hys y)
  first := fun j hj => by
    rw [List.getElem?_append_left (Nat.lt_trans hj h.lt_length)]
    exact h.first j hj

variable [IsStrictOrder α r]

theorem firstBest_singleton (x : α) : FirstBest r [x] x 0 where
  place := rfl
  best := fun y hy => List.mem_singleton.mp hy ▸ irrefl_of r y
  first := fun _ hj => absurd hj (Nat.not_lt_zero _)

theorem FirstBest.append_better (h : FirstBest r xs x i) (hy : r y x) :
    FirstBest r (xs ++ [y]) y xs.length where
  place := by simp
  best := by
    intro z hz hzy
    rcases List.mem_append.mp hz with hxs | hlast
    · exact h.best z hxs (trans_of r hzy hy)
    · obtain rfl := List.mem_singleton.mp hlast
      exact irrefl_of r z hzy
  first := by
    intro j hj hfound
    rw [List.getElem?_append_left hj] at hfound
    exact h.best y (List.mem_of_getElem? hfound) hy

variable [DecidableRel r]

theorem scan_firstBest (ys : List α) {kept : α × ℕ} (h : FirstBest r xs kept.1 kept.2) :
    FirstBest r (xs ++ ys) (scan r xs.length kept ys).1 (scan r xs.length kept ys).2 := by
  induction ys generalizing xs kept with
  | nil =>
      rw [List.append_nil]
      exact h
  | cons y ys ih =>
      have hstep : FirstBest r (xs ++ [y]) (if r y kept.1 then (y, xs.length) else kept).1
          (if r y kept.1 then (y, xs.length) else kept).2 := by
        by_cases hy : r y kept.1
        · rw [if_pos hy]
          exact h.append_better hy
        · rw [if_neg hy]
          exact h.append fun z hz => List.mem_singleton.mp hz ▸ hy
      have hrest := ih hstep
      rw [List.append_assoc, List.singleton_append, List.length_append,
        List.length_singleton] at hrest
      exact hrest

theorem scan_first (x : α) (xs : List α) :
    FirstBest r (x :: xs) (scan r 1 (x, 0) xs).1 (scan r 1 (x, 0) xs).2 := by
  have hfirst : FirstBest r [x] (x, 0).1 (x, 0).2 := firstBest_singleton x
  exact scan_firstBest xs hfirst

end Steps

section Total

variable {r : α → α → Prop} [IsStrictTotalOrder α r] {xs : List α} {x y : α} {i j : ℕ}

theorem FirstBest.unique (hx : FirstBest r xs x i) (hy : FirstBest r xs y j) :
    x = y ∧ i = j := by
  have hxy : x = y := by
    rcases trichotomous_of r x y with hlt | heq | hgt
    · exact absurd hlt (hy.best x hx.mem)
    · exact heq
    · exact absurd hgt (hx.best y hy.mem)
  subst hxy
  refine ⟨rfl, ?_⟩
  rcases Nat.lt_trichotomy i j with hlt | heq | hgt
  · exact absurd hx.place (hy.first i hlt)
  · exact heq
  · exact absurd hy.place (hx.first j hgt)

theorem FirstBest.append_eq_iff (hx : FirstBest r xs x i) {ys : List α}
    (hy : FirstBest r (xs ++ ys) y j) : y = x ↔ ∀ z ∈ ys, ¬ r z x := by
  constructor
  · intro heq z hz
    exact heq ▸ hy.best z (List.mem_append_right xs hz)
  · intro hys
    exact (hy.unique (hx.append hys)).1

end Total

end PwrApi.Extremum
