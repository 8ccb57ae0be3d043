import Mathlib.Data.List.Induction
import Mathlib.Data.List.Nodup

/-! Lists with each element once, where it comes first: `List.eraseDups`, as a loop builds it
that looks for every element among those before. -/

namespace PwrApi.Distinct

variable {α β : Type} [BEq α] [LawfulBEq α] [BEq β] [LawfulBEq β]

theorem eraseDups_concat (xs : List α) (x : α) :
    (xs ++ [x]).eraseDups = if x ∈ xs then xs.eraseDups else xs.eraseDups ++ [x] := by
  rw [List.eraseDups_append]
  by_cases hx : x ∈ xs
  · simp [hx, List.removeAll]
  · simp [hx, List.removeAll, List.eraseDups_cons]

theorem nodup_eraseDups (xs : List α) : xs.eraseDups.Nodup := by
  induction xs using List.reverseRecOn with
  | nil => exact .nil
  | append_singleton xs x ih =>
      rw [eraseDups_concat]
      by_cases hx : x ∈ xs
      · rwa [if_pos hx]
      · rw [if_neg hx]
        refine List.nodup_append.mpr ⟨ih, List.nodup_singleton x, ?_⟩
        rintro y hy _ hlast rfl
        obtain rfl := List.mem_singleton.mp hlast
        exact hx (List.mem_eraseDups.mp hy)

theorem eraseDups_map {f : α → β} {xs : List α}
    (hinj : ∀ x ∈ xs, ∀ y ∈ xs, f x = f y → x = y) :
    (xs.map f).eraseDups = xs.eraseDups.map f := by
  induction xs using List.reverseRecOn with
  | nil => rfl
  | append_singleton xs x ih =>
      have hbefore : ∀ y ∈ xs, ∀ z ∈ xs, f y = f z → y = z := fun y hy z hz =>
        hinj y (List.mem_append_left _ hy) z (List.mem_append_left _ hz)
      have hmem : f x ∈ xs.map f ↔ x ∈ xs := by
        rw [List.mem_map]
        constructor
        · rintro ⟨y, hy, hsame⟩
          have hlast : x ∈ xs ++ [x] := List.mem_append_right _ List.mem_cons_self
          exact hinj y (List.mem_append_left _ hy) x hlast hsame ▸ hy
        · exact fun hx => ⟨x, hx, rfl⟩
      rw [List.map_append, List.map_singleton, eraseDups_concat, eraseDups_concat, ih hbefore]
      by_cases hx : x ∈ xs
      · rw [if_pos hx, if_pos (hmem.mpr hx)]
      · rw [if_neg hx, if_neg fun h => hx (hmem.mp h), List.map_append, List.map_singleton]

theorem idxOf_map {f : α → β} {xs : List α} {x : α} (hinj : ∀ y ∈ xs, f y = f x → y = x) :
    (xs.map f).idxOf (f x) = xs.idxOf x := by
  induction xs with
  | nil => rfl
  | cons y xs ih =>
      obtain ⟨hy, hrest⟩ := List.forall_mem_cons.mp hinj
      rw [List.map_cons, List.idxOf_cons, List.idxOf_cons, ih hrest]
      by_cases hsame : y = x
      · subst hsame
        rw [beq_self_eq_true, beq_self_eq_true]
      · have hother : ¬ f y = f x := fun h => hsame (hy h)
        rw [beq_false_of_ne hsame, beq_false_of_ne hother]

end PwrApi.Distinct
