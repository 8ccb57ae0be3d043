import Mathlib.Data.List.Induction
import Mathlib.Data.List.Perm.Basic
import Mathlib.Logic.Function.Basic
import Mathlib.Tactic.TypeStar

/-! Tables from keys to values: an entry that is entered under a new key, found and taken
out again; and what a table that is a function has after updates. -/

namespace PwrApi.Table

variable {κ α : Type*} [DecidableEq κ]

def erase (key : κ) (table : List (κ × α)) : List (κ × α) := table.eraseP fun entry => entry.1 == key

/-- An entry under the same key is replaced. -/
def insert (key : κ) (value : α) (table : List (κ × α)) : List (κ × α) :=
  erase key table ++ [(key, value)]

variable {key : κ} {value : α} {table : List (κ × α)}

theorem erase_of_not_mem (h : key ∉ table.map Prod.fst) : erase key table = table := by
  apply List.eraseP_of_forall_not
  intro entry hentry hkey
  exact h (List.mem_map.mpr ⟨entry, hentry, beq_iff_eq.mp hkey⟩)

theorem insert_of_not_mem (h : key ∉ table.map Prod.fst) :
    insert key value table = table ++ [(key, value)] := by
  rw [insert, erase_of_not_mem h]

theorem perm_of_lookup (h : table.lookup key = some value) :
    table.Perm ((key, value) :: erase key table) := by
  obtain ⟨before, after, rfl, hbefore⟩ := List.lookup_eq_some_iff.mp h
  have herase : erase key (before ++ (key, value) :: after) = before ++ after := by
    rw [erase, List.eraseP_append_right, List.eraseP_cons_of_pos (by simp)]
    intro entry hentry hkey
    have hne := hbefore entry hentry
    rw [beq_iff_eq.mp hkey] at hne
    simp at hne
  rw [herase]
  exact List.perm_middle

theorem lookup_of_mem (hkeys : (table.map Prod.fst).Nodup) (h : (key, value) ∈ table) :
    table.lookup key = some value := by
  obtain ⟨before, after, rfl⟩ := List.append_of_mem h
  refine List.lookup_eq_some_iff.mpr ⟨before, after, rfl, ?_⟩
  intro entry hentry
  rw [bne_iff_ne]
  rintro rfl
  rw [List.map_append, List.map_cons] at hkeys
  have hdisjoint := (List.nodup_append.mp hkeys).2.2
  exact hdisjoint _ (List.mem_map_of_mem hentry) _ List.mem_cons_self rfl

theorem nodup_erase (hkeys : (table.map Prod.fst).Nodup) (h : table.lookup key = some value) :
    key ∉ (erase key table).map Prod.fst ∧ ((erase key table).map Prod.fst).Nodup := by
  have hperm := (perm_of_lookup h).map Prod.fst
  rw [hperm.nodup_iff, List.map_cons, List.nodup_cons] at hkeys
  exact hkeys

theorem lookup_insert (h : key ∉ table.map Prod.fst) :
    (insert key value table).lookup key = some value := by
  rw [insert_of_not_mem h]
  refine List.lookup_eq_some_iff.mpr ⟨table, [], rfl, ?_⟩
  intro entry hentry
  rw [bne_iff_ne]
  rintro rfl
  exact h (List.mem_map_of_mem hentry)

theorem erase_insert (h : key ∉ table.map Prod.fst) :
    erase key (insert key value table) = table := by
  rw [insert_of_not_mem h, erase, List.eraseP_append_right]
  · simp
  · intro entry hentry hkey
    exact h (List.mem_map.mpr ⟨entry, hentry, beq_iff_eq.mp hkey⟩)

section Functions

variable {f : κ → Option α} {k : κ} {x : α}

theorem update_some (h : Function.update f key (some value) k = some x) :
    (k = key ∧ value = x) ∨ (k ≠ key ∧ f k = some x) := by
  by_cases hk : k = key
  · rw [hk, Function.update_self] at h
    exact .inl ⟨hk, Option.some.inj h⟩
  · rw [Function.update_of_ne hk] at h
    exact .inr ⟨hk, h⟩

theorem update_none (h : Function.update f key none k = some x) : k ≠ key ∧ f k = some x := by
  by_cases hk : k = key
  · rw [hk, Function.update_self] at h
    cases h
  · rw [Function.update_of_ne hk] at h
    exact ⟨hk, h⟩

theorem update_some_none (h : Function.update f key (some value) k = none) :
    k ≠ key ∧ f k = none := by
  by_cases hk : k = key
  · rw [hk, Function.update_self] at h
    cases h
  · rw [Function.update_of_ne hk] at h
    exact ⟨hk, h⟩

/-- The value of the last entry under a key. -/
def last (key : κ) (entries : List (κ × α)) : Option α := entries.reverse.lookup key

/-- Entries that are made one after the other. -/
def enter (f : κ → Option α) (entries : List (κ × α)) : κ → Option α :=
  entries.foldl (fun f entry => Function.update f entry.1 (some entry.2)) f

theorem enter_eq (f : κ → Option α) (entries : List (κ × α)) (key : κ) :
    enter f entries key = (last key entries).or (f key) := by
  induction entries using List.reverseRecOn with
  | nil => rfl
  | append_singleton entries entry ih =>
      unfold enter last at ih ⊢
      rw [List.foldl_append, List.reverse_append]
      simp only [List.foldl_cons, List.foldl_nil, List.reverse_singleton, List.singleton_append]
      by_cases hkey : key = entry.1
      · rw [hkey, Function.update_self, List.lookup_cons, beq_self_eq_true]
        rfl
      · have hne : (key == entry.1) = false := beq_false_of_ne hkey
        rw [Function.update_of_ne hkey, List.lookup_cons, hne, ih]

end Functions

end PwrApi.Table
