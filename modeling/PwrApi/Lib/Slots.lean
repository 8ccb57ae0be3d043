import Mathlib.Data.List.Induction

/-! A vector that is resized to end at each index it is written at, as by `v.resize( i + 1 )`
before `v[ i ] = x`. -/

namespace PwrApi.Slots

variable {α ι : Type}

/-- `resize( n )`, with `blank` for what the constructor of an element gives. -/
def resize (blank : α) (v : List α) (n : Nat) : List α :=
  v.take n ++ List.replicate (n - v.length) blank

/-- The vector is made to end at `i`, and `f` is applied to its last element. -/
def put (blank : α) (v : List α) (i : Nat) (f : α → α) : List α :=
  (resize blank v (i + 1)).modify i f

/-- One write after the other, from the empty vector on: `write x` at `key x`. -/
def puts (blank : α) (key : ι → Nat) (write : ι → α → α) (xs : List ι) : List α :=
  xs.foldl (fun v x => put blank v (key x) (write x)) []

variable {blank : α} {key : ι → Nat} {write : ι → α → α}

@[simp] theorem length_resize (v : List α) (n : Nat) : (resize blank v n).length = n := by
  simp only [resize, List.length_append, List.length_take, List.length_replicate]
  omega

theorem getElem?_resize (v : List α) {n i : Nat} (hi : i < n) :
    (resize blank v n)[i]? = some (v[i]?.getD blank) := by
  by_cases hv : i < v.length
  · rw [resize, List.getElem?_append_left (by rw [List.length_take]; omega), List.getElem?_take_of_lt hi]
    simp [hv]
  · have hlength : (v.take n).length = v.length := by
      rw [List.length_take]
      omega
    rw [resize, List.getElem?_append_right (by omega), hlength, List.getElem?_replicate,
      if_pos (by omega), List.getElem?_eq_none (by omega), Option.getD_none]

theorem getElem?_put (v : List α) (i j : Nat) (f : α → α) :
    (put blank v i f)[j]? =
      if j = i then some (f (v[i]?.getD blank))
      else if j < i then some (v[j]?.getD blank) else none := by
  rw [put, List.getElem?_modify]
  by_cases hsame : j = i
  · rw [if_pos hsame, hsame, getElem?_resize v (Nat.lt_succ_self i)]
    simp
  · rw [if_neg hsame]
    by_cases hless : j < i
    · rw [if_pos hless, getElem?_resize v (by omega)]
      have hother : i ≠ j := fun h => hsame h.symm
      simp [hother]
    · rw [if_neg hless, List.getElem?_eq_none (by rw [length_resize]; omega)]
      rfl

theorem put_length {v : List α} {i : Nat} (hi : v.length = i) (f : α → α) :
    put blank v i f = v ++ [f blank] := by
  subst hi
  apply List.ext_getElem?
  intro j
  rw [getElem?_put]
  by_cases hlast : j = v.length
  · subst hlast
    simp
  · rw [if_neg hlast]
    by_cases hless : j < v.length
    · rw [if_pos hless, List.getElem?_append_left hless, List.getElem?_eq_getElem hless]
      rfl
    · rw [if_neg hless, List.getElem?_eq_none]
      rw [List.length_append, List.length_singleton]
      omega

theorem puts_concat (xs : List ι) (x : ι) :
    puts blank key write (xs ++ [x]) = put blank (puts blank key write xs) (key x) (write x) := by
  simp [puts]

theorem puts_blank {xs : List ι} {i : Nat} (hi : i ∉ xs.map key) :
    (puts blank key write xs)[i]?.getD blank = blank := by
  induction xs using List.reverseRecOn with
  | nil => rfl
  | append_singleton xs x ih =>
      simp only [List.map_append, List.map_cons, List.map_nil, List.mem_append,
        List.mem_singleton, not_or] at hi
      rw [puts_concat, getElem?_put, if_neg hi.2]
      by_cases hless : i < key x
      · rw [if_pos hless, Option.getD_some, ih hi.1]
      · rw [if_neg hless, Option.getD_none]

/-- Writes at different indices all stay exactly when they come in increasing order, since
each cuts off what is after it. -/
theorem puts_kept_iff {xs : List ι} (hnodup : (xs.map key).Nodup) {want : ι → α}
    (hwant : ∀ x ∈ xs, want x ≠ blank) :
    (∀ x ∈ xs, (puts blank key write xs)[key x]? = some (want x)) ↔
      (xs.map key).Pairwise (· < ·) ∧ ∀ x ∈ xs, write x blank = want x := by
  induction xs using List.reverseRecOn with
  | nil => simp
  | append_singleton xs last ih =>
      rw [List.map_append, List.nodup_append] at hnodup
      have hlast : key last ∉ xs.map key := fun hmem =>
        hnodup.2.2 (key last) hmem (key last) (by simp) rfl
      have hne : ∀ x ∈ xs, key x ≠ key last := fun x hx heq =>
        hlast (heq ▸ List.mem_map_of_mem hx)
      have hstep : ∀ x ∈ xs,
          ((puts blank key write (xs ++ [last]))[key x]? = some (want x) ↔
            key x < key last ∧ (puts blank key write xs)[key x]? = some (want x)) := by
        intro x hx
        rw [puts_concat, getElem?_put, if_neg (hne x hx)]
        by_cases hless : key x < key last
        · rw [if_pos hless]
          cases hget : (puts blank key write xs)[key x]? with
          | none =>
              have hblank := hwant x (List.mem_append_left _ hx)
              simp [hblank.symm]
          | some value => simp [hless]
        · rw [if_neg hless]
          simp [hless]
      have hhead : (puts blank key write (xs ++ [last]))[key last]? =
          some (write last blank) := by
        rw [puts_concat, getElem?_put, if_pos rfl, puts_blank hlast]
      have hrest := ih hnodup.1 fun x hx => hwant x (List.mem_append_left _ hx)
      rw [List.map_append, List.pairwise_append, List.forall_mem_append, List.forall_mem_append,
        List.forall_mem_singleton, List.forall_mem_singleton, hhead, Option.some.injEq]
      constructor
      · intro ⟨hall, hvalue⟩
        have hkept := hrest.mp fun x hx => ((hstep x hx).mp (hall x hx)).2
        refine ⟨⟨hkept.1, List.pairwise_singleton _ _, ?_⟩, hkept.2, hvalue⟩
        intro i hi j hj
        obtain ⟨x, hx, rfl⟩ := List.mem_map.mp hi
        rw [List.map_singleton, List.mem_singleton] at hj
        rw [hj]
        exact ((hstep x hx).mp (hall x hx)).1
      · intro ⟨⟨hsorted, _, hbefore⟩, hvalues, hvalue⟩
        refine ⟨fun x hx => (hstep x hx).mpr ⟨?_, ?_⟩, hvalue⟩
        · exact hbefore (key x) (List.mem_map_of_mem hx) (key last) (by simp)
        · exact hrest.mpr ⟨hsorted, hvalues⟩ x hx

end PwrApi.Slots
