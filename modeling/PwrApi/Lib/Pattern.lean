import Mathlib.Data.List.TakeWhile

/-! Patterns of a matcher that backtracks, and all its matches in a sequence from left to right.
No pattern matches an empty sequence. -/

namespace PwrApi

/-- One element of a class, one or more of them, one pattern after another, and one or else
another. -/
inductive Pattern (α : Type*)
  | one (p : α → Bool)
  | many (p : α → Bool)
  | seq (a b : Pattern α)
  | alt (a b : Pattern α)

namespace Pattern

variable {α : Type*}

def down : Nat → List Nat
  | 0 => []
  | n + 1 => (n + 1) :: down n

/-- The lengths of the matches at the start of a sequence, in the order in which they are tried:
a repetition takes as much as it can first. -/
def lengths : Pattern α → List α → List Nat
  | one _, [] => []
  | one p, c :: _ => if p c then [1] else []
  | many p, s => down (s.takeWhile p).length
  | seq a b, s => (a.lengths s).flatMap fun n => (b.lengths (s.drop n)).map (n + ·)
  | alt a b, s => a.lengths s ++ b.lengths s

/-- `findall`, with what is left of the match before. -/
def findFrom (a : Pattern α) : Nat → List α → List (List α)
  | _, [] => []
  | skip + 1, _ :: s => findFrom a skip s
  | 0, c :: s =>
      match a.lengths (c :: s) with
      | [] => findFrom a 0 s
      | n :: _ => (c :: s).take n :: findFrom a (n - 1) s

def findall (a : Pattern α) (s : List α) : List (List α) := findFrom a 0 s

section Lengths

variable {a b : Pattern α} {p : α → Bool} {s t : List α}

theorem mem_down {n k : Nat} : k ∈ down n ↔ 0 < k ∧ k ≤ n := by
  induction n with
  | zero =>
      simp only [down, List.not_mem_nil, false_iff]
      omega
  | succ n ih =>
      rw [down, List.mem_cons, ih]
      omega

theorem head_one {c : α} (hc : p c = true) : ((one p).lengths (c :: s)).head? = some 1 := by
  rw [lengths, if_pos hc]
  rfl

theorem one_none (h : ∀ c ∈ s.head?, p c = false) : (one p).lengths s = [] := by
  cases s with
  | nil => rfl
  | cons c s => rw [lengths, if_neg (by simp [h c rfl])]

theorem lengths_many (hs : ∀ c ∈ s, p c = true) (ht : ∀ c ∈ t.head?, p c = false) :
    (many p).lengths (s ++ t) = down s.length := by
  have hstop : t.takeWhile p = [] := by
    cases t with
    | nil => rfl
    | cons c t => simp [ht c rfl]
  rw [lengths, List.takeWhile_append_of_pos hs, hstop, List.append_nil]

theorem head_many (hne : s ≠ []) (hs : ∀ c ∈ s, p c = true) (ht : ∀ c ∈ t.head?, p c = false) :
    ((many p).lengths (s ++ t)).head? = some s.length := by
  rw [lengths_many hs ht]
  cases s with
  | nil => exact absurd rfl hne
  | cons c s => rfl

theorem head_seq {front : List Nat} {n m : Nat} {back : List Nat}
    (ha : a.lengths s = front ++ n :: back) (hfront : ∀ k ∈ front, b.lengths (s.drop k) = [])
    (hb : (b.lengths (s.drop n)).head? = some m) :
    ((seq a b).lengths s).head? = some (n + m) := by
  have hskip : front.flatMap (fun k => (b.lengths (s.drop k)).map (k + ·)) = [] := by
    rw [List.flatMap_eq_nil_iff]
    intro k hk
    rw [hfront k hk, List.map_nil]
  obtain ⟨rest, hrest⟩ := List.head?_eq_some_iff.mp hb
  rw [lengths, ha, List.flatMap_append, hskip, List.flatMap_cons, hrest]
  rfl

theorem seq_head {n m : Nat} (ha : (a.lengths s).head? = some n)
    (hb : (b.lengths (s.drop n)).head? = some m) :
    ((seq a b).lengths s).head? = some (n + m) := by
  obtain ⟨back, hback⟩ := List.head?_eq_some_iff.mp ha
  have hsplit : a.lengths s = [] ++ n :: back := hback
  exact head_seq hsplit (fun k hk => absurd hk List.not_mem_nil) hb

theorem seq_none (h : ∀ n ∈ a.lengths s, b.lengths (s.drop n) = []) : (seq a b).lengths s = [] := by
  rw [lengths, List.flatMap_eq_nil_iff]
  intro n hn
  rw [h n hn, List.map_nil]

theorem alt_head {n : Nat} (h : (a.lengths s).head? = some n) :
    ((alt a b).lengths s).head? = some n := by
  obtain ⟨rest, hrest⟩ := List.head?_eq_some_iff.mp h
  rw [lengths, hrest]
  rfl

theorem alt_none (h : a.lengths s = []) : (alt a b).lengths s = b.lengths s := by
  rw [lengths, h, List.nil_append]

end Lengths

section Findall

variable {a : Pattern α} {s t : List α}

theorem findFrom_drop (k : Nat) (s : List α) : findFrom a k s = findall a (s.drop k) := by
  induction s generalizing k with
  | nil => simp [findFrom, findall]
  | cons c s ih =>
      cases k with
      | zero => rfl
      | succ k => exact ih k

theorem findall_match (hne : s ≠ []) (h : (a.lengths (s ++ t)).head? = some s.length) :
    findall a (s ++ t) = s :: findall a t := by
  cases s with
  | nil => exact absurd rfl hne
  | cons c s =>
      obtain ⟨rest, hrest⟩ := List.head?_eq_some_iff.mp h
      rw [List.cons_append] at hrest
      have htake : (c :: (s ++ t)).take (c :: s).length = c :: s := List.take_left
      have hdrop : (s ++ t).drop ((c :: s).length - 1) = t := List.drop_left
      rw [findall, List.cons_append, findFrom, hrest]
      simp only [htake, findFrom_drop, hdrop]

theorem findall_skip {c : α} (h : a.lengths (c :: s) = []) :
    findall a (c :: s) = findall a s := by
  rw [findall, findFrom, h]
  rfl

end Findall

end Pattern

end PwrApi
