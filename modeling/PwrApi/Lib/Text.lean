import Mathlib.Algebra.Group.Int.Defs
import Mathlib.Algebra.Group.Nat.Defs
import Mathlib.Data.List.Basic
import Mathlib.Data.List.Induction

/-! Strings as byte sequences, with the functions of the C and C++ libraries that search,
cut and convert them and that read a file line by line. -/

namespace PwrApi

abbrev Text := List UInt8

namespace Text

theorem takeWhile_exact {p : UInt8 → Bool} {s rest : Text} (hs : ∀ c ∈ s, p c = true)
    (hrest : ∀ c ∈ rest.head?, p c = false) :
    (s ++ rest).takeWhile p = s ∧ (s ++ rest).dropWhile p = rest := by
  rw [List.takeWhile_append_of_pos hs, List.dropWhile_append_of_pos hs]
  cases rest with
  | nil => simp
  | cons c rest => simp [hrest c rfl]

/-- The bytes of a literal of ASCII characters. -/
def ofString (s : String) : Text := s.toList.map fun c => UInt8.ofNat c.toNat

section Cutting

/-- `find_first_of( c )`, `none` for `npos`. -/
def findFirst (c : UInt8) (s : Text) : Option Nat := s.findIdx? (· = c)

/-- `find_first_not_of( c )`. -/
def findFirstNot (c : UInt8) (s : Text) : Option Nat := s.findIdx? (· ≠ c)

/-- `find_last_of( c )`. -/
def findLast (c : UInt8) (s : Text) : Option Nat :=
  (s.reverse.findIdx? (· = c)).map fun i => s.length - 1 - i

/-- `pos + 1`, which is 0 for `npos`. -/
def next : Option Nat → Nat
  | some pos => pos + 1
  | none => 0

/-- `pos - 1` as a length: at 0 and at `npos` it is beyond the end of any string. -/
def prev : Option Nat → Option Nat
  | some (pos + 1) => some pos
  | _ => none

/-- `substr( pos, len )`, with `npos` for a missing length and `none` for the exception. -/
def substr (s : Text) (pos : Nat) (len : Option Nat) : Option Text :=
  if pos ≤ s.length then
    match len with
    | some len => some ((s.drop pos).take len)
    | none => some (s.drop pos)
  else none

theorem findFirst_append {c : UInt8} {s : Text} (hs : c ∉ s) (rest : Text) :
    findFirst c (s ++ c :: rest) = some s.length := by
  induction s with
  | nil => simp [findFirst, List.findIdx?_cons]
  | cons d s ih =>
      rw [List.mem_cons, not_or] at hs
      have hd : ¬ d = c := fun h => hs.1 h.symm
      have htail := ih hs.2
      unfold findFirst at htail ⊢
      simp [List.findIdx?_cons, hd, htail]

theorem findLast_append {c : UInt8} {rest : Text} (hrest : c ∉ rest) (s : Text) :
    findLast c (s ++ c :: rest) = some s.length := by
  have hreverse : (s ++ c :: rest).reverse = rest.reverse ++ c :: s.reverse := by simp
  have hfirst := findFirst_append (c := c) (s := rest.reverse) (by simpa using hrest) s.reverse
  unfold findFirst at hfirst
  rw [findLast, hreverse, hfirst]
  simp only [List.length_append, List.length_cons, List.length_reverse, Option.map_some,
    Option.some.injEq]
  omega

theorem findFirst_none {c : UInt8} {s : Text} (hs : c ∉ s) : findFirst c s = none := by
  rw [findFirst, List.findIdx?_eq_none_iff]
  intro d hd
  rw [decide_eq_false_iff_not]
  exact fun h => hs (h ▸ hd)

theorem findFirstNot_replicate (c : UInt8) (count : Nat) :
    findFirstNot c (List.replicate count c) = none := by
  rw [findFirstNot, List.findIdx?_eq_none_iff]
  intro d hd
  rw [List.eq_of_mem_replicate hd]
  exact decide_eq_false (not_not_intro rfl)

theorem findFirstNot_append {c d : UInt8} (hd : d ≠ c) (count : Nat) (rest : Text) :
    findFirstNot c (List.replicate count c ++ d :: rest) = some count := by
  induction count with
  | zero => simp [findFirstNot, List.findIdx?_cons, hd]
  | succ count ih =>
      unfold findFirstNot at ih ⊢
      rw [List.replicate_succ, List.cons_append, List.findIdx?_cons, ih]
      simp

theorem eq_replicate_or (c : UInt8) (s : Text) : (∃ count, s = List.replicate count c) ∨
    ∃ count d rest, d ≠ c ∧ s = List.replicate count c ++ d :: rest := by
  induction s with
  | nil => exact .inl ⟨0, rfl⟩
  | cons d s ih =>
      by_cases hd : d = c
      · subst hd
        rcases ih with ⟨count, rfl⟩ | ⟨count, e, rest, he, rfl⟩
        · exact .inl ⟨count + 1, rfl⟩
        · exact .inr ⟨count + 1, e, rest, he, rfl⟩
      · exact .inr ⟨0, d, s, hd, rfl⟩

theorem findFirst_le {c : UInt8} (s rest : Text) :
    ∃ pos ≤ s.length, findFirst c (s ++ c :: rest) = some pos := by
  induction s with
  | nil => exact ⟨0, Nat.le_refl 0, by simp [findFirst, List.findIdx?_cons]⟩
  | cons d s ih =>
      obtain ⟨pos, hpos, hfirst⟩ := ih
      unfold findFirst at hfirst ⊢
      by_cases hd : d = c
      · exact ⟨0, Nat.zero_le _, by simp [List.findIdx?_cons, hd]⟩
      · exact ⟨pos + 1, Nat.succ_le_succ hpos, by simp [List.findIdx?_cons, hd, hfirst]⟩

theorem findLast_cases (c : UInt8) (s : Text) : c ∉ s ∧ findLast c s = none ∨
    ∃ front back, s = front ++ c :: back ∧ c ∉ back ∧ findLast c s = some front.length := by
  by_cases hmem : c ∈ s
  · obtain ⟨back, front, hreverse, hback⟩ :=
      List.eq_append_cons_of_mem (List.mem_reverse.mpr hmem)
    have hs : s = front.reverse ++ c :: back.reverse := by
      rw [← List.reverse_reverse s, hreverse]
      simp
    have hrest : c ∉ back.reverse := fun h => hback (List.mem_reverse.mp h)
    refine Or.inr ⟨front.reverse, back.reverse, hs, hrest, ?_⟩
    rw [hs, findLast_append hrest]
  · have hreverse := findFirst_none (c := c) (s := s.reverse) fun h => hmem (List.mem_reverse.mp h)
    unfold findFirst at hreverse
    exact Or.inl ⟨hmem, by rw [findLast, hreverse]; rfl⟩

@[simp] theorem substr_zero (s : Text) (len : Nat) : substr s 0 (some len) = some (s.take len) := by
  simp [substr]

@[simp] theorem substr_next (s : Text) (c : UInt8) (rest : Text) :
    substr (s ++ c :: rest) (s.length + 1) none = some rest := by
  simp [substr]

theorem cut_field {c : UInt8} {s : Text} (hs : c ∉ s) (rest : Text) :
    substr (s ++ c :: rest) 0 (findFirst c (s ++ c :: rest)) = some s ∧
      substr (s ++ c :: rest) (next (findFirst c (s ++ c :: rest))) none = some rest := by
  rw [findFirst_append hs, substr_zero, List.take_left]
  exact ⟨rfl, substr_next s c rest⟩

theorem substr_prev (s : Text) (c : UInt8) (rest : Text) (len : Nat) :
    substr (s ++ c :: rest) (s.length + 1) (some len) = some (rest.take len) := by
  simp [substr]

end Cutting

section Joining

theorem intercalate_cons (c : UInt8) (field next : Text) (fields : List Text) :
    List.intercalate [c] (field :: next :: fields) =
      field ++ c :: List.intercalate [c] (next :: fields) := by
  rw [List.intercalate_cons_cons, List.append_assoc, List.singleton_append]

theorem intercalate_concat (sep : Text) {fields : List Text} (hne : fields ≠ []) (s : Text) :
    sep.intercalate (fields ++ [s]) = sep.intercalate fields ++ sep ++ s := by
  induction fields with
  | nil => exact absurd rfl hne
  | cons field fields ih =>
      cases fields with
      | nil => simp [List.intercalate_cons_cons]
      | cons next rest =>
          have htail := ih (List.cons_ne_nil next rest)
          rw [List.cons_append] at htail
          rw [List.cons_append, List.cons_append, List.intercalate_cons_cons, htail,
            List.intercalate_cons_cons]
          simp only [List.append_assoc]

theorem not_mem_intercalate {x sep : UInt8} (hsep : x ≠ sep) {fields : List Text}
    (h : ∀ field ∈ fields, x ∉ field) : x ∉ List.intercalate [sep] fields := by
  induction fields with
  | nil => simp
  | cons field fields ih =>
      have hfield := h field List.mem_cons_self
      have hrest := ih fun f hf => h f (List.mem_cons_of_mem field hf)
      cases fields with
      | nil => simpa using hfield
      | cons second fields =>
          simp only [List.intercalate_cons_cons, List.mem_append, List.mem_singleton, not_or]
          exact ⟨⟨hfield, hsep⟩, hrest⟩

theorem intercalate_inj {c : UInt8} {fields fields' : List Text} (hne : fields ≠ [])
    (hne' : fields' ≠ []) (hfields : ∀ s ∈ fields, c ∉ s) (hfields' : ∀ s ∈ fields', c ∉ s)
    (h : List.intercalate [c] fields = List.intercalate [c] fields') : fields = fields' := by
  rw [← List.splitOn_intercalate c hfields hne, h, List.splitOn_intercalate c hfields' hne']

end Joining

section Numbers

def isSpace (c : UInt8) : Bool := c = 32 ∨ (9 ≤ c ∧ c ≤ 13)

def isDigit (c : UInt8) : Bool := 48 ≤ c ∧ c ≤ 57

def digit (n : Nat) : UInt8 := UInt8.ofNat (48 + n)

def value (digits : Text) : Nat := digits.foldl (fun n c => 10 * n + (c.toNat - 48)) 0

/-- `strtol` keeps to the range of a `long`. -/
def clampLong (n : Int) : Int := max (-2 ^ 63) (min n (2 ^ 63 - 1))

/-- `atoi`: what is not a digit ends the number, as does the end of the C string. -/
def atoi (s : Text) : Int32 :=
  match s.dropWhile isSpace with
  | 45 :: rest => Int32.ofInt (clampLong (-(value (rest.takeWhile isDigit) : Int)))
  | 43 :: rest => Int32.ofInt (clampLong (value (rest.takeWhile isDigit)))
  | rest => Int32.ofInt (clampLong (value (rest.takeWhile isDigit)))

/-- The decimal digits of a number, by a recursion that has come to 0 after `n` steps. -/
def decimalFrom : Nat → Nat → Text
  | 0, _ => []
  | fuel + 1, n => if n < 10 then [digit n] else decimalFrom fuel (n / 10) ++ [digit (n % 10)]

def decimal (n : Nat) : Text := decimalFrom (n + 1) n

theorem digit_toNat {n : Nat} (hn : n < 10) : (digit n).toNat = 48 + n := by
  rw [digit, UInt8.toNat_ofNat']
  omega

theorem isDigit_digit {n : Nat} (hn : n < 10) : isDigit (digit n) = true := by
  have hvalue := digit_toNat hn
  simp only [isDigit, decide_eq_true_eq, UInt8.le_iff_toNat_le, hvalue]
  constructor
  · exact Nat.le_add_right 48 n
  · exact Nat.add_le_add_left (Nat.le_of_lt_succ hn) 48

theorem decimalFrom_digits (fuel n : Nat) : ∀ c ∈ decimalFrom fuel n, isDigit c = true := by
  induction fuel generalizing n with
  | zero => exact fun c hc => absurd hc List.not_mem_nil
  | succ fuel ih =>
      intro c hc
      rw [decimalFrom] at hc
      by_cases hsmall : n < 10
      · rw [if_pos hsmall, List.mem_singleton] at hc
        exact hc ▸ isDigit_digit hsmall
      · rw [if_neg hsmall, List.mem_append, List.mem_singleton] at hc
        rcases hc with hc | rfl
        · exact ih (n / 10) c hc
        · exact isDigit_digit (Nat.mod_lt n (by decide))

theorem value_decimalFrom {fuel n : Nat} (hn : n < fuel) : value (decimalFrom fuel n) = n := by
  induction fuel generalizing n with
  | zero => exact absurd hn (Nat.not_lt_zero n)
  | succ fuel ih =>
      rw [decimalFrom]
      by_cases hsmall : n < 10
      · rw [if_pos hsmall]
        simp only [value, List.foldl_cons, List.foldl_nil, digit_toNat hsmall]
        omega
      · have htens := ih (n := n / 10) (by omega)
        have hunits := digit_toNat (Nat.mod_lt n (show 10 > 0 by decide))
        rw [if_neg hsmall, value, List.foldl_append, ← value, htens]
        simp only [List.foldl_cons, List.foldl_nil, hunits]
        omega

theorem decimal_ne_nil (n : Nat) : decimal n ≠ [] := by
  rw [decimal, decimalFrom]
  by_cases hsmall : n < 10
  · rw [if_pos hsmall]
    exact List.cons_ne_nil _ _
  · rw [if_neg hsmall]
    simp

theorem not_mem_decimal {c : UInt8} (hc : isDigit c = false) (n : Nat) : c ∉ decimal n := by
  intro hmem
  rw [decimalFrom_digits (n + 1) n c hmem] at hc
  cases hc

theorem decimalFrom_eq {fuel n : Nat} (hn : n < fuel) : decimalFrom fuel n = decimal n := by
  have hall : ∀ {fuel fuel' n : Nat}, n < fuel → n < fuel' →
      decimalFrom fuel n = decimalFrom fuel' n := by
    intro fuel
    induction fuel with
    | zero => exact fun h => absurd h (Nat.not_lt_zero _)
    | succ fuel ih =>
        intro fuel' n hn hn'
        obtain ⟨fuel', rfl⟩ := Nat.exists_eq_succ_of_ne_zero (Nat.ne_zero_of_lt hn')
        rw [decimalFrom, decimalFrom]
        by_cases hsmall : n < 10
        · rw [if_pos hsmall, if_pos hsmall]
        · rw [if_neg hsmall, if_neg hsmall, @ih fuel' (n / 10) (by omega) (by omega)]
  exact hall hn (Nat.lt_succ_self n)

theorem decimal_small {n : Nat} (hn : n < 10) : decimal n = [digit n] := by
  rw [decimal, decimalFrom, if_pos hn]

theorem decimal_big {n : Nat} (hn : ¬ n < 10) :
    decimal n = decimal (n / 10) ++ [digit (n % 10)] := by
  rw [decimal, decimalFrom, if_neg hn, decimalFrom_eq (by omega)]

@[simp] theorem value_decimal (n : Nat) : value (decimal n) = n :=
  value_decimalFrom (Nat.lt_succ_self n)

theorem value_concat (digits : Text) (c : UInt8) :
    value (digits ++ [c]) = 10 * value digits + (c.toNat - 48) := by
  simp [value, List.foldl_append]

theorem digit_of_isDigit {c : UInt8} (hc : isDigit c = true) :
    c.toNat - 48 < 10 ∧ digit (c.toNat - 48) = c := by
  simp only [isDigit, decide_eq_true_eq, UInt8.le_iff_toNat_le, UInt8.reduceToNat] at hc
  have hsum : 48 + (c.toNat - 48) = c.toNat := by omega
  refine ⟨by omega, ?_⟩
  rw [digit, hsum, UInt8.ofNat_toNat]

theorem leftpad_decimal_value {digits : Text} (hne : digits ≠ [])
    (hdigits : ∀ c ∈ digits, isDigit c = true) :
    (decimal (value digits)).leftpad digits.length 48 = digits := by
  induction digits using List.reverseRecOn with
  | nil => exact absurd rfl hne
  | append_singleton front c ih =>
      obtain ⟨hsmall, hc⟩ := digit_of_isDigit (hdigits c (by simp))
      have hfront : ∀ d ∈ front, isDigit d = true := fun d hd =>
        hdigits d (List.mem_append_left _ hd)
      by_cases hempty : front = []
      · subst hempty
        have hvalue : value ([] ++ [c]) = c.toNat - 48 := by simp [value]
        rw [hvalue, decimal_small hsmall, hc]
        rfl
      · have hbefore := ih hempty hfront
        rw [value_concat]
        by_cases hzero : value front = 0
        · rw [hzero, Nat.mul_zero, Nat.zero_add, decimal_small hsmall, hc]
          have hzeros : front = List.replicate front.length 48 := by
            have hpos := List.length_pos_of_ne_nil hempty
            have hlength : front.length - 1 + 1 = front.length := by omega
            rw [hzero, show decimal 0 = [48] from rfl, List.leftpad, List.length_singleton,
              ← List.replicate_succ', hlength] at hbefore
            exact hbefore.symm
          rw [List.leftpad, List.length_append, List.length_singleton, Nat.add_sub_cancel,
            ← hzeros]
        · have hbig : ¬ 10 * value front + (c.toNat - 48) < 10 := by omega
          have htens : (10 * value front + (c.toNat - 48)) / 10 = value front := by omega
          have hunits : (10 * value front + (c.toNat - 48)) % 10 = c.toNat - 48 := by omega
          rw [decimal_big hbig, htens, hunits, hc, List.leftpad, List.length_append,
            List.length_append, Nat.add_sub_add_right, ← List.append_assoc]
          exact congrArg (· ++ [c]) hbefore

theorem atoi_digits {digits rest : Text} (hne : digits ≠ [])
    (hdigits : ∀ c ∈ digits, isDigit c = true) (hrest : ∀ c ∈ rest.head?, isDigit c = false) :
    atoi (digits ++ rest) = Int32.ofInt (clampLong (value digits)) := by
  have htake := (takeWhile_exact hdigits hrest).1
  cases digits with
  | nil => exact absurd rfl hne
  | cons c digits =>
      have hc : isDigit c = true := hdigits c List.mem_cons_self
      have hspace : isSpace c = false := by
        simp only [isDigit, isSpace, decide_eq_true_eq, decide_eq_false_iff_not,
          UInt8.le_iff_toNat_le, ← UInt8.toNat_inj] at hc ⊢
        simp only [UInt8.reduceToNat] at hc ⊢
        omega
      have hminus : c ≠ 45 := by
        rintro rfl
        cases hc
      have hplus : c ≠ 43 := by
        rintro rfl
        cases hc
      rw [List.cons_append] at htake
      rw [List.cons_append, atoi, List.dropWhile_cons, hspace]
      split
      · next heq => exact absurd (List.cons.inj heq).1 hminus
      · next heq => exact absurd (List.cons.inj heq).1 hplus
      · rw [← htake]
        rfl

theorem atoi_decimal {n : Nat} (hn : n < 2 ^ 31) {rest : Text}
    (hrest : ∀ c ∈ rest.head?, isDigit c = false) :
    (atoi (decimal n ++ rest)).toUInt32 = UInt32.ofNat n := by
  have hclamp : clampLong n = n := by
    unfold clampLong
    omega
  rw [atoi_digits (decimal_ne_nil n) (decimalFrom_digits (n + 1) n) hrest, value_decimal, hclamp]
  rfl

theorem takeWhile_isDigit_space (s : Text) : (s ++ [32]).takeWhile isDigit = s.takeWhile isDigit := by
  induction s with
  | nil => rfl
  | cons c s ih =>
      rw [List.cons_append, List.takeWhile_cons, List.takeWhile_cons, ih]

theorem atoi_space (s : Text) : atoi (s ++ [32]) = atoi s := by
  rw [atoi, atoi, List.dropWhile_append]
  cases s.dropWhile isSpace with
  | nil => rfl
  | cons c rest =>
      rw [List.isEmpty_cons, if_neg Bool.false_ne_true, List.cons_append]
      by_cases hminus : c = 45
      · subst hminus
        simp only [takeWhile_isDigit_space]
      by_cases hplus : c = 43
      · subst hplus
        simp only [takeWhile_isDigit_space]
      · split
        · next heq => exact absurd (List.cons.inj heq).1 hminus
        · next heq => exact absurd (List.cons.inj heq).1 hplus
        · rw [← List.cons_append, takeWhile_isDigit_space]
          split
          · next heq => exact absurd (List.cons.inj heq).1 hminus
          · next heq => exact absurd (List.cons.inj heq).1 hplus
          · rfl

theorem value_leftpad (width : Nat) (s : Text) : value (s.leftpad width 48) = value s := by
  rw [List.leftpad]
  induction width - s.length with
  | zero => rfl
  | succ zeros ih =>
      rw [List.replicate_succ, List.cons_append, value, List.foldl_cons]
      exact ih

end Numbers

section Lines

/-- `getline`: the line, and what is after its newline if the file did not end first. -/
def getline (s : Text) : Text × Option Text :=
  (s.takeWhile (· ≠ 10),
    match s.dropWhile (· ≠ 10) with
    | [] => none
    | _ :: rest => some rest)

/-- The lines that a loop `while( ! getline( .. ).eof() )` has read when it runs. -/
def linesFrom : Nat → Text → List Text
  | 0, _ => []
  | fuel + 1, s =>
      match getline s with
      | (line, some rest) => line :: linesFrom fuel rest
      | (_, none) => []

/-- Every line takes at least its newline, so that the loop ends within the length. -/
def readLines (s : Text) : List Text := linesFrom (s.length + 1) s

theorem getline_newline {line : Text} (hline : 10 ∉ line) (rest : Text) :
    getline (line ++ 10 :: rest) = (line, some rest) := by
  have hplain : ∀ c ∈ line, decide (c ≠ 10) = true := by
    intro c hc
    exact decide_eq_true fun h => hline (h ▸ hc)
  have hcut : (line ++ 10 :: rest).takeWhile (· ≠ 10) = line ∧
      (line ++ 10 :: rest).dropWhile (· ≠ 10) = 10 :: rest := takeWhile_exact hplain (by simp)
  rw [getline, hcut.1, hcut.2]

theorem getline_eof {line : Text} (hline : 10 ∉ line) : getline line = (line, none) := by
  have hplain : ∀ c ∈ line, decide (c ≠ 10) = true := by
    intro c hc
    exact decide_eq_true fun h => hline (h ▸ hc)
  have hcut : (line ++ []).takeWhile (· ≠ 10) = line ∧ (line ++ []).dropWhile (· ≠ 10) = [] :=
    takeWhile_exact hplain (by simp)
  rw [List.append_nil] at hcut
  rw [getline, hcut.1, hcut.2]

/-- The lines of a file, of which the last has no newline: that one is not read. -/
theorem readLines_eq {lines : List Text} (hlines : ∀ line ∈ lines, 10 ∉ line) {last : Text}
    (hlast : 10 ∉ last) : readLines (lines.flatMap (· ++ [10]) ++ last) = lines := by
  have hfuel : ∀ fuel, (lines.flatMap (· ++ [10]) ++ last).length < fuel →
      linesFrom fuel (lines.flatMap (· ++ [10]) ++ last) = lines := by
    induction lines with
    | nil =>
        intro fuel hfuel
        obtain ⟨fuel, rfl⟩ := Nat.exists_eq_succ_of_ne_zero (Nat.ne_zero_of_lt hfuel)
        simp [linesFrom, getline_eof hlast]
    | cons line lines ih =>
        intro fuel hfuel
        obtain ⟨fuel, rfl⟩ := Nat.exists_eq_succ_of_ne_zero (Nat.ne_zero_of_lt hfuel)
        have hfile : (line :: lines).flatMap (· ++ [10]) ++ last =
            line ++ 10 :: (lines.flatMap (· ++ [10]) ++ last) := by simp
        have hlength : (lines.flatMap (· ++ [10]) ++ last).length < fuel := by
          rw [hfile, List.length_append, List.length_cons] at hfuel
          omega
        rw [hfile, linesFrom, getline_newline (hlines line List.mem_cons_self)]
        simp only [ih (fun l hl => hlines l (List.mem_cons_of_mem line hl)) fuel hlength]
  exact hfuel _ (Nat.lt_succ_self _)

end Lines

end Text

end PwrApi
