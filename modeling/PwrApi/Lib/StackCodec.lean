import Mathlib.Data.List.Induction
import Mathlib.Data.Nat.Bitwise

/-! Codecs on a byte stack.

A writer appends to the end of a byte vector and a reader takes from that end, so
a reader has to take fields in the reverse of the order they were written. A pair
round-trips when reading what was written returns the value and leaves the prior
contents; the rules below compose that property over words and sequences. -/

namespace PwrApi.StackCodec

/-- `get` takes back exactly what `put` appended, for every value meeting `ok`. -/
def RoundTrips {α : Type} (ok : α → Prop) (put : List UInt8 → α → List UInt8)
    (get : List UInt8 → Option (α × List UInt8)) : Prop :=
  ∀ p a, ok a → get (put p a) = some (a, p)

def popBack (buf : List UInt8) : Option (UInt8 × List UInt8) :=
  buf.getLast?.map fun c => (c, buf.dropLast)

@[simp] theorem popBack_append (p : List UInt8) (c : UInt8) :
    popBack (p ++ [c]) = some (c, p) := by
  simp [popBack]

def wordBytes (word len : Nat) : List UInt8 :=
  (List.range len).map fun i => UInt8.ofNat (word >>> (8 * i))

theorem wordBytes_succ (word len : Nat) :
    wordBytes word (len + 1) = wordBytes word len ++ [UInt8.ofNat (word >>> (8 * len))] := by
  simp [wordBytes, List.range_succ]

def popWordFrom : Nat → Nat → List UInt8 → Option (Nat × List UInt8)
  | 0, word, buf => some (word, buf)
  | i + 1, word, buf => do
    let (c, buf) ← popBack buf
    popWordFrom i (word ||| c.toNat <<< (8 * i)) buf

def popWord (len : Nat) (buf : List UInt8) : Option (Nat × List UInt8) :=
  popWordFrom len 0 buf

theorem top_byte_or (word len : Nat) :
    (word >>> (8 * len) % 2 ^ 8) <<< (8 * len) ||| word % 2 ^ (8 * len) =
      word % 2 ^ (8 * (len + 1)) := by
  apply Nat.eq_of_testBit_eq
  intro i
  simp only [Nat.testBit_lor, Nat.testBit_mod_two_pow, Nat.testBit_shiftLeft,
    Nat.testBit_shiftRight]
  by_cases hlow : i < 8 * len
  · have hge : ¬ i ≥ 8 * len := by omega
    have hnext : i < 8 * (len + 1) := by omega
    simp [hlow, hnext, hge]
  · have hge : i ≥ 8 * len := by omega
    have hindex : 8 * len + (i - 8 * len) = i := by omega
    have hbyte : i - 8 * len < 8 ↔ i < 8 * (len + 1) := by omega
    simp [hlow, hge, hindex, hbyte]

theorem popWordFrom_append (word len acc : Nat) (p : List UInt8) :
    popWordFrom len acc (p ++ wordBytes word len) =
      some (acc ||| word % 2 ^ (8 * len), p) := by
  induction len generalizing acc with
  | zero => simp [popWordFrom, wordBytes, Nat.mod_one]
  | succ len ih =>
      have hbyte : (UInt8.ofNat (word >>> (8 * len))).toNat = word >>> (8 * len) % 2 ^ 8 := by
        simp
      rw [wordBytes_succ, ← List.append_assoc]
      simp only [popWordFrom, popBack_append, Option.bind_eq_bind, Option.bind_some]
      rw [ih, hbyte, Nat.or_assoc, top_byte_or]

theorem popWord_append (word len : Nat) (p : List UInt8) :
    popWord len (p ++ wordBytes word len) = some (word % 2 ^ (8 * len), p) := by
  rw [popWord, popWordFrom_append, Nat.zero_or]

section Sequences

variable {α : Type}

/-- Takes `n` values, the last one first, and returns them in written order. -/
def popN (get : List UInt8 → Option (α × List UInt8)) :
    Nat → List UInt8 → Option (List α × List UInt8)
  | 0, buf => some ([], buf)
  | n + 1, buf => do
    let (x, buf) ← get buf
    let (xs, buf) ← popN get n buf
    some (xs ++ [x], buf)

theorem popN_foldl {ok : α → Prop} {put : List UInt8 → α → List UInt8}
    {get : List UInt8 → Option (α × List UInt8)} (h : RoundTrips ok put get)
    (xs : List α) (hok : ∀ x ∈ xs, ok x) (p : List UInt8) :
    popN get xs.length (xs.foldl put p) = some (xs, p) := by
  induction xs using List.reverseRecOn with
  | nil => rfl
  | append_singleton xs x ih =>
      have hlast : ok x := hok x (by simp)
      have hinit : ∀ y ∈ xs, ok y := fun y hy => hok y (by simp [hy])
      rw [List.foldl_append, List.length_append]
      simp only [List.foldl_cons, List.foldl_nil, List.length_singleton, popN]
      rw [h _ x hlast]
      simp only [Option.bind_eq_bind, Option.bind_some]
      rw [ih hinit]
      rfl

end Sequences

end PwrApi.StackCodec
