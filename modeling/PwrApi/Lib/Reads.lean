import Mathlib.Data.List.Basic
import Mathlib.Tactic.TypeStar
import PwrApi.Lib.Runs

/-! Reading one element at a time into the cells of a buffer, up to a cell that a loop stops
at. -/

namespace PwrApi.ReadLoop

variable {α : Type*}

/-- What a read of one element gives. -/
inductive Read (α : Type*)
  | item (a : α)
  | nothing
  | error

/-- What is left of a file, and if an error comes after it or the end. -/
structure File (α : Type*) where
  content : List α
  fails : Bool

def File.read (file : File α) : Read α × File α :=
  match file.content with
  | a :: rest => (.item a, ⟨rest, file.fails⟩)
  | [] => (if file.fails then .error else .nothing, file)

/-- A cell is used that the buffer does not have. -/
inductive Fault
  | beyond
  deriving DecidableEq, Repr

/-- A read that gives nothing leaves the buffer as it is. -/
def store (buf : List α) (offset : ℕ) : Read α → List α
  | .item a => buf.set offset a
  | _ => buf

@[simp] theorem length_store (buf : List α) (offset : ℕ) (result : Read α) :
    (store buf offset result).length = buf.length := by
  cases result <;> simp [store]

/-- Reads into one cell after the other until a cell has what is stopped at: the rest of the
file with the buffer, or nothing after an error. -/
def readUntil (stop : α → Bool) (file : File α) (buf : List α) (offset : ℕ) :
    Except Fault (Option (File α × List α)) :=
  match file.read with
  | (.error, _) => .ok none
  | (result, rest) =>
      if hoffset : offset < buf.length then
        if (store buf offset result)[offset]?.any stop then
          .ok (some (rest, store buf offset result))
        else readUntil stop rest (store buf offset result) (offset + 1)
      else .error .beyond
termination_by buf.length - offset
decreasing_by
  simp only [length_store]
  omega

/-- The cells from an offset on hold a piece. -/
def fill (buf : List α) (offset : ℕ) (piece : List α) : List α :=
  buf.take offset ++ piece ++ buf.drop (offset + piece.length)

section Filling

variable {buf : List α}

@[simp] theorem fill_zero (piece : List α) : fill buf 0 piece = piece ++ buf.drop piece.length := by
  simp [fill]

theorem fill_nil (offset : ℕ) : fill buf offset [] = buf := by
  simp [fill]

theorem fill_cons {offset : ℕ} (hoffset : offset < buf.length) (a : α) (piece : List α) :
    fill (buf.set offset a) (offset + 1) piece = fill buf offset (a :: piece) := by
  have htake : (buf.set offset a).take (offset + 1) = buf.take offset ++ [a] := by
    rw [List.take_add_one, List.take_set_of_le (Nat.le_refl offset), List.getElem?_set_self hoffset]
    rfl
  have hdrop : (buf.set offset a).drop (offset + 1 + piece.length) =
      buf.drop (offset + (piece.length + 1)) := by
    rw [List.drop_set_of_lt (by omega)]
    congr 1
    omega
  simp only [fill, htake, hdrop, List.length_cons, List.append_assoc, List.singleton_append]

end Filling

section Cells

variable {stop : α → Bool} {buf : List α} {offset : ℕ} {fails : Bool}

theorem readUntil_error : readUntil stop ⟨[], true⟩ buf offset = .ok none := by
  rw [readUntil]
  rfl

theorem readUntil_item {a : α} (hoffset : offset < buf.length) (rest : List α) :
    readUntil stop ⟨a :: rest, fails⟩ buf offset =
      if stop a then .ok (some (⟨rest, fails⟩, buf.set offset a))
      else readUntil stop ⟨rest, fails⟩ (buf.set offset a) (offset + 1) := by
  conv_lhs => rw [readUntil]
  simp [File.read, store, hoffset]

theorem readUntil_nothing {a : α} (hcell : buf[offset]? = some a) (hstop : stop a = false) :
    readUntil stop ⟨[], false⟩ buf offset = readUntil stop ⟨[], false⟩ buf (offset + 1) := by
  obtain ⟨hoffset, _⟩ := List.getElem?_eq_some_iff.mp hcell
  conv_lhs => rw [readUntil]
  simp only [File.read, store, dif_pos hoffset]
  simp [hcell, hstop]

theorem readUntil_beyond {file : File α} (hoffset : buf.length ≤ offset)
    (hfile : file.content ≠ [] ∨ file.fails = false) :
    readUntil stop file buf offset = .error .beyond := by
  have hbeyond : ¬ offset < buf.length := Nat.not_lt.mpr hoffset
  rw [readUntil]
  obtain ⟨content, fails⟩ := file
  cases content with
  | cons a rest => simp [File.read, hbeyond]
  | nil =>
      have hfails : fails = false := by simpa using hfile
      simp [File.read, hfails, hbeyond]

theorem readUntil_piece {piece : List α} (hpiece : ∀ a ∈ piece, stop a = false) (rest : List α)
    (hroom : offset + piece.length ≤ buf.length) :
    readUntil stop ⟨piece ++ rest, fails⟩ buf offset =
      readUntil stop ⟨rest, fails⟩ (fill buf offset piece) (offset + piece.length) := by
  induction piece generalizing buf offset with
  | nil => rw [fill_nil, List.nil_append, List.length_nil, Nat.add_zero]
  | cons a piece ih =>
      rw [List.length_cons] at hroom
      rw [List.forall_mem_cons] at hpiece
      have hoffset : offset < buf.length := by omega
      have hstop : ¬ stop a = true := by simp [hpiece.1]
      have hlength : offset + 1 + piece.length = offset + (piece.length + 1) := by omega
      rw [List.cons_append, readUntil_item hoffset, if_neg hstop,
        ih hpiece.2 (by rw [List.length_set]; omega), fill_cons hoffset, List.length_cons, hlength]

theorem readUntil_long {piece : List α} (hpiece : ∀ a ∈ piece, stop a = false) (rest : List α)
    (hoffset : offset ≤ buf.length) (hroom : buf.length < offset + piece.length) :
    readUntil stop ⟨piece ++ rest, fails⟩ buf offset = .error .beyond := by
  have hsplit := List.take_append_drop (buf.length - offset) piece
  have hfits : offset + (piece.take (buf.length - offset)).length = buf.length := by
    rw [List.length_take]
    omega
  have hmore : piece.drop (buf.length - offset) ≠ [] := by
    rw [Ne, List.drop_eq_nil_iff]
    omega
  rw [← hsplit, List.append_assoc,
    readUntil_piece (fun a ha => hpiece a (List.mem_of_mem_take ha)) _ (Nat.le_of_eq hfits)]
  apply readUntil_beyond
  · rw [hfits, fill]
    simp only [List.length_append, List.length_take, List.length_drop]
    omega
  · exact Or.inl (List.append_ne_nil_of_left_ne_nil hmore rest)

theorem readUntil_ended (hoffset : offset ≤ buf.length)
    (hbuf : ∀ a ∈ buf.drop offset, stop a = false) :
    readUntil stop ⟨[], false⟩ buf offset = .error .beyond := by
  induction hleft : buf.length - offset generalizing offset with
  | zero => exact readUntil_beyond (by omega) (Or.inr rfl)
  | succ left ih =>
      have hcell : buf[offset]? = some buf[offset] := List.getElem?_eq_getElem (by omega)
      rw [List.drop_eq_getElem_cons (by omega), List.forall_mem_cons] at hbuf
      rw [readUntil_nothing hcell hbuf.1]
      exact ih (by omega) hbuf.2 (by omega)

end Cells

section Pieces

variable {stop : α → Bool} {buf piece : List α} (hpiece : ∀ a ∈ piece, stop a = false)

include hpiece

theorem readUntil_stopped {a : α} (ha : stop a = true) (rest : List α) (fails : Bool) :
    readUntil stop ⟨piece ++ a :: rest, fails⟩ buf 0 =
      if piece.length < buf.length then
        .ok (some (⟨rest, fails⟩, piece ++ a :: buf.drop (piece.length + 1)))
      else .error .beyond := by
  by_cases hroom : piece.length < buf.length
  · have hlength : (fill buf 0 piece).length = buf.length := by
      rw [fill_zero, List.length_append, List.length_drop]
      omega
    have hset : (fill buf 0 piece).set piece.length a =
        piece ++ a :: buf.drop (piece.length + 1) := by
      rw [fill_zero, List.set_append_right _ _ (Nat.le_refl _), Nat.sub_self,
        List.drop_eq_getElem_cons hroom, List.set_cons_zero]
    rw [readUntil_piece hpiece _ (by omega), Nat.zero_add, readUntil_item (by omega), if_pos ha,
      hset, if_pos hroom]
  · rw [if_neg hroom]
    by_cases hfull : piece.length = buf.length
    · rw [readUntil_piece hpiece _ (by omega)]
      apply readUntil_beyond
      · rw [fill_zero, List.length_append, List.length_drop]
        omega
      · exact Or.inl (List.cons_ne_nil a rest)
    · exact readUntil_long hpiece _ (Nat.zero_le _) (by omega)

theorem readUntil_failed : readUntil stop ⟨piece, true⟩ buf 0 =
    if piece.length ≤ buf.length then .ok none else .error .beyond := by
  have hnil := (List.append_nil piece).symm
  by_cases hroom : piece.length ≤ buf.length
  · rw [if_pos hroom, hnil, readUntil_piece hpiece _ (by omega), readUntil_error]
  · rw [if_neg hroom, hnil]
    exact readUntil_long hpiece _ (Nat.zero_le _) (by omega)

theorem readUntil_endless (hbuf : ∀ a ∈ buf, stop a = false) :
    readUntil stop ⟨piece, false⟩ buf 0 = .error .beyond := by
  have hnil := (List.append_nil piece).symm
  rw [hnil]
  by_cases hroom : piece.length ≤ buf.length
  · rw [readUntil_piece hpiece _ (by omega)]
    apply readUntil_ended
    · rw [fill_zero, List.length_append]
      omega
    · rw [fill_zero, Nat.zero_add, List.drop_left]
      exact fun a ha => hbuf a (List.mem_of_mem_drop ha)
  · exact readUntil_long hpiece _ (Nat.zero_le _) (by omega)

end Pieces

theorem fails_of_read {file rest : File α} {result : Read α} (h : file.read = (result, rest)) :
    rest.fails = file.fails ∧ (result = .error → file.fails = true) := by
  obtain ⟨content, fails⟩ := file
  cases content with
  | cons a content =>
      cases h
      exact ⟨rfl, fun h => by cases h⟩
  | nil =>
      cases fails with
      | false =>
          cases h
          exact ⟨rfl, fun h => by cases h⟩
      | true =>
          cases h
          exact ⟨rfl, fun _ => rfl⟩

theorem readUntil_ends {stop : α → Bool} {file : File α} {buf : List α} {offset : ℕ}
    {found : Option (File α × List α)} (h : readUntil stop file buf offset = .ok found) :
    (found.map fun found => found.1.fails).getD true = file.fails := by
  fun_induction readUntil stop file buf offset with
  | case1 file buf offset rest hread =>
      obtain rfl := Except.ok.inj h
      exact ((fails_of_read hread).2 rfl).symm
  | case2 file buf offset result rest _ hread =>
      obtain rfl := Except.ok.inj h
      exact (fails_of_read hread).1
  | case3 file buf offset result rest _ hread _ _ ih => exact (ih h).trans (fails_of_read hread).1
  | case4 => cases h

end PwrApi.ReadLoop
