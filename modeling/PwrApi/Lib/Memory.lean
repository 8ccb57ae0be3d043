import Mathlib.Data.List.Induction

/-! Rows of cells in one memory: what a row that is written holds, and what stays. -/

namespace PwrApi.Memory

variable {α : Type*}

/-- The cells from `base` on hold the row, the others what they held. -/
def writeRow (mem : Nat → α) (base : Nat) (row : List α) : Nat → α := fun addr =>
  if base ≤ addr then (row[addr - base]?).getD (mem addr) else mem addr

def readRow (mem : Nat → α) (base count : Nat) : List α :=
  (List.range count).map fun i => mem (base + i)

def writeRows (mem : Nat → α) (placed : List (Nat × List α)) : Nat → α :=
  placed.foldl (fun mem (base, row) => writeRow mem base row) mem

/-- The addresses of rows that all have `num` cells. -/
def blocks (num : Nat) (rows : List (List α)) : List (Nat × List α) :=
  rows.mapIdx fun i row => (i * num, row)

@[simp] theorem length_readRow (mem : Nat → α) (base count : Nat) :
    (readRow mem base count).length = count := by
  simp [readRow]

theorem readRow_const (cell : α) (base count : Nat) :
    readRow (fun _ => cell) base count = List.replicate count cell := by
  rw [readRow, List.map_const', List.length_range]

theorem writeRow_outside {mem : Nat → α} {base : Nat} {row : List α} {addr : Nat}
    (h : addr < base ∨ base + row.length ≤ addr) : writeRow mem base row addr = mem addr := by
  unfold writeRow
  by_cases hbase : base ≤ addr
  · rw [if_pos hbase, List.getElem?_eq_none (by omega)]
    rfl
  · exact if_neg hbase

theorem readRow_congr {mem mem' : Nat → α} {base count : Nat}
    (h : ∀ i < count, mem (base + i) = mem' (base + i)) :
    readRow mem base count = readRow mem' base count :=
  List.map_congr_left fun i hi => h i (List.mem_range.mp hi)

theorem readRow_writeRow (mem : Nat → α) (base : Nat) (row : List α) :
    readRow (writeRow mem base row) base row.length = row := by
  apply List.ext_getElem
  · simp
  · intro i hi _
    have hlt : i < row.length := by simpa using hi
    simp [readRow, writeRow, hlt]

theorem readRow_writeRow_apart {mem : Nat → α} {base base' count : Nat} {row : List α}
    (h : base + count ≤ base' ∨ base' + row.length ≤ base) :
    readRow (writeRow mem base' row) base count = readRow mem base count :=
  readRow_congr fun i hi => writeRow_outside (by omega)

theorem writeRows_concat (mem : Nat → α) (placed : List (Nat × List α)) (base : Nat)
    (row : List α) :
    writeRows mem (placed ++ [(base, row)]) = writeRow (writeRows mem placed) base row := by
  simp [writeRows]

theorem blocks_concat (num : Nat) (rows : List (List α)) (row : List α) :
    blocks num (rows ++ [row]) = blocks num rows ++ [(rows.length * num, row)] := by
  simp [blocks, List.mapIdx_append]

theorem zip_blocks (num : Nat) (rows : List (List α)) :
    ((List.range rows.length).map fun i => i * num).zip rows = blocks num rows := by
  apply List.ext_getElem
  · simp [blocks]
  · intro i hi hi'
    simp [blocks]

theorem readRow_blocks {mem : Nat → α} {num : Nat} {rows : List (List α)}
    (hrows : ∀ row ∈ rows, row.length = num) (k : Nat) :
    readRow (writeRows mem (blocks num rows)) (k * num) num =
      (rows[k]?).getD (readRow mem (k * num) num) := by
  induction rows using List.reverseRecOn with
  | nil => rfl
  | append_singleton rows row ih =>
      have hrow : row.length = num := hrows row (by simp)
      have hkept := ih fun row hmem => hrows row (by simp [hmem])
      rw [blocks_concat, writeRows_concat]
      rcases Nat.lt_trichotomy k rows.length with hlt | heq | hgt
      · have hapart : k * num + num ≤ rows.length * num := by
          have h := Nat.mul_le_mul_right num (Nat.succ_le_of_lt hlt)
          rwa [Nat.succ_mul] at h
        rw [readRow_writeRow_apart (.inl hapart), hkept, List.getElem?_append_left hlt]
      · subst heq
        have hread := readRow_writeRow (writeRows mem (blocks num rows)) (rows.length * num) row
        rw [hrow] at hread
        rw [hread, List.getElem?_concat_length]
        rfl
      · have hapart : rows.length * num + row.length ≤ k * num := by
          have h := Nat.mul_le_mul_right num (Nat.succ_le_of_lt hgt)
          rw [hrow]
          rwa [Nat.succ_mul] at h
        rw [readRow_writeRow_apart (.inr hapart), hkept, List.getElem?_eq_none (by omega),
          List.getElem?_eq_none (by simp; omega)]

end PwrApi.Memory
