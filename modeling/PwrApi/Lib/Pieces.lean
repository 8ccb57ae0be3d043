import Mathlib.Data.List.Basic

/-! A stream that arrives in pieces: what one read takes, and when reads that ask for one
field after the other get whole fields. -/

namespace PwrApi.Pieces

variable {α : Type*}

/-- One read of at most `n` elements, which does not go past the first piece. -/
def readPiece (n : Nat) : List (List α) → List α × List (List α)
  | [] => ([], [])
  | piece :: pieces =>
      if piece.length ≤ n then (piece, pieces) else (piece.take n, piece.drop n :: pieces)

/-- What is left after one read for each field. -/
def skip : List (List α) → List (List α) → List (List α)
  | [], pieces => pieces
  | field :: fields, pieces => skip fields (readPiece field.length pieces).2

/-- One read for each field gets it. -/
def Readable : List (List α) → List (List α) → Prop
  | [], _ => True
  | field :: fields, pieces =>
      (readPiece field.length pieces).1 = field ∧ Readable fields (readPiece field.length pieces).2

/-- Each piece is a run of whole fields. -/
def WholeFields (fields pieces : List (List α)) : Prop :=
  ∃ groups : List (List (List α)), groups.flatten = fields ∧ groups.map List.flatten = pieces

theorem read_short {n : Nat} {piece : List α} (pieces : List (List α))
    (hshort : piece.length ≤ n) : readPiece n (piece :: pieces) = (piece, pieces) :=
  if_pos hshort

theorem read_long {n : Nat} {piece : List α} (pieces : List (List α))
    (hlong : ¬ piece.length ≤ n) :
    readPiece n (piece :: pieces) = (piece.take n, piece.drop n :: pieces) :=
  if_neg hlong

theorem read_append (n : Nat) (pieces : List (List α)) :
    (readPiece n pieces).1 ++ (readPiece n pieces).2.flatten = pieces.flatten := by
  cases pieces with
  | nil => rfl
  | cons piece pieces =>
      by_cases hshort : piece.length ≤ n
      · rw [read_short pieces hshort, List.flatten_cons]
      · rw [read_long pieces hshort]
        simp [← List.append_assoc, List.take_append_drop]

theorem read_nonempty {n : Nat} {pieces : List (List α)} (h : ∀ piece ∈ pieces, piece ≠ []) :
    ∀ piece ∈ (readPiece n pieces).2, piece ≠ [] := by
  cases pieces with
  | nil => exact h
  | cons piece pieces =>
      have htail : ∀ other ∈ pieces, other ≠ [] := fun other hother =>
        h other (List.mem_cons_of_mem piece hother)
      by_cases hshort : piece.length ≤ n
      · rw [read_short pieces hshort]
        exact htail
      · rw [read_long pieces hshort]
        intro other hother
        rcases List.mem_cons.mp hother with rfl | hother
        · rw [ne_eq, List.drop_eq_nil_iff]
          exact hshort
        · exact htail other hother

theorem read_eq_nil {n : Nat} {pieces : List (List α)} (h : ∀ piece ∈ pieces, piece ≠ [])
    (hn : 0 < n) (hread : (readPiece n pieces).1 = []) : pieces = [] := by
  cases pieces with
  | nil => rfl
  | cons piece pieces =>
      have hpiece := h piece List.mem_cons_self
      by_cases hshort : piece.length ≤ n
      · rw [read_short pieces hshort] at hread
        exact absurd hread hpiece
      · rw [read_long pieces hshort, List.take_eq_nil_iff] at hread
        rcases hread with hzero | hnil
        · omega
        · exact absurd hnil hpiece

theorem read_field {field rest : List α} {pieces : List (List α)}
    (hstream : pieces.flatten = field ++ rest)
    (hlength : (readPiece field.length pieces).1.length = field.length) :
    (readPiece field.length pieces).1 = field ∧ (readPiece field.length pieces).2.flatten = rest := by
  rw [← read_append field.length pieces] at hstream
  exact List.append_inj hstream hlength

theorem readable_append (fields fields' pieces : List (List α)) :
    Readable (fields ++ fields') pieces ↔
      Readable fields pieces ∧ Readable fields' (skip fields pieces) := by
  induction fields generalizing pieces with
  | nil => exact (and_iff_right trivial).symm
  | cons field fields ih =>
      rw [List.cons_append, Readable, ih, Readable, skip, and_assoc]

theorem skip_nonempty {fields pieces : List (List α)} (h : ∀ piece ∈ pieces, piece ≠ []) :
    ∀ piece ∈ skip fields pieces, piece ≠ [] := by
  induction fields generalizing pieces with
  | nil => exact h
  | cons field fields ih => exact ih (read_nonempty h)

theorem skip_flatten {fields pieces : List (List α)} {rest : List α}
    (hstream : pieces.flatten = fields.flatten ++ rest) (h : Readable fields pieces) :
    (skip fields pieces).flatten = rest := by
  induction fields generalizing pieces with
  | nil => exact hstream
  | cons field fields ih =>
      rw [List.flatten_cons, List.append_assoc] at hstream
      exact ih (read_field hstream (congrArg List.length h.1)).2 h.2

theorem wholeFields_cons {field : List α} {fields pieces : List (List α)} (hfield : field ≠ [])
    (hfields : ∀ other ∈ fields, other ≠ []) (hpieces : ∀ piece ∈ pieces, piece ≠ [])
    (hstream : pieces.flatten = field ++ fields.flatten) :
    WholeFields (field :: fields) pieces ↔
      (readPiece field.length pieces).1 = field ∧
        WholeFields fields (readPiece field.length pieces).2 := by
  constructor
  · rintro ⟨groups, hgroups, rfl⟩
    rcases groups with _ | ⟨group, groups⟩
    · cases hgroups
    rcases group with _ | ⟨first, group⟩
    · exact absurd rfl (hpieces [] List.mem_cons_self)
    rw [List.flatten_cons, List.cons_append, List.cons.injEq] at hgroups
    obtain ⟨rfl, rfl⟩ := hgroups
    by_cases hgroup : group = []
    · subst hgroup
      rw [List.map_cons, List.flatten_cons, List.flatten_nil, List.append_nil,
        read_short _ (Nat.le_refl _)]
      exact ⟨rfl, groups, rfl, rfl⟩
    · have hflatten : 0 < group.flatten.length := by
        rw [List.length_pos_iff, ne_eq, List.flatten_eq_nil_iff]
        intro hnil
        obtain ⟨other, hother⟩ := List.exists_mem_of_ne_nil group hgroup
        exact hfields other (List.mem_append_left _ hother) (hnil other hother)
      have hlong : ¬ (first ++ group.flatten).length ≤ first.length := by
        rw [List.length_append]
        omega
      rw [List.map_cons, List.flatten_cons, read_long _ hlong, List.take_left, List.drop_left]
      exact ⟨rfl, group :: groups, rfl, rfl⟩
  · rintro ⟨hread, groups, rfl, hgroups⟩
    rcases pieces with _ | ⟨piece, pieces⟩
    · exact absurd hread.symm hfield
    by_cases hshort : piece.length ≤ field.length
    · rw [read_short pieces hshort] at hread hgroups
      obtain rfl : piece = field := hread
      exact ⟨[piece] :: groups, rfl, by simp [hgroups]⟩
    · rw [read_long pieces hshort] at hread hgroups
      have htake : piece.take field.length = field := hread
      rcases groups with _ | ⟨group, groups⟩
      · cases hgroups
      rw [List.map_cons, List.cons.injEq] at hgroups
      refine ⟨(field :: group) :: groups, rfl, ?_⟩
      rw [List.map_cons, List.flatten_cons, hgroups.1, hgroups.2]
      have hsplit := List.take_append_drop field.length piece
      rw [htake] at hsplit
      rw [hsplit]

theorem readable_iff_wholeFields {fields pieces : List (List α)}
    (hfields : ∀ field ∈ fields, field ≠ []) (hpieces : ∀ piece ∈ pieces, piece ≠ [])
    (hstream : pieces.flatten = fields.flatten) :
    Readable fields pieces ↔ WholeFields fields pieces := by
  induction fields generalizing pieces with
  | nil =>
      rw [List.flatten_nil, List.flatten_eq_nil_iff] at hstream
      have hnil : pieces = [] := by
        rw [List.eq_nil_iff_forall_not_mem]
        exact fun piece hpiece => hpieces piece hpiece (hstream piece hpiece)
      exact iff_of_true trivial ⟨[], rfl, hnil.symm⟩
  | cons field fields ih =>
      have hothers : ∀ other ∈ fields, other ≠ [] := fun other hother =>
        hfields other (List.mem_cons_of_mem field hother)
      rw [wholeFields_cons (hfields field List.mem_cons_self) hothers hpieces hstream, Readable]
      apply and_congr_right
      intro hread
      exact ih hothers (read_nonempty hpieces)
        (read_field hstream (congrArg List.length hread)).2

end PwrApi.Pieces
