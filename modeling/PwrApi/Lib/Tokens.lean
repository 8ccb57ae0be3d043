import Mathlib.Data.List.TakeWhile
import Mathlib.Tactic.TypeStar

/-! The tokens of a sequence, and the function that takes them one after another from a
position that it keeps between its calls. -/

namespace PwrApi.Tokens

variable {α : Type*}

/-- The longest pieces that are not empty and have no delimiter. -/
def tokens (delim : α → Bool) (s : List α) : List (List α) :=
  (s.splitOnP delim).filter fun token => !token.isEmpty

/-- `strtok` from a position: the token, if there is one, and the position that is kept. -/
def strtok (delim : α → Bool) (s : List α) : Option (List α) × List α :=
  match s.dropWhile delim with
  | [] => (none, [])
  | c :: rest =>
      (some ((c :: rest).takeWhile fun d => !delim d),
        ((c :: rest).dropWhile fun d => !delim d).drop 1)

variable {delim : α → Bool}

@[simp] theorem tokens_nil : tokens delim [] = [] := rfl

theorem mem_splitOnP {s piece : List α} (hpiece : piece ∈ s.splitOnP delim) :
    ∀ c ∈ piece, delim c = false ∧ c ∈ s := by
  induction s generalizing piece with
  | nil =>
      obtain rfl : piece = [] := by simpa using hpiece
      exact fun c hc => absurd hc List.not_mem_nil
  | cons d s ih =>
      intro c hc
      rw [List.splitOnP_cons_eq_if_modifyHead] at hpiece
      obtain ⟨first, others, hsplit⟩ :=
        List.exists_cons_of_ne_nil (List.splitOnP_ne_nil delim s)
      cases hd : delim d with
      | true =>
          rw [if_pos hd, List.mem_cons] at hpiece
          rcases hpiece with rfl | hpiece
          · exact absurd hc List.not_mem_nil
          · exact (ih hpiece c hc).imp_right (List.mem_cons_of_mem d)
      | false =>
          have hkept : ¬ delim d = true := by simp [hd]
          rw [if_neg hkept, hsplit, List.modifyHead_cons, List.mem_cons] at hpiece
          rw [hsplit] at ih
          rcases hpiece with rfl | hpiece
          · rcases List.mem_cons.mp hc with rfl | hc
            · exact ⟨hd, List.mem_cons_self⟩
            · exact (ih List.mem_cons_self c hc).imp_right (List.mem_cons_of_mem d)
          · exact (ih (List.mem_cons_of_mem first hpiece) c hc).imp_right (List.mem_cons_of_mem d)

theorem tokens_delim {c : α} (hc : delim c = true) (s : List α) :
    tokens delim (c :: s) = tokens delim s := by
  simp [tokens, List.splitOnP_cons_eq_if_modifyHead, hc]

theorem tokens_dropWhile (s : List α) : tokens delim (s.dropWhile delim) = tokens delim s := by
  induction s with
  | nil => rfl
  | cons c s ih =>
      cases hc : delim c with
      | false => rw [List.dropWhile_cons_of_neg (by simp [hc])]
      | true => rw [List.dropWhile_cons_of_pos hc, ih, tokens_delim hc]

theorem tokens_piece {piece : List α} (hne : piece ≠ []) (hpiece : ∀ d ∈ piece, delim d = false) :
    tokens delim piece = [piece] := by
  rw [tokens, List.splitOnP_eq_singleton hpiece]
  simp [hne]

theorem tokens_append {piece : List α} (hne : piece ≠ []) (hpiece : ∀ d ∈ piece, delim d = false)
    {c : α} (hc : delim c = true) (s : List α) :
    tokens delim (piece ++ c :: s) = piece :: tokens delim s := by
  rw [tokens, List.splitOnP_append_cons_of_forall_mem hpiece c hc]
  simp [tokens, hne]

theorem tokens_takeWhile {c : α} (hc : delim c = false) (s : List α) :
    tokens delim (c :: s) = ((c :: s).takeWhile fun d => !delim d) ::
      tokens delim (((c :: s).dropWhile fun d => !delim d).drop 1) := by
  have hne : (c :: s).takeWhile (fun d => !delim d) ≠ [] := by simp [hc]
  have hpiece : ∀ d ∈ (c :: s).takeWhile (fun d => !delim d), delim d = false := by
    intro d hd
    simpa using List.mem_takeWhile_imp hd
  have hsplit : ((c :: s).takeWhile fun d => !delim d) ++ (c :: s).dropWhile (fun d => !delim d) =
      c :: s := List.takeWhile_append_dropWhile
  have hend := List.head?_dropWhile_not (fun d => !delim d) (c :: s)
  revert hne hpiece hsplit hend
  generalize (c :: s).takeWhile (fun d => !delim d) = piece
  generalize (c :: s).dropWhile (fun d => !delim d) = rest
  intro hne hpiece hsplit hend
  rw [← hsplit]
  cases rest with
  | nil => rw [List.append_nil, tokens_piece hne hpiece, List.drop_nil, tokens_nil]
  | cons d rest => exact tokens_append hne hpiece (by simpa using hend) rest

theorem strtok_tokens (s : List α) : (strtok delim s).1 = (tokens delim s).head? ∧
    tokens delim (strtok delim s).2 = (tokens delim s).tail := by
  rw [← tokens_dropWhile s, strtok]
  cases hstart : s.dropWhile delim with
  | nil => exact ⟨rfl, rfl⟩
  | cons c rest =>
      have hend := List.head?_dropWhile_not delim s
      rw [hstart] at hend
      rw [tokens_takeWhile hend]
      exact ⟨rfl, rfl⟩

end PwrApi.Tokens
