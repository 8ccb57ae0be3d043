import PwrApi.Lib.Reads
import PwrApi.Lib.Text

/-! The reply of the meter that `pwr_wudev.c` reads byte by byte. -/

namespace PwrApi.WattsUp

open ReadLoop

/-- What a call has come to when it has had some results. -/
inductive Progress
  | reading
  | returned (code : Int32) (buf : Text)
  deriving DecidableEq, Repr

/-- The NUL after the last byte. -/
def finish (buf : Text) (i : ℕ) : Except Fault Progress :=
  if i < buf.length then .ok (.returned 0 (buf.set i 0)) else .error .beyond

/-- `wudev_read` from the head of its loop on, with what `c` holds there. -/
def wudevRead (term c : UInt8) (buf : Text) (i : ℕ) : List (Read UInt8) → Except Fault Progress
  | [] => .ok .reading
  | .error :: _ => .ok (.returned (-1) buf)
  | .nothing :: results =>
      -- `continue` comes to the condition of the loop.
      if c ≠ term then wudevRead term c buf i results else finish buf i
  | .item c :: results =>
      if c ≠ 13 ∧ c ≠ 10 then
        if i < buf.length then
          if c ≠ term then wudevRead term c (buf.set i c) (i + 1) results
          else finish (buf.set i c) (i + 1)
        else .error .beyond
      else if c ≠ term then wudevRead term c buf i results
      else finish buf i

/-- The call of `pwr_wudev_read`. That `c` starts with any value is for `wudev_read`, which
leaves it without one. -/
def reply (c : UInt8) (results : List (Read UInt8)) : Except Fault Progress :=
  wudevRead 59 c (List.replicate 256 0) 0 results

def received : List (Read UInt8) → Text
  | [] => []
  | .error :: _ => []
  | .nothing :: results => received results
  | .item c :: results => if c = 59 then [c] else c :: received results

def kept (results : List (Read UInt8)) : Text := (received results).filter fun c => c ≠ 13 ∧ c ≠ 10

/-- Nothing is written beyond the buffer, a reply is what was received, and no read without a
byte ends the loop before the first byte. -/
def Replies (c : UInt8) (results : List (Read UInt8)) : Prop :=
  (∃ progress, reply c results = .ok progress) ∧
  (∀ buf, reply c results = .ok (.returned 0 buf) →
    59 ∈ received results ∧ ∃ rest, buf = kept results ++ 0 :: rest) ∧
  ∀ count ≤ results.length, (∀ result ∈ results.take count, result = .nothing) →
    reply c (results.take count) = .ok .reading

section Reading

variable {buf : Text} {i : ℕ} {c : UInt8}

/-- Whether a call fails at a read. -/
def failed (results : List (Read UInt8)) : Bool :=
  results.any fun result =>
    match result with
    | .error => true
    | _ => false

theorem received_term (results : List (Read UInt8)) : received (.item 59 :: results) = [59] := rfl

theorem received_item {d : UInt8} (hd : d ≠ 59) (results : List (Read UInt8)) :
    received (.item d :: results) = d :: received results := if_neg hd

theorem mem_received_item {d : UInt8} (hd : d ≠ 59) (results : List (Read UInt8)) :
    59 ∈ received (.item d :: results) ↔ 59 ∈ received results := by
  rw [received_item hd, List.mem_cons, or_iff_right fun h => hd h.symm]

theorem kept_item {d : UInt8} (hd : d ≠ 59) (hkept : d ≠ 13 ∧ d ≠ 10)
    (results : List (Read UInt8)) : kept (.item d :: results) = d :: kept results := by
  rw [kept, received_item hd, List.filter_cons_of_pos (by simp [hkept])]
  rfl

theorem kept_end_of_line {d : UInt8} (hd : d ≠ 59) (hkept : ¬ (d ≠ 13 ∧ d ≠ 10))
    (results : List (Read UInt8)) : kept (.item d :: results) = kept results := by
  rw [kept, received_item hd, List.filter_cons_of_neg (by rwa [decide_eq_true_eq])]
  rfl

theorem finish_eq (buf : Text) (i : ℕ) :
    finish buf i = if i < buf.length then .ok (.returned 0 (fill buf i [0])) else .error .beyond := by
  rw [finish]
  by_cases hlt : i < buf.length
  · rw [if_pos hlt, if_pos hlt, ← fill_cons hlt, fill_nil]
  · rw [if_neg hlt, if_neg hlt]

theorem wudevRead_kept {d : UInt8} (hd : d ≠ 59) (hkept : d ≠ 13 ∧ d ≠ 10)
    (results : List (Read UInt8)) : wudevRead 59 c buf i (.item d :: results) =
      if i < buf.length then wudevRead 59 d (buf.set i d) (i + 1) results
      else .error .beyond := by
  rw [wudevRead, if_pos hkept, if_pos hd]

theorem wudevRead_end_of_line {d : UInt8} (hd : d ≠ 59) (hkept : ¬ (d ≠ 13 ∧ d ≠ 10))
    (results : List (Read UInt8)) :
    wudevRead 59 c buf i (.item d :: results) = wudevRead 59 d buf i results := by
  rw [wudevRead, if_neg hkept, if_pos hd]

theorem wudevRead_term (results : List (Read UInt8)) : wudevRead 59 c buf i (.item 59 :: results) =
    if i + 1 < buf.length then .ok (.returned 0 (fill buf i [59, 0])) else .error .beyond := by
  have hkept : (59 : UInt8) ≠ 13 ∧ (59 : UInt8) ≠ 10 := by decide
  rw [wudevRead, if_pos hkept, if_neg (not_not_intro rfl)]
  by_cases hlt : i < buf.length
  · rw [if_pos hlt, finish_eq, List.length_set, fill_cons hlt]
  · have hfull : ¬ i + 1 < buf.length := by omega
    rw [if_neg hlt, if_neg hfull]

theorem wudevRead_eq {results : List (Read UInt8)} (hc : c ≠ 59) (hi : i ≤ buf.length) :
    wudevRead 59 c buf i results =
      if i + (kept results).length + (if 59 ∈ received results then 1 else 0) ≤ buf.length then
        if 59 ∈ received results then .ok (.returned 0 (fill buf i (kept results ++ [0])))
        else if failed results then .ok (.returned (-1) (fill buf i (kept results)))
        else .ok .reading
      else .error .beyond := by
  induction results generalizing buf i c with
  | nil => simp [wudevRead, received, kept, failed, hi]
  | cons result results ih =>
      cases result with
      | error => simp [wudevRead, received, kept, failed, hi, fill_nil]
      | nothing =>
          rw [wudevRead, if_pos hc, ih hc hi]
          rfl
      | item d =>
          have hfailed : failed (.item d :: results) = failed results := rfl
          by_cases hd : d = 59
          · subst hd
            have hkept : kept (.item 59 :: results) = [59] := rfl
            rw [wudevRead_term, hkept, received_term]
            simp only [List.mem_singleton, if_true, List.length_singleton]
            rfl
          · simp only [mem_received_item hd, hfailed]
            by_cases hkept : d ≠ 13 ∧ d ≠ 10
            · rw [wudevRead_kept hd hkept, kept_item hd hkept]
              by_cases hlt : i < buf.length
              · have hcount : i + 1 + (kept results).length = i + (d :: kept results).length := by
                  rw [List.length_cons]
                  omega
                rw [if_pos hlt, ih hd (by rw [List.length_set]; exact hlt), List.length_set,
                  fill_cons hlt, fill_cons hlt, hcount]
                rfl
              · have hfull : ¬ i + (d :: kept results).length +
                    (if 59 ∈ received results then 1 else 0) ≤ buf.length := by
                  rw [List.length_cons]
                  omega
                rw [if_neg hlt, if_neg hfull]
            · rw [wudevRead_end_of_line hd hkept, ih hd hi, kept_end_of_line hd hkept]

theorem wudevRead_start {results : List (Read UInt8)} (hstart : results.head? ≠ some .nothing)
    (c' : UInt8) : wudevRead 59 c buf i results = wudevRead 59 c' buf i results := by
  cases results with
  | nil => rfl
  | cons result results =>
      cases result with
      | item d => rfl
      | nothing => exact absurd rfl hstart
      | error => rfl

end Reading

section Replies

variable {c : UInt8} {results : List (Read UInt8)}

theorem reply_eq (hstart : ¬ (c = 59 ∧ results.head? = some .nothing)) : reply c results =
    if (kept results).length + (if 59 ∈ received results then 1 else 0) ≤ 256 then
      if 59 ∈ received results then
        .ok (.returned 0 (fill (List.replicate 256 0) 0 (kept results ++ [0])))
      else if failed results then .ok (.returned (-1) (fill (List.replicate 256 0) 0 (kept results)))
      else .ok .reading
    else .error .beyond := by
  have hsize : (List.replicate 256 (0 : UInt8)).length = 256 := List.length_replicate
  have hzero : (0 : UInt8) ≠ 59 := by decide
  by_cases hc : c = 59
  · have hhead : results.head? ≠ some .nothing := fun h => hstart ⟨hc, h⟩
    rw [reply, wudevRead_start hhead 0, wudevRead_eq hzero (Nat.zero_le _), Nat.zero_add, hsize]
  · rw [reply, wudevRead_eq hc (Nat.zero_le _), Nat.zero_add, hsize]

theorem received_nothing (hnothing : ∀ result ∈ results, result = .nothing) :
    received results = [] ∧ failed results = false := by
  induction results with
  | nil => exact ⟨rfl, rfl⟩
  | cons result results ih =>
      rw [List.forall_mem_cons] at hnothing
      obtain ⟨rfl, hrest⟩ := hnothing
      exact ih hrest

theorem reply_nothing (hstart : ¬ (c = 59 ∧ results.head? = some .nothing))
    (hnothing : ∀ result ∈ results, result = .nothing) : reply c results = .ok .reading := by
  obtain ⟨hreceived, hfailed⟩ := received_nothing hnothing
  rw [reply_eq hstart, kept, hreceived, hfailed]
  rfl

theorem reply_ended (results : List (Read UInt8)) :
    reply 59 (.nothing :: results) = .ok (.returned 0 ((List.replicate 256 0).set 0 0)) := by
  rw [reply, wudevRead, if_neg (not_not_intro rfl), finish, List.length_replicate,
    if_pos (by decide)]

theorem reply_ok_iff (hstart : ¬ (c = 59 ∧ results.head? = some .nothing)) :
    (∃ progress, reply c results = .ok progress) ↔
      (kept results).length + (if 59 ∈ received results then 1 else 0) ≤ 256 := by
  rw [reply_eq hstart]
  by_cases hbound : (kept results).length + (if 59 ∈ received results then 1 else 0) ≤ 256
  · rw [if_pos hbound]
    refine iff_of_true ?_ hbound
    split
    · exact ⟨_, rfl⟩
    · split
      · exact ⟨_, rfl⟩
      · exact ⟨_, rfl⟩
  · rw [if_neg hbound]
    exact iff_of_false (by simp) hbound

theorem reply_returned (hstart : ¬ (c = 59 ∧ results.head? = some .nothing)) {buf : Text}
    (h : reply c results = .ok (.returned 0 buf)) :
    59 ∈ received results ∧ ∃ rest, buf = kept results ++ 0 :: rest := by
  have hbound := (reply_ok_iff hstart).mp ⟨_, h⟩
  rw [reply_eq hstart, if_pos hbound] at h
  by_cases hterm : 59 ∈ received results
  · rw [if_pos hterm] at h
    have hbuf := (Progress.returned.inj (Except.ok.inj h)).2
    refine ⟨hterm, (List.replicate 256 0).drop ((kept results).length + 1), ?_⟩
    rw [← hbuf, fill_zero, List.length_append, List.length_singleton, List.append_assoc,
      List.singleton_append]
  · rw [if_neg hterm] at h
    cases hfailed : failed results with
    | true =>
        rw [hfailed, if_pos rfl] at h
        have hcode := (Progress.returned.inj (Except.ok.inj h)).1
        exact absurd hcode (by decide)
    | false =>
        rw [hfailed, if_neg Bool.false_ne_true] at h
        cases h

theorem head_of_take {count : ℕ} {result : Read UInt8}
    (h : (results.take count).head? = some result) : results.head? = some result := by
  rw [List.head?_take] at h
  by_cases hcount : count = 0
  · rw [if_pos hcount] at h
    cases h
  · rwa [if_neg hcount] at h

/-- Reading is right if and only if it does not start with an empty read while `c` happens to
hold the terminator, and the bytes that are kept fit with their NUL. -/
theorem replies_iff (c : UInt8) (results : List (Read UInt8)) : Replies c results ↔
    ¬ (c = 59 ∧ results.head? = some .nothing) ∧
      (kept results).length + (if 59 ∈ received results then 1 else 0) ≤ 256 := by
  constructor
  · rintro ⟨hok, _, hwaits⟩
    have hstart : ¬ (c = 59 ∧ results.head? = some .nothing) := by
      rintro ⟨rfl, hhead⟩
      obtain ⟨rest, rfl⟩ := List.head?_eq_some_iff.mp hhead
      have hwait := hwaits 1 (by simp) (by simp)
      rw [List.take_succ_cons, reply_ended] at hwait
      cases hwait
    exact ⟨hstart, (reply_ok_iff hstart).mp hok⟩
  · rintro ⟨hstart, hbound⟩
    refine ⟨(reply_ok_iff hstart).mpr hbound, fun buf h => reply_returned hstart h, ?_⟩
    intro count _ hnothing
    exact reply_nothing (fun h => hstart ⟨h.1, head_of_take h.2⟩) hnothing

/-- The ';' that the last reply has left in `c` ends the next one before its first byte. -/
theorem stale_terminator_ends : ¬ Replies 59 [.nothing, .item 35, .item 59] := by
  rintro ⟨_, _, hwaits⟩
  have hwait := hwaits 1 (by simp) (by simp)
  rw [List.take_succ_cons, reply_ended] at hwait
  cases hwait

end Replies

end PwrApi.WattsUp
