import Mathlib.Data.List.TakeWhile
import PwrApi.Lib.Reads
import PwrApi.Lib.Text
import PwrApi.Lib.Tokens

/-! The readers of counter files of three plugins, `pwr_cpudev.c`, `pwr_pmcdev.c` and
`pwr_xtpmdev.c`, and the reader of the list of frequencies. -/

namespace PwrApi.Counters

open ReadLoop

/-- What opening a path gives, none for a failure. -/
abbrev Files := Text → Option (File UInt8)

def text (s : String) : Text := s.toList.map fun c => UInt8.ofNat c.toNat

def isBlank (c : UInt8) : Bool := c = 32

/-- A `char [20]` that is set to "". -/
def blank : Text := List.replicate 20 0

def cstr (val : Text) : Text := val.takeWhile (· ≠ 0)

section Functions

variable {α : Type}

/-- `atof` and `atoi` of a buffer with a space: if there is no more than white space, they look
for a number beyond the buffer. -/
def convert (number : Text → α) (val : Text) : Except Fault α :=
  if val.all Text.isSpace then .error .beyond else .ok (number (cstr val))

def strlen (val : Text) : Except Fault ℕ :=
  match Text.findFirst 0 val with
  | some n => .ok n
  | none => .error .beyond

def bzero (val : Text) (n : ℕ) : Text := List.replicate n 0 ++ val.drop n

inductive ReadError
  /-- "unable to open CPU file at" or "counter file at" -/
  | opening (what path : Text)
  /-- "unable to parse PM counter value" -/
  | parsing
  deriving DecidableEq, Repr

/-- The loop of the three readers. -/
def readNumber (atof : Text → α) (files : Files) (what path : Text) :
    Except Fault (Except ReadError α) :=
  match files path with
  | none => .ok (.error (.opening what path))
  | some file =>
      readUntil isBlank file blank 0 >>= fun found =>
        match found with
        | some (_, strval) => (convert atof strval).map .ok
        | none => .ok (.error .parsing)

def cpuPath (cpu : Int32) (name : Text) : Text :=
  let sign := if cpu < 0 then [45] else []
  text "/sys/devices/system/cpu/cpu" ++ sign ++ Text.decimal cpu.toInt.natAbs ++ text "/" ++ name

def cpudevRead (atof : Text → α) (files : Files) (cpu : Int32) (name : Text) :
    Except Fault (Except ReadError α) :=
  readNumber atof files (text "CPU") (cpuPath cpu name)

def pmcPath (cpu counter : UInt32) : Text :=
  text "/sys/devices/system/cpu/cpu" ++ Text.decimal cpu.toNat ++ text "/pmc" ++
    Text.decimal counter.toNat

def pmcdevRead (atof : Text → α) (files : Files) (cpu counter : UInt32) :
    Except Fault (Except ReadError α) :=
  readNumber atof files (text "counter") (pmcPath cpu counter)

def xtpmPath (name : Text) : Text := text "/sys/cray/pm_counters/" ++ name

def xtpmdevRead (atof : Text → α) (files : Files) (name : Text) :
    Except Fault (Except ReadError α) :=
  readNumber atof files (text "counter") (xtpmPath name)

/-- The loop of `cpudev_avail_freq`, which keeps the buffer from one number to the next. -/
def availFreqFrom (file : File UInt8) (val : Text) (freqs : List Int32) :
    Except Fault (List Int32) :=
  readUntil isBlank file val 0 >>= fun found =>
    match found with
    | none => .ok freqs
    | some (rest, val) =>
        if _ : freqs.length < 100 then
          convert Text.atoi val >>= fun freq =>
            strlen val >>= fun n => availFreqFrom rest (bzero val n) (freqs ++ [freq])
        else .error .beyond
termination_by 100 - freqs.length

/-- A file that is not there fails at the first read. -/
def cpudevAvailFreq (files : Files) (cpu : Int32) : Except Fault (List Int32) :=
  match files (cpuPath cpu (text "cpufreq/scaling_available_frequencies")) with
  | some file => availFreqFrom file blank []
  | none => .ok []

end Functions

def number (content : Text) : Text := content.takeWhile (· ≠ 32)

/-- The number in front of the first space is read, if there is one, within the buffer. -/
def ReadsNumber {α : Type} (atof : Text → α) (file : File UInt8)
    (result : Except Fault (Except ReadError α)) : Prop :=
  result = .ok (if 32 ∈ file.content then .ok (atof (cstr (number file.content)))
    else .error .parsing)

/-- The space comes early enough, or the file is small and a read fails at its end. -/
def Readable (file : File UInt8) : Prop :=
  if 32 ∈ file.content then
    (number file.content).length < 19 ∨ (number file.content).length = 19 ∧
      ∃ c ∈ number file.content, Text.isSpace c = false
  else file.fails = true ∧ file.content.length ≤ 20

def frequencies (content : Text) : List Int32 := (content.splitOn 32).dropLast.map Text.atoi

/-- The list is read within its buffer and array, and if the file has no NUL it has what the
file lists. -/
def ReadsList (file : File UInt8) (result : Except Fault (List Int32)) : Prop :=
  ∃ freqs, result = .ok freqs ∧ (0 ∉ file.content → freqs = frequencies file.content)

/-- Each field that a space follows ends before the last NUL of the buffer, which is at its end
until a field of 19 bytes with a NUL of its own is read. -/
def Fits : ℕ → List Text → Prop
  | _, [] => True
  | _, [rest] => rest.length ≤ 20
  | last, field :: next :: fields =>
      if field.length < last then Fits last (next :: fields)
      else field.length < 20 ∧
        ∃ nul, Text.findLast 0 field = some nul ∧ Fits nul (next :: fields)

/-- A read fails after at most 100 fields that fit. -/
def Listable (file : File UInt8) : Prop :=
  file.fails = true ∧ (file.content.splitOn 32).length ≤ 101 ∧ Fits 19 (file.content.splitOn 32)

section Number

variable {α : Type} {atof : Text → α}

theorem isBlank_number (content : Text) : ∀ c ∈ number content, isBlank c = false := by
  intro c hc
  have hne := List.mem_takeWhile_imp hc
  simpa [isBlank] using hne

theorem content_eq {content : Text} (h : 32 ∈ content) :
    ∃ rest, content = number content ++ 32 :: rest := by
  have hsplit : number content ++ content.dropWhile (· ≠ 32) = content :=
    List.takeWhile_append_dropWhile
  cases hrest : content.dropWhile (· ≠ 32) with
  | nil =>
      rw [hrest, List.append_nil] at hsplit
      have hblank := isBlank_number content 32 (hsplit.symm ▸ h)
      cases hblank
  | cons c rest =>
      have hend := List.head?_dropWhile_not (fun c : UInt8 => decide (c ≠ 32)) content
      rw [hrest] at hend
      obtain rfl : c = 32 := by simpa using hend
      exact ⟨rest, by rw [← hrest, hsplit]⟩

theorem cstr_zeros (s : Text) (count : ℕ) : cstr (s ++ List.replicate count 0) = cstr s := by
  induction s with
  | nil =>
      cases count with
      | zero => rfl
      | succ count => rw [List.nil_append, List.replicate_succ]; rfl
  | cons c s ih =>
      unfold cstr at ih ⊢
      rw [List.cons_append, List.takeWhile_cons, List.takeWhile_cons, ih]

theorem atof_cstr (hspace : ∀ s, atof (s ++ [32]) = atof s) (s : Text) :
    atof (cstr (s ++ [32])) = atof (cstr s) := by
  rw [cstr, List.takeWhile_append]
  split
  · next hall =>
      have hwhole : cstr s = s := (List.takeWhile_prefix _).eq_of_length hall
      rw [hwhole]
      exact hspace s
  · rfl

theorem convert_blank (hspace : ∀ s, atof (s ++ [32]) = atof s) {field : Text}
    (hlength : field.length < 20) :
    convert atof (field ++ 32 :: blank.drop (field.length + 1)) =
      if field.length = 19 ∧ field.all Text.isSpace then .error .beyond
      else .ok (atof (cstr field)) := by
  have hzeros : field ++ 32 :: blank.drop (field.length + 1) =
      (field ++ [32]) ++ List.replicate (19 - field.length) 0 := by
    rw [blank, List.drop_replicate, List.append_assoc, List.singleton_append]
    congr 3
    omega
  have hall : ((field ++ [32]) ++ List.replicate (19 - field.length) 0).all Text.isSpace = true ↔
      field.length = 19 ∧ field.all Text.isSpace = true := by
    have hspaces : Text.isSpace 32 = true := rfl
    have hnul : Text.isSpace 0 = false := rfl
    simp only [List.all_append, List.all_cons, List.all_nil, hspaces, List.all_replicate, hnul,
      Bool.and_true, Bool.and_eq_true]
    have hcount : 19 - field.length = 0 ↔ field.length = 19 := by omega
    by_cases hfull : field.length = 19
    · simp [hfull]
    · simp [hfull, hcount]
  rw [hzeros, convert]
  simp only [hall, cstr_zeros, atof_cstr hspace]

section Reading

variable (hspace : ∀ s, atof (s ++ [32]) = atof s) {files : Files} {what path : Text}
  {content : Text} {fails : Bool}

include hspace in
theorem readNumber_space (hfile : files path = some ⟨content, fails⟩) (h : 32 ∈ content) :
    readNumber atof files what path =
      if (number content).length < 20 then
        if (number content).length = 19 ∧ (number content).all Text.isSpace then .error .beyond
        else .ok (.ok (atof (cstr (number content))))
      else .error .beyond := by
  obtain ⟨rest, hrest⟩ := content_eq h
  have hread : readUntil isBlank ⟨content, fails⟩ blank 0 =
      if (number content).length < 20 then .ok (some (⟨rest, fails⟩,
        number content ++ 32 :: blank.drop ((number content).length + 1)))
      else .error .beyond := by
    conv_lhs => rw [hrest]
    exact readUntil_stopped (isBlank_number content) rfl rest fails
  rw [readNumber, hfile]
  simp only [hread]
  by_cases hlength : (number content).length < 20
  · rw [if_pos hlength, if_pos hlength, Runs.ok_bind]
    simp only [convert_blank hspace hlength]
    split <;> rfl
  · rw [if_neg hlength, if_neg hlength]
    rfl

theorem readNumber_no_space (hfile : files path = some ⟨content, fails⟩) (h : 32 ∉ content) :
    readNumber atof files what path =
      if fails = true ∧ content.length ≤ 20 then .ok (.error .parsing) else .error .beyond := by
  have hcontent : ∀ c ∈ content, isBlank c = false := by
    intro c hc
    rw [isBlank, decide_eq_false_iff_not]
    rintro rfl
    exact h hc
  have hblank : ∀ c ∈ blank, isBlank c = false := by
    intro c hc
    rw [List.eq_of_mem_replicate hc]
    rfl
  rw [readNumber, hfile]
  cases fails with
  | false =>
      simp only [readUntil_endless hcontent hblank]
      rfl
  | true =>
      simp only [readUntil_failed hcontent, true_and]
      have hsize : blank.length = 20 := rfl
      rw [hsize]
      split <;> rfl

include hspace in
theorem readNumber_iff {file : File UInt8} (hfile : files path = some file) :
    ReadsNumber atof file (readNumber atof files what path) ↔ Readable file := by
  obtain ⟨content, fails⟩ := file
  rw [ReadsNumber, Readable]
  by_cases h : 32 ∈ content
  · have hall : (number content).all Text.isSpace = true ↔
        ¬ ∃ c ∈ number content, Text.isSpace c = false := by simp
    simp only [readNumber_space hspace hfile h, if_pos h, hall]
    by_cases hlength : (number content).length < 20
    · have hcases : (number content).length < 19 ∨ (number content).length = 19 := by omega
      rw [if_pos hlength]
      rcases hcases with hshort | hfull
      · have hne : (number content).length ≠ 19 := by omega
        simp [hshort, hne]
      · by_cases hnumber : ∃ c ∈ number content, Text.isSpace c = false
        · simp [hfull, hnumber]
        · simp [hfull, hnumber]
    · have hlong : ¬ (number content).length < 19 := by omega
      have hne : (number content).length ≠ 19 := by omega
      simp [hlength, hlong, hne]
  · simp only [readNumber_no_space hfile h, if_neg h]
    by_cases hends : fails = true ∧ content.length ≤ 20
    · simp [hends]
    · simp [hends]

end Reading

end Number

section Buffer

def LastNul (val : Text) (last : ℕ) : Prop :=
  ∃ front back, val = front ++ 0 :: back ∧ front.length = last ∧ 0 ∉ back

variable {val : Text} {last : ℕ}

theorem convert_nul {α : Type} {conversion : Text → α} (h : 0 ∈ val) :
    convert conversion val = .ok (conversion (cstr val)) := by
  have hall : ¬ val.all Text.isSpace = true := by
    rw [List.all_eq_true]
    intro hspace
    cases hspace 0 h
  rw [convert, if_neg hall]

theorem strlen_none (h : 0 ∉ val) : strlen val = .error .beyond := by
  rw [strlen, Text.findFirst_none h]

theorem LastNul.clear (h : LastNul val last) :
    ∃ n, strlen val = .ok n ∧ (bzero val n).length = val.length ∧ LastNul (bzero val n) last := by
  obtain ⟨front, back, rfl, rfl, hback⟩ := h
  obtain ⟨n, hn, hfirst⟩ := Text.findFirst_le (c := 0) front back
  have hcleared : bzero (front ++ 0 :: back) n =
      (List.replicate n 0 ++ front.drop n) ++ 0 :: back := by
    rw [bzero, List.drop_append_of_le_length hn, List.append_assoc]
  have hlength : (List.replicate n 0 ++ front.drop n).length = front.length := by
    rw [List.length_append, List.length_replicate, List.length_drop]
    omega
  refine ⟨n, by rw [strlen, hfirst], ?_, ⟨_, _, hcleared, hlength, hback⟩⟩
  rw [hcleared, List.length_append, hlength, List.length_append]

theorem LastNul.mem (h : LastNul val last) : 0 ∈ val := by
  obtain ⟨front, back, rfl, _⟩ := h
  simp

theorem LastNul.short (h : LastNul val last) {field : Text} (hlength : field.length < last) :
    LastNul (field ++ 32 :: val.drop (field.length + 1)) last := by
  obtain ⟨front, back, rfl, rfl, hback⟩ := h
  refine ⟨field ++ 32 :: front.drop (field.length + 1), back, ?_, ?_, hback⟩
  · rw [List.drop_append_of_le_length hlength, List.append_assoc, List.cons_append]
  · rw [List.length_append, List.length_cons, List.length_drop]
    omega

theorem LastNul.long (h : LastNul val last) {field : Text} (hlength : last ≤ field.length) :
    0 ∉ val.drop (field.length + 1) := by
  obtain ⟨front, back, rfl, rfl, hback⟩ := h
  obtain ⟨more, hmore⟩ := Nat.exists_eq_add_of_le hlength
  have hfront : field.length + 1 - front.length = more + 1 := by omega
  rw [List.drop_append, List.drop_of_length_le (by omega), List.nil_append, hfront,
    List.drop_succ_cons]
  exact fun hmem => hback (List.mem_of_mem_drop hmem)

theorem LastNul.field (h : LastNul val last) {field : Text} (hlength : last ≤ field.length) :
    (∃ nul, Text.findLast 0 field = some nul ∧
      LastNul (field ++ 32 :: val.drop (field.length + 1)) nul) ∨
    Text.findLast 0 field = none ∧ 0 ∉ field ++ 32 :: val.drop (field.length + 1) := by
  have hrest := h.long hlength
  rcases Text.findLast_cases 0 field with ⟨hfield, hnone⟩ | ⟨front, back, hfield, hback, hsome⟩
  · exact Or.inr ⟨hnone, by simp [hfield, hrest]⟩
  · refine Or.inl ⟨front.length, hsome, front, back ++ 32 :: val.drop (field.length + 1), ?_, rfl,
      by simp [hback, hrest]⟩
    calc field ++ 32 :: val.drop (field.length + 1)
        = (front ++ 0 :: back) ++ 32 :: val.drop (field.length + 1) := by rw [← hfield]
      _ = front ++ 0 :: (back ++ 32 :: val.drop (field.length + 1)) := by simp

theorem LastNul.lt (h : LastNul val last) : last < val.length := by
  obtain ⟨front, back, rfl, rfl, _⟩ := h
  rw [List.length_append, List.length_cons]
  omega

theorem LastNul.unique {last' : ℕ} (h : LastNul val last) (h' : LastNul val last') :
    last = last' := by
  obtain ⟨front, back, hval, rfl, hback⟩ := h
  obtain ⟨front', back', hval', rfl, hback'⟩ := h'
  have hlast := Text.findLast_append hback front
  have hlast' := Text.findLast_append hback' front'
  rw [← hval] at hlast
  rw [← hval'] at hlast'
  exact Option.some.inj (hlast.symm.trans hlast')

theorem exists_lastNul (h : 0 ∈ val) : ∃ last, LastNul val last := by
  rcases Text.findLast_cases 0 val with ⟨hval, _⟩ | ⟨front, back, hval, hback, _⟩
  · exact absurd h hval
  · exact ⟨front.length, front, back, hval, rfl, hback⟩

theorem fits_cons_iff (hval : val.length = 20) (h : LastNul val last) (field next : Text)
    (fields : List Text) : Fits last (field :: next :: fields) ↔ field.length < 20 ∧
      ∃ last', LastNul (field ++ 32 :: val.drop (field.length + 1)) last' ∧
        Fits last' (next :: fields) := by
  have hlt := h.lt
  rw [Fits]
  by_cases hshort : field.length < last
  · rw [if_pos hshort, and_iff_right (by omega)]
    constructor
    · exact fun hfits => ⟨last, h.short hshort, hfits⟩
    · rintro ⟨last', hnext, hfits⟩
      exact (h.short hshort).unique hnext ▸ hfits
  · rw [if_neg hshort]
    apply and_congr_right'
    rcases h.field (Nat.not_lt.mp hshort) with ⟨nul, hnul, hnext⟩ | ⟨hnone, hnext⟩
    · simp only [hnul, Option.some.injEq, exists_eq_left']
      constructor
      · exact fun hfits => ⟨nul, hnext, hfits⟩
      · rintro ⟨last', hnext', hfits⟩
        exact hnext.unique hnext' ▸ hfits
    · rw [hnone]
      refine iff_of_false (by simp) ?_
      rintro ⟨last', hnext', _⟩
      exact hnext hnext'.mem

end Buffer

section List

variable {val : Text} {freqs : List Int32}

theorem isBlank_field {field : Text} (hfield : 32 ∉ field) : ∀ c ∈ field, isBlank c = false := by
  intro c hc
  rw [isBlank, decide_eq_false_iff_not]
  rintro rfl
  exact hfield hc

theorem availFreqFrom_fails {file : File UInt8} {val : Text} {freqs out : List Int32}
    (h : availFreqFrom file val freqs = .ok out) : file.fails = true := by
  induction hleft : 100 - freqs.length using Nat.strongRecOn generalizing file val freqs with
  | ind left ih =>
      rw [availFreqFrom, Runs.bind_eq_ok] at h
      obtain ⟨found, hread, h⟩ := h
      have hends := readUntil_ends hread
      cases found with
      | none => exact hends.symm
      | some found =>
          obtain ⟨rest, val⟩ := found
          by_cases hcount : freqs.length < 100
          · simp only [dif_pos hcount, Runs.bind_eq_ok] at h
            obtain ⟨freq, _, n, _, h⟩ := h
            have hshort : 100 - (freqs ++ [freq]).length < left := by
              rw [List.length_append, List.length_singleton]
              omega
            exact hends.symm.trans (ih _ hshort h rfl)
          · simp only [dif_neg hcount] at h
            cases h

theorem availFreqFrom_rest (hval : val.length = 20) {rest : Text} (hrest : 32 ∉ rest) :
    availFreqFrom ⟨rest, true⟩ val freqs =
      if rest.length ≤ 20 then .ok freqs else .error .beyond := by
  rw [availFreqFrom, readUntil_failed (isBlank_field hrest), hval]
  split <;> rfl

theorem availFreqFrom_field (freqs : List Int32) (hval : val.length = 20) {field : Text}
    (hfield : 32 ∉ field) (content : Text) : availFreqFrom ⟨field ++ 32 :: content, true⟩ val freqs =
      if field.length < 20 ∧ freqs.length < 100 then
        convert Text.atoi (field ++ 32 :: val.drop (field.length + 1)) >>= fun freq =>
          strlen (field ++ 32 :: val.drop (field.length + 1)) >>= fun n =>
            availFreqFrom ⟨content, true⟩
              (bzero (field ++ 32 :: val.drop (field.length + 1)) n) (freqs ++ [freq])
      else .error .beyond := by
  rw [availFreqFrom, readUntil_stopped (isBlank_field hfield) rfl content, hval]
  by_cases hlength : field.length < 20
  · rw [if_pos hlength, Runs.ok_bind]
    by_cases hcount : freqs.length < 100
    · rw [if_pos ⟨hlength, hcount⟩]
      simp only [dif_pos hcount]
    · rw [if_neg fun h => hcount h.2]
      simp only [dif_neg hcount]
  · rw [if_neg hlength, if_neg fun h => hlength h.1]
    rfl

theorem availFreqFrom_fits (hval : val.length = 20) {field : Text} (hfield : 32 ∉ field)
    (hlength : field.length < 20) (hcount : freqs.length < 100) (content : Text) {last' : ℕ}
    (hnext : LastNul (field ++ 32 :: val.drop (field.length + 1)) last') :
    ∃ val' freq, val'.length = 20 ∧ LastNul val' last' ∧
      availFreqFrom ⟨field ++ 32 :: content, true⟩ val freqs =
        availFreqFrom ⟨content, true⟩ val' (freqs ++ [freq]) := by
  obtain ⟨n, hstrlen, hcleared, hnul⟩ := hnext.clear
  have hrun := availFreqFrom_field freqs hval hfield content
  rw [if_pos ⟨hlength, hcount⟩, convert_nul hnext.mem, Runs.ok_bind, hstrlen, Runs.ok_bind] at hrun
  refine ⟨_, _, ?_, hnul, hrun⟩
  rw [hcleared, List.length_append, List.length_cons, List.length_drop]
  omega

theorem availFreqFrom_ok_iff {fields : List Text} (hne : fields ≠ [])
    (hfields : ∀ field ∈ fields, 32 ∉ field) {last : ℕ} (hval : val.length = 20)
    (hlast : LastNul val last) (hcount : freqs.length ≤ 100) :
    (∃ out, availFreqFrom ⟨List.intercalate [32] fields, true⟩ val freqs = .ok out) ↔
      freqs.length + fields.length ≤ 101 ∧ Fits last fields := by
  induction fields generalizing val freqs last with
  | nil => exact absurd rfl hne
  | cons field fields ih =>
      rw [List.forall_mem_cons] at hfields
      obtain ⟨hfield, hfields⟩ := hfields
      cases fields with
      | nil =>
          have hbound : freqs.length + [field].length ≤ 101 := Nat.succ_le_succ hcount
          rw [List.intercalate_singleton, availFreqFrom_rest hval hfield, Fits,
            and_iff_right hbound]
          by_cases hlength : field.length ≤ 20
          · simp [hlength]
          · simp [hlength]
      | cons next fields =>
          -- The fields after it are counted from one more frequency.
          have hcounts (freq : Int32) : (freqs ++ [freq]).length + (next :: fields).length =
              freqs.length + (field :: next :: fields).length := by
            rw [List.length_append, List.length_singleton, List.length_cons (a := field),
              Nat.add_assoc, Nat.add_comm 1]
          rw [Text.intercalate_cons, fits_cons_iff hval hlast]
          constructor
          · rintro ⟨out, hout⟩
            have hread := hout
            rw [availFreqFrom_field freqs hval hfield] at hread
            by_cases hroom : field.length < 20 ∧ freqs.length < 100
            · rw [if_pos hroom] at hread
              obtain ⟨_, _, hread⟩ := Runs.bind_eq_ok.mp hread
              have hnul : 0 ∈ field ++ 32 :: val.drop (field.length + 1) := by
                by_contra hnone
                rw [strlen_none hnone] at hread
                cases hread
              obtain ⟨last', hnext⟩ := exists_lastNul hnul
              obtain ⟨val', freq, hval', hlast', hrun⟩ := availFreqFrom_fits hval hfield hroom.1
                hroom.2 (List.intercalate [32] (next :: fields)) hnext
              have hlater : (freqs ++ [freq]).length ≤ 100 := by
                rw [List.length_append, List.length_singleton]
                exact hroom.2
              obtain ⟨hbound, hfits⟩ := (ih (List.cons_ne_nil next fields) hfields hval' hlast'
                hlater).mp ⟨out, hrun ▸ hout⟩
              exact ⟨hcounts freq ▸ hbound, hroom.1, last', hnext, hfits⟩
            · rw [if_neg hroom] at hread
              cases hread
          · rintro ⟨hbound, hlength, last', hnext, hfits⟩
            have hroom : freqs.length < 100 := by
              rw [List.length_cons, List.length_cons] at hbound
              omega
            obtain ⟨val', freq, hval', hlast', hrun⟩ := availFreqFrom_fits hval hfield hlength
              hroom (List.intercalate [32] (next :: fields)) hnext
            have hlater : (freqs ++ [freq]).length ≤ 100 := by
              rw [List.length_append, List.length_singleton]
              exact hroom
            rw [hrun]
            exact (ih (List.cons_ne_nil next fields) hfields hval' hlast' hlater).mpr
              ⟨(hcounts freq).symm ▸ hbound, hfits⟩

end List

section Normal

variable {field : Text} (hnul : 0 ∉ field)

include hnul

theorem cstr_eq : cstr field = field := List.takeWhile_eq_self_iff.mpr fun c hc => by
  rw [decide_eq_true_eq]
  rintro rfl
  exact hnul hc

theorem fits_normal {next : Text} {fields : List Text} (hfits : Fits 19 (field :: next :: fields)) :
    field.length < 19 ∧ Fits 19 (next :: fields) := by
  rw [Fits] at hfits
  by_cases hlength : field.length < 19
  · exact ⟨hlength, by rwa [if_pos hlength] at hfits⟩
  · rw [if_neg hlength] at hfits
    obtain ⟨_, nul, hlast, _⟩ := hfits
    rcases Text.findLast_cases 0 field with ⟨_, hnone⟩ | ⟨front, back, rfl, _⟩
    · cases hnone.symm.trans hlast
    · exact absurd (by simp) hnul

theorem clear_normal (hlength : field.length < 19) :
    strlen (field ++ 32 :: blank.drop (field.length + 1)) = .ok (field.length + 1) ∧
      bzero (field ++ 32 :: blank.drop (field.length + 1)) (field.length + 1) = blank := by
  have hbuffer : field ++ 32 :: blank.drop (field.length + 1) =
      (field ++ [32]) ++ 0 :: List.replicate (18 - field.length) 0 := by
    rw [blank, List.drop_replicate, ← List.replicate_succ, List.append_assoc,
      List.singleton_append]
    congr 3
    omega
  have hspace : (field ++ [32]).length = field.length + 1 := by simp
  constructor
  · rw [hbuffer, strlen, Text.findFirst_append (by simp [hnul]), hspace]
  · rw [hbuffer, bzero, ← hspace, List.drop_left, hspace, ← List.replicate_succ,
      List.replicate_append_replicate, blank]
    congr 1
    omega

end Normal

theorem availFreqFrom_normal {freqs : List Int32} {fields : List Text} (hne : fields ≠ [])
    (hfields : ∀ field ∈ fields, 32 ∉ field ∧ 0 ∉ field) (hfits : Fits 19 fields)
    (hcount : freqs.length + fields.length ≤ 101) :
    availFreqFrom ⟨List.intercalate [32] fields, true⟩ blank freqs =
      .ok (freqs ++ fields.dropLast.map Text.atoi) := by
  induction fields generalizing freqs with
  | nil => exact absurd rfl hne
  | cons field fields ih =>
      rw [List.forall_mem_cons] at hfields
      obtain ⟨⟨hfield, hnul⟩, hfields⟩ := hfields
      cases fields with
      | nil =>
          rw [Fits] at hfits
          rw [List.intercalate_singleton, availFreqFrom_rest rfl hfield, if_pos hfits,
            List.dropLast_singleton, List.map_nil, List.append_nil]
      | cons next fields =>
          rw [List.length_cons] at hcount
          have hroom : freqs.length < 100 := by
            rw [List.length_cons] at hcount
            omega
          obtain ⟨hlength, hfits⟩ := fits_normal hnul hfits
          obtain ⟨hstrlen, hcleared⟩ := clear_normal hnul hlength
          rw [Text.intercalate_cons, availFreqFrom_field freqs rfl hfield,
            if_pos ⟨by omega, hroom⟩, convert_blank Text.atoi_space (by omega),
            if_neg (by omega), Runs.ok_bind, hstrlen, Runs.ok_bind, hcleared, cstr_eq hnul,
            ih (List.cons_ne_nil next fields) hfields hfits
              (by rw [List.length_append, List.length_singleton]; omega),
            List.append_assoc, List.dropLast_cons_cons, List.map_cons, List.singleton_append]

theorem cpudevAvailFreq_iff {files : Files} {cpu : Int32} {file : File UInt8}
    (hfile : files (cpuPath cpu (text "cpufreq/scaling_available_frequencies")) = some file) :
    ReadsList file (cpudevAvailFreq files cpu) ↔ Listable file := by
  obtain ⟨content, fails⟩ := file
  have hfields : ∀ field ∈ content.splitOn 32, 32 ∉ field ∧ (0 ∉ content → 0 ∉ field) := by
    intro field hfield
    have hmem := Tokens.mem_splitOnP hfield
    refine ⟨fun h => ?_, fun hnul h => hnul (hmem 0 h).2⟩
    cases (hmem 32 h).1
  have hne : content.splitOn 32 ≠ [] := List.splitOnP_ne_nil _ content
  have hcontent : List.intercalate [32] (content.splitOn 32) = content :=
    List.intercalate_splitOn 32
  rw [ReadsList, Listable, cpudevAvailFreq, hfile]
  cases fails with
  | false =>
      refine iff_of_false ?_ (by simp)
      rintro ⟨freqs, hread, _⟩
      cases availFreqFrom_fails hread
  | true =>
      have hlast : LastNul blank 19 := ⟨List.replicate 19 0, [], by rfl, by rfl, List.not_mem_nil⟩
      have hiff := availFreqFrom_ok_iff hne (fun field h => (hfields field h).1) rfl hlast
        (show ([] : List Int32).length ≤ 100 from Nat.zero_le 100)
      rw [hcontent, List.length_nil, Nat.zero_add] at hiff
      constructor
      · rintro ⟨freqs, hread, _⟩
        exact ⟨rfl, hiff.mp ⟨freqs, hread⟩⟩
      · rintro ⟨_, hfew, hfits⟩
        obtain ⟨freqs, hread⟩ := hiff.mpr ⟨hfew, hfits⟩
        refine ⟨freqs, hread, fun hnul => ?_⟩
        have hnormal := availFreqFrom_normal hne
          (fun field h => ⟨(hfields field h).1, (hfields field h).2 hnul⟩) hfits
          (show ([] : List Int32).length + _ ≤ 101 by simpa using hfew)
        rw [hcontent, List.nil_append] at hnormal
        exact Except.ok.inj (hread.symm.trans hnormal)

/-- Each reader meets its purpose on the readable files, and the list of frequencies is read
from the listable ones. -/
theorem readers_iff {α : Type} {atof : Text → α} (hspace : ∀ s, atof (s ++ [32]) = atof s)
    (files : Files) :
    (∀ cpu name file, files (cpuPath cpu name) = some file →
      (ReadsNumber atof file (cpudevRead atof files cpu name) ↔ Readable file)) ∧
    (∀ cpu counter file, files (pmcPath cpu counter) = some file →
      (ReadsNumber atof file (pmcdevRead atof files cpu counter) ↔ Readable file)) ∧
    (∀ name file, files (xtpmPath name) = some file →
      (ReadsNumber atof file (xtpmdevRead atof files name) ↔ Readable file)) ∧
    ∀ cpu file, files (cpuPath cpu (text "cpufreq/scaling_available_frequencies")) = some file →
      (ReadsList file (cpudevAvailFreq files cpu) ↔ Listable file) :=
  ⟨fun _ _ _ hfile => readNumber_iff hspace hfile, fun _ _ _ hfile => readNumber_iff hspace hfile,
    fun _ _ hfile => readNumber_iff hspace hfile, fun _ _ hfile => cpudevAvailFreq_iff hfile⟩

/-- `atof` of a whole number. -/
def wholeAtof (s : Text) : Rat := Rat.ofInt (Text.atoi s).toInt

theorem wholeAtof_space (s : Text) : wholeAtof (s ++ [32]) = wholeAtof s := by
  rw [wholeAtof, wholeAtof, Text.atoi_space]

/-- Two numbers with a space after each, and a read that fails behind them. -/
def spacedFile : File UInt8 := ⟨[49, 50, 32, 56, 32, 10], true⟩

theorem readers_iff_spaced :
    ReadsNumber wholeAtof spacedFile
        (cpudevRead wholeAtof (fun _ => some spacedFile) 0 (text "online")) ∧
      ReadsNumber wholeAtof spacedFile (pmcdevRead wholeAtof (fun _ => some spacedFile) 0 1) ∧
      ReadsNumber wholeAtof spacedFile
        (xtpmdevRead wholeAtof (fun _ => some spacedFile) (text "power")) ∧
      ReadsList spacedFile (cpudevAvailFreq (fun _ => some spacedFile) 0) := by
  obtain ⟨hcpu, hpmc, hxtpm, hlist⟩ := readers_iff wholeAtof_space fun _ => some spacedFile
  have hread : Readable spacedFile := by
    rw [Readable, if_pos (by decide)]
    exact .inl (by decide)
  have hlists : Listable spacedFile := by
    refine ⟨rfl, by decide, ?_⟩
    show Fits 19 [[49, 50], [56], [10]]
    simp [Fits]
  exact ⟨(hcpu 0 _ _ rfl).mpr hread, (hpmc 0 1 _ rfl).mpr hread, (hxtpm _ _ rfl).mpr hread,
    (hlist 0 _ rfl).mpr hlists⟩

/-- Every path opens a file with "1" and a newline. -/
def onlineFiles : Files := fun _ => some ⟨[49, 10], false⟩

/-- The end of a file without a space is not noticed. -/
theorem end_is_not_noticed :
    ¬ ReadsNumber wholeAtof ⟨[49, 10], false⟩
      (cpudevRead wholeAtof onlineFiles 0 (text "online")) := by
  have hfile : onlineFiles (cpuPath 0 (text "online")) = some ⟨[49, 10], false⟩ := rfl
  rw [ReadsNumber, cpudevRead, readNumber_no_space hfile (by decide)]
  simp

end PwrApi.Counters
