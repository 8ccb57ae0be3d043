import PwrApi.Lib.Pattern
import PwrApi.Tools.NidList

/-! The hosts of a list of nodes: `createNidMap.py`. -/

namespace PwrApi.NidMap

open Text

section Source

def lbracket : UInt8 := 91

def rbracket : UInt8 := 93

def comma : UInt8 := 44

def dash : UInt8 := 45

/-- `[^\[,]+\[[^\]]+\]`. -/
def listPattern : Pattern UInt8 :=
  .seq (.many fun c => c ≠ lbracket ∧ c ≠ comma)
    (.seq (.one (· = lbracket)) (.seq (.many (· ≠ rbracket)) (.one (· = rbracket))))

/-- `[^,]+[0123456789]+`. -/
def namePattern : Pattern UInt8 := .seq (.many (· ≠ comma)) (.many isDigit)

/-- `int( z )` of a text that has no `-`; anything else raises an exception. -/
def int (z : Text) : Option Nat :=
  let digits := if z.head? = some 43 then z.tail else z
  if digits ≠ [] ∧ digits.all isDigit then some (value digits) else none

/-- The slice `x[ start : stop ]`, where `stop` is what `find` returns: -1 is the last position. -/
def slice (x : Text) (start : Nat) (stop : Option Nat) : Text :=
  (x.take (stop.getD (x.length - 1))).drop start

/-- The loop body for one entry `y` of a list. -/
def expand (pre y : Text) : Option (List Text) :=
  match y.splitOn dash with
  | first :: last :: _ => do
      let start ← int first
      let stop ← int last
      some ((List.range' start (stop + 1 - start)).map fun i =>
        pre ++ (decimal i).leftpad last.length 48)
  | _ => some [pre ++ y]

/-- The loop body for one match `x`. -/
def hosts (x : Text) : Option (List Text) :=
  match findFirst lbracket x with
  | none => some [x]
  | some pos1 => do
      let pos2 := findFirst rbracket x
      let names ← ((slice x (pos1 + 1) pos2).splitOn comma).mapM (expand (x.take pos1))
      some names.flatten

def createNidMap (nidlist : Text) : Option (List Text) := do
  let nidlist := nidlist.filter fun c => !isSpace c
  let names ← ((Pattern.alt listPattern namePattern).findall nidlist).mapM hosts
  some names.flatten

end Source

section Format

/-- An entry of a list: a number as it stands, or all numbers between two, with the digits of
the last. -/
inductive Entry
  | one (digits : Text)
  | span (first last : Text)

def Digits (s : Text) : Prop := s ≠ [] ∧ ∀ c ∈ s, isDigit c = true

namespace Entry

def text : Entry → Text
  | one digits => digits
  | span first last => first ++ dash :: last

def numbers : Entry → List Text
  | one digits => [digits]
  | span first last =>
      (List.range' (value first) (value last + 1 - value first)).map fun i =>
        (decimal i).leftpad last.length 48

def WellFormed : Entry → Prop
  | one digits => Digits digits
  | span first last => Digits first ∧ Digits last

end Entry

/-- One host, or those of a list behind a common prefix. -/
inductive Hosts
  | name (front : Text) (last : UInt8)
  | list (pre : Text) (entries : List Entry)

namespace Hosts

def text : Hosts → Text
  | name front last => front ++ [last]
  | list pre entries =>
      pre ++ lbracket :: (List.intercalate [comma] (entries.map Entry.text) ++ [rbracket])

def names : Hosts → List Text
  | name front last => [front ++ [last]]
  | list pre entries => entries.flatMap fun entry => entry.numbers.map (pre ++ ·)

/-- What is in front of a number or a list is there and has no character of the format. -/
def Plain (s : Text) : Prop := s ≠ [] ∧ ∀ c ∈ s, c ≠ lbracket ∧ c ≠ rbracket ∧ c ≠ comma

def WellFormed : Hosts → Prop
  | name front last => Plain front ∧ isDigit last = true
  | list pre entries => Plain pre ∧ entries ≠ [] ∧ ∀ entry ∈ entries, entry.WellFormed

end Hosts

def render (groups : List Hosts) : Text := List.intercalate [comma] (groups.map Hosts.text)

end Format

section Entries

theorem digit_ne {c d : UInt8} (hc : isDigit c = true) (hd : isDigit d = false) : c ≠ d := by
  rintro rfl
  rw [hd] at hc
  cases hc

theorem Digits.not_mem {s : Text} (h : Digits s) {d : UInt8} (hd : isDigit d = false) : d ∉ s :=
  fun hmem => digit_ne (h.2 d hmem) hd rfl

theorem int_digits {s : Text} (h : Digits s) : int s = some (value s) := by
  have hplus : s.head? ≠ some 43 := by
    intro hhead
    exact h.not_mem (d := 43) rfl (List.mem_of_mem_head? hhead)
  rw [int, if_neg hplus, if_pos ⟨h.1, List.all_eq_true.mpr h.2⟩]

theorem expand_text (pre : Text) {entry : Entry} (h : entry.WellFormed) :
    expand pre entry.text = some (entry.numbers.map (pre ++ ·)) := by
  cases entry with
  | one digits =>
      have hsplit : digits.splitOn dash = [digits] := List.splitOn_eq_singleton (h.not_mem rfl)
      simp only [expand, Entry.text, hsplit, Entry.numbers, List.map_singleton]
  | span first last =>
      have hsplit : (first ++ dash :: last).splitOn dash = [first, last] := by
        rw [List.splitOn_append_cons_self_of_not_mem (h.1.not_mem rfl),
          List.splitOn_eq_singleton (h.2.not_mem rfl)]
      simp only [expand, Entry.text, hsplit, int_digits h.1, int_digits h.2, Entry.numbers,
        Option.bind_eq_bind, Option.bind_some, List.map_map]
      rfl

theorem Entry.WellFormed.text {entry : Entry} (h : entry.WellFormed) :
    comma ∉ entry.text ∧ rbracket ∉ entry.text ∧ entry.text ≠ [] := by
  cases entry with
  | one digits => exact ⟨h.not_mem rfl, h.not_mem rfl, h.1⟩
  | span first last =>
      simp only [Entry.text, List.mem_append, List.mem_cons, not_or]
      exact ⟨⟨h.1.not_mem rfl, by decide, h.2.not_mem rfl⟩,
        ⟨h.1.not_mem rfl, by decide, h.2.not_mem rfl⟩, by simp⟩

end Entries

section Lists

def body (entries : List Entry) : Text := List.intercalate [comma] (entries.map Entry.text)

variable {pre : Text} {entries : List Entry}

theorem rbracket_not_mem (h : ∀ entry ∈ entries, entry.WellFormed) : rbracket ∉ body entries := by
  apply not_mem_intercalate (by decide)
  intro field hfield
  obtain ⟨entry, hentry, rfl⟩ := List.mem_map.mp hfield
  exact (h entry hentry).text.2.1

theorem body_ne_nil (hne : entries ≠ []) (h : ∀ entry ∈ entries, entry.WellFormed) :
    body entries ≠ [] := by
  cases entries with
  | nil => exact absurd rfl hne
  | cons entry entries =>
      have hentry := (h entry List.mem_cons_self).text.2.2
      cases entries <;> simp [body, hentry]

theorem splitOn_body (hne : entries ≠ []) (h : ∀ entry ∈ entries, entry.WellFormed) :
    (body entries).splitOn comma = entries.map Entry.text := by
  refine List.splitOn_intercalate comma ?_ (by simpa using hne)
  intro field hfield
  obtain ⟨entry, hentry, rfl⟩ := List.mem_map.mp hfield
  exact (h entry hentry).text.1

theorem Hosts.Plain.not_mem {s : Text} (h : Hosts.Plain s) :
    lbracket ∉ s ∧ rbracket ∉ s ∧ comma ∉ s :=
  ⟨fun hmem => (h.2 _ hmem).1 rfl, fun hmem => (h.2 _ hmem).2.1 rfl,
    fun hmem => (h.2 _ hmem).2.2 rfl⟩

end Lists

section Matches

theorem listPattern_text {pre : Text} {entries : List Entry}
    (h : (Hosts.list pre entries).WellFormed) (rest : Text) :
    (listPattern.lengths ((Hosts.list pre entries).text ++ rest)).head? =
      some (Hosts.list pre entries).text.length := by
  obtain ⟨hplain, hne, hwell⟩ := h
  have hpre : ∀ c ∈ pre, decide (c ≠ lbracket ∧ c ≠ comma) = true := fun c hc =>
    decide_eq_true ⟨(hplain.2 c hc).1, (hplain.2 c hc).2.2⟩
  have hbody : ∀ c ∈ body entries, decide (c ≠ rbracket) = true := fun c hc =>
    decide_eq_true fun heq => rbracket_not_mem hwell (heq ▸ hc)
  have htext : (Hosts.list pre entries).text ++ rest =
      pre ++ lbracket :: (body entries ++ rbracket :: rest) := by
    simp [Hosts.text, body]
  have hlength : (Hosts.list pre entries).text.length =
      pre.length + (1 + ((body entries).length + 1)) := by
    simp only [Hosts.text, body, List.length_append, List.length_cons, List.length_nil]
    omega
  rw [htext, hlength]
  apply Pattern.seq_head (Pattern.head_many hplain.1 hpre (by simp))
  rw [List.drop_left]
  apply Pattern.seq_head (Pattern.head_one (by simp))
  rw [List.drop_one, List.tail_cons]
  apply Pattern.seq_head (Pattern.head_many (body_ne_nil hne hwell) hbody (by simp))
  rw [List.drop_left]
  exact Pattern.head_one (by simp)

variable {front : Text} {last : UInt8} {rest : Text}

theorem mem_head_drop {s : Text} (hrest : ∀ c ∈ rest.head?, c = comma) {n : Nat}
    (hn : n ≤ s.length) {c : UInt8} (hc : c ∈ ((s ++ rest).drop n).head?) :
    c ∈ s ∨ c = comma := by
  rw [List.drop_append_of_le_length hn] at hc
  cases hdrop : s.drop n with
  | nil =>
      rw [hdrop, List.nil_append] at hc
      exact .inr (hrest c hc)
  | cons d t =>
      rw [hdrop] at hc
      obtain rfl : d = c := Option.some.inj hc
      exact .inl (List.mem_of_mem_drop (hdrop ▸ List.mem_cons_self))

theorem pattern_name (h : (Hosts.name front last).WellFormed)
    (hrest : ∀ c ∈ rest.head?, c = comma) :
    ((Pattern.alt listPattern namePattern).lengths ((Hosts.name front last).text ++ rest)).head? =
      some (Hosts.name front last).text.length := by
  obtain ⟨hplain, hlast⟩ := h
  obtain ⟨hlbracket, _, hcomma⟩ := hplain.not_mem
  have hmem : ∀ c ∈ front ++ [last], c ≠ lbracket ∧ c ≠ comma := by
    intro c hc
    rcases List.mem_append.mp hc with hc | hc
    · exact ⟨fun heq => hlbracket (heq ▸ hc), fun heq => hcomma (heq ▸ hc)⟩
    · obtain rfl := List.mem_singleton.mp hc
      exact ⟨digit_ne hlast rfl, digit_ne hlast rfl⟩
  have hstop : ∀ c ∈ rest.head?, isDigit c = false := by
    intro c hc
    rw [hrest c hc]
    rfl
  have hlist : listPattern.lengths (front ++ [last] ++ rest) = [] := by
    apply Pattern.seq_none
    intro n hn
    rw [Pattern.lengths_many (fun c hc => decide_eq_true (hmem c hc))
      (fun c hc => by simp [hrest c hc]), Pattern.mem_down] at hn
    apply Pattern.seq_none
    intro k hk
    have hnone : (Pattern.one (· = lbracket)).lengths ((front ++ [last] ++ rest).drop n) = [] := by
      apply Pattern.one_none
      intro c hc
      rcases mem_head_drop hrest hn.2 hc with hc | rfl
      · exact decide_eq_false (hmem c hc).1
      · rfl
    rw [hnone] at hk
    cases hk
  have hfront : front.length = front.length - 1 + 1 :=
    (Nat.succ_pred_eq_of_pos (List.length_pos_of_ne_nil hplain.1)).symm
  have hmany : (Pattern.many fun c : UInt8 => c ≠ comma).lengths (front ++ [last] ++ rest) =
      [front.length + 1] ++ front.length :: Pattern.down (front.length - 1) := by
    rw [Pattern.lengths_many (fun c hc => decide_eq_true (hmem c hc).2)
      (fun c hc => by simp [hrest c hc]), List.length_append, List.length_singleton]
    conv_lhs => rw [hfront]
    rw [Pattern.down, Pattern.down, ← hfront]
    rfl
  rw [Hosts.text, Pattern.alt_none hlist, List.length_append, List.length_singleton]
  refine Pattern.head_seq hmany ?_ ?_
  · intro k hk
    obtain rfl := List.mem_singleton.mp hk
    have hend : (front ++ [last] ++ rest).drop (front.length + 1) = [] ++ rest := by simp
    rw [hend, Pattern.lengths_many (fun c hc => absurd hc List.not_mem_nil) hstop]
    rfl
  · rw [List.append_assoc, List.drop_left]
    exact Pattern.head_many (List.cons_ne_nil last [])
      (fun c hc => List.mem_singleton.mp hc ▸ hlast) hstop

theorem pattern_text {g : Hosts} (h : g.WellFormed) (hrest : ∀ c ∈ rest.head?, c = comma) :
    ((Pattern.alt listPattern namePattern).lengths (g.text ++ rest)).head? =
      some g.text.length := by
  cases g with
  | name front last => exact pattern_name h hrest
  | list pre entries => exact Pattern.alt_head (listPattern_text h rest)

theorem Hosts.text_ne_nil (g : Hosts) : g.text ≠ [] := by
  cases g <;> simp [Hosts.text]

theorem comma_none (s : Text) :
    (Pattern.alt listPattern namePattern).lengths (comma :: s) = [] := by
  simp [Pattern.lengths, listPattern, namePattern, Pattern.down]

theorem findall_render {groups : List Hosts} (h : ∀ g ∈ groups, g.WellFormed) :
    (Pattern.alt listPattern namePattern).findall (render groups) = groups.map Hosts.text := by
  induction groups with
  | nil => rfl
  | cons g groups ih =>
      have hg := h g List.mem_cons_self
      have hgroups := ih fun g' hg' => h g' (List.mem_cons_of_mem g hg')
      cases groups with
      | nil =>
          have htext : (Pattern.alt listPattern namePattern).findall (g.text ++ []) = g.text :: [] :=
            Pattern.findall_match g.text_ne_nil (pattern_text hg (by simp))
          rw [List.append_nil] at htext
          simpa [render] using htext
      | cons g' groups =>
          have hrender : render (g :: g' :: groups) = g.text ++ comma :: render (g' :: groups) :=
            intercalate_cons comma g.text g'.text _
          rw [hrender, Pattern.findall_match g.text_ne_nil (pattern_text hg (by simp)),
            Pattern.findall_skip (comma_none _), hgroups]
          rfl

end Matches

section Groups

theorem hosts_text {g : Hosts} (h : g.WellFormed) : hosts g.text = some g.names := by
  cases g with
  | name front last =>
      obtain ⟨hplain, hlast⟩ := h
      have hnone : findFirst lbracket (front ++ [last]) = none := by
        apply findFirst_none
        rw [List.mem_append, List.mem_singleton, not_or]
        exact ⟨hplain.not_mem.1, (digit_ne hlast rfl).symm⟩
      simp only [hosts, Hosts.text, hnone, Hosts.names]
  | list pre entries =>
      obtain ⟨hplain, hne, hwell⟩ := h
      have htext : (Hosts.list pre entries).text =
          pre ++ lbracket :: (body entries ++ [rbracket]) := rfl
      have hpos1 : findFirst lbracket (Hosts.list pre entries).text = some pre.length :=
        findFirst_append hplain.not_mem.1 _
      have hsplit : (Hosts.list pre entries).text =
          (pre ++ lbracket :: body entries) ++ rbracket :: [] := by simp [htext]
      have hpos2 : findFirst rbracket (Hosts.list pre entries).text =
          some (pre ++ lbracket :: body entries).length := by
        rw [hsplit]
        apply findFirst_append
        simp only [List.mem_append, List.mem_cons, not_or]
        exact ⟨hplain.not_mem.2.1, by decide, rbracket_not_mem hwell⟩
      have hslice : slice (Hosts.list pre entries).text (pre.length + 1)
          (some (pre ++ lbracket :: body entries).length) = body entries := by
        rw [slice, hsplit, Option.getD_some, List.take_left]
        simp
      have hpre : (Hosts.list pre entries).text.take pre.length = pre := List.take_left
      have hentries : (entries.map Entry.text).mapM (expand pre) =
          some (entries.map fun entry => entry.numbers.map (pre ++ ·)) := by
        rw [List.mapM_map]
        exact PowerRt.mapM_some fun entry hentry => expand_text pre (hwell entry hentry)
      simp only [hosts, hpos1, hpos2, hslice, splitOn_body hne hwell, hpre, hentries,
        Option.bind_eq_bind, Option.bind_some, Hosts.names, List.flatMap_def]

/-- From a list in the format, with blanks anywhere, come the hosts of its groups in their
order. -/
theorem createNidMap_render {groups : List Hosts} (h : ∀ g ∈ groups, g.WellFormed) {nidlist : Text}
    (hblanks : (nidlist.filter fun c => !isSpace c) = render groups) :
    createNidMap nidlist = some (groups.flatMap Hosts.names) := by
  have hgroups : (groups.map Hosts.text).mapM hosts = some (groups.map Hosts.names) := by
    rw [List.mapM_map]
    exact PowerRt.mapM_some fun g hg => hosts_text (h g hg)
  simp only [createNidMap, hblanks, findall_render h, hgroups, Option.bind_eq_bind,
    Option.bind_some, List.flatMap_def]

def voltaGroups : List Hosts :=
  [.list (ofString "volta0") [.span (ofString "08") (ofString "11"), .one (ofString "21")],
    .name (ofString "nid0000") 55]

theorem volta_wellFormed : ∀ g ∈ voltaGroups, g.WellFormed := by
  have hdigits : ∀ s ∈ [ofString "08", ofString "11", ofString "21"], Digits s := by
    have hall : ∀ s ∈ [ofString "08", ofString "11", ofString "21"],
        s ≠ [] ∧ s.all isDigit = true := by decide
    exact fun s hs => ⟨(hall s hs).1, List.all_eq_true.mp (hall s hs).2⟩
  have hplain : ∀ s ∈ [ofString "volta0", ofString "nid0000"], Hosts.Plain s := by
    have hall : ∀ s ∈ [ofString "volta0", ofString "nid0000"], s ≠ [] ∧
        (s.all fun c => c ≠ lbracket ∧ c ≠ rbracket ∧ c ≠ comma) = true := by decide
    intro s hs
    have hs := hall s hs
    simp only [List.all_eq_true, decide_eq_true_eq] at hs
    exact hs
  simp only [voltaGroups, List.forall_mem_cons, List.not_mem_nil, false_imp_iff, implies_true,
    and_true, Hosts.WellFormed, Entry.WellFormed] at hdigits hplain ⊢
  exact ⟨⟨hplain.1, by simp, ⟨hdigits.1, hdigits.2.1⟩, hdigits.2.2⟩, hplain.2, rfl⟩

theorem createNidMap_volta :
    createNidMap (ofString "volta0[08-11,21], nid00007") =
      some (["volta008", "volta009", "volta010", "volta011", "volta021", "nid00007"].map ofString) :=
  (createNidMap_render volta_wellFormed (by decide)).trans (by decide)

end Groups

end PwrApi.NidMap
