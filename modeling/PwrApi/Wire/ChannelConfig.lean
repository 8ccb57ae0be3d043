import Mathlib.Logic.Function.Basic
import PwrApi.Lib.Runs
import PwrApi.Lib.Table
import PwrApi.Lib.Text

/-! The configuration of a TCP channel: `split` of `tcpEventChannel.cc`, and the constructor
that looks its keys up. -/

namespace PwrApi.TcpEventChannel

open Runs Text

/-- The exception of `substr`, which nothing catches. -/
inductive Fault
  | outOfRange
  deriving DecidableEq, Repr

section Rounds

def cut (s : Text) (pos : ℕ) (len : Option ℕ) : Except Fault Text :=
  match substr s pos len with
  | some piece => .ok piece
  | none => .error .outOfRange

/-- `tmp.substr( tmp.find_first_not_of( ' ' ) )`: no string reaches up to `npos`. -/
def skipSpaces (tmp : Text) : Except Fault Text :=
  match findFirstNot 32 tmp with
  | some pos => cut tmp pos none
  | none => .error .outOfRange

/-- The key, and what comes after its '='. -/
def takeKey (tmp : Text) : Except Fault (Text × Text) := do
  let pos := findFirst 61 tmp
  let key ← cut tmp 0 pos
  let tmp ← cut tmp (next pos) none
  .ok (key, tmp)

/-- The value, and what comes after its space. -/
def takeValue (tmp : Text) : Except Fault (Text × Text) := do
  let pos := findFirst 32 tmp
  let value ← cut tmp 0 pos
  match pos with
  | none => .ok (value, [])
  | some pos => do
      let tmp ← cut tmp (pos + 1) none
      .ok (value, tmp)

/-- One round of the loop: a key, its value and what is left of `tmp`. -/
def round (tmp : Text) : Except Fault (Text × Text × Text) := do
  let tmp ← skipSpaces tmp
  let (key, tmp) ← takeKey tmp
  let (value, tmp) ← takeValue tmp
  .ok (key, value, tmp)

theorem skipSpaces_blank (count : ℕ) :
    skipSpaces (List.replicate count 32) = .error .outOfRange := by
  rw [skipSpaces, findFirstNot_replicate]

theorem skipSpaces_text {c : UInt8} (hc : c ≠ 32) (count : ℕ) (rest : Text) :
    skipSpaces (List.replicate count 32 ++ c :: rest) = .ok (c :: rest) := by
  rw [skipSpaces, findFirstNot_append hc]
  simp [cut, substr]

theorem takeKey_equals {key : Text} (hkey : 61 ∉ key) (rest : Text) :
    takeKey (key ++ 61 :: rest) = .ok (key, rest) := by
  obtain ⟨hfield, hrest⟩ := cut_field hkey rest
  simp only [takeKey, cut, hfield, hrest, ok_bind]

theorem takeKey_plain {tmp : Text} (htmp : 61 ∉ tmp) : takeKey tmp = .ok (tmp, tmp) := by
  have hwhole : substr tmp 0 none = some tmp := by simp [substr]
  simp only [takeKey, findFirst_none htmp, next, cut, hwhole, ok_bind]

theorem takeValue_last {value : Text} (hvalue : 32 ∉ value) :
    takeValue value = .ok (value, []) := by
  have hwhole : substr value 0 none = some value := by simp [substr]
  simp only [takeValue, findFirst_none hvalue, cut, hwhole, ok_bind]

theorem takeValue_space {value : Text} (hvalue : 32 ∉ value) (rest : Text) :
    takeValue (value ++ 32 :: rest) = .ok (value, rest) := by
  simp only [takeValue, findFirst_append hvalue, substr_zero, cut, List.take_left, substr_next,
    ok_bind]

theorem round_blank (count : ℕ) : round (List.replicate count 32) = .error .outOfRange := by
  rw [round, skipSpaces_blank]
  rfl

/-- What comes before a space or the end, and does not end in a space itself. -/
def Solid (s : Text) : Prop := ∃ front c, s = front ++ [c] ∧ c ≠ 32

theorem solid_append (front : Text) {s : Text} (hne : s ≠ []) (hs : 32 ∉ s) :
    Solid (front ++ s) := by
  obtain ⟨start, c, rfl⟩ := (List.eq_nil_or_concat s).resolve_left hne
  rw [List.concat_eq_append] at hs ⊢
  refine ⟨front ++ start, c, (List.append_assoc front start [c]).symm, ?_⟩
  rintro rfl
  exact hs (by simp)

theorem takeValue_ok (tmp : Text) : ∃ value rest, takeValue tmp = .ok (value, rest) ∧
    32 ∉ value ∧ (tmp = value ∧ rest = [] ∨ tmp = value ++ 32 :: rest) := by
  by_cases hspace : 32 ∈ tmp
  · obtain ⟨value, rest, rfl, hvalue⟩ := List.eq_append_cons_of_mem hspace
    exact ⟨value, rest, takeValue_space hvalue rest, hvalue, .inr rfl⟩
  · exact ⟨tmp, [], takeValue_last hspace, hspace, .inl ⟨rfl, rfl⟩⟩

theorem round_of {tmp text more key value rest : Text} (hskip : skipSpaces tmp = .ok text)
    (hkey : takeKey text = .ok (key, more)) (hvalue : takeValue more = .ok (value, rest)) :
    round tmp = .ok (key, value, rest) := by
  simp only [round, hskip, hkey, hvalue, ok_bind]

theorem round_text {c : UInt8} (hc : c ≠ 32) (count : ℕ) (more : Text) :
    ∃ body key value rest, round (List.replicate count 32 ++ c :: more) = .ok (key, value, rest) ∧
      Solid body ∧ 32 ∉ value ∧ (List.replicate count 32 ++ c :: more = body ∧ rest = [] ∨
        List.replicate count 32 ++ c :: more = body ++ 32 :: rest) := by
  have hskip := skipSpaces_text hc count more
  by_cases hequals : 61 ∈ c :: more
  · obtain ⟨key, tmp, hsplit, hkey⟩ := List.eq_append_cons_of_mem hequals
    obtain ⟨value, rest, hvalue, hspace, hcases⟩ := takeValue_ok tmp
    rw [hsplit] at hskip ⊢
    have hround := round_of hskip (takeKey_equals hkey tmp) hvalue
    have hsolid : Solid ((List.replicate count 32 ++ key) ++ 61 :: value) :=
      solid_append _ (List.cons_ne_nil 61 value) (by simpa using hspace)
    refine ⟨_, key, value, rest, hround, hsolid, hspace, ?_⟩
    rcases hcases with ⟨rfl, rfl⟩ | rfl
    · exact .inl ⟨by simp, rfl⟩
    · exact .inr (by simp)
  · obtain ⟨value, rest, hvalue, hspace, hcases⟩ := takeValue_ok (c :: more)
    have hround := round_of hskip (takeKey_plain hequals) hvalue
    have hne : value ≠ [] := by
      rintro rfl
      rcases hcases with ⟨hnil, _⟩ | hblank
      · exact absurd hnil (List.cons_ne_nil c more)
      · exact hc (List.cons.inj hblank).1
    refine ⟨_, c :: more, value, rest, hround,
      solid_append (List.replicate count 32) hne hspace, hspace, ?_⟩
    rcases hcases with ⟨hvalue, hrest⟩ | hrest
    · exact .inl ⟨by rw [hvalue], hrest⟩
    · exact .inr (by rw [hrest, List.append_assoc])

end Rounds

section Ends

/-- A single space, or two at the end. -/
def EndsInSpaces (s : Text) : Prop := s = [32] ∨ [32, 32] <:+ s

theorem not_endsInSpaces_nil : ¬ EndsInSpaces [] := by
  simp [EndsInSpaces]

theorem space_suffix (s : Text) (c : UInt8) : [32] <:+ s ++ [c] ↔ c = 32 := by
  rw [List.suffix_concat_iff]
  constructor
  · rintro (hnil | ⟨t, hlast, _⟩)
    · cases hnil
    · have hsplit : [] ++ [32] = t ++ [c] := hlast
      exact (List.append_singleton_inj.mp hsplit).2.symm
  · rintro rfl
    exact .inr ⟨[], rfl, List.nil_suffix⟩

theorem endsInSpaces_concat (s : Text) (c : UInt8) :
    EndsInSpaces (s ++ [c]) ↔ c = 32 ∧ (s = [] ∨ [32] <:+ s) := by
  rw [EndsInSpaces, List.suffix_concat_iff]
  constructor
  · rintro (hspace | hnil | ⟨t, hlast, ht⟩)
    · have hsplit : s ++ [c] = [] ++ [32] := hspace
      obtain ⟨hs, hc⟩ := List.append_singleton_inj.mp hsplit
      exact ⟨hc, .inl hs⟩
    · cases hnil
    · have hsplit : [32] ++ [32] = t ++ [c] := hlast
      obtain ⟨rfl, hc⟩ := List.append_singleton_inj.mp hsplit
      exact ⟨hc.symm, .inr ht⟩
  · rintro ⟨rfl, rfl | hs⟩
    · exact .inl rfl
    · exact .inr (.inr ⟨[32], rfl, hs⟩)

theorem Solid.not_endsInSpaces {s : Text} (h : Solid s) : ¬ EndsInSpaces s := by
  obtain ⟨front, c, rfl, hc⟩ := h
  rw [endsInSpaces_concat]
  exact fun hspace => hc hspace.1

theorem Solid.endsInSpaces_append {s : Text} (h : Solid s) (rest : Text) :
    EndsInSpaces (s ++ 32 :: rest) ↔ EndsInSpaces rest := by
  obtain ⟨front, c, rfl, hc⟩ := h
  rcases List.eq_nil_or_concat rest with rfl | ⟨start, d, rfl⟩
  · rw [endsInSpaces_concat, space_suffix]
    exact iff_of_false (by simp [hc]) not_endsInSpaces_nil
  · rw [List.concat_eq_append, ← List.cons_append, ← List.append_assoc, endsInSpaces_concat,
      endsInSpaces_concat]
    apply and_congr_right
    intro _
    rcases List.eq_nil_or_concat start with rfl | ⟨start, e, rfl⟩
    · rw [space_suffix]
      simp
    · rw [List.concat_eq_append, ← List.cons_append, ← List.append_assoc, space_suffix,
        space_suffix]
      simp

theorem endsInSpaces_blank (count : ℕ) :
    EndsInSpaces (List.replicate count 32) ↔ count ≠ 0 := by
  cases count with
  | zero => exact iff_of_false not_endsInSpaces_nil (not_not_intro rfl)
  | succ count =>
      rw [List.replicate_succ', endsInSpaces_concat]
      refine iff_of_true ⟨rfl, ?_⟩ (Nat.succ_ne_zero count)
      cases count with
      | zero => exact .inl rfl
      | succ count =>
          rw [List.replicate_succ', space_suffix]
          exact .inr rfl

end Ends

section Splitting

theorem round_error {tmp : Text} {fault : Fault} (h : round tmp = .error fault) :
    ∃ count, tmp = List.replicate count 32 := by
  rcases eq_replicate_or 32 tmp with hblank | ⟨count, c, more, hc, rfl⟩
  · exact hblank
  · obtain ⟨body, key, value, rest, hround, _⟩ := round_text hc count more
    cases hround.symm.trans h

theorem round_ok {tmp key value rest : Text} (h : round tmp = .ok (key, value, rest)) :
    rest.length < tmp.length ∧ (EndsInSpaces tmp ↔ EndsInSpaces rest) ∧ 32 ∉ value := by
  rcases eq_replicate_or 32 tmp with ⟨count, rfl⟩ | ⟨count, c, more, hc, rfl⟩
  · rw [round_blank] at h
    cases h
  · obtain ⟨body, key', value', rest', hround, hsolid, hvalue, hcases⟩ := round_text hc count more
    obtain ⟨rfl, rfl, rfl⟩ : key' = key ∧ value' = value ∧ rest' = rest := by
      simpa using hround.symm.trans h
    rcases hcases with ⟨hbody, rfl⟩ | hrest
    · refine ⟨List.length_pos_of_ne_nil (by simp), ?_, hvalue⟩
      rw [hbody]
      exact iff_of_false hsolid.not_endsInSpaces not_endsInSpaces_nil
    · rw [hrest]
      refine ⟨?_, hsolid.endsInSpaces_append rest', hvalue⟩
      rw [List.length_append, List.length_cons]
      omega

/-- The loop, from what is left of the string. -/
def split (tmp : Text) (foo : Text → Option Text) : Except Fault (Text → Option Text) :=
  if tmp = [] then .ok foo
  else
    match _ : round tmp with
    | .ok (key, value, rest) => split rest (Function.update foo key (some value))
    | .error fault => .error fault
termination_by tmp.length
decreasing_by exact (round_ok ‹_›).1

theorem split_nil (foo : Text → Option Text) : split [] foo = .ok foo := by
  rw [split, if_pos rfl]

theorem split_round {tmp key value rest : Text} (foo : Text → Option Text)
    (h : round tmp = .ok (key, value, rest)) :
    split tmp foo = split rest (Function.update foo key (some value)) := by
  have hne : tmp ≠ [] := List.ne_nil_of_length_pos (Nat.zero_lt_of_lt (round_ok h).1)
  rw [split, if_neg hne]
  split
  · next key' value' rest' hround =>
      obtain ⟨rfl, rfl, rfl⟩ : key' = key ∧ value' = value ∧ rest' = rest := by
        simpa using hround.symm.trans h
      rfl
  · next fault hround => cases hround.symm.trans h

theorem split_isOk_iff (tmp : Text) (foo : Text → Option Text) :
    (∃ foo', split tmp foo = .ok foo') ↔ ¬ EndsInSpaces tmp := by
  fun_induction split tmp foo with
  | case1 foo => exact iff_of_true ⟨foo, rfl⟩ not_endsInSpaces_nil
  | case2 tmp foo hne key value rest hround ih => rw [ih, (round_ok hround).2.1]
  | case3 tmp foo hne fault hround =>
      obtain ⟨count, rfl⟩ := round_error hround
      refine iff_of_false (by simp) (not_not_intro ((endsInSpaces_blank count).mpr ?_))
      rintro rfl
      exact hne rfl

theorem split_values {tmp : Text} {foo foo' : Text → Option Text} (h : split tmp foo = .ok foo')
    (hfoo : ∀ key, ∀ value ∈ foo key, 32 ∉ value) :
    ∀ key, ∀ value ∈ foo' key, 32 ∉ value := by
  fun_induction split tmp foo with
  | case1 foo =>
      obtain rfl := Except.ok.inj h
      exact hfoo
  | case2 tmp foo hne key value rest hround ih =>
      apply ih h
      intro other text htext
      rcases Table.update_some htext with ⟨_, rfl⟩ | ⟨_, hother⟩
      · exact (round_ok hround).2.2
      · exact hfoo other text hother
  | case3 => cases h

end Splitting

section Pairs

/-- A key with its value, of which the key ends at the first '=' and the value at a space. -/
structure Pair where
  key : Text
  value : Text
  key_ne : key ≠ []
  key_equals : 61 ∉ key
  key_space : 32 ∉ key
  value_space : 32 ∉ value

def Pair.token (pair : Pair) : Text := pair.key ++ 61 :: pair.value

def Pair.entry (pair : Pair) : Text × Text := (pair.key, pair.value)

/-- The strings that write pairs as tokens with spaces between them, before and after: each
token is at the end or has a space and the others after it. -/
inductive Writes : List Pair → Text → Prop
  | blank (count : ℕ) : Writes [] (List.replicate count 32)
  | last (count : ℕ) (pair : Pair) : Writes [pair] (List.replicate count 32 ++ pair.token)
  | next (count : ℕ) (pair : Pair) {pairs : List Pair} {s : Text} (h : Writes pairs s) :
      Writes (pair :: pairs) (List.replicate count 32 ++ (pair.token ++ 32 :: s))

def lastValue (key : Text) (pairs : List Pair) : Option Text :=
  Table.last key (pairs.map Pair.entry)

theorem Pair.head (pair : Pair) : ∃ c rest, c ≠ 32 ∧ pair.token = c :: rest := by
  obtain ⟨c, rest, hkey⟩ := List.exists_cons_of_ne_nil pair.key_ne
  refine ⟨c, rest ++ 61 :: pair.value, ?_, by rw [Pair.token, hkey, List.cons_append]⟩
  rintro rfl
  exact pair.key_space (hkey ▸ List.mem_cons_self)

theorem round_last (count : ℕ) (pair : Pair) :
    round (List.replicate count 32 ++ pair.token) = .ok (pair.key, pair.value, []) := by
  obtain ⟨c, rest, hc, htoken⟩ := pair.head
  have hskip := skipSpaces_text hc count rest
  rw [← htoken] at hskip
  exact round_of hskip (takeKey_equals pair.key_equals pair.value)
    (takeValue_last pair.value_space)

theorem round_next (count : ℕ) (pair : Pair) (s : Text) :
    round (List.replicate count 32 ++ (pair.token ++ 32 :: s)) =
      .ok (pair.key, pair.value, s) := by
  obtain ⟨c, rest, hc, htoken⟩ := pair.head
  have hskip := skipSpaces_text hc count (rest ++ 32 :: s)
  have hkey := takeKey_equals pair.key_equals (pair.value ++ 32 :: s)
  rw [← List.cons_append, ← htoken] at hskip
  rw [← List.cons_append, ← List.append_assoc] at hkey
  exact round_of hskip hkey (takeValue_space pair.value_space s)

theorem split_writes {pairs : List Pair} {s : Text} (h : Writes pairs s)
    (hends : ¬ EndsInSpaces s) (foo : Text → Option Text) :
    split s foo = .ok (Table.enter foo (pairs.map Pair.entry)) := by
  induction h generalizing foo with
  | blank count =>
      rw [endsInSpaces_blank, not_not] at hends
      rw [hends, List.replicate_zero, split_nil]
      rfl
  | last count pair =>
      rw [split_round foo (round_last count pair), split_nil]
      rfl
  | @next count pair pairs s h ih =>
      have hround := round_next count pair s
      rw [(round_ok hround).2.1] at hends
      rw [split_round foo hround, ih hends]
      rfl

/-- A string that writes pairs is split into them if and only if it is not a single space and
does not end in two. -/
theorem split_iff {pairs : List Pair} {s : Text} (h : Writes pairs s) :
    (∃ foo, split s (fun _ => none) = .ok foo ∧ ∀ key, foo key = lastValue key pairs) ↔
      ¬ EndsInSpaces s := by
  constructor
  · rintro ⟨foo, hsplit, _⟩
    exact (split_isOk_iff s fun _ => none).mp ⟨foo, hsplit⟩
  · intro hends
    refine ⟨_, split_writes h hends fun _ => none, fun key => ?_⟩
    rw [Table.enter_eq, Option.or_none, lastValue]

def server : Text := [115, 101, 114, 118, 101, 114]

def serverPort : Text := [115, 101, 114, 118, 101, 114, 80, 111, 114, 116]

def listenPort : Text := [108, 105, 115, 116, 101, 110, 80, 111, 114, 116]

variable {value : Text}

def serverPair (h : 32 ∉ value) : Pair := ⟨server, value, by decide, by decide, by decide, h⟩

def serverPortPair (h : 32 ∉ value) : Pair :=
  ⟨serverPort, value, by decide, by decide, by decide, h⟩

def listenPortPair (h : 32 ∉ value) : Pair :=
  ⟨listenPort, value, by decide, by decide, by decide, h⟩

theorem split_iff_listenPort :
    (∃ foo, split (32 :: listenPort ++ [61, 49]) (fun _ => none) = .ok foo ∧
      ∀ key, foo key = lastValue key [listenPortPair (show 32 ∉ [49] by decide)]) ↔
      ¬ EndsInSpaces (32 :: listenPort ++ [61, 49]) :=
  split_iff (.last 1 (listenPortPair (by decide)))

/-- "listenPort=1" with two spaces after it: once the first is gone, the other is not found to
be all that is left. -/
theorem spaces_at_the_end_throw :
    Writes [listenPortPair (show 32 ∉ [49] by decide)] (listenPort ++ [61, 49, 32, 32]) ∧
      ¬ ∃ foo, split (listenPort ++ [61, 49, 32, 32]) (fun _ => none) = .ok foo ∧
        ∀ key, foo key = lastValue key [listenPortPair (show 32 ∉ [49] by decide)] := by
  refine ⟨.next 0 (listenPortPair (by decide)) (.blank 1), ?_⟩
  rintro ⟨foo, hsplit, _⟩
  apply (split_isOk_iff _ _).mp ⟨foo, hsplit⟩
  exact .inr ⟨listenPort ++ [61, 49], rfl⟩

end Pairs

section Opening

/-- What a channel is opened for. -/
inductive Opened
  /-- `initServer` is called with the port. -/
  | listening (port : Text)
  /-- `m_clientServer` and `m_clientServerPort`, for a connection later. -/
  | client (host port : Text)
  deriving DecidableEq, Repr

/-- The constructor; `[]` of a map makes an empty string for a key that it does not have. -/
def tcpEventChannel (config : Text) : Except Fault Opened := do
  let foo ← split config fun _ => none
  match foo server with
  | none => .ok (.listening ((foo listenPort).getD []))
  | some host => .ok (.client host ((foo serverPort).getD []))

/-- What contexts, servers and routers open a channel to another process with. -/
def clientConfig (host port : Text) : Text :=
  server ++ 61 :: host ++ 32 :: serverPort ++ 61 :: port

/-- What routers open a channel to listen with. -/
def listenConfig (port : Text) : Text := listenPort ++ 61 :: port

theorem Pair.solid (pair : Pair) (front : Text) : Solid (front ++ pair.token) := by
  rw [Pair.token, ← List.append_assoc]
  exact solid_append _ (List.cons_ne_nil 61 pair.value) (by simpa using pair.value_space)

theorem opened_space {config : Text} {opened : Opened} (h : tcpEventChannel config = .ok opened) :
    match opened with
    | .listening port => 32 ∉ port
    | .client host port => 32 ∉ host ∧ 32 ∉ port := by
  obtain ⟨foo, hsplit, hopened⟩ := bind_eq_ok.mp h
  have hvalues := split_values hsplit fun _ _ hnone => by cases hnone
  have hgetD (key : Text) : 32 ∉ (foo key).getD [] := by
    cases hkey : foo key with
    | none => exact List.not_mem_nil
    | some value => exact hvalues key value hkey
  cases hserver : foo server with
  | none =>
      rw [hserver] at hopened
      obtain rfl := Except.ok.inj hopened
      exact hgetD listenPort
  | some host =>
      rw [hserver] at hopened
      obtain rfl := Except.ok.inj hopened
      exact ⟨hvalues server host hserver, hgetD serverPort⟩

theorem client_iff (host port : Text) :
    tcpEventChannel (clientConfig host port) = .ok (.client host port) ↔
      32 ∉ host ∧ 32 ∉ port := by
  constructor
  · exact fun h => opened_space h
  · rintro ⟨hhost, hport⟩
    have hwrites : Writes [serverPair hhost, serverPortPair hport] (clientConfig host port) := by
      have hnext := Writes.next 0 (serverPair hhost) (.last 0 (serverPortPair hport))
      simpa [clientConfig, Pair.token, serverPair, serverPortPair] using hnext
    have hends : ¬ EndsInSpaces (clientConfig host port) := by
      have hsolid := (serverPortPair hport).solid (server ++ 61 :: host ++ [32])
      apply Solid.not_endsInSpaces
      simpa [clientConfig, Pair.token, serverPortPair] using hsolid
    rw [tcpEventChannel, split_writes hwrites hends, ok_bind]
    rfl

theorem listen_iff (port : Text) :
    tcpEventChannel (listenConfig port) = .ok (.listening port) ↔ 32 ∉ port := by
  constructor
  · exact fun h => opened_space h
  · intro hport
    have hwrites : Writes [listenPortPair hport] (listenConfig port) :=
      .last 0 (listenPortPair hport)
    have hends : ¬ EndsInSpaces (listenConfig port) :=
      ((listenPortPair hport).solid []).not_endsInSpaces
    rw [tcpEventChannel, split_writes hwrites hends, ok_bind]
    rfl

end Opening

end PwrApi.TcpEventChannel
