import PwrApi.Lib.Text
import PwrApi.Router.State

/-! The route table and the file it is read from: `initRouteTable` of `router.cc`. -/

namespace PwrApi.Router

open Function Runs

/-- The body of the loop of `initRouteTable`. The length for the first `substr` is meant
as an end: what it takes too much is after the second colon, where `atoi` stops. -/
def addRoute (table : ObjID → Option AppID) (line : Text) :
    Except Fault (ObjID → Option AppID) := do
  let pos1 := Text.findFirst 58 line
  let pos2 := Text.findLast 58 line
  let rtr ← orFault (Text.substr line (Text.next pos1) (Text.prev pos2)) .undefined
  let srvr ← orFault (Text.substr line (Text.next pos2) none) .undefined
  let name ← orFault (Text.substr line 0 pos1) .undefined
  .ok (update table name
    (some (appId (Text.atoi rtr).toUInt32 (Text.atoi srvr).toUInt32)))

/-- The route table in a file, with `none` for one that cannot be opened. -/
def initRouteTable (file : Option Text) : Except Fault (ObjID → Option AppID) := do
  let file ← orFault file .assertFailed
  (Text.readLines file).foldlM addRoute fun _ => none

/-- An entry of a route table, with a name that a line can carry. -/
structure RouteEntry where
  name : ObjID
  rtr : Nat
  srvr : Nat
  plain : 58 ∉ name ∧ 10 ∉ name
  rtr_lt : rtr < 2 ^ 31
  srvr_lt : srvr < 2 ^ 31

namespace RouteEntry

def line (entry : RouteEntry) : Text :=
  entry.name ++ 58 :: (Text.decimal entry.rtr ++ 58 :: Text.decimal entry.srvr)

def id (entry : RouteEntry) : AppID :=
  appId (UInt32.ofNat entry.rtr) (UInt32.ofNat entry.srvr)

/-- The file of some entries, one a line, with or without a newline after the last. -/
def file (newline : Bool) : List RouteEntry → Text
  | [] => []
  | [entry] => entry.line ++ if newline then [10] else []
  | entry :: entries => entry.line ++ 10 :: file newline entries

theorem newline_not_mem (entry : RouteEntry) : 10 ∉ entry.line := by
  have hrtr := Text.not_mem_decimal (c := 10) (by decide) entry.rtr
  have hsrvr := Text.not_mem_decimal (c := 10) (by decide) entry.srvr
  simp [line, entry.plain.2, hrtr, hsrvr]

/-- The text for the router's id, with what the first `substr` takes too much. -/
def rtrText (entry : RouteEntry) : Text :=
  Text.decimal entry.rtr ++ (58 :: Text.decimal entry.srvr).take entry.name.length

theorem substr_rtr (entry : RouteEntry) :
    Text.substr entry.line (entry.name.length + 1)
      (Text.prev (some (entry.name ++ 58 :: Text.decimal entry.rtr).length)) =
      some entry.rtrText := by
  have hlength : (entry.name ++ 58 :: Text.decimal entry.rtr).length =
      (entry.name.length + (Text.decimal entry.rtr).length) + 1 := by
    simp
    omega
  rw [hlength, Text.prev, line, Text.substr_prev, List.take_append, rtrText]
  congr 2
  · exact List.take_of_length_le (by omega)
  · congr 1
    omega

theorem atoi_rtrText (entry : RouteEntry) :
    (Text.atoi entry.rtrText).toUInt32 = UInt32.ofNat entry.rtr := by
  have hstop : ∀ c ∈ ((58 :: Text.decimal entry.srvr).take entry.name.length).head?,
      Text.isDigit c = false := by
    intro c hc
    cases hname : entry.name.length with
    | zero =>
        rw [hname] at hc
        cases hc
    | succ n =>
        rw [hname] at hc
        obtain rfl := Option.some.inj hc
        decide
  exact Text.atoi_decimal entry.rtr_lt hstop

theorem addRoute_line (entry : RouteEntry) (table : ObjID → Option AppID) :
    addRoute table entry.line = .ok (update table entry.name (some entry.id)) := by
  have hsrvr := Text.not_mem_decimal (c := 58) (by decide) entry.srvr
  have hfirst : Text.findFirst 58 entry.line = some entry.name.length :=
    Text.findFirst_append entry.plain.1 _
  have hsplit : entry.line =
      (entry.name ++ 58 :: Text.decimal entry.rtr) ++ 58 :: Text.decimal entry.srvr := by
    simp [line]
  have hlast : Text.findLast 58 entry.line =
      some (entry.name ++ 58 :: Text.decimal entry.rtr).length := by
    rw [hsplit]
    exact Text.findLast_append hsrvr _
  have hserver : Text.substr entry.line
      ((entry.name ++ 58 :: Text.decimal entry.rtr).length + 1) none =
      some (Text.decimal entry.srvr) := by
    rw [hsplit]
    exact Text.substr_next _ 58 _
  have hname : Text.substr entry.line 0 (some entry.name.length) = some entry.name := by
    rw [Text.substr_zero, line, List.take_left]
  have hread : (Text.atoi (Text.decimal entry.srvr ++ [])).toUInt32 =
      UInt32.ofNat entry.srvr := Text.atoi_decimal entry.srvr_lt (by simp)
  rw [List.append_nil] at hread
  simp only [addRoute, hfirst, hlast, Text.next, substr_rtr, hserver, hname, orFault_some,
    atoi_rtrText, hread, bind, Except.bind]
  rfl

def enter (table : ObjID → Option AppID) (entries : List RouteEntry) : ObjID → Option AppID :=
  entries.foldl (fun table entry => update table entry.name (some entry.id)) table

theorem addRoute_lines (entries : List RouteEntry) (table : ObjID → Option AppID) :
    (entries.map line).foldlM addRoute table =
      .ok (enter table entries) := by
  induction entries generalizing table with
  | nil => rfl
  | cons entry entries ih =>
      rw [List.map_cons, List.foldlM_cons, addRoute_line]
      exact ih _

theorem readLines_file (newline : Bool) (entries : List RouteEntry) :
    Text.readLines (file newline entries) =
      ((if newline then entries else entries.dropLast).map line) := by
  have hfile : ∀ entries : List RouteEntry, ∃ last : Text, 10 ∉ last ∧
      file newline entries =
        ((if newline then entries else entries.dropLast).map line).flatMap (· ++ [10]) ++
          last := by
    intro entries
    induction entries with
    | nil => exact ⟨[], List.not_mem_nil, by simp [file]⟩
    | cons entry entries ih =>
        cases entries with
        | nil =>
            cases newline with
            | false => exact ⟨entry.line, entry.newline_not_mem, by simp [file]⟩
            | true => exact ⟨[], List.not_mem_nil, by simp [file]⟩
        | cons second entries =>
            obtain ⟨last, hlast, heq⟩ := ih
            refine ⟨last, hlast, ?_⟩
            rw [file, heq]
            · cases newline <;> simp
            · simp
  obtain ⟨last, hlast, heq⟩ := hfile entries
  rw [heq]
  apply Text.readLines_eq _ hlast
  intro text htext
  obtain ⟨entry, _, rfl⟩ := List.mem_map.mp htext
  exact entry.newline_not_mem

/-- The table has the names of the entries and no others, each with its two ids. -/
def Complete (entries : List RouteEntry) (table : ObjID → Option AppID) : Prop :=
  (∀ name, table name ≠ none ↔ name ∈ entries.map (·.name)) ∧
  ∀ entry ∈ entries, ∃ id, table entry.name = some id ∧
    (rtrIdOf id).toNat = entry.rtr ∧ (serverIdOf id).toNat = entry.srvr

theorem enter_not_mem (entries : List RouteEntry) (table : ObjID → Option AppID) (name : ObjID)
    (hname : name ∉ entries.map (·.name)) :
    enter table entries name = table name := by
  induction entries generalizing table with
  | nil => rfl
  | cons entry entries ih =>
      rw [List.map_cons, List.mem_cons, not_or] at hname
      rw [enter, List.foldl_cons, ← enter, ih _ hname.2, update_of_ne hname.1]

theorem enter_mem {entries : List RouteEntry} (hnodup : (entries.map (·.name)).Nodup)
    (table : ObjID → Option AppID) {entry : RouteEntry} (hentry : entry ∈ entries) :
    enter table entries entry.name = some entry.id := by
  induction entries generalizing table with
  | nil => exact absurd hentry List.not_mem_nil
  | cons first entries ih =>
      rw [List.map_cons, List.nodup_cons] at hnodup
      rw [enter, List.foldl_cons, ← enter]
      rcases List.mem_cons.mp hentry with rfl | hentry
      · rw [enter_not_mem entries _ _ hnodup.1, update_self]
      · exact ih hnodup.2 _ hentry

theorem rtrIdOf_id (entry : RouteEntry) :
    (rtrIdOf entry.id).toNat = entry.rtr ∧ (serverIdOf entry.id).toNat = entry.srvr := by
  have hrtr := entry.rtr_lt
  have hsrvr := entry.srvr_lt
  rw [id, rtrIdOf_appId, serverIdOf_appId, UInt32.toNat_ofNat', UInt32.toNat_ofNat']
  omega

theorem complete_enter {entries : List RouteEntry} (hnodup : (entries.map (·.name)).Nodup) :
    Complete entries (enter (fun _ => none) entries) := by
  refine ⟨fun name => ⟨fun hne => ?_, fun hmem => ?_⟩, fun entry hentry => ?_⟩
  · by_contra hname
    exact hne (enter_not_mem entries _ name hname)
  · obtain ⟨entry, hentry, rfl⟩ := List.mem_map.mp hmem
    rw [enter_mem hnodup _ hentry]
    exact Option.some_ne_none _
  · exact ⟨entry.id, enter_mem hnodup _ hentry, entry.rtrIdOf_id⟩

/-- The table of a file is complete exactly when its last line ends in a newline too: the
loop stops at the end of the file before it looks at what was read. -/
theorem initRouteTable_complete_iff (newline : Bool) {entries : List RouteEntry}
    (hnodup : (entries.map (·.name)).Nodup) :
    (∃ table, initRouteTable (some (file newline entries)) = .ok table ∧ Complete entries table) ↔
      newline = true ∨ entries = [] := by
  have hread : initRouteTable (some (file newline entries)) = .ok
      (enter (fun _ => none) (if newline then entries else entries.dropLast)) := by
    rw [← addRoute_lines, ← readLines_file]
    rfl
  rw [hread]
  constructor
  · intro ⟨table, htable, hcomplete⟩
    obtain rfl := Except.ok.inj htable
    cases newline with
    | true => exact .inl rfl
    | false =>
        refine .inr ?_
        by_contra hne
        obtain ⟨front, last, rfl⟩ : ∃ front last, entries = front ++ [last] :=
          ⟨_, _, (List.dropLast_concat_getLast hne).symm⟩
        rw [List.map_append, List.nodup_append] at hnodup
        have hlast : last.name ∉ front.map (·.name) := fun hmem =>
          hnodup.2.2 last.name hmem last.name (by simp) rfl
        have hmissing := enter_not_mem front (fun _ => none) last.name hlast
        have hpresent := (hcomplete.1 last.name).mpr (by simp)
        simp only [Bool.false_eq_true, if_false, List.dropLast_concat] at hpresent
        exact hpresent hmissing
  · intro hlast
    refine ⟨_, rfl, ?_⟩
    have hall : (if newline then entries else entries.dropLast) = entries := by
      rcases hlast with rfl | rfl
      · rfl
      · cases newline <;> rfl
    rw [hall]
    exact complete_enter hnodup

theorem one_lt_idBound : 1 < 2 ^ 31 := by decide

/-- Server 3 of router 1, under the name "n". -/
def oneEntry : RouteEntry where
  name := [110]
  rtr := 1
  srvr := 3
  plain := by decide
  rtr_lt := one_lt_idBound
  srvr_lt := by decide

/-- Server 5 of router 2, under the name "no". -/
def nextEntry : RouteEntry where
  name := [110, 111]
  rtr := 2
  srvr := 5
  plain := by decide
  rtr_lt := by decide
  srvr_lt := by decide

theorem initRouteTable_complete_iff_two :
    (∃ table, initRouteTable (some (file true [oneEntry, nextEntry])) = .ok table ∧
      Complete [oneEntry, nextEntry] table) ↔ true = true ∨ [oneEntry, nextEntry] = [] :=
  initRouteTable_complete_iff true (by decide)

/-- The file "n:1:3", whose only line is lost. -/
theorem last_route_is_lost :
    file false [oneEntry] = [110, 58, 49, 58, 51] ∧
      ¬ ∃ table, initRouteTable (some (file false [oneEntry])) = .ok table ∧
        Complete [oneEntry] table := by
  refine ⟨rfl, ?_⟩
  intro ⟨table, htable, hcomplete⟩
  obtain rfl : (fun _ => none) = table := Except.ok.inj htable
  exact (hcomplete.1 [110]).mpr (by decide) rfl

end RouteEntry

end PwrApi.Router
