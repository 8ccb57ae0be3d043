import Mathlib.Data.List.Infix
import PwrApi.Lib.Text

/-! The threads of a daemon and the arguments that each of them gets: `findArgs` and `main`
of `pwrdaemon.cc`. -/

namespace PwrApi.PwrDaemon

open Text

/-- `"--" + prefix + "."`. -/
def optionPrefix (name : Text) : Text := 45 :: 45 :: (name ++ [46])

/-- What `findArgs` takes of one argument, and what it leaves of it: the prefix is written
over, and the option begins with the last two bytes of it. -/
def findArg (pre arg : Text) : Option Text × Text :=
  if pre.isPrefixOf arg then
    (some (45 :: 45 :: arg.drop pre.length),
      List.replicate pre.length 45 ++ arg.drop pre.length)
  else (none, arg)

def findArgs (name : Text) (argv : List Text) : List Text × List Text :=
  (argv.filterMap fun arg => (findArg (optionPrefix name) arg).1,
    argv.map fun arg => (findArg (optionPrefix name) arg).2)

def rtr : Text := ofString "rtr"

def lgr : Text := ofString "lgr"

/-- `"srvr"` with the counter of the loop, which starts at -1. -/
def srvr : Nat → Text
  | 0 => ofString "srvr"
  | count + 1 => ofString "srvr" ++ decimal count

/-- The threads that are created, each with its arguments after `argv[0]`. -/
structure Threads where
  rtrThread : Option (List Text)
  srvrThreads : List (List Text)
  lgrThread : Option (List Text)
  deriving DecidableEq, Repr

/-- `argv.size() > 2`, with `argv[0]` and the null pointer at the end. -/
def orNone (args : List Text) : Option (List Text) := if args = [] then none else some args

/-- The loop over the servers, which ends at the first one without arguments. -/
def startSrvrs : Nat → Nat → List Text → List (List Text) × List Text
  | 0, _, argv => ([], argv)
  | fuel + 1, count, argv =>
      let (srvrArgs, argv) := findArgs (srvr count) argv
      if srvrArgs = [] then ([], argv)
      else
        let (others, argv) := startSrvrs fuel (count + 1) argv
        (srvrArgs :: others, argv)

def main (argv : List Text) : Threads :=
  let (rtrArgs, argv) := findArgs rtr argv
  let (srvrThreads, argv) := startSrvrs (argv.length + 1) 0 argv
  let (lgrArgs, _) := findArgs lgr argv
  { rtrThread := orNone rtrArgs, srvrThreads, lgrThread := orNone lgrArgs }

section Names

/-- A name that no prefix is confused with: neither empty nor with a dot, nor with a dash
where the prefixes that are written over have one. -/
structure Plain (name : Text) : Prop where
  nonempty : name ≠ []
  noDot : 46 ∉ name
  noDash : name.head? ≠ some 45

theorem plain_rtr : Plain rtr := ⟨by decide, by decide, by decide⟩

theorem plain_lgr : Plain lgr := ⟨by decide, by decide, by decide⟩

theorem plain_srvr (count : Nat) : Plain (srvr count) := by
  cases count with
  | zero => exact ⟨by decide, by decide, by decide⟩
  | succ count =>
      refine ⟨by simp [srvr, ofString], ?_, by simp [srvr, ofString]⟩
      rw [srvr, List.mem_append, not_or]
      exact ⟨by decide, not_mem_decimal (by decide) count⟩

theorem decimal_injective : Function.Injective decimal := by
  intro a b h
  have hvalue := congrArg value h
  rwa [value_decimal, value_decimal] at hvalue

theorem srvr_injective : Function.Injective srvr := by
  have hne : ∀ count, srvr 0 ≠ srvr (count + 1) := by
    intro count h
    rw [srvr, srvr] at h
    exact decimal_ne_nil count (List.self_eq_append_right.mp h)
  intro a b h
  cases a with
  | zero =>
      cases b with
      | zero => rfl
      | succ b => exact absurd h (hne b)
  | succ a =>
      cases b with
      | zero => exact absurd h.symm (hne a)
      | succ b =>
          rw [srvr, srvr, List.append_cancel_left_eq] at h
          rw [decimal_injective h]

theorem srvr_ne (count : Nat) : srvr count ≠ rtr ∧ srvr count ≠ lgr := by
  have hhead : (srvr count).head? = some 115 := by
    cases count with
    | zero => rfl
    | succ count => rfl
  constructor
  · intro h
    rw [h] at hhead
    exact absurd hhead (by decide)
  · intro h
    rw [h] at hhead
    exact absurd hhead (by decide)

theorem name_unique {name name' arg : Text} (hname : 46 ∉ name) (hname' : 46 ∉ name')
    (h : optionPrefix name <+: arg) (h' : optionPrefix name' <+: arg) : name = name' := by
  obtain ⟨rest, rfl⟩ := h
  obtain ⟨rest', h'⟩ := h'
  simp only [optionPrefix, List.cons_append, List.append_assoc, List.nil_append,
    List.cons.injEq, true_and] at h'
  have hfirst : findFirst 46 (name ++ 46 :: rest) = some name.length := findFirst_append hname rest
  rw [← h', findFirst_append hname' rest'] at hfirst
  have hlength := Option.some.inj hfirst
  exact (List.append_inj_left h' hlength).symm

end Names

section Options

def optionsOf (name : Text) (argv : List Text) : List Text := (findArgs name argv).1

theorem findArg_of_pre {pre arg : Text} (h : pre <+: arg) :
    findArg pre arg = (some (45 :: 45 :: arg.drop pre.length),
      List.replicate pre.length 45 ++ arg.drop pre.length) :=
  if_pos (List.isPrefixOf_iff_prefix.mpr h)

theorem findArg_of_not {pre arg : Text} (h : ¬ pre <+: arg) :
    findArg pre arg = (none, arg) :=
  if_neg fun hpre => h (List.isPrefixOf_iff_prefix.mp hpre)

theorem not_prefix_of_dash {name arg : Text} (hname : Plain name) (harg : arg[2]? = some 45) :
    ¬ optionPrefix name <+: arg := by
  rintro ⟨rest, rfl⟩
  obtain ⟨c, tail, rfl⟩ := List.exists_cons_of_ne_nil hname.nonempty
  have hc : c = 45 := by simpa [optionPrefix] using harg
  exact hname.noDash (by rw [hc]; rfl)

theorem dash_of_findArg {name arg : Text} (hname : Plain name) (h : optionPrefix name <+: arg) :
    (findArg (optionPrefix name) arg).2[2]? = some 45 := by
  obtain ⟨c, tail, rfl⟩ := List.exists_cons_of_ne_nil hname.nonempty
  rw [findArg_of_pre h]
  simp [optionPrefix, List.replicate_succ]

theorem findArg_other {name name' : Text} (hname : Plain name) (hname' : Plain name')
    (hne : name ≠ name') (arg : Text) :
    (findArg (optionPrefix name') (findArg (optionPrefix name) arg).2).1 =
      (findArg (optionPrefix name') arg).1 := by
  by_cases h : optionPrefix name <+: arg
  · have hother : ¬ optionPrefix name' <+: arg := fun h' =>
      hne (name_unique hname.noDot hname'.noDot h h')
    rw [findArg_of_not (not_prefix_of_dash hname' (dash_of_findArg hname h)),
      findArg_of_not hother]
  · rw [findArg_of_not h]

theorem optionsOf_other {name name' : Text} (hname : Plain name) (hname' : Plain name')
    (hne : name ≠ name') (argv : List Text) :
    optionsOf name' (findArgs name argv).2 = optionsOf name' argv := by
  simp only [optionsOf, findArgs, List.filterMap_map]
  exact List.filterMap_congr fun arg _ => findArg_other hname hname' hne arg

def untaken (argv : List Text) : Nat := argv.countP fun arg => arg[2]? ≠ some 45

theorem untaken_findArgs {name : Text} (hname : Plain name) (argv : List Text) :
    untaken (findArgs name argv).2 + (optionsOf name argv).length = untaken argv := by
  induction argv with
  | nil => rfl
  | cons arg argv ih =>
      simp only [untaken, optionsOf, findArgs, List.map_cons, List.countP_cons,
        List.filterMap_cons] at ih ⊢
      by_cases h : optionPrefix name <+: arg
      · have hdash := dash_of_findArg hname h
        have hfresh : arg[2]? ≠ some 45 := fun harg => not_prefix_of_dash hname harg h
        have htaken : decide ((findArg (optionPrefix name) arg).2[2]? ≠ some 45) = false := by
          simp [hdash]
        rw [htaken, decide_eq_true hfresh, findArg_of_pre h]
        simp only [Bool.false_eq_true, if_true, if_false, List.length_cons]
        omega
      · rw [findArg_of_not h]
        simp only at ih ⊢
        omega

theorem startSrvrs_eq {fuel count : Nat} {argv argv' : List Text}
    (hfuel : untaken argv' < fuel)
    (hargv : ∀ k, count ≤ k → optionsOf (srvr k) argv' = optionsOf (srvr k) argv) :
    ∃ n, (startSrvrs fuel count argv').1 =
        (List.range n).map (fun k => optionsOf (srvr (count + k)) argv) ∧
      optionsOf (srvr (count + n)) argv = [] ∧
      (∀ k < n, optionsOf (srvr (count + k)) argv ≠ []) ∧
      ∀ name, Plain name → (∀ k, srvr k ≠ name) →
        optionsOf name (startSrvrs fuel count argv').2 = optionsOf name argv' := by
  induction fuel generalizing count argv' with
  | zero => omega
  | succ fuel ih =>
      have hhere : (findArgs (srvr count) argv').1 = optionsOf (srvr count) argv :=
        hargv count (Nat.le_refl count)
      rw [startSrvrs]
      by_cases hnone : optionsOf (srvr count) argv = []
      · refine ⟨0, ?_, hnone, fun k hk => absurd hk (Nat.not_lt_zero k), ?_⟩
        · simp only [hhere, hnone, if_true, List.range_zero, List.map_nil]
        · intro name hname hne
          simp only [hhere, hnone, if_true]
          exact optionsOf_other (plain_srvr count) hname (hne count) argv'
      · have htaken := untaken_findArgs (plain_srvr count) argv'
        have hpositive : 0 < (optionsOf (srvr count) argv').length := by
          rw [List.length_pos_iff, show optionsOf (srvr count) argv' = _ from hhere]
          exact hnone
        have hrest : ∀ k, count + 1 ≤ k →
            optionsOf (srvr k) (findArgs (srvr count) argv').2 = optionsOf (srvr k) argv := by
          intro k hk
          have hne : srvr count ≠ srvr k := fun heq =>
            absurd (srvr_injective heq) (by omega)
          rw [optionsOf_other (plain_srvr count) (plain_srvr k) hne]
          exact hargv k (by omega)
        obtain ⟨n, hothers, hend, hall, hkeep⟩ := ih (by omega) hrest
        refine ⟨n + 1, ?_, ?_, ?_, ?_⟩
        · simp only [hhere, hnone, if_false, hothers, List.range_succ_eq_map, List.map_cons,
            List.map_map, Function.comp_def, Nat.add_zero, Nat.add_right_comm, Nat.add_assoc,
            Nat.succ_eq_add_one]
        · rw [← hend]
          congr 2
          omega
        · intro k hk
          cases k with
          | zero => exact hnone
          | succ k =>
              have := hall k (by omega)
              rwa [show count + 1 + k = count + (k + 1) by omega] at this
        · intro name hname hne
          simp only [hhere, hnone, if_false]
          rw [hkeep name hname hne]
          exact optionsOf_other (plain_srvr count) hname (hne count) argv'

def IsThread (name : Text) : Prop := name = rtr ∨ name = lgr ∨ ∃ count, name = srvr count

theorem IsThread.plain {name : Text} (h : IsThread name) : Plain name := by
  rcases h with rfl | rfl | ⟨count, rfl⟩
  · exact plain_rtr
  · exact plain_lgr
  · exact plain_srvr count

theorem main_threads (argv : List Text) :
    (main argv).rtrThread = orNone (optionsOf rtr argv) ∧
    (main argv).lgrThread = orNone (optionsOf lgr argv) ∧
    ∃ n, (main argv).srvrThreads = (List.range n).map (fun k => optionsOf (srvr k) argv) ∧
      optionsOf (srvr n) argv = [] ∧ ∀ k < n, optionsOf (srvr k) argv ≠ [] := by
  have hrest : ∀ k, 0 ≤ k →
      optionsOf (srvr k) (findArgs rtr argv).2 = optionsOf (srvr k) argv := fun k _ =>
    optionsOf_other plain_rtr (plain_srvr k) (srvr_ne k).1.symm argv
  have hfuel : untaken (findArgs rtr argv).2 < (findArgs rtr argv).2.length + 1 :=
    Nat.lt_succ_of_le List.countP_le_length
  obtain ⟨n, hservers, hend, hall, hkeep⟩ := startSrvrs_eq hfuel hrest
  simp only [Nat.zero_add] at hservers hend hall
  have hlgr := hkeep lgr plain_lgr fun k => (srvr_ne k).2
  rw [optionsOf_other plain_rtr plain_lgr (by decide)] at hlgr
  exact ⟨rfl, congrArg orNone hlgr, n, hservers, hend, hall⟩

/-- Every thread gets the options that the command line has under its name, in their order:
the router and the logger if there are any, and one server after the other up to the first
that has none, where the loop ends. No argument goes to two threads. -/
theorem threads_get_their_options (argv : List Text) :
    (main argv).rtrThread = orNone (optionsOf rtr argv) ∧
    (main argv).lgrThread = orNone (optionsOf lgr argv) ∧
    (∃ n, (main argv).srvrThreads = (List.range n).map (fun k => optionsOf (srvr k) argv) ∧
      optionsOf (srvr n) argv = [] ∧ ∀ k < n, optionsOf (srvr k) argv ≠ []) ∧
    ∀ name name', IsThread name → IsThread name' → ∀ arg : Text,
      optionPrefix name <+: arg → optionPrefix name' <+: arg → name = name' := by
  obtain ⟨hrtr, hlgr, hservers⟩ := main_threads argv
  refine ⟨hrtr, hlgr, hservers, ?_⟩
  intro name name' hname hname' arg h h'
  exact name_unique hname.plain.noDot hname'.plain.noDot h h'

def option (name rest : Text) : Text := 45 :: 45 :: (name ++ 46 :: rest)

theorem prefix_option (name rest : Text) : optionPrefix name <+: option name rest :=
  ⟨rest, by simp [optionPrefix, option]⟩

theorem optionsOf_append (name : Text) (argv argv' : List Text) :
    optionsOf name (argv ++ argv') = optionsOf name argv ++ optionsOf name argv' :=
  List.filterMap_append

theorem optionsOf_self (name : Text) (rests : List Text) :
    optionsOf name (rests.map (option name)) = rests.map fun rest => 45 :: 45 :: rest := by
  induction rests with
  | nil => rfl
  | cons rest rests ih =>
      have hdrop : (option name rest).drop (optionPrefix name).length = rest := by
        have hsplit : option name rest = optionPrefix name ++ rest := by
          simp [optionPrefix, option]
        rw [hsplit, List.drop_left]
      have hfind := findArg_of_pre (prefix_option name rest)
      simp only [optionsOf, findArgs, List.map_cons, List.filterMap_cons, hfind, hdrop] at ih ⊢
      rw [ih]

theorem optionsOf_ne {name name' : Text} (hname : Plain name) (hname' : Plain name')
    (hne : name ≠ name') (rests : List Text) : optionsOf name' (rests.map (option name)) = [] := by
  rw [optionsOf, findArgs, List.filterMap_eq_nil_iff]
  intro arg harg
  obtain ⟨rest, _, rfl⟩ := List.mem_map.mp harg
  rw [findArg_of_not fun h =>
    hne (name_unique hname.noDot hname'.noDot (prefix_option name rest) h)]

end Options

end PwrApi.PwrDaemon
