import Mathlib.Data.List.Nodup
import PwrApi.Lib.Text

/-! `getopt_long`, with an empty string of short options and long ones that all require an
argument: what its calls return one after the other. -/

namespace PwrApi.GetOpt

open Text

/-- What one call returns: an option by its place in the table, with `optarg`, or '?'. -/
inductive Result
  | option (index : Nat) (optarg : Text)
  | unknown
  deriving DecidableEq, Repr

/-- The place of a name: that of the name itself, or of the only one that begins so. -/
def lookup (names : List Text) (name : Text) : Option Nat :=
  match names.idxOf? name with
  | some index => some index
  | none =>
      match names.zipIdx.filter fun entry => name.isPrefixOf entry.1 with
      | [entry] => some entry.2
      | _ => none

/-- "--name=value", or "--name" with the value as the next argument. Other arguments are passed
over, and "--" ends the options. -/
def getoptLong (names : List Text) : List Text → List Result
  | [] => []
  | (45 :: 45 :: text) :: args =>
      if text = [] then []
      else
        let name := text.takeWhile (· ≠ 61)
        match lookup names name, text.dropWhile (· ≠ 61), args with
        | some index, _ :: optarg, args => .option index optarg :: getoptLong names args
        | some index, [], optarg :: args => .option index optarg :: getoptLong names args
        | some _, [], [] => [.unknown]
        | none, _, args => .unknown :: getoptLong names args
  | (45 :: shorts) :: args => shorts.map (fun _ => .unknown) ++ getoptLong names args
  | _ :: args => getoptLong names args

def arg (name value : Text) : Text := 45 :: 45 :: (name ++ 61 :: value)

variable {names : List Text}

theorem lookup_name (hnodup : names.Nodup) {index : Nat} {name : Text}
    (h : names[index]? = some name) : lookup names name = some index := by
  obtain ⟨hindex, hget⟩ := List.getElem?_eq_some_iff.mp h
  have hfound : names.idxOf? name = some index := by
    refine List.idxOf?_eq_some_iff.mpr ⟨hindex, hget, fun j hj heq => ?_⟩
    have hsame := (hnodup.getElem_inj_iff).mp (heq.trans hget.symm)
    exact absurd hj (by omega)
  rw [lookup, hfound]

theorem cut_name {name : Text} (hname : 61 ∉ name) (value : Text) :
    (name ++ 61 :: value).takeWhile (· ≠ 61) = name ∧
      (name ++ 61 :: value).dropWhile (· ≠ 61) = 61 :: value := by
  apply takeWhile_exact
  · intro c hc
    exact decide_eq_true fun h => hname (h ▸ hc)
  · simp

theorem getoptLong_arg (hnodup : names.Nodup) {index : Nat} {name : Text}
    (h : names[index]? = some name) (hname : 61 ∉ name) (value : Text) (args : List Text) :
    getoptLong names (arg name value :: args) =
      .option index value :: getoptLong names args := by
  obtain ⟨htake, hdrop⟩ := cut_name hname value
  rw [arg, getoptLong, if_neg (by simp)]
  simp only [htake, hdrop, lookup_name hnodup h]

theorem getoptLong_args (hnodup : names.Nodup) (hnames : ∀ name ∈ names, 61 ∉ name)
    {opts : List (Nat × Text × Text)} (hopts : ∀ opt ∈ opts, names[opt.1]? = some opt.2.1) :
    getoptLong names (opts.map fun opt => arg opt.2.1 opt.2.2) =
      opts.map fun opt => .option opt.1 opt.2.2 := by
  induction opts with
  | nil => rfl
  | cons opt opts ih =>
      have hopt := hopts opt List.mem_cons_self
      rw [List.map_cons, getoptLong_arg hnodup hopt (hnames _ (List.mem_of_getElem? hopt)),
        ih fun o ho => hopts o (List.mem_cons_of_mem opt ho), List.map_cons]

end PwrApi.GetOpt
