import Mathlib.Data.List.TakeDrop
import PwrApi.Lib.Slots
import PwrApi.Lib.Text
import PwrApi.Router.State

/-! The options of a router daemon: `initArgs` of `router.cc`, and the texts of the links
of a tree and of the dimensions of a torus. -/

namespace PwrApi.RouterArgs

open Runs

/-- `Link` of `treeCore.h`. -/
structure Link where
  myListenPort : Text
  otherHost : Text
  otherHostListenPort : Text
  nidStart : Text
  nidStop : Text
  deriving DecidableEq, Repr

/-- `Dim` of `torusCore.h`. -/
structure Dim where
  posPort : Text
  negSrvr : Text
  negSrvrPort : Text
  deriving DecidableEq, Repr

def Link.blank : Link := ⟨[], [], [], [], []⟩

def Dim.blank : Dim := ⟨[], [], []⟩

/-- `TorusArgs` and `TreeArgs`, with `type` as the constructor. -/
inductive CoreArgs
  | torus (dim : List Dim)
  | tree (links : List Link)
  deriving DecidableEq, Repr

structure Args where
  rtrId : RouterID
  routeTable : Text
  serverPort : Text
  clientPort : Text
  coreArgs : Option CoreArgs
  deriving DecidableEq, Repr

def Args.start : Args := ⟨0xffffffff, [], [], [], none⟩

/-- What `getopt_long` returns one after the other, with `optarg`. -/
inductive Opt
  | clientPort (optarg : Text)
  | serverPort (optarg : Text)
  | routerType (optarg : Text)
  | routerInfo (optarg : Text)
  | routerId (optarg : Text)
  | routeTable (optarg : Text)
  | other
  deriving DecidableEq, Repr

/-- How `initArgs` ends the process: by the usage and `exit( -1 )`, or by a fault. -/
inductive Stop
  | usage
  | fault (fault : Fault)
  deriving DecidableEq, Repr

section Options

/-- `substr`, with its exception as a fault. -/
def cut (s : Text) (pos : Nat) (len : Option Nat) : Except Fault Text :=
  orFault (Text.substr s pos len) .undefined

/-- The assignments to the fields of `v[ i ]`. -/
def store {α : Type} (v : List α) (i : UInt32) (fields : α → α) : Except Fault (List α) := do
  require (i.toNat < v.length) .undefined
  .ok (v.modify i.toNat fields)

/-- The position for the last field is that of the colon before it, left from the string
that the colon was found in. -/
def initTreeInfo (links : List Link) (info : Text) : Except Fault (List Link) := do
  let pos := Text.findFirst 58 info
  let index ← cut info 0 pos
  let link := (Text.atoi index).toUInt32
  let links := Slots.resize Link.blank links (link + 1).toNat
  let info ← cut info (Text.next pos) none
  let pos := Text.findFirst 58 info
  let myListenPort ← cut info 0 pos
  let info ← cut info (Text.next pos) none
  let pos := Text.findFirst 58 info
  let otherHost ← cut info 0 pos
  let info ← cut info (Text.next pos) none
  if link > 0 then do
    let pos := Text.findFirst 58 info
    let otherHostListenPort ← cut info 0 pos
    let info ← cut info (Text.next pos) none
    let pos := Text.findFirst 58 info
    let nidStart ← cut info 0 pos
    let info ← cut info (Text.next pos) none
    let nidStop ← cut info 0 (some (Text.next pos))
    store links link fun _ => ⟨myListenPort, otherHost, otherHostListenPort, nidStart, nidStop⟩
  else do
    let otherHostListenPort ← cut info 0 (some (Text.next pos))
    store links link fun old => { old with myListenPort, otherHost, otherHostListenPort }

def initTorusInfo (dims : List Dim) (info : Text) : Except Fault (List Dim) := do
  let pos := Text.findFirst 58 info
  let index ← cut info 0 pos
  let dim := (Text.atoi index).toUInt32
  let dims := Slots.resize Dim.blank dims (dim + 1).toNat
  if dim.toNat < dims.length then do
    let info ← cut info (Text.next pos) none
    let pos := Text.findFirst 58 info
    let posPort ← cut info 0 pos
    let info ← cut info (Text.next pos) none
    let pos := Text.findFirst 58 info
    let negSrvr ← cut info 0 pos
    let info ← cut info (Text.next pos) none
    let negSrvrPort ← cut info 0 (some (Text.next pos))
    store dims dim fun _ => ⟨posPort, negSrvr, negSrvrPort⟩
  else .ok dims

/-- The choice between the two by the type of the core. -/
def initInfo (core : CoreArgs) (info : Text) : Except Fault CoreArgs :=
  match core with
  | .torus dim => (initTorusInfo dim info).map .torus
  | .tree links => (initTreeInfo links info).map .tree

def torus : Text := [116, 111, 114, 117, 115]

def tree : Text := [116, 114, 101, 101]

/-- The body of the loop of `initArgs`. -/
def initArg (args : Args) : Opt → Except Stop Args
  | .clientPort optarg => .ok { args with clientPort := optarg }
  | .serverPort optarg => .ok { args with serverPort := optarg }
  | .routerId optarg => .ok { args with rtrId := (Text.atoi optarg).toUInt32 }
  | .routeTable optarg => .ok { args with routeTable := optarg }
  | .routerType optarg =>
      if args.coreArgs ≠ none then .error (.fault .assertFailed)
      else if optarg = torus then .ok { args with coreArgs := some (.torus []) }
      else if optarg = tree then .ok { args with coreArgs := some (.tree []) }
      else .error (.fault .assertFailed)
  | .routerInfo optarg =>
      match args.coreArgs with
      | none => .error (.fault .assertFailed)
      | some core => do
          let core ← (initInfo core optarg).mapError Stop.fault
          .ok { args with coreArgs := some core }
  | .other => .error .usage

def initArgs (argv : List Opt) : Except Stop Args := do
  let args ← argv.foldlM initArg Args.start
  if args.rtrId = 0xffffffff ∨ args.routeTable = [] then .error .usage else .ok args

end Options

section Fields

variable {s : Text}

theorem cut_head (hs : 58 ∉ s) (rest : Text) :
    cut (s ++ 58 :: rest) 0 (Text.findFirst 58 (s ++ 58 :: rest)) = .ok s := by
  rw [cut, (Text.cut_field hs rest).1, orFault_some]

theorem cut_tail (hs : 58 ∉ s) (rest : Text) :
    cut (s ++ 58 :: rest) (Text.next (Text.findFirst 58 (s ++ 58 :: rest))) none = .ok rest := by
  rw [cut, (Text.cut_field hs rest).2, orFault_some]

theorem cut_last (hs : 58 ∉ s) (rest info : Text) :
    cut info 0 (some (Text.next (Text.findFirst 58 (s ++ 58 :: rest)))) =
      .ok (info.take (s.length + 1)) := by
  rw [cut, Text.findFirst_append hs, Text.substr_zero, orFault_some]
  rfl

theorem atoi_index {i : Nat} (hi : i < 2 ^ 31) :
    (Text.atoi (Text.decimal i)).toUInt32 = UInt32.ofNat i ∧ (UInt32.ofNat i).toNat = i ∧
      (UInt32.ofNat i + 1).toNat = i + 1 := by
  have hread : (Text.atoi (Text.decimal i ++ [])).toUInt32 = UInt32.ofNat i :=
    Text.atoi_decimal hi (by simp)
  have hvalue : (UInt32.ofNat i).toNat = i := by
    rw [UInt32.toNat_ofNat']
    omega
  rw [List.append_nil] at hread
  refine ⟨hread, hvalue, ?_⟩
  rw [UInt32.toNat_add, hvalue]
  show (i + 1) % 2 ^ 32 = i + 1
  omega

theorem store_resize {α : Type} {i : Nat} (hi : i < 2 ^ 31) (blank : α) (v : List α)
    (fields : α → α) :
    store (Slots.resize blank v (i + 1)) (UInt32.ofNat i) fields =
      .ok (Slots.put blank v i fields) := by
  have hvalue := (atoi_index hi).2.1
  have hlength : (UInt32.ofNat i).toNat < (Slots.resize blank v (i + 1)).length := by
    rw [hvalue, Slots.length_resize]
    exact Nat.lt_succ_self i
  rw [store, require_of _ hlength, hvalue]
  rfl

end Fields

section Specifications

/-- A link as the command line gives it: the first without an interval of ids. -/
structure LinkSpec where
  index : Nat
  link : Link
  index_lt : index < 2 ^ 31
  plain : 58 ∉ link.myListenPort ∧ 58 ∉ link.otherHost ∧ 58 ∉ link.otherHostListenPort ∧
    58 ∉ link.nidStart ∧ 58 ∉ link.nidStop
  filled : link.myListenPort ≠ [] ∧ link.otherHost ≠ [] ∧ link.otherHostListenPort ≠ []
  nids : if index = 0 then link.nidStart = [] ∧ link.nidStop = []
    else link.nidStart ≠ [] ∧ link.nidStop ≠ []

structure DimSpec where
  index : Nat
  dim : Dim
  index_lt : index < 2 ^ 31
  plain : 58 ∉ dim.posPort ∧ 58 ∉ dim.negSrvr ∧ 58 ∉ dim.negSrvrPort
  filled : dim.posPort ≠ [] ∧ dim.negSrvr ≠ [] ∧ dim.negSrvrPort ≠ []

namespace LinkSpec

/-- "i:listenPort:host:port", and for `i > 0` ":nidStart:nidStop". -/
def text (spec : LinkSpec) : Text :=
  Text.decimal spec.index ++ 58 :: (spec.link.myListenPort ++ 58 :: (spec.link.otherHost ++
    58 :: (spec.link.otherHostListenPort ++
      if spec.index = 0 then [] else 58 :: (spec.link.nidStart ++ 58 :: spec.link.nidStop))))

/-- The fields that the option leaves: the last is cut to one more than the length of the
field before it. -/
def stored (spec : LinkSpec) (old : Link) : Link :=
  if spec.index = 0 then
    { old with
      myListenPort := spec.link.myListenPort
      otherHost := spec.link.otherHost
      otherHostListenPort :=
        spec.link.otherHostListenPort.take (spec.link.otherHost.length + 1) }
  else { spec.link with nidStop := spec.link.nidStop.take (spec.link.nidStart.length + 1) }

/-- The last field is not longer than the one before it by more than one. -/
def Fits (spec : LinkSpec) : Prop :=
  if spec.index = 0 then
    spec.link.otherHostListenPort.length ≤ spec.link.otherHost.length + 1
  else spec.link.nidStop.length ≤ spec.link.nidStart.length + 1

theorem stored_blank_iff (spec : LinkSpec) : spec.stored .blank = spec.link ↔ spec.Fits := by
  have hnids := spec.nids
  unfold stored Fits
  by_cases hindex : spec.index = 0
  · simp only [hindex, if_true, Link.blank] at hnids ⊢
    rw [← List.take_eq_self_iff]
    cases hlink : spec.link
    simp_all
  · simp only [hindex, if_false]
    rw [← List.take_eq_self_iff]
    cases hlink : spec.link
    simp

theorem initTreeInfo_text (spec : LinkSpec) (links : List Link) :
    initTreeInfo links spec.text = .ok (Slots.put .blank links spec.index spec.stored) := by
  obtain ⟨hlisten, hhost, hport, hstart, _⟩ := spec.plain
  have hdecimal := Text.not_mem_decimal (c := 58) (by decide) spec.index
  obtain ⟨hread, hvalue, hnext⟩ := atoi_index spec.index_lt
  have hpositive : UInt32.ofNat spec.index > 0 ↔ spec.index ≠ 0 := by
    rw [gt_iff_lt, UInt32.lt_iff_toNat_lt, hvalue]
    exact Nat.pos_iff_ne_zero
  unfold initTreeInfo text
  simp only [cut_head hdecimal, cut_tail hdecimal, cut_head hlisten, cut_tail hlisten,
    cut_head hhost, cut_tail hhost, hread, hnext, hpositive, bind, Except.bind]
  by_cases hindex : spec.index = 0
  · simp only [hindex, ne_eq, not_true_eq_false, if_false, if_true, List.append_nil,
      cut_last hhost]
    rw [← hindex, store_resize spec.index_lt]
    congr 2
    funext old
    rw [stored, if_pos hindex]
  · simp only [hindex, ne_eq, not_false_eq_true, if_true, if_false, cut_head hport,
      cut_tail hport, cut_head hstart, cut_tail hstart, cut_last hstart]
    rw [store_resize spec.index_lt]
    congr 2
    funext old
    rw [stored, if_neg hindex]

end LinkSpec

namespace DimSpec

/-- "d:posPort:negSrvr:negSrvrPort". -/
def text (spec : DimSpec) : Text :=
  Text.decimal spec.index ++ 58 :: (spec.dim.posPort ++ 58 :: (spec.dim.negSrvr ++
    58 :: spec.dim.negSrvrPort))

def stored (spec : DimSpec) (_old : Dim) : Dim :=
  { spec.dim with negSrvrPort := spec.dim.negSrvrPort.take (spec.dim.negSrvr.length + 1) }

def Fits (spec : DimSpec) : Prop :=
  spec.dim.negSrvrPort.length ≤ spec.dim.negSrvr.length + 1

theorem stored_blank_iff (spec : DimSpec) : spec.stored .blank = spec.dim ↔ spec.Fits := by
  unfold stored Fits
  rw [← List.take_eq_self_iff]
  cases hdim : spec.dim
  simp

theorem initTorusInfo_text (spec : DimSpec) (dims : List Dim) :
    initTorusInfo dims spec.text = .ok (Slots.put .blank dims spec.index spec.stored) := by
  obtain ⟨hpos, hserver, _⟩ := spec.plain
  have hdecimal := Text.not_mem_decimal (c := 58) (by decide) spec.index
  obtain ⟨hread, hvalue, hnext⟩ := atoi_index spec.index_lt
  unfold initTorusInfo text
  simp only [cut_head hdecimal, cut_tail hdecimal, cut_head hpos, cut_tail hpos,
    cut_head hserver, cut_tail hserver, cut_last hserver, hread, hnext, hvalue,
    Slots.length_resize, Nat.lt_succ_self, if_true, bind, Except.bind]
  rw [store_resize spec.index_lt]
  rfl

end DimSpec

end Specifications

end PwrApi.RouterArgs
