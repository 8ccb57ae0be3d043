import PwrApi.Router.LinkOptions

/-! What a command line makes of the links that it specifies, in the order of its
options. -/

namespace PwrApi.RouterArgs

open Runs

def Opt.info : Opt → Option Text
  | .routerInfo optarg => some optarg
  | _ => none

/-- An option that is about neither the type of the core nor its links. -/
def Opt.Plain : Opt → Prop
  | .clientPort _ | .serverPort _ | .routerId _ | .routeTable _ => True
  | _ => False

def Opt.setId (id : RouterID) : Opt → RouterID
  | .routerId optarg => (Text.atoi optarg).toUInt32
  | _ => id

def Opt.setTable (table : Text) : Opt → Text
  | .routeTable optarg => optarg
  | _ => table

/-- A command line with one type, before all options for links, which are `infos` in this
order, and with a router id and a route table among the options. -/
structure Gives (type : Text) (infos : List Text) (argv : List Opt) : Prop where
  split : ∃ front back, argv = front ++ .routerType type :: back ∧ (∀ opt ∈ front, opt.Plain) ∧
    (∀ opt ∈ back, opt.Plain ∨ ∃ optarg, opt = .routerInfo optarg) ∧
    back.filterMap Opt.info = infos
  id : argv.foldl Opt.setId 0xffffffff ≠ 0xffffffff
  table : argv.foldl Opt.setTable [] ≠ []

theorem initArg_plain (args : Args) {opt : Opt} (hplain : opt.Plain) :
    opt.info = none ∧ ∃ args', initArg args opt = .ok args' ∧ args'.coreArgs = args.coreArgs ∧
      args'.rtrId = opt.setId args.rtrId ∧ args'.routeTable = opt.setTable args.routeTable := by
  cases opt with
  | clientPort | serverPort | routerId | routeTable => exact ⟨rfl, _, rfl, rfl, rfl, rfl⟩
  | routerType | routerInfo | other => cases hplain

theorem initArg_info (args : Args) {optarg : Text} {core core' : CoreArgs}
    (hcore : args.coreArgs = some core) (hinfo : initInfo core optarg = .ok core') :
    ∃ args', initArg args (.routerInfo optarg) = .ok args' ∧ args'.coreArgs = some core' ∧
      args'.rtrId = args.rtrId ∧ args'.routeTable = args.routeTable := by
  refine ⟨{ args with coreArgs := some core' }, ?_, rfl, rfl, rfl⟩
  simp [initArg, hcore, hinfo, Except.mapError, bind, Except.bind]

theorem initArgs_front {front : List Opt} (hfront : ∀ opt ∈ front, opt.Plain) (args : Args) :
    ∃ args', front.foldlM initArg args = .ok args' ∧ args'.coreArgs = args.coreArgs ∧
      args'.rtrId = front.foldl Opt.setId args.rtrId ∧
      args'.routeTable = front.foldl Opt.setTable args.routeTable := by
  induction front generalizing args with
  | nil => exact ⟨args, rfl, rfl, rfl, rfl⟩
  | cons opt front ih =>
      obtain ⟨_, mid, hmid, hcore, hid, htable⟩ := initArg_plain args (hfront opt List.mem_cons_self)
      obtain ⟨args', hargs', hcore', hid', htable'⟩ :=
        ih (fun o ho => hfront o (List.mem_cons_of_mem opt ho)) mid
      refine ⟨args', ?_, hcore'.trans hcore, ?_, ?_⟩
      · rw [List.foldlM_cons, hmid]
        exact hargs'
      · rw [hid', hid, List.foldl_cons]
      · rw [htable', htable, List.foldl_cons]

theorem initArgs_back {back : List Opt}
    (hback : ∀ opt ∈ back, opt.Plain ∨ ∃ optarg, opt = .routerInfo optarg) (args : Args)
    {core core' : CoreArgs} (hcore : args.coreArgs = some core)
    (hinfos : (back.filterMap Opt.info).foldlM initInfo core = .ok core') :
    ∃ args', back.foldlM initArg args = .ok args' ∧ args'.coreArgs = some core' ∧
      args'.rtrId = back.foldl Opt.setId args.rtrId ∧
      args'.routeTable = back.foldl Opt.setTable args.routeTable := by
  induction back generalizing args core with
  | nil =>
      obtain rfl := Except.ok.inj hinfos
      exact ⟨args, rfl, hcore, rfl, rfl⟩
  | cons opt back ih =>
      have hrest := fun o ho => hback o (List.mem_cons_of_mem opt ho)
      have hstep : ∃ mid core₁, initArg args opt = .ok mid ∧ mid.coreArgs = some core₁ ∧
          (back.filterMap Opt.info).foldlM initInfo core₁ = .ok core' ∧
          mid.rtrId = opt.setId args.rtrId ∧ mid.routeTable = opt.setTable args.routeTable := by
        rcases hback opt List.mem_cons_self with hplain | ⟨optarg, rfl⟩
        · obtain ⟨hnone, mid, hmid, hmidcore, hid, htable⟩ := initArg_plain args hplain
          rw [List.filterMap_cons_none hnone] at hinfos
          exact ⟨mid, core, hmid, hmidcore.trans hcore, hinfos, hid, htable⟩
        · rw [List.filterMap_cons_some (show Opt.info (.routerInfo optarg) = some optarg from rfl),
            List.foldlM_cons, bind_eq_ok] at hinfos
          obtain ⟨core₁, hcore₁, hinfos⟩ := hinfos
          obtain ⟨mid, hmid, hmidcore, hid, htable⟩ := initArg_info args hcore hcore₁
          exact ⟨mid, core₁, hmid, hmidcore, hinfos, hid, htable⟩
      obtain ⟨mid, core₁, hmid, hmidcore, hinfos, hid, htable⟩ := hstep
      obtain ⟨args', hargs', hcore', hid', htable'⟩ := ih hrest mid hmidcore hinfos
      refine ⟨args', ?_, hcore', ?_, ?_⟩
      · rw [List.foldlM_cons, hmid]
        exact hargs'
      · rw [hid', hid, List.foldl_cons]
      · rw [htable', htable, List.foldl_cons]

theorem initArgs_gives {type : Text} {infos : List Text} {argv : List Opt}
    (h : Gives type infos argv) {core core' : CoreArgs}
    (htype : ∀ args : Args, args.coreArgs = none →
      initArg args (.routerType type) = .ok { args with coreArgs := some core })
    (hinfos : infos.foldlM initInfo core = .ok core') :
    ∃ args, initArgs argv = .ok args ∧ args.coreArgs = some core' := by
  obtain ⟨front, back, rfl, hfront, hback, rfl⟩ := h.split
  obtain ⟨mid, hmid, hnone, hid, htable⟩ := initArgs_front hfront Args.start
  obtain ⟨args, hargs, hcore, hid', htable'⟩ :=
    initArgs_back hback { mid with coreArgs := some core } rfl hinfos
  refine ⟨args, ?_, hcore⟩
  have hloop : (front ++ .routerType type :: back).foldlM initArg Args.start = .ok args := by
    rw [List.foldlM_append, hmid]
    show List.foldlM initArg mid (.routerType type :: back) = .ok args
    rw [List.foldlM_cons, htype mid hnone]
    exact hargs
  have hsettled : ¬ (args.rtrId = 0xffffffff ∨ args.routeTable = []) := by
    have hargvId := h.id
    have hargvTable := h.table
    rw [List.foldl_append, List.foldl_cons] at hargvId hargvTable
    rw [hid', htable']
    simp only [hid, htable]
    rintro (heq | heq)
    · exact hargvId heq
    · exact hargvTable heq
  rw [initArgs, hloop]
  exact if_neg hsettled

theorem initInfo_tree (specs : List LinkSpec) (links : List Link) :
    (specs.map LinkSpec.text).foldlM initInfo (.tree links) = .ok (.tree
      (specs.foldl (fun v spec => Slots.put .blank v spec.index spec.stored) links)) := by
  induction specs generalizing links with
  | nil => rfl
  | cons spec specs ih =>
      rw [List.map_cons, List.foldlM_cons, initInfo, spec.initTreeInfo_text]
      exact ih _

theorem initInfo_torus (specs : List DimSpec) (dims : List Dim) :
    (specs.map DimSpec.text).foldlM initInfo (.torus dims) = .ok (.torus
      (specs.foldl (fun v spec => Slots.put .blank v spec.index spec.stored) dims)) := by
  induction specs generalizing dims with
  | nil => rfl
  | cons spec specs ih =>
      rw [List.map_cons, List.foldlM_cons, initInfo, spec.initTorusInfo_text]
      exact ih _

/-- After the command line the links of the tree are those specified. -/
def HasLinks (argv : List Opt) (specs : List LinkSpec) : Prop :=
  ∃ args links, initArgs argv = .ok args ∧ args.coreArgs = some (.tree links) ∧
    ∀ spec ∈ specs, links[spec.index]? = some spec.link

def HasDims (argv : List Opt) (specs : List DimSpec) : Prop :=
  ∃ args dims, initArgs argv = .ok args ∧ args.coreArgs = some (.torus dims) ∧
    ∀ spec ∈ specs, dims[spec.index]? = some spec.dim

theorem hasLinks_iff {argv : List Opt} {specs : List LinkSpec}
    (hargv : Gives tree (specs.map LinkSpec.text) argv) :
    HasLinks argv specs ↔ ∀ spec ∈ specs,
      (Slots.puts .blank LinkSpec.index LinkSpec.stored specs)[spec.index]? = some spec.link := by
  obtain ⟨args, hargs, hcore⟩ := initArgs_gives hargv
    (fun args hnone => by simp [initArg, hnone, torus, tree]) (initInfo_tree specs [])
  constructor
  · intro ⟨args', links, hargs', hcore', hlinks⟩
    obtain rfl := Except.ok.inj (hargs.symm.trans hargs')
    rw [hcore] at hcore'
    obtain rfl := CoreArgs.tree.inj (Option.some.inj hcore')
    exact hlinks
  · exact fun hlinks => ⟨args, _, hargs, hcore, hlinks⟩

theorem hasDims_iff {argv : List Opt} {specs : List DimSpec}
    (hargv : Gives torus (specs.map DimSpec.text) argv) :
    HasDims argv specs ↔ ∀ spec ∈ specs,
      (Slots.puts .blank DimSpec.index DimSpec.stored specs)[spec.index]? = some spec.dim := by
  obtain ⟨args, hargs, hcore⟩ := initArgs_gives hargv
    (fun args hnone => by simp [initArg, hnone]) (initInfo_torus specs [])
  constructor
  · intro ⟨args', dims, hargs', hcore', hdims⟩
    obtain rfl := Except.ok.inj (hargs.symm.trans hargs')
    rw [hcore] at hcore'
    obtain rfl := CoreArgs.torus.inj (Option.some.inj hcore')
    exact hdims
  · exact fun hdims => ⟨args, _, hargs, hcore, hdims⟩

theorem link_ne_blank (spec : LinkSpec) : spec.link ≠ .blank := by
  intro hblank
  exact spec.filled.1 (by rw [hblank]; rfl)

theorem dim_ne_blank (spec : DimSpec) : spec.dim ≠ .blank := by
  intro hblank
  exact spec.filled.1 (by rw [hblank]; rfl)

/-- What the options specify: the links of a tree, or the dimensions of a torus. -/
inductive Specs
  | links (specs : List LinkSpec)
  | dims (specs : List DimSpec)

namespace Specs

def type : Specs → Text
  | links _ => tree
  | dims _ => torus

def texts : Specs → List Text
  | links specs => specs.map LinkSpec.text
  | dims specs => specs.map DimSpec.text

def indices : Specs → List Nat
  | links specs => specs.map LinkSpec.index
  | dims specs => specs.map DimSpec.index

def Fit : Specs → Prop
  | links specs => ∀ spec ∈ specs, spec.Fits
  | dims specs => ∀ spec ∈ specs, spec.Fits

def Arrive (argv : List Opt) : Specs → Prop
  | links specs => HasLinks argv specs
  | dims specs => HasDims argv specs

end Specs

/-- The links of a tree and the dimensions of a torus arrive as they are given exactly when
their options come in the order of the indices and no last field is too long for the
position left of the field before it. -/
theorem options_kept_iff {argv : List Opt} {specs : Specs} (hnodup : specs.indices.Nodup)
    (hargv : Gives specs.type specs.texts argv) :
    specs.Arrive argv ↔ specs.indices.Pairwise (· < ·) ∧ specs.Fit := by
  cases specs with
  | links specs =>
      have hindices : (specs.map LinkSpec.index).Nodup := hnodup
      simp only [Specs.Arrive, Specs.indices, Specs.Fit]
      rw [hasLinks_iff hargv, Slots.puts_kept_iff hindices fun spec _ => link_ne_blank spec]
      simp only [LinkSpec.stored_blank_iff]
  | dims specs =>
      have hindices : (specs.map DimSpec.index).Nodup := hnodup
      simp only [Specs.Arrive, Specs.indices, Specs.Fit]
      rw [hasDims_iff hargv, Slots.puts_kept_iff hindices fun spec _ => dim_ne_blank spec]
      simp only [DimSpec.stored_blank_iff]

/-- `--routerId=1 --routeTable=t --routerType=.. --routerInfo=..` for each text. -/
def commandLine (type : Text) (infos : List Text) : List Opt :=
  .routerId [49] :: .routeTable [116] :: .routerType type :: infos.map .routerInfo

theorem gives_commandLine (type : Text) (infos : List Text) :
    Gives type infos (commandLine type infos) := by
  have hplain : ∀ (id : RouterID) (table : Text),
      (infos.map Opt.routerInfo).foldl Opt.setId id = id ∧
      (infos.map Opt.routerInfo).foldl Opt.setTable table = table := by
    intro id table
    induction infos with
    | nil => exact ⟨rfl, rfl⟩
    | cons info infos ih => exact ih
  constructor
  · refine ⟨[.routerId [49], .routeTable [116]], infos.map .routerInfo, rfl, ?_, ?_, ?_⟩
    · simp [Opt.Plain]
    · intro opt hopt
      obtain ⟨optarg, _, rfl⟩ := List.mem_map.mp hopt
      exact .inr ⟨optarg, rfl⟩
    · simp [List.filterMap_map, Function.comp_def, Opt.info]
  · show (infos.map Opt.routerInfo).foldl Opt.setId 1 ≠ 0xffffffff
    rw [(hplain 1 []).1]
    decide
  · show (infos.map Opt.routerInfo).foldl Opt.setTable [116] ≠ []
    rw [(hplain 1 [116]).2]
    decide

/-- "0:1:h:1", a link to the parent. -/
def upLink : LinkSpec where
  index := 0
  link := ⟨[49], [104], [49], [], []⟩
  index_lt := by decide
  plain := by decide
  filled := by decide
  nids := by decide

/-- "1:2:c:2:0:0", a link to a child. -/
def downLink : LinkSpec where
  index := 1
  link := ⟨[50], [99], [50], [48], [48]⟩
  index_lt := by decide
  plain := by decide
  filled := by decide
  nids := by decide

/-- "0:1:h:100", with a port of three digits on a host of one letter. -/
def portLink : LinkSpec where
  index := 0
  link := ⟨[49], [104], [49, 48, 48], [], []⟩
  index_lt := by decide
  plain := by decide
  filled := by decide
  nids := by decide

/-- "0:1:h:1". -/
def oneDim : DimSpec where
  index := 0
  dim := ⟨[49], [104], [49]⟩
  index_lt := by decide
  plain := by decide
  filled := by decide

/-- "1:2:c:2". -/
def twoDim : DimSpec where
  index := 1
  dim := ⟨[50], [99], [50]⟩
  index_lt := by decide
  plain := by decide
  filled := by decide

theorem options_kept_iff_two :
    ((Specs.links [upLink, downLink]).Arrive
        (commandLine tree ([upLink, downLink].map LinkSpec.text)) ↔
      [0, 1].Pairwise (· < ·) ∧ ∀ spec ∈ [upLink, downLink], spec.Fits) ∧
    ((Specs.dims [twoDim, oneDim]).Arrive
        (commandLine torus ([twoDim, oneDim].map DimSpec.text)) ↔
      [1, 0].Pairwise (· < ·) ∧ ∀ spec ∈ [twoDim, oneDim], spec.Fits) := by
  have hlinks : (Specs.links [upLink, downLink]).indices.Nodup := by decide
  have hdims : (Specs.dims [twoDim, oneDim]).indices.Nodup := by decide
  constructor
  · exact options_kept_iff hlinks (gives_commandLine tree _)
  · exact options_kept_iff hdims (gives_commandLine torus _)

/-- The option of link 0 removes the link 1 before it, and a port is cut to the length of
its host and one more. -/
theorem links_are_lost :
    ¬ HasLinks (commandLine tree ([downLink, upLink].map LinkSpec.text)) [downLink, upLink] ∧
      ¬ HasLinks (commandLine tree ([portLink].map LinkSpec.text)) [portLink] := by
  constructor
  · rw [hasLinks_iff (gives_commandLine tree _)]
    decide
  · rw [hasLinks_iff (gives_commandLine tree _)]
    decide

end PwrApi.RouterArgs
