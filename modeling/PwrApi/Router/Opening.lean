import PwrApi.Lib.GetOpt
import PwrApi.Router.CommandLine
import PwrApi.Router.TreeCore
import PwrApi.Wire.ChannelConfig

/-! What a router daemon makes of its arguments: `initArgs` on the texts themselves, the
constructor of `Router` and that of `TreeCore`, with the channels that they open. -/

namespace PwrApi.Opening

open Runs Text TcpEventChannel

/-- `long_options` of `router.cc`. -/
def longOptions : List Text :=
  [ofString "clientPort", ofString "serverPort", ofString "routerType", ofString "routerInfo",
    ofString "routerId", ofString "routeTable"]

def toOpt : GetOpt.Result → RouterArgs.Opt
  | .option 0 optarg => .clientPort optarg
  | .option 1 optarg => .serverPort optarg
  | .option 2 optarg => .routerType optarg
  | .option 3 optarg => .routerInfo optarg
  | .option 4 optarg => .routerId optarg
  | .option 5 optarg => .routeTable optarg
  | _ => .other

/-- An entry of `m_rtrLinks`, with what its two channels are opened for. -/
structure Entry where
  link : Router.Link
  send : Option Opened
  recv : Option Opened

/-- `getEventChannel` with the exception of its constructor as a fault. -/
def openChannel (config : Text) : Except RouterArgs.Stop Opened :=
  (tcpEventChannel config).mapError fun _ => .fault .undefined

/-- The body of the loop of `TreeCore::TreeCore`; the channel that a link sends on is known by
the index of the link. -/
def treeEntry (i : Nat) (link : RouterArgs.Link) : Except RouterArgs.Stop Entry :=
  if link.myListenPort = [] then .ok ⟨⟨none, 0, 0⟩, none, none⟩
  else do
    let send ← openChannel (clientConfig link.otherHost link.otherHostListenPort)
    let recv ← openChannel (listenConfig link.myListenPort)
    let nid := fun text => if i > 0 then (atoi text).toUInt32 else 0
    .ok ⟨⟨some i, nid link.nidStart, nid link.nidStop⟩, some send, some recv⟩

def treeCore (links : List RouterArgs.Link) : Except RouterArgs.Stop (List Entry) :=
  links.zipIdx.mapM fun (link, i) => treeEntry i link

/-- `TorusCore::TorusCore`, which opens both channels for every dimension. -/
def torusCore (dims : List RouterArgs.Dim) : Except RouterArgs.Stop (List (Opened × Opened)) :=
  dims.mapM fun dim => do
    let send ← openChannel (clientConfig dim.negSrvr dim.negSrvrPort)
    let recv ← openChannel (listenConfig dim.posPort)
    .ok (send, recv)

/-- `m_routerCore`, with its links. -/
inductive Core
  | tree (links : List Entry)
  | torus (dims : List (Opened × Opened))

/-- `getChannel` of the two cores: the torus takes its first dimension. -/
def Core.getChannel : Core → RouterID → Except Fault (Option Router.RtrChan)
  | tree links, id => .ok (Router.treeChannel (links.map (·.link)) id)
  | torus [], _ => .error .undefined
  | torus (_ :: _), _ => .ok (some 0)

/-- A router daemon after its constructor. -/
structure Rtr where
  rtrId : RouterID
  routeTable : Text
  client : Option Opened
  server : Option Opened
  core : Core

/-- No channel is opened for a port that is not given. -/
def openPort (port : Text) : Except RouterArgs.Stop (Option Opened) :=
  if port = [] then .ok none else (openChannel (listenConfig port)).map some

/-- The choice of the core by its arguments, which are read without a check that they exist. -/
def openCore : Option RouterArgs.CoreArgs → Except RouterArgs.Stop Core
  | some (.tree links) => (treeCore links).map .tree
  | some (.torus dims) => (torusCore dims).map .torus
  | none => .error (.fault .undefined)

/-- `Router::Router`, up to the route table. -/
def startRtr (argv : List Text) : Except RouterArgs.Stop Rtr := do
  let args ← RouterArgs.initArgs ((GetOpt.getoptLong longOptions argv).map toOpt)
  let client ← openPort args.clientPort
  let server ← openPort args.serverPort
  let core ← openCore args.coreArgs
  .ok ⟨args.rtrId, args.routeTable, client, server, core⟩

/-- `unsigned short port = atoi( .. )`. -/
def portOf (port : Text) : UInt16 := (atoi port).toUInt32.toUInt16

section Channels

theorem openChannel_client {host port : Text} (hhost : 32 ∉ host) (hport : 32 ∉ port) :
    openChannel (clientConfig host port) = .ok (.client host port) := by
  rw [openChannel, (client_iff host port).mpr ⟨hhost, hport⟩]
  rfl

theorem openChannel_listen {port : Text} (hport : 32 ∉ port) :
    openChannel (listenConfig port) = .ok (.listening port) := by
  rw [openChannel, (listen_iff port).mpr hport]
  rfl

theorem openPort_listen {port : Text} (hne : port ≠ []) (hport : 32 ∉ port) :
    openPort port = .ok (some (.listening port)) := by
  rw [openPort, if_neg hne, openChannel_listen hport]
  rfl

theorem portOf_decimal {port : Nat} (h : port < 2 ^ 16) {rest : Text}
    (hrest : ∀ c ∈ rest.head?, isDigit c = false) :
    portOf (decimal port ++ rest) = UInt16.ofNat port := by
  rw [portOf, atoi_decimal (by omega) hrest]
  apply UInt16.toNat_inj.mp
  simp only [UInt32.toNat_toUInt16, UInt32.toNat_ofNat', UInt16.toNat_ofNat']
  omega

theorem treeEntry_link {i : Nat} {link : RouterArgs.Link} (hlisten : link.myListenPort ≠ [])
    (hspace : 32 ∉ link.myListenPort ∧ 32 ∉ link.otherHost ∧ 32 ∉ link.otherHostListenPort) :
    treeEntry i link = .ok
      ⟨⟨some i, if i > 0 then (atoi link.nidStart).toUInt32 else 0,
          if i > 0 then (atoi link.nidStop).toUInt32 else 0⟩,
        some (.client link.otherHost link.otherHostListenPort),
        some (.listening link.myListenPort)⟩ := by
  rw [treeEntry, if_neg hlisten, openChannel_client hspace.2.1 hspace.2.2,
    openChannel_listen hspace.1]
  rfl

end Channels

section Arguments

def treeArgs (clientPort serverPort routerId : Text) (infos : List Text) (routeTable : Text) :
    List Text :=
  [GetOpt.arg (ofString "routerType") RouterArgs.tree,
      GetOpt.arg (ofString "clientPort") clientPort,
      GetOpt.arg (ofString "serverPort") serverPort, GetOpt.arg (ofString "routerId") routerId] ++
    infos.map (GetOpt.arg (ofString "routerInfo")) ++
    [GetOpt.arg (ofString "routeTable") routeTable]

theorem getopt_treeArgs (clientPort serverPort routerId : Text) (infos : List Text)
    (routeTable : Text) :
    (GetOpt.getoptLong longOptions (treeArgs clientPort serverPort routerId infos routeTable)).map
        toOpt =
      [.routerType RouterArgs.tree, .clientPort clientPort, .serverPort serverPort,
          .routerId routerId] ++ infos.map .routerInfo ++ [.routeTable routeTable] := by
  let opts : List (Nat × Text × Text) :=
    [(2, ofString "routerType", RouterArgs.tree), (0, ofString "clientPort", clientPort),
        (1, ofString "serverPort", serverPort), (4, ofString "routerId", routerId)] ++
      infos.map (fun info => (3, ofString "routerInfo", info)) ++
      [(5, ofString "routeTable", routeTable)]
  have hopts : ∀ opt ∈ opts, longOptions[opt.1]? = some opt.2.1 := by
    intro opt hopt
    simp only [opts, List.mem_append, List.mem_cons, List.not_mem_nil, or_false, List.mem_map]
      at hopt
    rcases hopt with ((rfl | rfl | rfl | rfl) | ⟨info, _, rfl⟩) | rfl <;> rfl
  have hnodup : longOptions.Nodup := by decide
  have hnames : ∀ name ∈ longOptions, 61 ∉ name := by decide
  have hargs := GetOpt.getoptLong_args hnodup hnames hopts
  have htexts : opts.map (fun opt => GetOpt.arg opt.2.1 opt.2.2) =
      treeArgs clientPort serverPort routerId infos routeTable := by
    simp [opts, treeArgs, Function.comp_def]
  rw [← htexts, hargs]
  simp [opts, toOpt, Function.comp_def]

theorem initArgs_infos (infos : List Text) (args : RouterArgs.Args)
    {core core' : RouterArgs.CoreArgs} (h : infos.foldlM RouterArgs.initInfo core = .ok core') :
    (infos.map RouterArgs.Opt.routerInfo).foldlM RouterArgs.initArg
        { args with coreArgs := some core } = .ok { args with coreArgs := some core' } := by
  induction infos generalizing core with
  | nil =>
      obtain rfl := Except.ok.inj h
      rfl
  | cons info infos ih =>
      rw [List.foldlM_cons, bind_eq_ok] at h
      obtain ⟨mid, hmid, hrest⟩ := h
      have hstep : RouterArgs.initArg { args with coreArgs := some core } (.routerInfo info) =
          .ok { args with coreArgs := some mid } := by
        simp [RouterArgs.initArg, hmid, Except.mapError, bind, Except.bind]
      rw [List.map_cons, List.foldlM_cons, hstep]
      exact ih hrest

theorem initArgs_tree {infos : List Text} {links : List RouterArgs.Link}
    {clientPort serverPort routerId routeTable : Text}
    (hinfos : infos.foldlM RouterArgs.initInfo (.tree []) = .ok (.tree links))
    (hid : (atoi routerId).toUInt32 ≠ 0xffffffff) (htable : routeTable ≠ []) :
    RouterArgs.initArgs ([.routerType RouterArgs.tree, .clientPort clientPort,
        .serverPort serverPort, .routerId routerId] ++ infos.map .routerInfo ++
        [.routeTable routeTable]) =
      .ok ⟨(atoi routerId).toUInt32, routeTable, serverPort, clientPort, some (.tree links)⟩ := by
  have hfront : [RouterArgs.Opt.routerType RouterArgs.tree, .clientPort clientPort,
      .serverPort serverPort, .routerId routerId].foldlM RouterArgs.initArg RouterArgs.Args.start =
      .ok ⟨(atoi routerId).toUInt32, [], serverPort, clientPort, some (.tree [])⟩ := by
    simp [RouterArgs.initArg, RouterArgs.Args.start, RouterArgs.torus, RouterArgs.tree, bind,
      Except.bind, pure, Except.pure]
  have hloop := initArgs_infos infos
    ⟨(atoi routerId).toUInt32, [], serverPort, clientPort, none⟩ hinfos
  rw [RouterArgs.initArgs, List.foldlM_append, List.foldlM_append, hfront]
  show (((infos.map RouterArgs.Opt.routerInfo).foldlM RouterArgs.initArg _).bind _).bind _ = _
  rw [hloop]
  exact if_neg (by simp [hid, htable])

theorem startRtr_tree {infos : List Text} {links : List RouterArgs.Link}
    {clientPort serverPort routerId routeTable : Text} {entries : List Entry}
    (hinfos : infos.foldlM RouterArgs.initInfo (.tree []) = .ok (.tree links))
    (hentries : treeCore links = .ok entries) (hid : (atoi routerId).toUInt32 ≠ 0xffffffff)
    (htable : routeTable ≠ []) (hclient : clientPort ≠ [] ∧ 32 ∉ clientPort)
    (hserver : serverPort ≠ [] ∧ 32 ∉ serverPort) :
    startRtr (treeArgs clientPort serverPort routerId infos routeTable) =
      .ok ⟨(atoi routerId).toUInt32, routeTable, some (.listening clientPort),
        some (.listening serverPort), .tree entries⟩ := by
  rw [startRtr, getopt_treeArgs, initArgs_tree hinfos hid htable]
  simp only [bind, Except.bind, openPort_listen hclient.1 hclient.2,
    openPort_listen hserver.1 hserver.2, openCore, hentries, Except.map]

end Arguments

section Links

theorem initTreeInfo_first {listen host : Text} (hlisten : 58 ∉ listen) (hhost : 58 ∉ host)
    (rest : Text) (links : List RouterArgs.Link) :
    RouterArgs.initTreeInfo links (decimal 0 ++ 58 :: (listen ++ 58 :: (host ++ 58 :: rest))) =
      .ok (Slots.put .blank links 0 fun old =>
        { old with
          myListenPort := listen
          otherHost := host
          otherHostListenPort := rest.take (host.length + 1) }) := by
  have hdecimal := not_mem_decimal (c := 58) (by decide) 0
  obtain ⟨hread, _, hnext⟩ := RouterArgs.atoi_index (i := 0) (by decide)
  unfold RouterArgs.initTreeInfo
  simp only [RouterArgs.cut_head hdecimal, RouterArgs.cut_tail hdecimal,
    RouterArgs.cut_head hlisten, RouterArgs.cut_tail hlisten, RouterArgs.cut_head hhost,
    RouterArgs.cut_tail hhost, RouterArgs.cut_last hhost, hread, hnext, bind, Except.bind]
  rw [if_neg (by decide)]
  exact RouterArgs.store_resize (by decide) _ _ _

end Links

end PwrApi.Opening
