import PwrApi.Router.Opening

/-! What a server makes of its arguments: `initArgs` of `server.cc`, and the connection that its
constructor asks its router for. -/

namespace PwrApi.SrvrOpening

open Runs Text TcpEventChannel

/-- `Args` of `server.h`. -/
structure Args where
  port : Text
  host : Text
  pwrApiConfig : Text
  pwrApiRoot : Text
  pwrApiServer : Text
  pwrApiServerPort : Text
  name : Text
  deriving DecidableEq, Repr

def Args.start : Args := ⟨[], [], [], [], [], [], []⟩

/-- `long_options` of `server.cc`. -/
def longOptions : List Text :=
  [ofString "name", ofString "rtrPort", ofString "rtrHost", ofString "pwrApiConfig",
    ofString "pwrApiRoot", ofString "pwrApiServer", ofString "pwrApiServerPort"]

/-- The body of the loop of `initArgs`, where an unknown option only prints the usage. -/
def initArg (args : Args) : GetOpt.Result → Args
  | .option 0 optarg => { args with name := optarg }
  | .option 1 optarg => { args with port := optarg }
  | .option 2 optarg => { args with host := optarg }
  | .option 3 optarg => { args with pwrApiConfig := optarg }
  | .option 4 optarg => { args with pwrApiRoot := optarg }
  | .option 5 optarg => { args with pwrApiServer := optarg }
  | .option 6 optarg => { args with pwrApiServerPort := optarg }
  | _ => args

def initArgs (argv : List Text) : Except RouterArgs.Stop Args :=
  let args := (GetOpt.getoptLong longOptions argv).foldl initArg Args.start
  if args.port = [] ∨ args.host = [] then .error .usage else .ok args

/-- A server after its constructor: its arguments, its channel to the router and the name in
the `ServerConnectEvent` that it sends there. -/
structure Srvr where
  args : Args
  rtrChan : Opened
  connect : ObjID

/-- `Server::Server`, but for the context that it makes. -/
def startSrvr (argv : List Text) : Except RouterArgs.Stop Srvr := do
  let args ← initArgs argv
  let rtrChan ← Opening.openChannel (clientConfig args.host args.port)
  .ok ⟨args, rtrChan, args.pwrApiRoot⟩

/-- The arguments that all servers have. -/
def nodeArgs (name host port config root : Text) : List Text :=
  [GetOpt.arg (ofString "name") name, GetOpt.arg (ofString "rtrHost") host,
    GetOpt.arg (ofString "rtrPort") port, GetOpt.arg (ofString "pwrApiConfig") config,
    GetOpt.arg (ofString "pwrApiRoot") root]

/-- The arguments of a server whose context goes to a router itself. -/
def boardArgs (name host port config root server serverPort : Text) : List Text :=
  nodeArgs name host port config root ++
    [GetOpt.arg (ofString "pwrApiServer") server,
      GetOpt.arg (ofString "pwrApiServerPort") serverPort]

theorem startSrvr_of {argv : List Text} {args : Args}
    (hargv : (GetOpt.getoptLong longOptions argv).foldl initArg Args.start = args)
    (hport : args.port ≠ [] ∧ 32 ∉ args.port) (hhost : args.host ≠ [] ∧ 32 ∉ args.host) :
    startSrvr argv = .ok ⟨args, .client args.host args.port, args.pwrApiRoot⟩ := by
  have hargs : initArgs argv = .ok args := by
    simp [initArgs, hargv, hport.1, hhost.1]
  rw [startSrvr, hargs]
  simp only [bind, Except.bind, Opening.openChannel_client hhost.2 hport.2]

theorem getopt_boardArgs (name host port config root server serverPort : Text) :
    (GetOpt.getoptLong longOptions
        (boardArgs name host port config root server serverPort)).foldl initArg Args.start =
      ⟨port, host, config, root, server, serverPort, name⟩ := by
  let opts : List (Nat × Text × Text) :=
    [(0, ofString "name", name), (2, ofString "rtrHost", host), (1, ofString "rtrPort", port),
      (3, ofString "pwrApiConfig", config), (4, ofString "pwrApiRoot", root),
      (5, ofString "pwrApiServer", server), (6, ofString "pwrApiServerPort", serverPort)]
  have hopts : ∀ opt ∈ opts, longOptions[opt.1]? = some opt.2.1 := by
    intro opt hopt
    simp only [opts, List.mem_cons, List.not_mem_nil, or_false] at hopt
    rcases hopt with rfl | rfl | rfl | rfl | rfl | rfl | rfl <;> rfl
  have hnodup : longOptions.Nodup := by decide
  have hnames : ∀ name ∈ longOptions, 61 ∉ name := by decide
  have hargs := GetOpt.getoptLong_args hnodup hnames hopts
  exact congrArg (List.foldl initArg Args.start) hargs

theorem getopt_nodeArgs (name host port config root : Text) :
    (GetOpt.getoptLong longOptions (nodeArgs name host port config root)).foldl initArg Args.start =
      ⟨port, host, config, root, [], [], name⟩ := by
  let opts : List (Nat × Text × Text) :=
    [(0, ofString "name", name), (2, ofString "rtrHost", host), (1, ofString "rtrPort", port),
      (3, ofString "pwrApiConfig", config), (4, ofString "pwrApiRoot", root)]
  have hopts : ∀ opt ∈ opts, longOptions[opt.1]? = some opt.2.1 := by
    intro opt hopt
    simp only [opts, List.mem_cons, List.not_mem_nil, or_false] at hopt
    rcases hopt with rfl | rfl | rfl | rfl | rfl <;> rfl
  have hnodup : longOptions.Nodup := by decide
  have hnames : ∀ name ∈ longOptions, 61 ∉ name := by decide
  have hargs := GetOpt.getoptLong_args hnodup hnames hopts
  exact congrArg (List.foldl initArg Args.start) hargs

end PwrApi.SrvrOpening
