import PwrApi.Deploy.Machine

/-! The command line of the daemon on each node: `daemon.py`, and `GetApps` of `exec.py`. The
nodes are numbered as their hosts are in `nidMap`. -/

namespace PwrApi.Daemon

open Text

section Source

/-- An index that is out of range raises an exception. -/
def host (nidMap : List Text) (i : Nat) : Option Text := nidMap[i]?

/-- `' --rtr.routerInfo={0}:{1}:..'`. -/
def routerInfo (fields : List Text) : Text :=
  ofString " --rtr.routerInfo=" ++ List.intercalate [58] fields

def calcRtrRoot (nidMap : List Text) (nodesPerBoard : Nat) : Option Text :=
  if nidMap.length = 1 then some []
  else
    let otherHostPort := 16000
    let numLinks := Machine.parts nidMap.length nodesPerBoard
    (List.range numLinks).foldlM (fun ret i => do
      let myListenPort := 16000 + i
      let otherHost ← host nidMap (i * nodesPerBoard)
      some (ret ++ routerInfo
        [decimal i, decimal myListenPort, otherHost, decimal otherHostPort, decimal i, decimal i])) []

def calcRtrLeaf (myNode : Nat) (nidMap : List Text) (nodesPerBoard rootRtr : Nat) : Option Text := do
  let routerID := myNode / nodesPerBoard
  let myListenPort := 16000
  let otherHost ← host nidMap rootRtr
  let otherHostPort := 16000 + routerID
  some (routerInfo [decimal 0, decimal myListenPort, otherHost, decimal otherHostPort])

def calcBoardRoot (myNode nodesPerBoard boardsPerCab : Nat) : Text :=
  Machine.boardName (myNode / (nodesPerBoard * boardsPerCab)) (myNode / nodesPerBoard % boardsPerCab)

def calcNodeRoot (myNode nodesPerBoard boardsPerCab : Nat) : Text :=
  calcBoardRoot myNode nodesPerBoard boardsPerCab ++ ofString ".node" ++
    decimal (myNode % nodesPerBoard)

/-- `im_a_rtr`. -/
def imARtr (myNode nodesPerBoard rootRtr : Nat) : Bool :=
  myNode = rootRtr ∨ myNode % nodesPerBoard = 0

def configRtr (myNode : Nat) (nidMap : List Text) (routeFile : Text) (nodesPerBoard rootRtr : Nat) :
    Option Text :=
  if imARtr myNode nodesPerBoard rootRtr = false then some []
  else do
    let tmp := ofString " --rtr.routerType=tree --rtr.clientPort=15000 --rtr.serverPort=15001"
    let tmp ←
      if myNode = rootRtr then do
        let rtrID :=
          if nidMap.length > 1 ∧ nidMap.length % nodesPerBoard ≠ 0 then
            nidMap.length / nodesPerBoard + 1
          else nidMap.length / nodesPerBoard
        let links ← calcRtrRoot nidMap nodesPerBoard
        some (tmp ++ ofString " --rtr.routerId=" ++ decimal rtrID ++ links)
      else do
        let links ← calcRtrLeaf myNode nidMap nodesPerBoard rootRtr
        some (tmp ++ ofString " --rtr.routerId=" ++ decimal (myNode / nodesPerBoard) ++ links)
    some (tmp ++ ofString " --rtr.routeTable=" ++ routeFile)

def configBoard (myNode : Nat) (nidMap : List Text) (config : Text)
    (nodesPerBoard boardsPerCab : Nat) : Option Text :=
  if myNode % nodesPerBoard ≠ 0 then some []
  else do
    let rtrHost ← host nidMap (myNode / nodesPerBoard * nodesPerBoard)
    some (ofString " --srvr0.name=srv0" ++ ofString " --srvr0.rtrHost=" ++ rtrHost ++
      ofString " --srvr0.rtrPort=15001" ++ ofString " --srvr0.pwrApiConfig=" ++ config ++
      ofString " --srvr0.pwrApiRoot=" ++ calcBoardRoot myNode nodesPerBoard boardsPerCab ++
      ofString " --srvr0.pwrApiServer=" ++ rtrHost ++ ofString " --srvr0.pwrApiServerPort=15000")

def configNode (myNode : Nat) (nidMap : List Text) (config : Text)
    (nodesPerBoard boardsPerCab : Nat) : Option Text := do
  let rtrHost ← host nidMap (myNode / nodesPerBoard * nodesPerBoard)
  some (ofString " --srvr.name=srvr" ++ ofString " --srvr.rtrHost=" ++ rtrHost ++
    ofString " --srvr.rtrPort=15001" ++ ofString " --srvr.pwrApiConfig=" ++ config ++
    ofString " --srvr.pwrApiRoot=" ++ calcNodeRoot myNode nodesPerBoard boardsPerCab)

variable (m : Machine)

def initDaemon (exe : Text) (myNode : Nat) (nidMap : List Text) (config routeFile : Text)
    (rootRtr : Nat) : Option Text := do
  let tmp := exe ++ [32]
  let rtr ← configRtr myNode nidMap routeFile m.nodesPerBoard rootRtr
  let node ← configNode myNode nidMap config m.nodesPerBoard m.boardsPerCab
  let board ← configBoard myNode nidMap config m.nodesPerBoard m.boardsPerCab
  some (tmp ++ rtr ++ node ++ board)

def initLogger (myNode : Nat) (nidMap : List Text) (config apiroot object attr logfile : Text) :
    Option Text := do
  let serverHost ← host nidMap myNode
  let tmp := ofString " --lgr.name=lgr" ++ ofString " --lgr.pwrApiServer=" ++ serverHost ++
    ofString " --lgr.pwrApiServerPort=" ++ decimal 15000 ++ ofString " --lgr.pwrApiConfig=" ++
    config ++ ofString " --lgr.pwrApiRoot=" ++ apiroot ++ ofString " --lgr.object=" ++ object ++
    ofString " --lgr.count=0" ++ ofString " --lgr.delay=0"
  let tmp := if attr = [] then tmp else tmp ++ ofString " --lgr.attr=" ++ attr
  some (if logfile = [] then tmp else tmp ++ ofString " --lgr.logfile=" ++ logfile)

/-- The arguments of `GetApps` that are the same for all nodes. -/
structure Run where
  config : Text
  routeFile : Text
  object : Text
  attr : Text
  logfile : Text
  daemonExe : Text
  clientExe : Text

/-- `rootRtr` of `GetApps`; without a node it is -1, and no node is asked for. -/
def rootRtr (nidMap : List Text) : Nat :=
  (if nidMap.length < m.nodesPerBoard then nidMap.length else m.nodesPerBoard) - 1

/-- The arguments of the daemon, by `GetApps`. With a client `initClient` ends the script on
the last node. -/
def getApps (run : Run) (node : Nat) (nidMap : List Text) : Option (List Text) := do
  let rootRtr := rootRtr m nidMap
  let exe ← initDaemon m run.daemonExe node nidMap run.config run.routeFile rootRtr
  let exe ←
    if run.clientExe = [] ∧ node = rootRtr then do
      let lgr ← initLogger node nidMap run.config (ofString "plat") run.object run.attr run.logfile
      some (exe ++ lgr)
    else some exe
  if run.clientExe ≠ [] ∧ nidMap.length - 1 = node then none else some (exe.splitOn 32)

end Source

section Words

def words (args : List Text) : Text := args.flatMap (32 :: ·)

/-- `--thread.name=value`. -/
def option (thread name : String) (value : Text) : Text :=
  45 :: 45 :: (ofString thread ++ 46 :: (ofString name ++ 61 :: value))

theorem words_append (args args' : List Text) : words (args ++ args') = words args ++ words args' :=
  List.flatMap_append

theorem words_option (thread name : String) (value : Text) :
    words [option thread name value] =
      32 :: 45 :: 45 :: (ofString thread ++ 46 :: (ofString name ++ [61])) ++ value := by
  simp [words, option]

theorem splitOn_words {first : Text} (hfirst : 32 ∉ first) {args : List Text}
    (hargs : ∀ arg ∈ args, 32 ∉ arg) : (first ++ words args).splitOn 32 = first :: args := by
  induction args generalizing first with
  | nil => rw [words, List.flatMap_nil, List.append_nil, List.splitOn_eq_singleton hfirst]
  | cons arg args ih =>
      rw [words, List.flatMap_cons, List.cons_append, ← words,
        List.splitOn_append_cons_self_of_not_mem hfirst, ih (hargs arg List.mem_cons_self)
          fun other hother => hargs other (List.mem_cons_of_mem arg hother)]

def rootInfo (i : Nat) (otherHost : Text) : Text :=
  List.intercalate [58]
    [decimal i, decimal (16000 + i), otherHost, decimal 16000, decimal i, decimal i]

def leafInfo (routerID : Nat) (otherHost : Text) : Text :=
  List.intercalate [58] [decimal 0, decimal 16000, otherHost, decimal (16000 + routerID)]

theorem routerInfo_eq (fields : List Text) :
    routerInfo fields = words [option "rtr" "routerInfo" (List.intercalate [58] fields)] := by
  rw [words_option, routerInfo]
  rfl

def rtrArgs (rtrID : Nat) (infos : List Text) (routeFile : Text) : List Text :=
  [option "rtr" "routerType" (ofString "tree"), option "rtr" "clientPort" (decimal 15000),
      option "rtr" "serverPort" (decimal 15001), option "rtr" "routerId" (decimal rtrID)] ++
    infos.map (option "rtr" "routerInfo") ++ [option "rtr" "routeTable" routeFile]

theorem rtrArgs_words (rtrID : Nat) (infos : List Text) (routeFile : Text) :
    words (rtrArgs rtrID infos routeFile) =
      ofString " --rtr.routerType=tree --rtr.clientPort=15000 --rtr.serverPort=15001" ++
        ofString " --rtr.routerId=" ++ decimal rtrID ++
        words (infos.map (option "rtr" "routerInfo")) ++ ofString " --rtr.routeTable=" ++
        routeFile := by
  have hfront : words [option "rtr" "routerType" (ofString "tree"),
      option "rtr" "clientPort" (decimal 15000), option "rtr" "serverPort" (decimal 15001)] =
      ofString " --rtr.routerType=tree --rtr.clientPort=15000 --rtr.serverPort=15001" := by
    decide
  have hid : words [option "rtr" "routerId" (decimal rtrID)] =
      ofString " --rtr.routerId=" ++ decimal rtrID := words_option _ _ _
  have htable : words [option "rtr" "routeTable" routeFile] =
      ofString " --rtr.routeTable=" ++ routeFile := words_option _ _ _
  have hparts : rtrArgs rtrID infos routeFile =
      [option "rtr" "routerType" (ofString "tree"), option "rtr" "clientPort" (decimal 15000),
        option "rtr" "serverPort" (decimal 15001)] ++ ([option "rtr" "routerId" (decimal rtrID)] ++
          (infos.map (option "rtr" "routerInfo") ++ [option "rtr" "routeTable" routeFile])) := by
    simp [rtrArgs]
  rw [hparts, words_append, words_append, words_append, hfront, hid, htable]
  simp only [List.append_assoc]

def nodeArgs (rtrHost config root : Text) : List Text :=
  [option "srvr" "name" (ofString "srvr"), option "srvr" "rtrHost" rtrHost,
    option "srvr" "rtrPort" (decimal 15001), option "srvr" "pwrApiConfig" config,
    option "srvr" "pwrApiRoot" root]

def boardArgs (rtrHost config root : Text) : List Text :=
  [option "srvr0" "name" (ofString "srv0"), option "srvr0" "rtrHost" rtrHost,
    option "srvr0" "rtrPort" (decimal 15001), option "srvr0" "pwrApiConfig" config,
    option "srvr0" "pwrApiRoot" root, option "srvr0" "pwrApiServer" rtrHost,
    option "srvr0" "pwrApiServerPort" (decimal 15000)]

def lgrArgs (serverHost config apiroot object attr logfile : Text) : List Text :=
  [option "lgr" "name" (ofString "lgr"), option "lgr" "pwrApiServer" serverHost,
      option "lgr" "pwrApiServerPort" (decimal 15000), option "lgr" "pwrApiConfig" config,
      option "lgr" "pwrApiRoot" apiroot, option "lgr" "object" object,
      option "lgr" "count" (decimal 0), option "lgr" "delay" (decimal 0)] ++
    (if attr = [] then [] else [option "lgr" "attr" attr]) ++
    if logfile = [] then [] else [option "lgr" "logfile" logfile]

theorem words_cons (arg next : Text) (args : List Text) :
    words (arg :: next :: args) = words [arg] ++ words (next :: args) := by
  rw [← words_append, List.singleton_append]

theorem nodeArgs_words (rtrHost config root : Text) :
    words (nodeArgs rtrHost config root) =
      ofString " --srvr.name=srvr" ++ ofString " --srvr.rtrHost=" ++ rtrHost ++
        ofString " --srvr.rtrPort=15001" ++ ofString " --srvr.pwrApiConfig=" ++ config ++
        ofString " --srvr.pwrApiRoot=" ++ root := by
  have hname : words [option "srvr" "name" (ofString "srvr")] = ofString " --srvr.name=srvr" := by
    decide
  have hport : words [option "srvr" "rtrPort" (decimal 15001)] =
      ofString " --srvr.rtrPort=15001" := by decide
  have hhost : words [option "srvr" "rtrHost" rtrHost] = ofString " --srvr.rtrHost=" ++ rtrHost :=
    words_option _ _ _
  have hconfig : words [option "srvr" "pwrApiConfig" config] =
      ofString " --srvr.pwrApiConfig=" ++ config := words_option _ _ _
  have hroot : words [option "srvr" "pwrApiRoot" root] = ofString " --srvr.pwrApiRoot=" ++ root :=
    words_option _ _ _
  simp only [nodeArgs, words_cons, hname, hport, hhost, hconfig, hroot, List.append_assoc]

theorem boardArgs_words (rtrHost config root : Text) :
    words (boardArgs rtrHost config root) =
      ofString " --srvr0.name=srv0" ++ ofString " --srvr0.rtrHost=" ++ rtrHost ++
        ofString " --srvr0.rtrPort=15001" ++ ofString " --srvr0.pwrApiConfig=" ++ config ++
        ofString " --srvr0.pwrApiRoot=" ++ root ++ ofString " --srvr0.pwrApiServer=" ++ rtrHost ++
        ofString " --srvr0.pwrApiServerPort=15000" := by
  have hname : words [option "srvr0" "name" (ofString "srv0")] = ofString " --srvr0.name=srv0" := by
    decide
  have hport : words [option "srvr0" "rtrPort" (decimal 15001)] =
      ofString " --srvr0.rtrPort=15001" := by decide
  have hhost : words [option "srvr0" "rtrHost" rtrHost] = ofString " --srvr0.rtrHost=" ++ rtrHost :=
    words_option _ _ _
  have hconfig : words [option "srvr0" "pwrApiConfig" config] =
      ofString " --srvr0.pwrApiConfig=" ++ config := words_option _ _ _
  have hroot : words [option "srvr0" "pwrApiRoot" root] = ofString " --srvr0.pwrApiRoot=" ++ root :=
    words_option _ _ _
  have hserver : words [option "srvr0" "pwrApiServer" rtrHost] =
      ofString " --srvr0.pwrApiServer=" ++ rtrHost := words_option _ _ _
  have hserverPort : words [option "srvr0" "pwrApiServerPort" (decimal 15000)] =
      ofString " --srvr0.pwrApiServerPort=15000" := by decide
  simp only [boardArgs, words_cons, hname, hport, hhost, hconfig, hroot, hserver, hserverPort,
    List.append_assoc]

theorem lgrArgs_words (serverHost config apiroot object : Text) :
    words [option "lgr" "name" (ofString "lgr"), option "lgr" "pwrApiServer" serverHost,
        option "lgr" "pwrApiServerPort" (decimal 15000), option "lgr" "pwrApiConfig" config,
        option "lgr" "pwrApiRoot" apiroot, option "lgr" "object" object,
        option "lgr" "count" (decimal 0), option "lgr" "delay" (decimal 0)] =
      ofString " --lgr.name=lgr" ++ ofString " --lgr.pwrApiServer=" ++ serverHost ++
        ofString " --lgr.pwrApiServerPort=" ++ decimal 15000 ++ ofString " --lgr.pwrApiConfig=" ++
        config ++ ofString " --lgr.pwrApiRoot=" ++ apiroot ++ ofString " --lgr.object=" ++ object ++
        ofString " --lgr.count=0" ++ ofString " --lgr.delay=0" := by
  have hname : words [option "lgr" "name" (ofString "lgr")] = ofString " --lgr.name=lgr" := by
    decide
  have hserver : words [option "lgr" "pwrApiServer" serverHost] =
      ofString " --lgr.pwrApiServer=" ++ serverHost := words_option _ _ _
  have hserverPort : words [option "lgr" "pwrApiServerPort" (decimal 15000)] =
      ofString " --lgr.pwrApiServerPort=" ++ decimal 15000 := words_option _ _ _
  have hconfig : words [option "lgr" "pwrApiConfig" config] =
      ofString " --lgr.pwrApiConfig=" ++ config := words_option _ _ _
  have hroot : words [option "lgr" "pwrApiRoot" apiroot] =
      ofString " --lgr.pwrApiRoot=" ++ apiroot := words_option _ _ _
  have hobject : words [option "lgr" "object" object] = ofString " --lgr.object=" ++ object :=
    words_option _ _ _
  have hcount : words [option "lgr" "count" (decimal 0)] = ofString " --lgr.count=0" := by decide
  have hdelay : words [option "lgr" "delay" (decimal 0)] = ofString " --lgr.delay=0" := by decide
  simp only [words_cons, hname, hserver, hserverPort, hconfig, hroot, hobject, hcount, hdelay,
    List.append_assoc]

theorem initLogger_words {nidMap : List Text} {node : Nat} {serverHost : Text}
    (hhost : host nidMap node = some serverHost) (config apiroot object attr logfile : Text) :
    initLogger node nidMap config apiroot object attr logfile =
      some (words (lgrArgs serverHost config apiroot object attr logfile)) := by
  have hattr : words (if attr = [] then [] else [option "lgr" "attr" attr]) =
      if attr = [] then [] else ofString " --lgr.attr=" ++ attr := by
    split
    · rfl
    · exact words_option _ _ _
  have hlogfile : words (if logfile = [] then [] else [option "lgr" "logfile" logfile]) =
      if logfile = [] then [] else ofString " --lgr.logfile=" ++ logfile := by
    split
    · rfl
    · exact words_option _ _ _
  rw [initLogger, hhost, lgrArgs, words_append, words_append, lgrArgs_words, hattr, hlogfile]
  by_cases hnoAttr : attr = [] <;> by_cases hnoFile : logfile = [] <;> simp [hnoAttr, hnoFile]

end Words

end PwrApi.Daemon
