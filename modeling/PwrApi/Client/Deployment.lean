import PwrApi.Client.TreeSum
import PwrApi.Client.XmlConfig

/-! A client context and the server contexts that it needs, all of one configuration. -/

namespace PwrApi

open Runs

variable {V : Type}

/-- A client at `rootName`, and for every served object the server at it, each with the
devices that its process opens. -/
structure Deployment (V : Type) where
  config : Config
  rootName : ObjID
  client : ObjDev → Option (Device V)
  server : ObjID → Option (ObjDev → Option (Device V))

namespace Deployment

def cntxt (d : Deployment V) (rootName : ObjID) (device : ObjDev → Option (Device V)) :
    DistCntxt V := ⟨d.config, rootName, device⟩

variable [DivisionRing V] (d : Deployment V) {attr : AttrName}

def servers (fuel : Nat) (name : ObjID) : Option (Cntxt V) :=
  (d.server name).map fun device => (d.cntxt name device).findObject fuel

/-- `attrGetValue` on an object of the client, through all servers it takes. -/
def attrGetValue (fuel : Nat) (name : ObjID) (attr : AttrName) (buf : V × PwrTime) :
    Except Fault (Int32 × V × PwrTime) := do
  let cntxt := (d.cntxt d.rootName d.client).findObject fuel
  let found ← cntxt name
  let obj ← orFault found .undefined
  obj.attrGetValue cntxt (routeCommReq (serveCommReq (d.servers fuel) fuel)) attr buf

def AllSum (config : Config) (attr : AttrName) : Prop :=
  ∀ name type, config.objType name = .ok type → type ≠ .invalid →
    config.findAttrOp name attr = .ok "SUM" ∧ config.findAttrType name attr = .ok "Float"

variable {d}

/-- An object passes the assertions of its constructor in a context, the context's devices
read as fixed values, and each object left to a server has one. -/
structure Evaluable (tree : d.config.ObjectTree attr) (value : ObjID → ObjDev → V)
    (rootName : ObjID) (device : ObjDev → Option (Device V)) (name : ObjID) : Prop where
  created : ∃ fuel obj, (d.cntxt rootName device).findObject fuel name = .ok (some obj)
  reads : ReadsFixed (d.cntxt rootName device) tree value name
  served : ∀ fuel found, (d.cntxt rootName device).traverse attr fuel name ⟨[], []⟩ = .ok found →
    ∀ remote ∈ found.remote, d.server remote ≠ none

variable {tree : d.config.ObjectTree attr} {value : ObjID → ObjDev → V} {rootName name : ObjID}
  {device : ObjDev → Option (Device V)}

theorem Evaluable.sums (h : Evaluable tree value rootName device name)
    (hsum : AllSum d.config attr) (hattr : attr ∈ AttrName.indices) {fuel : Nat}
    {obj : DistObject V} (hobj : (d.cntxt rootName device).findObject fuel name = .ok (some obj)) :
    Sums obj attr (plainSum tree value name) ∧
      ∀ objs, (obj.attrInfo attr).comm = some objs →
        (objs.map (plainSum tree value)).sum = plainSum tree value name ∧
        ∀ remote ∈ objs, tree.branching.Reaches name remote ∧ remote ≠ rootName ∧
          d.server remote ≠ none := by
  obtain ⟨type, htype, hinvalid⟩ := (DistCntxt.findObject_eq_ok.mp hobj).1
  obtain ⟨hop, hfloat⟩ := hsum name type htype hinvalid
  have hinit := DistCntxt.findObject_attrInfo hobj hattr
  simp only [DistCntxt.initAttr, bind_eq_ok] at hinit
  obtain ⟨op, hop', type', htype', ⟨opFunc, vOp⟩, hops, hinit⟩ := hinit
  obtain rfl : op = "SUM" := Except.ok.inj (hop'.symm.trans hop)
  obtain rfl : type' = "Float" := Except.ok.inj (htype'.symm.trans hfloat)
  obtain ⟨rfl, rfl⟩ : opFunc = sumOp ∧ vOp = .fpAdd := by
    simpa [DistCntxt.initOps, eq_comm] using hops
  simp only [reduceCtorEq, if_false, bind_eq_ok, Except.ok.injEq] at hinit
  obtain ⟨found, hfound, hinfo⟩ := hinit
  obtain ⟨devices, names, hgathers, rfl⟩ := traverse_gathers h.reads hfound
  have hperm := insertNames_perm (names.append_nil.symm ▸ hgathers.nodup)
  rw [names.append_nil] at hperm
  have htotal : ∀ i, (devices.map fun device => (device.read i attr).2.1).sum +
      (names.map (plainSum tree value)).sum = plainSum tree value name := by
    intro i
    have h := hgathers.sum i
    rw [List.map_singleton, List.sum_singleton] at h
    exact h
  constructor
  · constructor
    · rw [← hinfo]
    · rw [← hinfo]
    · intro device hdevice
      rw [← hinfo] at hdevice
      exact hgathers.reads device hdevice
    · intro hnone i
      have hnames : names = [] := by
        rw [← hinfo] at hnone
        by_contra hne
        have hinsert : insertNames names [] ≠ [] := fun hnil =>
          hne (List.perm_nil.mp (hnil ▸ hperm).symm)
        simp [hinsert] at hnone
      rw [← htotal i, hnames, List.map_nil, List.sum_nil, add_zero, ← hinfo]
      rfl
  · intro objs hobjs
    have hdevices := obj.notMixed attr (by rw [hobjs]; exact Option.some_ne_none objs)
    rw [← hinfo] at hobjs hdevices
    have hinserted : insertNames names [] = objs := by
      by_cases hnil : insertNames names [] = []
      · simp [hnil] at hobjs
      · simpa [hnil] using hobjs
    rw [hinserted] at hperm
    constructor
    · rw [(hperm.map _).sum_eq, ← htotal 0]
      have hnodevices : devices = [] := hdevices
      rw [hnodevices, List.map_nil, List.sum_nil, zero_add]
    · intro remote hremote
      have hname := hperm.mem_iff.mp hremote
      obtain ⟨root, hroot, hreach⟩ := hgathers.reached remote hname
      rw [List.mem_singleton.mp hroot] at hreach
      refine ⟨hreach, hgathers.notRoot remote hname, h.served fuel _ hfound remote ?_⟩
      show remote ∈ insertNames names []
      rw [hinserted]
      exact hremote

/-- With the fuel `k` or more for its traversals and for the servers below it, the server
at `name` answers a read of its root with the sum over the root's subtree. -/
def Responds (tree : d.config.ObjectTree attr) (value : ObjID → ObjDev → V) (name : ObjID)
    (k : Nat) : Prop :=
  ∀ fuel depth, k ≤ fuel → k ≤ depth → ∀ req : CommReqEvent V, req.op = .get →
    req.attrName = [attr] →
    ∃ resp, serveCommReq (d.servers fuel) depth name req = .ok resp ∧
      Answers resp (plainSum tree value name)

theorem Evaluable.comm_answers (h : Evaluable tree value rootName device name)
    (hsum : AllSum d.config attr) (hattr : attr ∈ AttrName.indices) {fuel fuel' depth k : Nat}
    {obj : DistObject V} (hobj : (d.cntxt rootName device).findObject fuel name = .ok (some obj))
    (hrespond : ∀ remote ∈ (obj.attrInfo attr).comm.getD [], Responds tree value remote k)
    (hfuel : k ≤ fuel') (hdepth : k ≤ depth) (objs : List ObjID)
    (hobjs : (obj.attrInfo attr).comm = some objs) :
    ∃ ev, routeCommReq (serveCommReq (d.servers fuel') depth) objs
      (DistComm.getValues [attr] [.fpAdd]) = .ok ev ∧ Answers ev (plainSum tree value name) := by
  obtain ⟨_, hcomm⟩ := h.sums hsum hattr hobj
  rw [hobjs] at hrespond
  rw [← (hcomm objs hobjs).1]
  apply routeCommReq_answers
  intro remote hremote req hop hname
  exact hrespond remote hremote fuel' depth hfuel hdepth req hop hname

theorem exists_fuel_comm {P : ObjID → Nat → Prop} {comm : Option (List ObjID)}
    (h : ∀ objs, comm = some objs → ∀ remote ∈ objs, ∃ n, ∀ k, n ≤ k → P remote k) :
    ∃ n, ∀ remote ∈ comm.getD [], ∀ k, n ≤ k → P remote k := by
  cases comm with
  | none => exact exists_fuel [] fun remote hremote => absurd hremote List.not_mem_nil
  | some objs => exact exists_fuel objs (h objs rfl)

theorem serve_plainSum (hsum : AllSum d.config attr) (hattr : attr ∈ AttrName.indices)
    (hservers : ∀ name device, d.server name = some device →
      Evaluable tree value name device name) (name : ObjID) (hserver : d.server name ≠ none) :
    ∃ n, ∀ k, n ≤ k → Responds tree value name k := by
  induction name using tree.branching.induction_below with
  | step name ih =>
      obtain ⟨device, hdevice⟩ := Option.ne_none_iff_exists'.mp hserver
      have hready := hservers name device hdevice
      obtain ⟨start, obj, hobj⟩ := hready.created
      obtain ⟨hsums, hcomm⟩ := hready.sums hsum hattr hobj
      obtain ⟨below, hbelow⟩ := exists_fuel_comm fun objs hobjs remote hremote => by
        obtain ⟨hreach, hne, hserved⟩ := (hcomm objs hobjs).2 remote hremote
        exact ih remote hreach hne hserved
      refine ⟨start + below + 1, fun k hk fuel depth hfuel hdepth req hop hname => ?_⟩
      obtain ⟨depth, rfl⟩ := Nat.exists_eq_succ_of_ne_zero (show depth ≠ 0 by omega)
      have hfound : (d.cntxt name device).findObject fuel name = .ok (some obj) :=
        DistCntxt.findObject_mono (by omega) hobj
      have hserve : serveCommReq (d.servers fuel) (depth + 1) name req =
          Server.processCommReq ((d.cntxt name device).findObject fuel)
            (routeCommReq (serveCommReq (d.servers fuel) depth)) name req := by
        simp [serveCommReq, nested, servers, hdevice, bind, Except.bind]
      rw [hserve]
      apply processGet_answers hfound hsums hop hname
      exact hready.comm_answers hsum hattr hobj
        (fun remote hremote => hbelow remote hremote below le_rfl) (by omega) (by omega)

/-- A read through all contexts gives the sum of the device sources that are reached from
the object, each counted once. -/
theorem attrGetValue_plainSum (hsum : AllSum d.config attr)
    (hservers : ∀ name device, d.server name = some device →
      Evaluable tree value name device name)
    (hclient : Evaluable tree value d.rootName d.client name)
    (hvalid : ∃ fuel obj, (d.cntxt d.rootName d.client).findObject fuel name = .ok (some obj) ∧
      (obj.attrInfo attr).isValid) (buf : V × PwrTime) :
    ∃ n, ∀ fuel, n ≤ fuel → ∃ time, d.attrGetValue fuel name attr buf =
      .ok (Ret.success, plainSum tree value name, time) := by
  obtain ⟨start, obj, hobj, hvalid⟩ := hvalid
  have hattr : attr ∈ AttrName.indices := by
    by_contra hattr
    rw [DistCntxt.findObject_others hobj hattr] at hvalid
    simp [AttrInfo.isValid, AttrInfo.empty] at hvalid
  obtain ⟨hsums, hcomm⟩ := hclient.sums hsum hattr hobj
  obtain ⟨below, hbelow⟩ := exists_fuel_comm fun objs hobjs remote hremote =>
    serve_plainSum hsum hattr hservers remote ((hcomm objs hobjs).2 remote hremote).2.2
  refine ⟨start + below, fun fuel hfuel => ?_⟩
  have hfound : (d.cntxt d.rootName d.client).findObject fuel name = .ok (some obj) :=
    DistCntxt.findObject_mono (by omega) hobj
  unfold attrGetValue
  dsimp only
  rw [hfound]
  apply attrGetValue_answers hsums hvalid buf
  exact hclient.comm_answers hsum hattr hobj
    (fun remote hremote => hbelow remote hremote below le_rfl) (by omega) (by omega)

section NodeServer

/-- The platform "p" with the power of its node "p.n", which has a server and one device. -/
def nodeXml : XmlConfig where
  objects :=
    [⟨[112], "Platform", none, [⟨"POWER", some "SUM", [⟨.child, [110]⟩]⟩], [[110]], []⟩,
      ⟨[112, 46, 110], "Node", some "n-daemon",
        [⟨"POWER", some "SUM", [⟨.device, [100]⟩]⟩], [], [⟨[100], "Dummy", "0"⟩]⟩]

def nodeDevice : Device ℚ where
  read := fun _ _ => (Ret.success, 7, 0)
  write := fun _ _ _ => Ret.success
  logStart := none
  logStop := none
  samples := none

def nodeDeployment : Deployment ℚ where
  config := nodeXml.toConfig
  rootName := [112]
  client := fun _ => none
  server := fun name => if name = [112, 46, 110] then some fun _ => some nodeDevice else none

theorem nodeXml_plain : nodeXml.PlainSources .power where
  nodup := by decide
  noDot := by decide

theorem nodeXml_allSum : AllSum nodeXml.toConfig .power := by
  intro name type htype hinvalid
  obtain rfl : nodeXml.objType name = type := Except.ok.inj htype
  cases hobj : nodeXml.findObject name with
  | none => simp [XmlConfig.objType, hobj] at hinvalid
  | some obj =>
      have hattrs : ∀ obj ∈ nodeXml.objects, ∀ elm,
          XmlConfig.findAttr obj .power = some elm → elm.op = some "SUM" := by decide
      have hpower : ∀ obj ∈ nodeXml.objects, XmlConfig.findAttr obj .power ≠ none := by decide
      have hmem := List.mem_of_find?_eq_some hobj
      obtain ⟨elm, helm⟩ := Option.ne_none_iff_exists'.mp (hpower obj hmem)
      refine ⟨?_, rfl⟩
      simp [XmlConfig.toConfig, XmlConfig.findAttrOp, hobj, helm, hattrs obj hmem elm helm, bind,
        Except.bind]

theorem nodeDeployment_servers (name : ObjID) (device : ObjDev → Option (Device ℚ))
    (hserver : nodeDeployment.server name = some device) :
    nodeDeployment.Evaluable (XmlConfig.objectTree nodeXml_plain) (fun _ _ => 7) name device
      name := by
  by_cases hname : name = [112, 46, 110]
  · obtain rfl := hname
    obtain rfl : (fun _ => some nodeDevice) = device := Option.some.inj hserver
    exact {
      created := ⟨1, _, rfl⟩
      reads := fun y _ _ dev _ device hopen i => ⟨0, by rw [← Option.some.inj hopen]; rfl⟩
      served := by
        intro fuel found hfound remote hremote
        cases fuel with
        | zero => cases hfound
        | succ fuel =>
            obtain rfl : ⟨[nodeDevice], []⟩ = found := Except.ok.inj hfound
            cases hremote }
  · simp [nodeDeployment, hname] at hserver

theorem nodeDeployment_client :
    nodeDeployment.Evaluable (XmlConfig.objectTree nodeXml_plain) (fun _ _ => 7) [112]
      nodeDeployment.client [112] where
  created := ⟨2, _, rfl⟩
  reads := fun y _ _ dev _ device hopen => by cases hopen
  served := by
    intro fuel found hfound remote hremote
    match fuel with
    | 0 => cases hfound
    | 1 => cases hfound
    | fuel + 2 =>
        obtain rfl : ⟨[], [[112, 46, 110]]⟩ = found := Except.ok.inj hfound
        rw [List.mem_singleton.mp hremote]
        exact Option.some_ne_none _

theorem attrGetValue_plainSum_node :
    ∃ n, ∀ fuel, n ≤ fuel → ∃ time, nodeDeployment.attrGetValue fuel [112] .power (0, 0) =
      .ok (Ret.success, plainSum (XmlConfig.objectTree nodeXml_plain) (fun _ _ => 7) [112], time) :=
  attrGetValue_plainSum nodeXml_allSum nodeDeployment_servers nodeDeployment_client
    ⟨2, _, rfl, .inr (Option.some_ne_none _)⟩ (0, 0)

end NodeServer

end Deployment

end PwrApi
