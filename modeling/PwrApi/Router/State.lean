import PwrApi.Wire.Events
import PwrApi.Lib.Runs
import Mathlib.Logic.Function.Basic

/-! The state of a router daemon: `router.h` and `client.cc`. Channels are opaque
names here; what is written to them is kept as a trace. -/

namespace PwrApi

open Function

abbrev RouterID := UInt32
abbrev ServerID := UInt32
abbrev AppID := UInt64

/-- `RTR_ID( x )`. -/
def rtrIdOf (x : AppID) : RouterID := (x >>> 32).toUInt32

/-- `SERVER_ID( x )`. -/
def serverIdOf (x : AppID) : ServerID := (x &&& 0xffffffff).toUInt32

/-- `APP_ID( rtr, server )`. -/
def appId (rtr : RouterID) (server : ServerID) : AppID :=
  rtr.toUInt64 <<< 32 ||| server.toUInt64

/-- `(unsigned) -1`, the server id that stands for the router itself. -/
def noServer : ServerID := 0xffffffff

/-- `(unsigned) -1` compared with an `AppID`: the comparison is on 64 bits. -/
def unrouted : AppID := 0xffffffff

theorem appId_toNat (rtr : RouterID) (server : ServerID) :
    (appId rtr server).toNat = rtr.toNat * 2 ^ 32 + server.toNat := by
  have hrtr := rtr.toNat_lt
  have hserver := server.toNat_lt
  have hshift : rtr.toNat <<< 32 % 2 ^ 64 = 2 ^ 32 * rtr.toNat := by
    rw [Nat.shiftLeft_eq, Nat.mod_eq_of_lt (by omega), Nat.mul_comm]
  simp only [appId, UInt64.toNat_or, UInt64.toNat_shiftLeft, UInt32.toNat_toUInt64]
  change rtr.toNat <<< 32 % 2 ^ 64 ||| server.toNat = _
  rw [hshift, ← Nat.two_pow_add_eq_or_of_lt hserver, Nat.mul_comm]

theorem rtrIdOf_toNat (x : AppID) : (rtrIdOf x).toNat = x.toNat / 2 ^ 32 := by
  have hx := x.toNat_lt
  simp only [rtrIdOf, UInt64.toNat_toUInt32, UInt64.toNat_shiftRight]
  change x.toNat >>> 32 % 2 ^ 32 = _
  rw [Nat.shiftRight_eq_div_pow, Nat.mod_eq_of_lt (by omega)]

theorem serverIdOf_toNat (x : AppID) : (serverIdOf x).toNat = x.toNat % 2 ^ 32 := by
  simp only [serverIdOf, UInt64.toNat_toUInt32, UInt64.toNat_and]
  change (x.toNat &&& 2 ^ 32 - 1) % 2 ^ 32 = _
  rw [Nat.and_two_pow_sub_one_eq_mod, Nat.mod_mod]

@[simp] theorem rtrIdOf_appId (rtr : RouterID) (server : ServerID) :
    rtrIdOf (appId rtr server) = rtr := by
  have hserver := server.toNat_lt
  apply UInt32.toNat_inj.mp
  rw [rtrIdOf_toNat, appId_toNat]
  omega

@[simp] theorem serverIdOf_appId (rtr : RouterID) (server : ServerID) :
    serverIdOf (appId rtr server) = server := by
  have hserver := server.toNat_lt
  apply UInt32.toNat_inj.mp
  rw [serverIdOf_toNat, appId_toNat]
  omega

theorem appId_eta (x : AppID) : appId (rtrIdOf x) (serverIdOf x) = x := by
  apply UInt64.toNat_inj.mp
  rw [appId_toNat, rtrIdOf_toNat, serverIdOf_toNat]
  omega

/-- How a step of the daemon can go wrong. -/
inductive Fault
  /-- A failed `assert` aborts the process. -/
  | assertFailed
  /-- A send on a channel that has been deleted. -/
  | deadChannel
  /-- Memory that has been freed is read. -/
  | useAfterFree
  /-- A null pointer or an index out of range. -/
  | undefined
  /-- No outcome within the bound that the model sets on nested calls. -/
  | exhausted
  deriving DecidableEq, Repr

section Checks

variable {α : Type}

/-- `assert( c )`, and the other conditions the code relies on. -/
def require (c : Prop) [Decidable c] (fault : Fault) : Except Fault Unit :=
  if c then .ok () else .error fault

def orFault (x : Option α) (fault : Fault) : Except Fault α :=
  match x with
  | some a => .ok a
  | none => .error fault

@[simp] theorem require_eq_ok {c : Prop} [Decidable c] {fault : Fault} {u : Unit} :
    require c fault = .ok u ↔ c := by
  by_cases hc : c <;> simp [require, hc]

@[simp] theorem orFault_eq_ok {x : Option α} {fault : Fault} {a : α} :
    orFault x fault = .ok a ↔ x = some a := by
  cases x <;> simp [orFault]

@[simp] theorem orFault_some (a : α) (fault : Fault) : orFault (some a) fault = .ok a := rfl

theorem require_ne_error {c : Prop} [Decidable c] {fault e : Fault} (h : fault ≠ e) :
    require c fault ≠ .error e := by
  by_cases hc : c <;> simp [require, hc, h]

theorem orFault_ne_error {x : Option α} {fault e : Fault} (h : fault ≠ e) :
    orFault x fault ≠ .error e := by
  cases x <;> simp [orFault, h]

theorem require_of {c : Prop} [Decidable c] (fault : Fault) (h : c) :
    require c fault = .ok () := by
  simp [h]

theorem forM_require_eq_ok {xs : List α} {c : α → Prop} [DecidablePred c] {fault : Fault}
    {u : Unit} : xs.forM (fun x => require (c x) fault) = .ok u ↔ ∀ x ∈ xs, c x := by
  induction xs with
  | nil => exact iff_of_true rfl (by simp)
  | cons x xs ih =>
      rw [List.forall_mem_cons, ← ih]
      constructor
      · intro h
        obtain ⟨_, hx, hxs⟩ := Runs.bind_eq_ok.mp h
        exact ⟨require_eq_ok.mp hx, hxs⟩
      · intro ⟨hx, hxs⟩
        exact Runs.bind_eq_ok.mpr ⟨(), require_of fault hx, hxs⟩

end Checks

namespace Router

abbrev ClientChan := Nat
abbrev ServerChan := Nat
abbrev RtrChan := Nat
abbrev EventPtr := Nat

/-- A channel on which router events travel. -/
inductive Chan
  | server (ec : ServerChan)
  | router (ec : RtrChan)
  deriving DecidableEq, Repr

/-- `RouterEvent` with its payload decoded; `Wire.events_round_trip` is about the
bytes between two routers. -/
structure RouterEvent (V : Type) where
  src : AppID
  dest : AppID
  payload : Payload V
  deriving DecidableEq, Repr

structure CommReqInfo (V : Type) where
  src : ClientChan
  ev : CommEvent
  grpInfo : List Nat
  pending : Nat
  valueOp : List ValueOp
  respQ : List (List (CommRespEvent V))
  resp : Payload V

/-- `Router::Client`, with the communicators in the order of their ids. -/
structure Client where
  commMap : List (CommID × CommCreateEvent)

namespace Client

def getCommList (client : Client) (id : CommID) : Except Fault (List (List ObjID)) := do
  let ev ← orFault (client.commMap.lookup id) .undefined
  .ok ev.members

def insertComm (id : CommID) (ev : CommCreateEvent) :
    List (CommID × CommCreateEvent) → List (CommID × CommCreateEvent)
  | [] => [(id, ev)]
  | (other, old) :: comms =>
      if id < other then (id, ev) :: (other, old) :: comms
      else (other, old) :: insertComm id ev comms

def addComm (client : Client) (id : CommID) (ev : CommCreateEvent) : Except Fault Client := do
  require (client.commMap.lookup id = none) .assertFailed
  .ok { commMap := insertComm id ev client.commMap }

end Client

/-- `Router::Server`. -/
structure Server where
  name : ObjID

/-- The events for other processes: those in memory with the queues that refer to
them, those written to a channel, and a record of every call of `sendEvent`. -/
structure Mail (V : Type) where
  pendingEvents : ServerID → List EventPtr
  events : EventPtr → Option (RouterEvent V)
  nextEvent : EventPtr
  written : List (Chan × RouterEvent V)
  calls : List (AppID × RouterEvent V)

end Router

open Router

structure Router (V : Type) where
  rtrId : RouterID
  routeTable : ObjID → Option AppID
  getChannel : RouterID → Option RtrChan
  localMap : ServerID → Option ServerChan
  serverMap : ServerChan → Option Server
  clientMap : ClientChan → Option Client
  infos : EventId → Option (CommReqInfo V)
  mail : Mail V
  replies : List (ClientChan × Payload V)

namespace Router

variable {V : Type}

/-- The daemon after its constructor: tables read, nobody connected. -/
def start (rtrId : RouterID) (routeTable : ObjID → Option AppID)
    (getChannel : RouterID → Option RtrChan) : Router V where
  rtrId := rtrId
  routeTable := routeTable
  getChannel := getChannel
  localMap := fun _ => none
  serverMap := fun _ => none
  clientMap := fun _ => none
  infos := fun _ => none
  mail := ⟨fun _ => [], fun _ => none, 0, [], []⟩
  replies := []

/-- The route table of the concrete runs: server 3 of router 1. -/
def oneServer : ObjID → Option AppID :=
  fun name => if name = [110] then some (appId 1 3) else none

/-- `AppID retval = -1` when the table has no entry. -/
def findRoute (rtr : Router V) (id : ObjID) : AppID :=
  (rtr.routeTable id).getD 0xffffffffffffffff

def findServerChan (rtr : Router V) (id : ServerID) : Option ServerChan :=
  if id = noServer then none else rtr.localMap id

/-- The lookup is by the whole name, the id is the low half of its route. -/
def addServer (rtr : Router V) (name : ObjID) (ec : Option ServerChan) :
    Except Fault (ServerID × Router V) := do
  let id := rtr.findRoute name
  require (id ≠ unrouted) .assertFailed
  let ec ← orFault ec .undefined
  let _ ← orFault (rtr.serverMap ec) .undefined
  .ok (serverIdOf id,
    { rtr with
      localMap := update rtr.localMap (serverIdOf id) (some ec)
      serverMap := update rtr.serverMap ec (some { name }) })

/-- Called by `~Server` with the name of the server, which it does not use. -/
def delServer (rtr : Router V) (_name : ObjID) : Router V :=
  { rtr with localMap := update rtr.localMap 0 none }

def getClient (rtr : Router V) (ec : ClientChan) : Except Fault Client :=
  orFault (rtr.clientMap ec) .assertFailed

def addClientChan (rtr : Router V) (ec : ClientChan) : Router V :=
  { rtr with clientMap := update rtr.clientMap ec (some { commMap := [] }) }

def addServerChan (rtr : Router V) (ec : ServerChan) : Router V :=
  { rtr with serverMap := update rtr.serverMap ec (some { name := [] }) }

def delServerChan (rtr : Router V) (ec : ServerChan) : Router V :=
  match rtr.serverMap ec with
  | none => rtr
  | some server =>
      let rtr := rtr.delServer server.name
      { rtr with serverMap := update rtr.serverMap ec none }

end Router

end PwrApi
