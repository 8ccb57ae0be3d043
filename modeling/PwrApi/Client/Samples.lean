import Mathlib.Algebra.Group.Basic
import PwrApi.Client.GroupCalls
import PwrApi.Server.Requests

/-! Samples of an object's device, read in this process and through a server and the
routers. -/

namespace PwrApi

open Runs

variable {V : Type}

structure HasDevice (obj : DistObject V) (attr : AttrName) (dev : Device V) : Prop where
  devices : (obj.attrInfo attr).devices = [dev]
  comm : (obj.attrInfo attr).comm = none

/-- The object is left to the server of `name`, whose object has the device. -/
structure DeviceServed (servers : ObjID → Option (Cntxt V)) (obj : DistObject V) (attr : AttrName)
    (dev : Device V) (name : ObjID) : Prop where
  comm : (obj.attrInfo attr).comm = some [name]
  server : ∃ cntxt served, servers name = some cntxt ∧ cntxt name = .ok (some served) ∧
    HasDevice served attr dev

/-- The device answers a request for `count` samples with `data` from `start` on. -/
structure Replies (dev : Device V) (attr : AttrName) (period : V) (count : UInt32)
    (start : PwrTime) (data : List V) : Prop where
  reply : dev.getSamples attr period count = (Ret.success, start, data)
  short : data.length ≤ count.toNat

/-- What a call leaves that returns exactly what the device returned. -/
def Returned (samples : Samples V) (start : PwrTime) (data : List V) : Samples V where
  start := start
  count := UInt32.ofNat data.length
  data := data ++ samples.data.drop data.length

section Paths

variable [Zero V] [Add V] {attr : AttrName} {dev : Device V} {period : V} {start : PwrTime}
  {data : List V} {samples : Samples V}

/-- The samples as the buffer of a request has them, with zeros after the last. -/
def padded (count : Nat) (data : List V) : List V :=
  data ++ List.replicate (count - data.length) 0

theorem attrGetSamples_device {obj : DistObject V} (hobj : HasDevice obj attr dev)
    (hreply : Replies dev attr period samples.count start data) :
    obj.toObject.attrGetSamples attr period samples = .ok (Ret.success,
      { samples with
        start
        data := List.zipWith (· + ·) samples.data (padded samples.count.toNat data) ++
          samples.data.drop samples.count.toNat }) := by
  have hvalid : (obj.attrInfo attr).isValid := .inl (by simp [hobj.devices])
  simp only [Object.attrGetSamples, if_pos hvalid, hobj.devices, hreply.reply,
    Object.addSamples, List.take_of_length_le hreply.short, padded, List.length_singleton,
    le_refl, require_of, bind, Except.bind]
  rfl

theorem attrGetSamples_local {obj : DistObject V} (hobj : HasDevice obj attr dev)
    (hreply : Replies dev attr period samples.count start data)
    (answer : List ObjID → CommGetSamplesReqEvent V → Except Fault (CommGetSamplesRespEvent V)) :
    obj.attrGetSamples answer attr period samples = .ok (Ret.success,
      { samples with
        start
        data := List.zipWith (· + ·) samples.data (padded samples.count.toNat data) ++
          samples.data.drop samples.count.toNat }, []) := by
  rw [DistObject.attrGetSamples, attrGetSamples_device hobj hreply]
  simp [hobj.comm, bind, Except.bind]

end Paths

section Remote

variable [AddMonoid V] {attr : AttrName} {dev : Device V} {period : V} {start : PwrTime}
  {data : List V} {samples : Samples V} {servers : ObjID → Option (Cntxt V)} {name : ObjID}

theorem length_padded {count : Nat} (hshort : data.length ≤ count) :
    (padded count data).length = count := by
  rw [padded, List.length_append, List.length_replicate]
  omega

theorem zeros_add (values : List V) :
    List.zipWith (· + ·) (List.replicate values.length 0) values = values := by
  induction values with
  | nil => rfl
  | cons value values ih =>
      rw [List.length_cons, List.replicate_succ, List.zipWith_cons_cons, zero_add, ih]

theorem serve_padded {cntxt : Cntxt V} {served : DistObject V} {count : UInt32}
    (hserver : servers name = some cntxt) (hserved : cntxt name = .ok (some served))
    (hdevice : HasDevice served attr dev) (hreply : Replies dev attr period count start data)
    (depth : Nat) (first : PwrTime) :
    serveCommGetSamplesReq servers (depth + 1) name
        (DistComm.getSamples attr first period count) =
      .ok
        { toCommEvent := Router.newCommEvent .commGetSamplesResp 0 0
          startTime := start, count, data := padded count.toNat data
          errObj := [], errAttr := [], errValue := [] } := by
  have hobject : Server.commObject cntxt name = .ok served := by
    simp [Server.commObject, hserved, bind, Except.bind]
  have hblank : Replies dev attr period
      (⟨0, count, List.replicate count.toNat 0⟩ : Samples V).count start data := hreply
  have hzeros := zeros_add (padded count.toNat data)
  rw [length_padded hreply.short] at hzeros
  have hsamples : served.toObject.attrGetSamples attr period
      ⟨0, count, List.replicate count.toNat 0⟩ =
      .ok (Ret.success, ⟨start, count, padded count.toNat data⟩) := by
    rw [attrGetSamples_device hdevice hblank]
    simp [hzeros]
  simp only [serveCommGetSamplesReq, nested, hserver, orFault_some,
    Server.processCommGetSamplesReq, hobject, DistComm.getSamples, hsamples, hdevice.comm,
    if_true, bind, Except.bind]
  rfl

theorem attrGetSamples_remote {obj : DistObject V} (hobj : DeviceServed servers obj attr dev name)
    (hreply : Replies dev attr period samples.count start data) (depth : Nat) :
    obj.attrGetSamples (routeCommGetSamplesReq (serveCommGetSamplesReq servers (depth + 1)))
        attr period samples =
      .ok (Ret.success,
        { samples with
          start
          data := padded samples.count.toNat data ++ samples.data.drop samples.count.toNat },
        []) := by
  obtain ⟨cntxt, served, hserver, hserved, hdevice⟩ := hobj.server
  have hcomm : (obj.attrInfo attr).comm ≠ none := by
    rw [hobj.comm]
    exact Option.some_ne_none _
  have hvalid : (obj.attrInfo attr).isValid := .inr hcomm
  have hown : obj.toObject.attrGetSamples attr period samples = .ok (Ret.success, samples) := by
    simp [Object.attrGetSamples, hvalid, obj.notMixed attr hcomm, require, bind, Except.bind]
  have hserve := serve_padded hserver hserved hdevice hreply depth samples.start
  have hlength : (padded samples.count.toNat data).length = samples.count.toNat :=
    length_padded hreply.short
  simp only [DistObject.attrGetSamples, hown, hobj.comm, routeCommGetSamplesReq, hserve, require,
    List.length_singleton, if_true, List.head?_cons, orFault_some, bind, Except.bind]
  simp only [DistRequest.getSamples, overlay, List.take_of_length_le hlength.le, hlength]

theorem zipWith_add_eq {G : Type} [AddGroup G] {values buf : List G}
    (hlength : values.length ≤ buf.length) :
    List.zipWith (· + ·) buf values = values ↔ ∀ x ∈ buf.take values.length, x = 0 := by
  induction values generalizing buf with
  | nil => simp
  | cons value values ih =>
      cases buf with
      | nil => exact absurd hlength (by simp)
      | cons x buf =>
          have hrest := ih (Nat.le_of_succ_le_succ hlength)
          rw [List.zipWith_cons_cons, List.cons.injEq, hrest, List.length_cons,
            List.take_succ_cons, List.forall_mem_cons, add_eq_right]

end Remote

section Both

theorem count_eq_iff {count : UInt32} {n : Nat} (hn : n ≤ count.toNat) :
    count = UInt32.ofNat n ↔ n = count.toNat := by
  have hcount := count.toNat_lt
  rw [← UInt32.toNat_inj, UInt32.toNat_ofNat']
  omega

variable [AddGroup V] {attr : AttrName} {dev : Device V} {period : V} {start : PwrTime}
  {data : List V} {samples : Samples V} {servers : ObjID → Option (Cntxt V)} {name : ObjID}

/-- What the device returned is what the call returns, in its own process and through a
server, exactly when it returned as many samples as were asked for and the buffer held
zeros for them. -/
theorem samples_returned_iff {obj remote : DistObject V} (hobj : HasDevice obj attr dev)
    (hremote : DeviceServed servers remote attr dev name)
    (hreply : Replies dev attr period samples.count start data)
    (hbuf : samples.count.toNat ≤ samples.data.length)
    (answer : List ObjID → CommGetSamplesReqEvent V → Except Fault (CommGetSamplesRespEvent V))
    (depth : Nat) :
    (obj.attrGetSamples answer attr period samples =
        .ok (Ret.success, Returned samples start data, []) ∧
      remote.attrGetSamples (routeCommGetSamplesReq (serveCommGetSamplesReq servers (depth + 1)))
          attr period samples =
        .ok (Ret.success, Returned samples start data, [])) ↔
      data.length = samples.count.toNat ∧ ∀ x ∈ samples.data.take data.length, x = 0 := by
  rw [attrGetSamples_local hobj hreply, attrGetSamples_remote hremote hreply depth]
  simp only [Returned, Except.ok.injEq, Prod.mk.injEq, Samples.mk.injEq, true_and, and_true,
    count_eq_iff hreply.short]
  constructor
  · intro ⟨⟨hcount, hdata⟩, _⟩
    refine ⟨hcount, ?_⟩
    rw [← hcount, padded, Nat.sub_self, List.replicate_zero, List.append_nil] at hdata
    exact (zipWith_add_eq (hcount ▸ hbuf)).mp (List.append_cancel_right hdata)
  · intro ⟨hcount, hzero⟩
    have hpadded : padded samples.count.toNat data = data := by
      rw [padded, hcount, Nat.sub_self, List.replicate_zero, List.append_nil]
    rw [hpadded, ← hcount, (zipWith_add_eq (hcount ▸ hbuf)).mpr hzero]
    exact ⟨⟨rfl, rfl⟩, rfl, rfl⟩

def oneSample : Device Int where
  read := fun _ _ => (Ret.success, 7, 5)
  write := fun _ _ _ => Ret.success
  logStart := none
  logStop := none
  samples := some fun _ _ _ => (Ret.success, 5, [7])

def sampled : DistObject Int where
  name := [110]
  attrInfo := fun _ => ⟨[oneSample], none, List.sum, .fpAdd⟩
  notMixed := fun _ hcomm => absurd rfl hcomm
  sameComm := fun _ _ hcomm => absurd rfl hcomm

def sampleServers : ObjID → Option (Cntxt Int) := fun _ => some fun _ => .ok (some sampled)

theorem sampled_served :
    DeviceServed sampleServers (Caching.servedHeap true) .power oneSample [110] where
  comm := rfl
  server := ⟨_, _, rfl, rfl, rfl, rfl⟩

theorem samples_returned_iff_sampled :
    (sampled.attrGetSamples (fun _ _ => .error .undefined) .power 1 ⟨0, 1, [0]⟩ =
        .ok (Ret.success, Returned ⟨0, 1, [0]⟩ 5 [7], []) ∧
      (Caching.servedHeap true).attrGetSamples
          (routeCommGetSamplesReq (serveCommGetSamplesReq sampleServers 1)) .power 1
          ⟨0, 1, [0]⟩ =
        .ok (Ret.success, Returned ⟨0, 1, [0]⟩ 5 [7], [])) ↔
      [(7 : Int)].length = 1 ∧ ∀ x ∈ [(0 : Int)].take 1, x = 0 :=
  samples_returned_iff ⟨rfl, rfl⟩ sampled_served ⟨rfl, by decide⟩ (by decide) _ 0

/-- Asked for two samples the call says two though the device returned one, and a buffer
that held 3 holds 10 after a sample of 7. -/
theorem sample_is_added :
    sampled.attrGetSamples (fun _ _ => .error .undefined) .power 1 ⟨0, 2, [0, 0]⟩ ≠
        .ok (Ret.success, Returned ⟨0, 2, [0, 0]⟩ 5 [7], []) ∧
      sampled.attrGetSamples (fun _ _ => .error .undefined) .power 1 ⟨0, 1, [3]⟩ =
        .ok (Ret.success, ⟨5, 1, [10]⟩, []) ∧
      (Caching.servedHeap true).attrGetSamples
          (routeCommGetSamplesReq (serveCommGetSamplesReq sampleServers 1)) .power 1
          ⟨0, 1, [3]⟩ =
        .ok (Ret.success, ⟨5, 1, [7]⟩, []) := by
  refine ⟨fun h => ?_, rfl, rfl⟩
  have hcount := congrArg (fun result => result.map fun r => r.2.1.count) h
  exact absurd hcount (by decide)

end Both

end PwrApi
