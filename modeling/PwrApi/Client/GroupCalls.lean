import PwrApi.Client.DistGroup
import PwrApi.Lib.Memory
import PwrApi.Server.Requests

/-! The attribute calls of a group (`distGroup.cc`), with the communicator that the first
of them makes (`distGrpComm.cc`). -/

namespace PwrApi

open Memory Runs

variable {V α : Type}

/-- `DistRequest::getValue`, where `value` are the places in the buffers of the caller
that the request points to. -/
def DistRequest.getValueAt (cntxt : Cntxt V) (value : List Nat) (buf : Nat → V × PwrTime)
    (status : Status) (ev : CommRespEvent V) : Except Fault ((Nat → V × PwrTime) × Status) := do
  require (value.length = ev.value.length) .assertFailed
  let cells := (ev.value.zip ev.timeStamp).map fun (values, times) => values.zip times
  let status ← addErrors cntxt status ev.errObj ev.errAttr ev.errValue
  .ok (writeRows buf (value.zip cells), status)

/-- The order in which the answers of the sources come to the router, for each group of a
request. -/
structure Arrivals where
  order : Nat → List ObjID → List ObjID
  perm : ∀ i objs, (order i objs).Perm objs

namespace Arrivals

def inOrder : Arrivals := ⟨fun _ objs => objs, fun _ objs => .refl objs⟩

def last (obj : ObjID) : Arrivals where
  order _ objs := objs.filter (fun name => name ≠ obj) ++ objs.filter fun name => name = obj
  perm _ objs := by
    simpa using List.filter_append_perm (fun name => decide (name ≠ obj)) objs

theorem last_getLast {obj : ObjID} {objs : List ObjID} (h : obj ∈ objs) (i : Nat) :
    ((last obj).order i objs).getLast? = some obj := by
  have hmem : obj ∈ objs.filter fun name => name = obj := List.mem_filter.mpr ⟨h, by simp⟩
  have hne := List.ne_nil_of_mem hmem
  rw [last, List.getLast?_append_of_ne_nil _ hne, List.getLast?_eq_some_getLast hne]
  exact congrArg some (by simpa using (List.mem_filter.mp (List.getLast_mem hne)).2)

end Arrivals

/-- The servers as one request finds them: what each object answers, and when. -/
structure Servers (V : Type) extends Arrivals where
  answer : ObjID → CommReqEvent V → Except Fault (CommRespEvent V)

/-- The router's part for a communicator of several groups, which it completes one after
the other. -/
def routeGrpReq [Zero V] [Add V] (remote : Servers V) (commList : List (List ObjID))
    (ev : CommReqEvent V) : Except Fault (CommRespEvent V) := do
  let info := Router.newCommReqInfo 0 ev 0 commList
  match info.resp with
  | .commResp resp =>
      commList.zipIdx.foldlM (fun resp (group, i) => do
        let answers ← (remote.order i group).mapM fun obj =>
          remote.answer obj { ev with grpIndex := UInt64.ofNat i }
        Router.mergeGroup info resp i answers) resp
  | _ => .error .undefined

def DistObject.sources (obj : DistObject V) : List ObjID := obj.getComm.getD []

namespace DistGrp

section Calls

variable [Zero V] (heap : α → DistObject V) (cntxt : Cntxt V)
  (answer : List (List ObjID) → CommReqEvent V → Except Fault (CommRespEvent V))

/-- `m_comm` after `if ( ! m_comm ) m_comm = new DistGrpComm( m_ctx, m_distObjs )`. -/
def useComm (grp : DistGrp α) : List (List ObjID) :=
  grp.comm.getD (grp.distObjs.map fun obj => (heap obj).sources)

/-- `m_list[i]->attrGetValues( num, attr, ptr + i * num, ts + i * num, status )`. -/
def getValuesLocal (names : List AttrName) (read : (Nat → V × PwrTime) × Status) (obj : α)
    (i : Nat) : Except Fault ((Nat → V × PwrTime) × Status) := do
  let num := names.length
  let (_, row, errors) ← (heap obj).attrGetValues cntxt (fun objs => answer [objs]) names
    (readRow read.1 (i * num) num)
  .ok (writeRow read.1 (i * num) row, read.2 ++ errors)

/-- `DistGrp::attrGetValues`. A local member returns no code that ends the first loop. -/
def attrGetValues (grp : DistGrp α) (names : List AttrName) (buf : Nat → V × PwrTime)
    (status : Status) : Except Fault (Int32 × DistGrp α × (Nat → V × PwrTime) × Status) := do
  let (buf, status) ← grp.list.zipIdx.foldlM
    (fun read (obj, i) => getValuesLocal heap cntxt answer names read obj i) (buf, status)
  match grp.distObjs with
  | [] => .ok (Status.retval status, grp, buf, status)
  | first :: _ => do
      let valueOp := names.map fun name => ((heap first).attrInfo name).valueOp
      let comm := grp.useComm heap
      -- every remote member is also in `m_allObjs`, but the place is that in `m_distObjs`
      let value := (List.range grp.distObjs.length).map fun i => i * valueOp.length
      let ev ← answer comm (DistComm.getValues names valueOp)
      let (buf, status) ← DistRequest.getValueAt cntxt value buf status ev
      .ok (status.retval, { grp with comm := some comm }, buf, status)

/-- `DistGrp::attrSetValues`. -/
def attrSetValues (grp : DistGrp α) (values : List (AttrName × V)) (status : Status) :
    Except Fault (Int32 × DistGrp α × Status) := do
  let status ← grp.list.foldlM (fun status obj => do
    let (_, errors) ← (heap obj).attrSetValues cntxt (fun objs => answer [objs]) values
    .ok (status ++ errors)) status
  match grp.distObjs with
  | [] => .ok (Status.retval status, grp, status)
  | _ :: _ => do
      let comm := grp.useComm heap
      let ev ← answer comm (DistComm.setValues values)
      let status ← DistRequest.setValue cntxt status ev
      .ok (status.retval, { grp with comm := some comm }, status)

end Calls

end DistGrp

section Groups

variable [AddMonoid V]

theorem routeGrpReq_length {remote : Servers V} {commList : List (List ObjID)}
    {ev : CommReqEvent V} {resp : CommRespEvent V}
    (hop : ev.op = .get) (h : routeGrpReq remote commList ev = .ok resp) :
    resp.value.length = commList.length := by
  simp only [routeGrpReq, Router.newCommReqInfo] at h
  apply foldlM_preserves (fun resp => resp.value.length = commList.length) _ _ _ h
  · intro resp entry resp' _ hlength hmerge
    obtain ⟨answers, _, hmerge⟩ := bind_eq_ok.mp hmerge
    have hvalue := (Router.mergeGroup_ok hmerge).2.2.2.2.1 hop
    rw [hvalue.1, List.length_set, hlength]
  · simp [hop]

end Groups

/-- The calls on one group: its members are added, read and written. A read or a write
comes with the buffers of its caller and with what the servers answer to it. -/
inductive GroupCall (V α : Type)
  | add (obj : α)
  | attrGetValues (remote : Servers V) (names : List AttrName) (buf : Nat → V × PwrTime)
      (status : Status)
  | attrSetValues (remote : Servers V) (values : List (AttrName × V)) (status : Status)

/-- A group with the remote members that were added since its communicator was made. -/
structure Caching (α : Type) where
  grp : DistGrp α
  late : List α

namespace Caching

section Model

variable [DecidableEq α] [Zero V] [Add V] (heap : α → DistObject V) (cntxt : Cntxt V)

def start : Caching α := ⟨.empty, []⟩

def addObj (s : Caching α) (obj : α) : Caching α where
  grp := (s.grp.add heap obj).2
  late :=
    if s.grp.comm = none ∨ (heap obj).isLocal ∨ obj ∈ s.grp.distObjs then s.late
    else s.late ++ [obj]

def step (s : Caching α) (call : GroupCall V α) (s' : Caching α) : Prop :=
  match call with
  | .add obj => s' = s.addObj heap obj
  | .attrGetValues remote names buf status => ∃ retval grp buf' status',
      s.grp.attrGetValues heap cntxt (routeGrpReq remote) names buf status =
        .ok (retval, grp, buf', status') ∧ s' = { s with grp }
  | .attrSetValues remote values status => ∃ retval grp status',
      s.grp.attrSetValues heap cntxt (routeGrpReq remote) values status =
        .ok (retval, grp, status') ∧ s' = { s with grp }

/-- The communicator that a call with remote members uses has them all in order, and every
response to a read has as many rows as the request has places. -/
def Follows (s : Caching α) : GroupCall V α → Prop
  | .add _ => True
  | .attrGetValues remote names _ _ =>
      s.grp.distObjs ≠ [] →
        s.grp.useComm heap = s.grp.distObjs.map (fun obj => (heap obj).sources) ∧
        ∀ valueOp ev,
          routeGrpReq remote (s.grp.useComm heap) (DistComm.getValues names valueOp) = .ok ev →
          s.grp.distObjs.length = ev.value.length
  | .attrSetValues _ _ _ =>
      s.grp.distObjs ≠ [] →
        s.grp.useComm heap = s.grp.distObjs.map fun obj => (heap obj).sources

def Fresh (s : Caching α) : GroupCall V α → Prop
  | .add _ => True
  | .attrGetValues _ _ _ _ | .attrSetValues _ _ _ => s.late = []

structure Cached (s : Caching α) : Prop where
  late : s.grp.comm = none → s.late = []
  early : ∃ early, s.grp.distObjs = early ++ s.late ∧
    ∀ comm, s.grp.comm = some comm → comm = early.map fun obj => (heap obj).sources

end Model

variable {heap : α → DistObject V} {cntxt : Cntxt V} {s s' : Caching α}

theorem cached_start : Cached heap (start : Caching α) where
  late := fun _ => rfl
  early := ⟨[], rfl, fun _ h => by cases h⟩

theorem Cached.addObj [DecidableEq α] (hs : Cached heap s) (obj : α) :
    Cached heap (s.addObj heap obj) := by
  obtain ⟨early, hdist, hcomm⟩ := hs.early
  cases hlocal : (heap obj).isLocal with
  | true =>
      have hadd : s.addObj heap obj =
          ⟨{ s.grp with list := (Grp.add s.grp.list obj).2, allObjs := s.grp.allObjs ++ [obj] },
            s.late⟩ := by
        simp [Caching.addObj, DistGrp.add_local hlocal, hlocal]
      rw [hadd]
      exact ⟨hs.late, early, hdist, hcomm⟩
  | false =>
      by_cases hmem : obj ∈ s.grp.distObjs
      · have hadd : s.addObj heap obj = s := by
          simp [Caching.addObj, DistGrp.add_known hlocal hmem, hmem]
        rw [hadd]
        exact hs
      · have hgrp : s.grp.add heap obj = _ := DistGrp.add_remote hlocal hmem
        by_cases hnone : s.grp.comm = none
        · have hlate := hs.late hnone
          rw [Caching.addObj, hgrp, if_pos (.inl hnone)]
          refine ⟨fun _ => hlate, early ++ [obj], ?_, fun comm h => ?_⟩
          · rw [hdist, hlate, List.append_nil, List.append_nil]
          · rw [hnone] at h
            cases h
        · rw [Caching.addObj, hgrp, if_neg (by simp [hnone, hlocal, hmem])]
          refine ⟨fun h => absurd h hnone, early, ?_, hcomm⟩
          rw [hdist, List.append_assoc]

theorem Cached.useComm (hs : Cached heap s) :
    Cached heap { s with grp := { s.grp with comm := some (s.grp.useComm heap) } } where
  late := fun h => by cases h
  early := by
    obtain ⟨early, hdist, hcomm⟩ := hs.early
    refine ⟨early, hdist, fun comm h => ?_⟩
    obtain rfl := Option.some.inj h
    cases hsome : s.grp.comm with
    | none =>
        rw [hs.late hsome, List.append_nil] at hdist
        rw [DistGrp.useComm, hsome, hdist]
        rfl
    | some comm =>
        rw [DistGrp.useComm, hsome]
        exact hcomm comm hsome

variable [Zero V] [Add V]

theorem Cached.step [DecidableEq α] (hs : Cached heap s) {call : GroupCall V α}
    (h : step heap cntxt s call s') : Cached heap s' := by
  cases call with
  | add obj =>
      obtain rfl := h
      exact hs.addObj obj
  | attrGetValues remote names buf status =>
      obtain ⟨retval, grp, buf', status', hread, rfl⟩ := h
      simp only [DistGrp.attrGetValues, bind_eq_ok] at hread
      obtain ⟨⟨_, _⟩, _, hread⟩ := hread
      split at hread
      · simp only [Except.ok.injEq, Prod.mk.injEq] at hread
        obtain ⟨_, rfl, _⟩ := hread
        exact hs
      · simp only [bind_eq_ok] at hread
        obtain ⟨ev, _, ⟨_, _⟩, _, hread⟩ := hread
        simp only [Except.ok.injEq, Prod.mk.injEq] at hread
        obtain ⟨_, rfl, _⟩ := hread
        exact hs.useComm
  | attrSetValues remote values status =>
      obtain ⟨retval, grp, status', hwrite, rfl⟩ := h
      simp only [DistGrp.attrSetValues, bind_eq_ok] at hwrite
      obtain ⟨_, _, hwrite⟩ := hwrite
      split at hwrite
      · simp only [Except.ok.injEq, Prod.mk.injEq] at hwrite
        obtain ⟨_, rfl, _⟩ := hwrite
        exact hs
      · simp only [bind_eq_ok] at hwrite
        obtain ⟨ev, _, _, _, hwrite⟩ := hwrite
        simp only [Except.ok.injEq, Prod.mk.injEq] at hwrite
        obtain ⟨_, rfl, _⟩ := hwrite
        exact hs.useComm

omit [Zero V] [Add V] in
theorem Cached.useComm_eq_iff (hs : Cached heap s) :
    (s.grp.distObjs ≠ [] →
      s.grp.useComm heap = s.grp.distObjs.map fun obj => (heap obj).sources) ↔ s.late = [] := by
  obtain ⟨early, hdist, hcomm⟩ := hs.early
  constructor
  · intro hsame
    by_cases hnil : s.grp.distObjs = []
    · rw [hdist, List.append_eq_nil_iff] at hnil
      exact hnil.2
    · cases hsome : s.grp.comm with
      | none => exact hs.late hsome
      | some comm =>
          have hlength := congrArg List.length (hsame hnil)
          rw [DistGrp.useComm, hsome, Option.getD_some, hcomm comm hsome, List.length_map,
            List.length_map, hdist, List.length_append] at hlength
          exact List.eq_nil_of_length_eq_zero (by omega)
  · intro hlate _
    rw [hlate, List.append_nil] at hdist
    cases hsome : s.grp.comm with
    | none =>
        rw [DistGrp.useComm, hsome]
        rfl
    | some comm =>
        rw [DistGrp.useComm, hsome, Option.getD_some, hcomm comm hsome, hdist]

end Caching

section Following

variable [AddMonoid V]

namespace Caching

theorem follows_iff {heap : α → DistObject V} {s : Caching α} (hs : Cached heap s)
    (call : GroupCall V α) : Follows heap s call ↔ Fresh s call := by
  cases call with
  | add obj => exact Iff.rfl
  | attrGetValues remote names buf status =>
      constructor
      · intro hfollows
        exact hs.useComm_eq_iff.mp fun hremote => (hfollows hremote).1
      · intro hfresh hremote
        have hcomm := hs.useComm_eq_iff.mpr hfresh hremote
        refine ⟨hcomm, fun valueOp ev hev => ?_⟩
        rw [routeGrpReq_length rfl hev, hcomm, List.length_map]
  | attrSetValues remote values status => exact hs.useComm_eq_iff

/-- The communicator follows the members of the group at every call exactly if no call
comes after a remote member that was added when there was a communicator already. -/
theorem communicator_follows_iff [DecidableEq α] (heap : α → DistObject V) (cntxt : Cntxt V)
    (calls : List (GroupCall V α)) :
    EachStep (step heap cntxt) (Follows heap) start calls ↔
      EachStep (step heap cntxt) Fresh start calls := by
  apply EachStep.congr (Cached heap)
  · exact fun s call s' hs h => hs.step h
  · exact fun s call hs => follows_iff hs call
  · exact cached_start

/-- Two objects, each served by the server of its own name. -/
def servedHeap (obj : Bool) : DistObject Int where
  name := if obj then [110] else [111]
  attrInfo := fun _ => ⟨[], some [if obj then [110] else [111]], List.sum, .fpAdd⟩
  notMixed := fun _ _ => rfl
  sameComm := fun _ _ _ _ => rfl

def readPower : GroupCall Int Bool :=
  .attrGetValues { Arrivals.inOrder with answer := fun _ ev => .ok (Server.commResp ev [(7, 1)]) }
    [.power] (fun _ => (0, 0)) []

/-- A remote member that is added after a read is not in the communicator of the next. -/
theorem late_member_is_left_out :
    ¬ EachStep (step servedHeap fun _ => .ok none) (Follows servedHeap) start
      [.add true, readPower, .add false, readPower] := by
  intro h
  have hread := (h.2 _ rfl).2 _ ⟨_, _, _, _, rfl, rfl⟩
  have hlast := (hread.2 _ rfl).1 (by decide)
  exact absurd hlast.1 (by decide)

end Caching

end Following

end PwrApi
