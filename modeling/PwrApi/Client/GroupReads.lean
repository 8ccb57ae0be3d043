import PwrApi.Client.GroupCalls

/-! A read of a whole group beside the reads of its members alone. -/

namespace PwrApi

open Memory Runs

variable {V α : Type}

/-- Every object that a request comes to answers with the values it is assigned. -/
def assigned (values : ObjID → AttrName → V × PwrTime) (arrivals : Arrivals) : Servers V where
  toArrivals := arrivals
  answer name ev := .ok (Server.commResp ev (ev.attrName.map (values name)))

/-- A group that the objects are added to one after the other. -/
def DistGrp.ofAdds [DecidableEq α] (heap : α → DistObject V) (objs : List α) : DistGrp α :=
  objs.foldl (fun grp obj => (grp.add heap obj).2) .empty

section Built

variable [DecidableEq α] {heap : α → DistObject V} {grp : DistGrp α} {members objs : List α}

theorem Represents.add {obj : α} (h : Represents heap grp members) (hnew : obj ∉ members) :
    Represents heap (grp.add heap obj).2 (members ++ [obj]) := by
  let s : Tracked α := ⟨grp, members, Ret.success, Ret.success⟩
  have hnext : Tracked.Agrees heap (s.next heap (.addObj obj)) :=
    (Tracked.agrees_next_iff (s := s) ⟨h, rfl⟩ (.addObj obj)).mpr fun _ => hnew
  have hmembers : (s.next heap (.addObj obj)).members = members ++ [obj] := by
    simp [s, Tracked.next, Members.apply, hnew]
  have hrepresents := hnext.1
  rw [hmembers] at hrepresents
  exact hrepresents

theorem DistGrp.add_comm_eq (obj : α) : (grp.add heap obj).2.comm = grp.comm := by
  unfold DistGrp.add
  split
  · rfl
  · split <;> rfl

theorem ofAdds_represents (hdistinct : objs.Nodup) :
    Represents heap (DistGrp.ofAdds heap objs) objs ∧ (DistGrp.ofAdds heap objs).comm = none := by
  induction objs using List.reverseRecOn with
  | nil => exact ⟨represents_of List.nodup_nil rfl rfl rfl, rfl⟩
  | append_singleton objs obj ih =>
      have hparts := List.nodup_append.mp hdistinct
      have hnew : obj ∉ objs := fun hmem =>
        hparts.2.2 obj hmem obj (List.mem_singleton_self obj) rfl
      obtain ⟨hrepresents, hnone⟩ := ih hparts.1
      have hconcat : DistGrp.ofAdds heap (objs ++ [obj]) =
          ((DistGrp.ofAdds heap objs).add heap obj).2 := by
        simp [DistGrp.ofAdds]
      rw [hconcat, DistGrp.add_comm_eq]
      exact ⟨hrepresents.add hnew, hnone⟩

end Built

section Rows

variable [AddMonoid V] {values : ObjID → AttrName → V × PwrTime} {arrivals : Arrivals}

/-- What the router makes of the assigned values of one group, in the order they come. -/
def sourcesRow (values : ObjID → AttrName → V × PwrTime) (names : List AttrName)
    (objs : List ObjID) : List (V × PwrTime) :=
  names.map fun name =>
    ((objs.map fun obj => (values obj name).1).sum,
      (objs.getLast?.map fun obj => (values obj name).2).getD 0)

def assignedResps (values : ObjID → AttrName → V × PwrTime) (ev : CommReqEvent V)
    (objs : List ObjID) : List (CommRespEvent V) :=
  objs.map fun obj => Server.commResp ev (ev.attrName.map (values obj))

theorem sums_assigned (names : List AttrName) {valueOp : List ValueOp}
    (hlength : valueOp.length = names.length) (i : UInt64) (objs : List ObjID) :
    Router.sumValues valueOp.length (assignedResps values
      { DistComm.getValues names valueOp with grpIndex := i } objs) =
      (sourcesRow values names objs).map Prod.fst := by
  apply List.ext_getElem
  · simp [Router.sumValues, sourcesRow, hlength]
  · intro k hk hk'
    have hlt : k < names.length := by simpa [sourcesRow] using hk'
    simp [Router.sumValues, sourcesRow, assignedResps, Router.valueAt, Server.commResp,
      DistComm.getValues, Function.comp_def, hlt]

theorem times_assigned (names : List AttrName) {valueOp : List ValueOp}
    (hlength : valueOp.length = names.length) (i : UInt64) (objs : List ObjID) :
    Router.lastTimes valueOp.length (assignedResps values
      { DistComm.getValues names valueOp with grpIndex := i } objs) =
      (sourcesRow values names objs).map Prod.snd := by
  apply List.ext_getElem
  · simp [Router.lastTimes, sourcesRow, hlength]
  · intro k hk hk'
    have hlt : k < names.length := by simpa [sourcesRow] using hk'
    simp [Router.lastTimes, sourcesRow, assignedResps, Router.timeAt, Server.commResp,
      DistComm.getValues, Function.comp_def, hlt, List.getLast?_map]

theorem set_after {β : Type} (before after : List β) (row : β) (h : before.length < after.length) :
    (before ++ after.drop before.length).set before.length row =
      before ++ [row] ++ after.drop (before.length + 1) := by
  rw [List.set_append_right _ _ le_rfl, Nat.sub_self, List.drop_eq_getElem_cons h,
    List.set_cons_zero, List.append_assoc]
  rfl

theorem mapIdx_map {β γ : Type} (f : α → β) (g : Nat → β → γ) (xs : List α) :
    (xs.map f).mapIdx g = xs.mapIdx fun i x => g i (f x) := by
  apply List.ext_getElem?
  intro i
  simp only [List.getElem?_mapIdx, List.getElem?_map, Option.map_map, Function.comp_def]

def groupRow (values : ObjID → AttrName → V × PwrTime) (arrivals : Arrivals)
    (names : List AttrName) (i : Nat) (group : List ObjID) : List (V × PwrTime) :=
  sourcesRow values names (arrivals.order i group)

theorem length_groupRow (names : List AttrName) (i : Nat) (group : List ObjID) :
    (groupRow values arrivals names i group).length = names.length :=
  List.length_map _

theorem mergeGroups_rows {names : List AttrName} {valueOp : List ValueOp}
    (hlength : valueOp.length = names.length) {info : Router.CommReqInfo V}
    (hop : info.ev.op = .get) (hvalueOp : info.valueOp = valueOp) (groups : List (List ObjID))
    {resp resp' : CommRespEvent V} (hvalue : groups.length ≤ resp.value.length)
    (htime : groups.length ≤ resp.timeStamp.length)
    (h : groups.zipIdx.foldlM (fun resp (group, i) => do
      let answers ← ((assigned values arrivals).order i group).mapM fun obj =>
        (assigned values arrivals).answer obj
          { DistComm.getValues names valueOp with grpIndex := UInt64.ofNat i }
      Router.mergeGroup info resp i answers) resp = .ok resp') :
    resp'.value = (groups.mapIdx (groupRow values arrivals names)).map (·.map Prod.fst) ++
        resp.value.drop groups.length ∧
      resp'.timeStamp = (groups.mapIdx (groupRow values arrivals names)).map (·.map Prod.snd) ++
        resp.timeStamp.drop groups.length := by
  induction groups using List.reverseRecOn generalizing resp' with
  | nil =>
      obtain rfl := Except.ok.inj h
      exact ⟨rfl, rfl⟩
  | append_singleton groups group ih =>
      rw [List.length_append, List.length_singleton] at hvalue htime
      rw [List.zipIdx_append, List.foldlM_append, bind_eq_ok] at h
      obtain ⟨mid, hmid, hlast⟩ := h
      obtain ⟨hvalues, htimes⟩ := ih (by omega) (by omega) hmid
      simp only [List.zipIdx_cons, List.zipIdx_nil, List.foldlM_cons, List.foldlM_nil,
        bind_eq_ok] at hlast
      obtain ⟨merged, ⟨answers, hanswers, hmerged⟩, hlast⟩ := hlast
      obtain rfl := Except.ok.inj hlast
      have hresps : answers = assignedResps values
          { DistComm.getValues names valueOp with grpIndex := UInt64.ofNat (0 + groups.length) }
          (arrivals.order (0 + groups.length) group) :=
        Except.ok.inj (hanswers.symm.trans (mapM_of_ok fun obj _ => rfl))
      have hget := (Router.mergeGroup_ok hmerged).2.2.2.2.1 hop
      rw [hvalueOp, hresps, sums_assigned names hlength, times_assigned names hlength, hvalues,
        htimes, Nat.zero_add] at hget
      rw [List.mapIdx_concat, List.map_append, List.map_append, List.length_append]
      have hrows := set_after
        ((groups.mapIdx (groupRow values arrivals names)).map (·.map Prod.fst)) resp.value
        ((groupRow values arrivals names groups.length group).map Prod.fst)
        (by rw [List.length_map, List.length_mapIdx]; omega)
      have hstamps := set_after
        ((groups.mapIdx (groupRow values arrivals names)).map (·.map Prod.snd)) resp.timeStamp
        ((groupRow values arrivals names groups.length group).map Prod.snd)
        (by rw [List.length_map, List.length_mapIdx]; omega)
      rw [List.length_map, List.length_mapIdx] at hrows hstamps
      exact ⟨hget.1.trans hrows, hget.2.trans hstamps⟩

theorem routeGrpReq_rows {commList : List (List ObjID)} {names : List AttrName}
    {valueOp : List ValueOp} (hlength : valueOp.length = names.length) {ev : CommRespEvent V}
    (h : routeGrpReq (assigned values arrivals) commList (DistComm.getValues names valueOp) =
      .ok ev) :
    (ev.value.zip ev.timeStamp).map (fun (values, times) => values.zip times) =
      commList.mapIdx (groupRow values arrivals names) := by
  have hrows := mergeGroups_rows hlength rfl rfl commList (by simp [DistComm.getValues])
    (by simp [DistComm.getValues]) h
  simp only [DistComm.getValues, if_true] at hrows
  rw [List.drop_eq_nil_of_le (by simp), List.drop_eq_nil_of_le (by simp), List.append_nil,
    List.append_nil] at hrows
  rw [hrows.1, hrows.2, List.zip_map', List.map_map]
  refine (List.map_congr_left fun row _ => ?_).trans (List.map_id _)
  simp [List.zip_map']

omit [AddMonoid V] in
theorem assignedResps_covers {valueOp : List ValueOp} (hlength : valueOp.length = names.length)
    (i : UInt64) (objs : List ObjID) :
    ∀ r ∈ assignedResps values { DistComm.getValues names valueOp with grpIndex := i } objs,
      Router.Covers valueOp.length r := by
  intro r hr
  obtain ⟨obj, _, rfl⟩ := List.mem_map.mp hr
  simp [Router.Covers, Server.commResp, DistComm.getValues, hlength]

theorem routeGrpReq_total {valueOp : List ValueOp} (hlength : valueOp.length = names.length)
    (hops : ∀ op ∈ valueOp, op = .fpAdd) (commList : List (List ObjID)) :
    ∃ ev : CommRespEvent V,
      routeGrpReq (assigned values arrivals) commList (DistComm.getValues names valueOp) = .ok ev ∧
      NoErrors ev.errObj ev.errAttr ev.errValue := by
  have hcovers : ∀ i objs, ∀ r ∈ assignedResps values
      { DistComm.getValues names valueOp with grpIndex := i } objs,
      Router.Covers valueOp.length r := assignedResps_covers hlength
  have hloop : ∀ info : Router.CommReqInfo V, info.valueOp = valueOp →
      ∀ (groups : List (List ObjID × Nat)) (resp : CommRespEvent V),
      NoErrors resp.errObj resp.errAttr resp.errValue →
      ∃ resp', groups.foldlM (fun resp (group, i) => do
        let answers ← ((assigned values arrivals).order i group).mapM fun obj =>
          (assigned values arrivals).answer obj
            { DistComm.getValues names valueOp with grpIndex := UInt64.ofNat i }
        Router.mergeGroup info resp i answers) resp = .ok resp' ∧
        NoErrors resp'.errObj resp'.errAttr resp'.errValue := by
    intro info hinfo groups
    induction groups with
    | nil => exact fun resp h => ⟨resp, rfl, h⟩
    | cons entry groups ih =>
        intro resp ⟨hobj, hattr, hvalue⟩
        obtain ⟨group, i⟩ := entry
        obtain ⟨merged, hmerged⟩ := Router.mergeGroup_total info resp i
          (fun _ => hinfo ▸ hops)
          (fun _ => hinfo ▸ hcovers (UInt64.ofNat i) (arrivals.order i group))
        have hfields := Router.mergeGroup_ok hmerged
        obtain ⟨resp', hrest, hnone⟩ := ih merged ⟨by simp [hfields, hobj, assignedResps,
          Server.commResp], by simp [hfields, hattr, assignedResps, Server.commResp],
          by simp [hfields, hvalue, assignedResps, Server.commResp]⟩
        refine ⟨resp', ?_, hnone⟩
        rw [List.foldlM_cons, bind_eq_ok]
        exact ⟨merged, bind_eq_ok.mpr ⟨_, mapM_of_ok fun obj _ => rfl, hmerged⟩, hrest⟩
  exact hloop _ rfl _ _ ⟨rfl, rfl, rfl⟩

end Rows

section Alone

variable [AddMonoid V] {values : ObjID → AttrName → V × PwrTime} {arrivals : Arrivals}
  {remote : Servers V} {cntxt : Cntxt V} {obj : DistObject V} {names : List AttrName}

/-- `attrGetValues` on one object. -/
def readAlone (cntxt : Cntxt V) (remote : Servers V) (obj : DistObject V)
    (names : List AttrName) (row : List (V × PwrTime)) :
    Except Fault (Int32 × List (V × PwrTime) × Status) :=
  obj.attrGetValues cntxt (fun objs => routeGrpReq remote [objs]) names row

structure ValidFor (cntxt : Cntxt V) (names : List AttrName) (obj : DistObject V) : Prop where
  known : ∀ name ∈ names, name ∈ AttrName.indices
  reads : ∀ (values : ObjID → AttrName → V × PwrTime) (arrivals : Arrivals)
    (row : List (V × PwrTime)), row.length = names.length →
    ∃ row', readAlone cntxt (assigned values arrivals) obj names row = .ok (Ret.success, row', [])

theorem readAlone_device (hcomm : obj.commOf names = .ok none) (row : List (V × PwrTime)) :
    readAlone cntxt remote obj names row =
      .ok ((obj.toObject.attrGetValues names).2.retval,
        overlay (obj.toObject.attrGetValues names).1 row,
        (obj.toObject.attrGetValues names).2) := by
  simp [readAlone, DistObject.attrGetValues, DistObject.attrGetValuesStart, hcomm, bind,
    Except.bind]

theorem readAlone_comm {objs : List ObjID} (hcomm : obj.commOf names = .ok (some objs))
    {row row' : List (V × PwrTime)} (hrow : row.length = names.length) {retval : Int32}
    {status : Status}
    (h : readAlone cntxt (assigned values arrivals) obj names row = .ok (retval, row', status)) :
    row' = groupRow values arrivals names 0 objs := by
  have hcells := obj.toObject.attrGetValuesFrom_length_le 0 names
  simp only [readAlone, DistObject.attrGetValues, DistObject.attrGetValuesStart, hcomm,
    bind_eq_ok, Except.ok.injEq] at h
  obtain ⟨_, ⟨_, rfl, rfl⟩, h⟩ := h
  simp only [Option.map_some, bind_eq_ok, DistRequest.getValue] at h
  obtain ⟨ev, hev, ⟨value, _⟩, ⟨_, _, _, _, heq⟩, h⟩ := h
  rw [routeGrpReq_rows (by simp) hev] at heq
  obtain ⟨rfl, _⟩ := Prod.mk.inj (Except.ok.inj heq)
  obtain ⟨_, rfl, _⟩ := by simpa using h
  have hwhole : (groupRow values arrivals names 0 objs).length = names.length :=
    length_groupRow names 0 objs
  have hdrop : (overlay (obj.toObject.attrGetValues names).1 row).length ≤ names.length := by
    simp only [overlay, List.length_append, List.length_drop, Object.attrGetValues]
    omega
  simp only [overlay] at hdrop ⊢
  rw [List.drop_eq_nil_of_le, List.append_nil]
  simpa [hwhole] using hdrop

theorem ValidFor.commOf_ok (h : ValidFor cntxt names obj) : ∃ comm, obj.commOf names = .ok comm := by
  obtain ⟨row', hread⟩ := h.reads (fun _ _ => (0, 0)) .inOrder
    (List.replicate names.length (0, 0)) List.length_replicate
  simp only [readAlone, DistObject.attrGetValues, DistObject.attrGetValuesStart,
    bind_eq_ok] at hread
  obtain ⟨_, ⟨comm, hcomm, _⟩, _⟩ := hread
  exact ⟨comm, hcomm⟩

theorem ValidFor.device_length (h : ValidFor cntxt names obj)
    (hcomm : obj.commOf names = .ok none) :
    (obj.toObject.attrGetValues names).2 = [] ∧
      (obj.toObject.attrGetValues names).1.length = names.length := by
  obtain ⟨row', hread⟩ := h.reads (fun _ _ => (0, 0)) .inOrder
    (List.replicate names.length (0, 0)) List.length_replicate
  rw [readAlone_device hcomm] at hread
  simp only [Except.ok.injEq, Prod.mk.injEq] at hread
  exact ⟨hread.2.2, obj.toObject.attrGetValuesFrom_length 0 names hread.2.2⟩

theorem ValidFor.device (h : ValidFor cntxt names obj) (hcomm : obj.commOf names = .ok none)
    {row : List (V × PwrTime)} (hrow : row.length = names.length) :
    readAlone cntxt remote obj names row =
      .ok (Ret.success, (obj.toObject.attrGetValues names).1, []) := by
  obtain ⟨hstatus, hlength⟩ := h.device_length hcomm
  rw [readAlone_device hcomm, hstatus, overlay, List.drop_eq_nil_of_le, List.append_nil]
  · rfl
  · rw [hrow]
    exact hlength.ge

theorem ValidFor.commOf_local (h : ValidFor cntxt names obj) (hlocal : obj.isLocal = true) :
    obj.commOf names = .ok none := by
  obtain ⟨comm, hcomm⟩ := h.commOf_ok
  obtain ⟨hne, hall⟩ := DistObject.commOf_eq_ok hcomm
  obtain ⟨name, hname⟩ := List.exists_mem_of_ne_nil names hne
  have hnone := DistObject.comm_eq_none hlocal (h.known name hname)
  rw [hall name hname] at hnone
  rw [hcomm, hnone]

theorem validFor_served (hknown : ∀ name ∈ names, name ∈ AttrName.indices) {objs : List ObjID}
    (hcomm : obj.commOf names = .ok (some objs))
    (hops : ∀ name ∈ names, (obj.attrInfo name).valueOp = .fpAdd)
    (hstatus : (obj.toObject.attrGetValues names).2 = []) : ValidFor cntxt names obj where
  known := hknown
  reads := by
    intro values arrivals row hrow
    have hadds : ∀ op ∈ names.map fun name => (obj.attrInfo name).valueOp, op = .fpAdd := by
      intro op hop
      obtain ⟨name, hname, rfl⟩ := List.mem_map.mp hop
      exact hops name hname
    obtain ⟨ev, hev, hnone⟩ : ∃ ev : CommRespEvent V, routeGrpReq (assigned values arrivals) [objs]
        (DistComm.getValues names _) = .ok ev ∧ NoErrors ev.errObj ev.errAttr ev.errValue :=
      routeGrpReq_total (List.length_map _) hadds [objs]
    have hlength : ev.value.length = 1 := routeGrpReq_length rfl hev
    simp [readAlone, DistObject.attrGetValues, DistObject.attrGetValuesStart, hcomm, hev,
      hstatus, DistRequest.getValue, DistRequest.addErrors_none cntxt [] hnone, hlength, require,
      Status.retval, bind, Except.bind]

end Alone

section Group

variable [AddMonoid V] {values : ObjID → AttrName → V × PwrTime} {arrivals : Arrivals}
  {remote : Servers V} {heap : α → DistObject V} {cntxt : Cntxt V} {names : List AttrName}
  {grp : DistGrp α}

theorem getValuesLocal_loop {R : α → List (V × PwrTime)} (list : List α)
    (hlist : ∀ obj ∈ list, ∀ row, row.length = names.length →
      readAlone cntxt remote (heap obj) names row = .ok (Ret.success, R obj, []))
    (buf : Nat → V × PwrTime) (status : Status) :
    list.zipIdx.foldlM (fun read (obj, i) => DistGrp.getValuesLocal heap cntxt
        (routeGrpReq remote) names read obj i) (buf, status) =
      .ok (writeRows buf (blocks names.length (list.map R)), status) := by
  induction list using List.reverseRecOn with
  | nil => rfl
  | append_singleton list obj ih =>
      have hlocal := ih fun obj hobj => hlist obj (List.mem_append_left _ hobj)
      rw [List.zipIdx_append, List.foldlM_append, bind_eq_ok]
      refine ⟨_, hlocal, ?_⟩
      have hread := hlist obj (List.mem_append_right _ (List.mem_singleton_self obj))
        (readRow (writeRows buf (blocks names.length (list.map R))) (list.length * names.length)
          names.length) (length_readRow _ _ _)
      rw [readAlone] at hread
      rw [List.map_append, List.map_singleton, blocks_concat, writeRows_concat, List.length_map]
      simp [DistGrp.getValuesLocal, hread, bind, Except.bind, pure, Except.pure]

theorem attrGetValues_buf {R : α → List (V × PwrTime)}
    (hlist : ∀ obj ∈ grp.list, ∀ row, row.length = names.length →
      readAlone cntxt (assigned values arrivals) (heap obj) names row =
        .ok (Ret.success, R obj, []))
    (hcomm : grp.useComm heap = grp.distObjs.map fun obj => (heap obj).sources)
    {buf buf' : Nat → V × PwrTime} {status status' : Status} {grp' : DistGrp α} {retval : Int32}
    (h : grp.attrGetValues heap cntxt (routeGrpReq (assigned values arrivals)) names buf status =
      .ok (retval, grp', buf', status')) :
    buf' = writeRows (writeRows buf (blocks names.length (grp.list.map R)))
      (blocks names.length
        (grp.distObjs.mapIdx fun i obj => groupRow values arrivals names i (heap obj).sources)) := by
  rw [DistGrp.attrGetValues, getValuesLocal_loop grp.list hlist buf status] at h
  obtain ⟨_, hlocal, h⟩ := bind_eq_ok.mp h
  obtain rfl := Except.ok.inj hlocal
  cases hdist : grp.distObjs with
  | nil =>
      simp only [hdist, Except.ok.injEq, Prod.mk.injEq] at h
      exact h.2.2.1.symm
  | cons first rest =>
      simp only [hdist, bind_eq_ok] at h
      obtain ⟨ev, hev, ⟨buf'', status''⟩, hget, h⟩ := h
      simp only [Except.ok.injEq, Prod.mk.injEq] at h
      obtain ⟨_, _, rfl, _⟩ := h
      simp only [DistRequest.getValueAt, bind_eq_ok] at hget
      obtain ⟨_, _, _, _, hget⟩ := hget
      obtain ⟨rfl, _⟩ := Prod.mk.inj (Except.ok.inj hget)
      rw [routeGrpReq_rows (by simp) hev, hcomm, hdist, mapIdx_map, List.length_map]
      have hzip := zip_blocks names.length
        ((first :: rest).mapIdx fun i obj => groupRow values arrivals names i (heap obj).sources)
      rw [List.length_mapIdx] at hzip
      exact congrArg _ hzip

theorem attrGetValues_block {R : α → List (V × PwrTime)}
    (hlist : ∀ obj ∈ grp.list, ∀ row, row.length = names.length →
      readAlone cntxt (assigned values arrivals) (heap obj) names row =
        .ok (Ret.success, R obj, []))
    (hR : ∀ obj ∈ grp.list, (R obj).length = names.length)
    (hcomm : grp.useComm heap = grp.distObjs.map fun obj => (heap obj).sources)
    {buf buf' : Nat → V × PwrTime} {status status' : Status} {grp' : DistGrp α} {retval : Int32}
    (h : grp.attrGetValues heap cntxt (routeGrpReq (assigned values arrivals)) names buf status =
      .ok (retval, grp', buf', status')) (k : Nat) :
    readRow buf' (k * names.length) names.length =
      (grp.distObjs[k]?.map fun obj => groupRow values arrivals names k (heap obj).sources).getD
        ((grp.list[k]?.map R).getD (readRow buf (k * names.length) names.length)) := by
  rw [attrGetValues_buf hlist hcomm h, readRow_blocks, readRow_blocks, List.getElem?_mapIdx,
    List.getElem?_map]
  · intro row hrow
    obtain ⟨obj, hobj, rfl⟩ := List.mem_map.mp hrow
    exact hR obj hobj
  · intro row hrow
    obtain ⟨i, _, rfl⟩ := List.mem_mapIdx.mp hrow
    exact length_groupRow names i _

/-- After a read of the group that succeeds, the block of every member holds what a read of
the member alone gives, in whatever order the answers come in the one and in the other. -/
def LinesUpAt (heap : α → DistObject V) (cntxt : Cntxt V) (names : List AttrName)
    (grp : DistGrp α) (values : ObjID → AttrName → V × PwrTime) : Prop :=
  ∀ (arrivals : Arrivals) (buf : Nat → V × PwrTime) grp' buf' status,
    grp.attrGetValues heap cntxt (routeGrpReq (assigned values arrivals)) names buf [] =
      .ok (Ret.success, grp', buf', status) →
    ∀ k obj, grp.getObj k = some obj →
      ∀ (alone : Arrivals) (row : List (V × PwrTime)), row.length = names.length →
      ∀ retval row' status', readAlone cntxt (assigned values alone) (heap obj) names row =
        .ok (retval, row', status') →
      readRow buf' (k * names.length) names.length = row'

def LinesUp (heap : α → DistObject V) (cntxt : Cntxt V) (names : List AttrName)
    (grp : DistGrp α) : Prop :=
  ∀ values, LinesUpAt heap cntxt names grp values

end Group

section Sources

variable [AddCommMonoid V] {values : ObjID → AttrName → V × PwrTime} {names : List AttrName}

def AgreeInTime (values : ObjID → AttrName → V × PwrTime) (names : List AttrName)
    (sources : List ObjID) : Prop :=
  ∀ a ∈ sources, ∀ b ∈ sources, ∀ name ∈ names, (values a name).2 = (values b name).2

instance (sources : List ObjID) : Decidable (AgreeInTime values names sources) :=
  inferInstanceAs (Decidable (∀ a ∈ sources, ∀ b ∈ sources, ∀ name ∈ names,
    (values a name).2 = (values b name).2))

theorem sourcesRow_perm {objs objs' : List ObjID} (hperm : objs.Perm objs')
    (hagree : AgreeInTime values names objs) :
    sourcesRow values names objs = sourcesRow values names objs' := by
  apply List.map_congr_left
  intro name hname
  have hsum := (hperm.map fun obj => (values obj name).1).sum_eq
  refine Prod.ext hsum ?_
  by_cases hnil : objs = []
  · subst hnil
    rw [hperm.nil_eq]
  · have hnil' : objs' ≠ [] := fun h => hnil (h ▸ hperm).eq_nil
    rw [List.getLast?_eq_some_getLast hnil, List.getLast?_eq_some_getLast hnil']
    exact hagree _ (List.getLast_mem hnil) _ (hperm.mem_iff.mpr (List.getLast_mem hnil')) name hname

theorem groupRow_eq {sources : List ObjID} (hagree : AgreeInTime values names sources)
    (arrivals alone : Arrivals) (i : Nat) :
    groupRow values arrivals names i sources = groupRow values alone names 0 sources := by
  have hrow : ∀ (arrivals : Arrivals) (i : Nat),
      groupRow values arrivals names i sources = sourcesRow values names sources :=
    fun arrivals i => (sourcesRow_perm (arrivals.perm i sources).symm hagree).symm
  rw [hrow, hrow]

theorem groupRow_last {sources : List ObjID} {a b : ObjID} (ha : a ∈ sources) (hb : b ∈ sources)
    {i : Nat} (h : groupRow values (.last a) names i sources =
      groupRow values (.last b) names 0 sources) :
    ∀ name ∈ names, (values a name).2 = (values b name).2 := by
  intro name hname
  have hcell := congrArg Prod.snd (List.map_inj_left.mp h name hname)
  simpa only [Arrivals.last_getLast ha, Arrivals.last_getLast hb, Option.map_some,
    Option.getD_some] using hcell

end Sources

/-- The object has the attributes from its communicator. -/
def DistObject.Served (obj : DistObject V) (names : List AttrName) : Prop :=
  ∀ name ∈ names, (obj.attrInfo name).comm ≠ none

instance (obj : DistObject V) (names : List AttrName) : Decidable (obj.Served names) :=
  inferInstanceAs (Decidable (∀ name ∈ names, (obj.attrInfo name).comm ≠ none))

section LiningUp

variable [AddCommMonoid V] [DecidableEq α] {heap : α → DistObject V} {cntxt : Cntxt V}
  {names : List AttrName} {objs : List α} {values : ObjID → AttrName → V × PwrTime}

omit [AddCommMonoid V] in
theorem ofAdds_useComm (hdistinct : objs.Nodup) :
    (DistGrp.ofAdds heap objs).useComm heap =
      (DistGrp.ofAdds heap objs).distObjs.map fun obj => (heap obj).sources := by
  rw [DistGrp.useComm, (ofAdds_represents hdistinct).2]
  rfl

/-- A read of the group succeeds, whatever the sources hold and in whatever order they
answer. -/
def Succeeds (heap : α → DistObject V) (cntxt : Cntxt V) (names : List AttrName)
    (objs : List α) : Prop :=
  ∀ (values : ObjID → AttrName → V × PwrTime) (arrivals : Arrivals) buf, ∃ grp' buf',
    (DistGrp.ofAdds heap objs).attrGetValues heap cntxt (routeGrpReq (assigned values arrivals))
      names buf [] = .ok (Ret.success, grp', buf', [])

theorem ofAdds_block (hdistinct : objs.Nodup)
    (hvalid : ∀ obj ∈ objs, ValidFor cntxt names (heap obj)) {arrivals : Arrivals}
    {buf buf' : Nat → V × PwrTime} {status : Status} {grp' : DistGrp α} {retval : Int32}
    (h : (DistGrp.ofAdds heap objs).attrGetValues heap cntxt
      (routeGrpReq (assigned values arrivals)) names buf [] = .ok (retval, grp', buf', status))
    (k : Nat) :
    readRow buf' (k * names.length) names.length =
      ((objs.filter fun obj => !(heap obj).isLocal)[k]?.map fun obj =>
        groupRow values arrivals names k (heap obj).sources).getD
        (((objs.filter fun obj => (heap obj).isLocal)[k]?.map fun obj =>
          ((heap obj).toObject.attrGetValues names).1).getD
          (readRow buf (k * names.length) names.length)) := by
  have hrepresents : Represents heap (DistGrp.ofAdds heap objs) objs :=
    (ofAdds_represents hdistinct).1
  have hlocal : ∀ obj ∈ (DistGrp.ofAdds heap objs).list,
      ValidFor cntxt names (heap obj) ∧ (heap obj).commOf names = .ok none := by
    intro obj hobj
    rw [hrepresents.list, List.mem_filter] at hobj
    have hobjValid := hvalid obj hobj.1
    exact ⟨hobjValid, hobjValid.commOf_local hobj.2⟩
  rw [← hrepresents.dist, ← hrepresents.list]
  apply attrGetValues_block _ _ (ofAdds_useComm hdistinct) h
  · intro obj hobj row hrow
    exact (hlocal obj hobj).1.device (hlocal obj hobj).2 hrow
  · intro obj hobj
    exact ((hlocal obj hobj).1.device_length (hlocal obj hobj).2).2

theorem succeeds_of_adds (hdistinct : objs.Nodup)
    (hvalid : ∀ obj ∈ objs, ValidFor cntxt names (heap obj))
    (hops : ∀ obj ∈ objs, ∀ name ∈ names, ((heap obj).attrInfo name).valueOp = .fpAdd) :
    Succeeds heap cntxt names objs := by
  intro values arrivals buf
  have hrepresents : Represents heap (DistGrp.ofAdds heap objs) objs :=
    (ofAdds_represents hdistinct).1
  have hlist : ∀ obj ∈ (DistGrp.ofAdds heap objs).list, ∀ row : List (V × PwrTime),
      row.length = names.length →
      readAlone cntxt (assigned values arrivals) (heap obj) names row =
        .ok (Ret.success, ((heap obj).toObject.attrGetValues names).1, []) := by
    intro obj hobj row hrow
    rw [hrepresents.list, List.mem_filter] at hobj
    have hobjValid := hvalid obj hobj.1
    exact hobjValid.device (hobjValid.commOf_local hobj.2) hrow
  have hcomm : (DistGrp.ofAdds heap objs).useComm heap = _ := ofAdds_useComm hdistinct
  rw [DistGrp.attrGetValues, getValuesLocal_loop _ hlist buf []]
  cases hdist : (DistGrp.ofAdds heap objs).distObjs with
  | nil => exact ⟨_, _, rfl⟩
  | cons first rest =>
      have hfirst : first ∈ objs := by
        have hmem : first ∈ (DistGrp.ofAdds heap objs).distObjs := by
          rw [hdist]
          exact List.mem_cons_self
        rw [hrepresents.dist] at hmem
        exact (List.mem_filter.mp hmem).1
      have hadds : ∀ op ∈ names.map fun name => ((heap first).attrInfo name).valueOp,
          op = .fpAdd := by
        intro op hop
        obtain ⟨name, hname, rfl⟩ := List.mem_map.mp hop
        exact hops first hfirst name hname
      obtain ⟨ev, hev, hnone⟩ : ∃ ev : CommRespEvent V, routeGrpReq (assigned values arrivals)
          ((DistGrp.ofAdds heap objs).useComm heap) (DistComm.getValues names _) = .ok ev ∧
            NoErrors ev.errObj ev.errAttr ev.errValue :=
        routeGrpReq_total (List.length_map _) hadds _
      have hlength := routeGrpReq_length rfl hev
      rw [hcomm, List.length_map, hdist] at hlength
      simp [hev, DistRequest.getValueAt, DistRequest.addErrors_none cntxt [] hnone, hlength,
        require, Status.retval, bind, Except.bind]

theorem LinesUpAt.block (hdistinct : objs.Nodup)
    (hlines : LinesUpAt heap cntxt names (DistGrp.ofAdds heap objs) values) {k : Nat} {obj : α}
    (hk : objs[k]? = some obj) {arrivals alone : Arrivals} {buf buf' : Nat → V × PwrTime}
    {grp' : DistGrp α} {status status' : Status} {retval : Int32} {row' : List (V × PwrTime)}
    (hread : (DistGrp.ofAdds heap objs).attrGetValues heap cntxt
      (routeGrpReq (assigned values arrivals)) names buf [] =
        .ok (Ret.success, grp', buf', status))
    (halone : readAlone cntxt (assigned values alone) (heap obj) names
      (List.replicate names.length (0, 0)) = .ok (retval, row', status')) :
    readRow buf' (k * names.length) names.length = row' := by
  have hgetObj : (DistGrp.ofAdds heap objs).getObj k = some obj := by
    rw [(ofAdds_represents hdistinct).1.getObj, hk]
  exact hlines _ _ _ _ _ hread k obj hgetObj _ _ List.length_replicate _ _ _ halone

theorem not_linesUp_mixed (hdistinct : objs.Nodup)
    (hvalid : ∀ obj ∈ objs, ValidFor cntxt names (heap obj))
    (hsucceeds : Succeeds heap cntxt names objs)
    {near far : α} (hnear : near ∈ objs) (hnearLocal : (heap near).isLocal = true)
    (hfar : far ∈ objs) (hfarRemote : (heap far).isLocal = false) :
    ¬ LinesUpAt heap cntxt names (DistGrp.ofAdds heap objs) values := by
  intro hlines
  have hsplit := List.length_eq_length_filter_add (l := objs) fun obj => (heap obj).isLocal
  have hlocals : 0 < (objs.filter fun obj => (heap obj).isLocal).length :=
    List.length_pos_of_mem (List.mem_filter.mpr ⟨hnear, hnearLocal⟩)
  have hremotes : 0 < (objs.filter fun obj => !(heap obj).isLocal).length :=
    List.length_pos_of_mem (List.mem_filter.mpr ⟨hfar, by rw [hfarRemote]; rfl⟩)
  have hlast : objs.length - 1 < objs.length := by omega
  have hlastValid := hvalid objs[objs.length - 1] (List.getElem_mem hlast)
  obtain ⟨row', hrow'⟩ := hlastValid.reads values .inOrder
    (List.replicate names.length (0, 0)) List.length_replicate
  -- whatever the buffer held is still there, and cannot always be what the member reads
  have hkept : ∀ cell : V × PwrTime, List.replicate names.length cell = row' := by
    intro cell
    obtain ⟨grp', buf', hread⟩ := hsucceeds values .inOrder fun _ => cell
    have hblock := ofAdds_block hdistinct hvalid hread (objs.length - 1)
    rw [List.getElem?_eq_none (by omega), List.getElem?_eq_none (by omega)] at hblock
    calc List.replicate names.length cell
        = readRow (fun _ => cell) ((objs.length - 1) * names.length) names.length :=
          (readRow_const cell _ _).symm
      _ = readRow buf' ((objs.length - 1) * names.length) names.length := hblock.symm
      _ = row' := hlines.block hdistinct (List.getElem?_eq_getElem hlast) hread hrow'
  have hsame := (hkept (0, 0)).trans (hkept (0, 1)).symm
  obtain ⟨_, hcomm⟩ := hlastValid.commOf_ok
  have hnames := (DistObject.commOf_eq_ok hcomm).1
  rw [List.replicate_right_inj (by simpa using hnames)] at hsame
  have htime : (0 : PwrTime) = 1 := congrArg Prod.snd hsame
  exact absurd htime (by decide)

theorem served_of_linesUp (hdistinct : objs.Nodup)
    (hvalid : ∀ obj ∈ objs, ValidFor cntxt names (heap obj))
    (hsources : ∀ obj ∈ objs, (heap obj).getComm ≠ some [])
    (hsucceeds : Succeeds heap cntxt names objs)
    (hremote : ∀ obj ∈ objs, (heap obj).isLocal = false)
    (hlines : LinesUp heap cntxt names (DistGrp.ofAdds heap objs)) {obj : α} (hobj : obj ∈ objs) :
    (heap obj).Served names := by
  intro name hname hnone
  have hobjValid := hvalid obj hobj
  obtain ⟨comm, hcomm⟩ := hobjValid.commOf_ok
  rw [← (DistObject.commOf_eq_ok hcomm).2 name hname, hnone] at hcomm
  obtain ⟨k, hk⟩ := List.mem_iff_getElem?.mp hobj
  have hall : (objs.filter fun obj => !(heap obj).isLocal) = objs :=
    List.filter_eq_self.mpr fun obj hobj => by rw [hremote obj hobj]; rfl
  have hrows : ∀ time : PwrTime,
      sourcesRow (fun _ _ => (0, time)) names (heap obj).sources =
        ((heap obj).toObject.attrGetValues names).1 := by
    intro time
    obtain ⟨grp', buf', hread⟩ := hsucceeds (fun _ _ => (0, time)) .inOrder fun _ => (0, 0)
    have hblock := ofAdds_block hdistinct hvalid hread k
    rw [hall, hk] at hblock
    have halone : readAlone cntxt (assigned (fun _ _ => (0, time)) .inOrder) (heap obj) names
        (List.replicate names.length (0, 0)) = _ := hobjValid.device hcomm List.length_replicate
    exact hblock.symm.trans ((hlines _).block hdistinct hk hread halone)
  obtain ⟨sources, hgetComm⟩ : ∃ sources, (heap obj).getComm = some sources := by
    apply Option.ne_none_iff_exists'.mp
    have h := hremote obj hobj
    rw [DistObject.isLocal, Option.isNone_eq_false_iff] at h
    exact Option.isSome_iff_ne_none.mp h
  have hne : sources ≠ [] := fun hnil => hsources obj hobj (by rw [hgetComm, hnil])
  have hsame := (hrows 0).trans (hrows 1).symm
  rw [DistObject.sources, hgetComm, Option.getD_some, sourcesRow, sourcesRow] at hsame
  have hcell := List.map_inj_left.mp hsame name hname
  rw [List.getLast?_eq_some_getLast hne] at hcell
  have htime : (0 : PwrTime) = 1 := congrArg Prod.snd hcell
  exact absurd htime (by decide)

theorem commOf_served {obj : DistObject V} (hvalid : ValidFor cntxt names obj)
    (hserved : obj.Served names) :
    obj.isLocal = false ∧ obj.commOf names = .ok (some obj.sources) := by
  obtain ⟨comm, hcomm⟩ := hvalid.commOf_ok
  obtain ⟨hnames, hsame⟩ := DistObject.commOf_eq_ok hcomm
  obtain ⟨name, hname⟩ := List.exists_mem_of_ne_nil names hnames
  obtain ⟨sources, hsources⟩ := Option.ne_none_iff_exists'.mp (hserved name hname)
  have hknown := hvalid.known name hname
  rw [← hsame name hname, hsources] at hcomm
  constructor
  · cases hlocal : obj.isLocal with
    | false => rfl
    | true => exact absurd (DistObject.comm_eq_none hlocal hknown) (hserved name hname)
  · rw [hcomm, DistObject.sources, DistObject.getComm_eq hknown hsources]
    rfl

theorem served_linesUpAt_iff (hdistinct : objs.Nodup)
    (hvalid : ∀ obj ∈ objs, ValidFor cntxt names (heap obj))
    (hsucceeds : Succeeds heap cntxt names objs)
    (hserved : ∀ obj ∈ objs, (heap obj).Served names)
    (values : ObjID → AttrName → V × PwrTime) :
    LinesUpAt heap cntxt names (DistGrp.ofAdds heap objs) values ↔
      ∀ obj ∈ objs, AgreeInTime values names (heap obj).sources := by
  have hall : (objs.filter fun obj => !(heap obj).isLocal) = objs :=
    List.filter_eq_self.mpr fun obj hobj => by
      rw [(commOf_served (hvalid obj hobj) (hserved obj hobj)).1]
      rfl
  constructor
  · intro hlines obj hobj a ha b hb
    have hobjValid := hvalid obj hobj
    obtain ⟨_, hcomm⟩ := commOf_served hobjValid (hserved obj hobj)
    obtain ⟨k, hk⟩ := List.mem_iff_getElem?.mp hobj
    obtain ⟨grp', buf', hread⟩ := hsucceeds values (.last a) fun _ => (0, 0)
    obtain ⟨row', halone⟩ := hobjValid.reads values (.last b)
      (List.replicate names.length (0, 0)) List.length_replicate
    have hblock := ofAdds_block hdistinct hvalid hread k
    rw [hall, hk] at hblock
    apply groupRow_last ha hb
    calc groupRow values (.last a) names k (heap obj).sources
        = readRow buf' (k * names.length) names.length := hblock.symm
      _ = row' := LinesUpAt.block hdistinct hlines hk hread halone
      _ = groupRow values (.last b) names 0 (heap obj).sources :=
          readAlone_comm hcomm List.length_replicate halone
  · intro hagree arrivals buf grp' buf' status hread k obj hgetObj alone row hrow retval row'
      status' halone
    rw [(ofAdds_represents hdistinct).1.getObj] at hgetObj
    have hobj := List.mem_of_getElem? hgetObj
    obtain ⟨_, hcomm⟩ := commOf_served (hvalid obj hobj) (hserved obj hobj)
    rw [ofAdds_block hdistinct hvalid hread k, hall, hgetObj, readAlone_comm hcomm hrow halone]
    exact groupRow_eq (hagree obj hobj) arrivals alone k

theorem local_linesUp (hdistinct : objs.Nodup)
    (hvalid : ∀ obj ∈ objs, ValidFor cntxt names (heap obj))
    (hlocal : ∀ obj ∈ objs, (heap obj).isLocal = true) :
    LinesUp heap cntxt names (DistGrp.ofAdds heap objs) := by
  intro values arrivals buf grp' buf' status hread k obj hgetObj alone row hrow retval row' status'
    halone
  rw [(ofAdds_represents hdistinct).1.getObj] at hgetObj
  have hobj := List.mem_of_getElem? hgetObj
  have hobjValid := hvalid obj hobj
  have hnone : (objs.filter fun obj => !(heap obj).isLocal) = [] :=
    List.filter_eq_nil_iff.mpr fun obj hobj => by rw [hlocal obj hobj]; decide
  have hall : (objs.filter fun obj => (heap obj).isLocal) = objs :=
    List.filter_eq_self.mpr hlocal
  rw [hobjValid.device (hobjValid.commOf_local (hlocal obj hobj)) hrow] at halone
  simp only [Except.ok.injEq, Prod.mk.injEq] at halone
  rw [ofAdds_block hdistinct hvalid hread k, hnone, hall, hgetObj, ← halone.2.1]
  rfl

/-- Reads of a group line up with its members exactly if all members are local, or each has
the attributes from its communicator, and that from one object; where all have them from their
communicators, it depends on the times of their sources only. -/
theorem group_reads_line_up_iff (hdistinct : objs.Nodup)
    (hvalid : ∀ obj ∈ objs, ValidFor cntxt names (heap obj))
    (hsources : ∀ obj ∈ objs, (heap obj).getComm ≠ some [])
    (hsucceeds : Succeeds heap cntxt names objs) :
    (LinesUp heap cntxt names (DistGrp.ofAdds heap objs) ↔
      (∀ obj ∈ objs, (heap obj).isLocal = true) ∨
        ∀ obj ∈ objs, (heap obj).Served names ∧
          ∀ a ∈ (heap obj).sources, ∀ b ∈ (heap obj).sources, a = b) ∧
    ((∀ obj ∈ objs, (heap obj).Served names) → ∀ values,
      (LinesUpAt heap cntxt names (DistGrp.ofAdds heap objs) values ↔
        ∀ obj ∈ objs, AgreeInTime values names (heap obj).sources)) := by
  have hagrees := served_linesUpAt_iff hdistinct hvalid hsucceeds
  refine ⟨⟨?_, ?_⟩, hagrees⟩
  · intro hlines
    by_cases hlocal : ∀ obj ∈ objs, (heap obj).isLocal = true
    · exact .inl hlocal
    · right
      simp only [not_forall, Bool.not_eq_true] at hlocal
      obtain ⟨far, hfar, hfarRemote⟩ := hlocal
      have hremote : ∀ obj ∈ objs, (heap obj).isLocal = false := by
        intro near hnear
        by_contra hnearLocal
        rw [Bool.not_eq_false] at hnearLocal
        exact not_linesUp_mixed hdistinct hvalid hsucceeds hnear hnearLocal hfar hfarRemote
          (hlines fun _ _ => (0, 0))
      have hserved : ∀ obj ∈ objs, (heap obj).Served names := fun obj hobj =>
        served_of_linesUp hdistinct hvalid hsources hsucceeds hremote hlines hobj
      refine fun obj hobj => ⟨hserved obj hobj, fun a ha b hb => ?_⟩
      obtain ⟨_, hcomm⟩ := (hvalid obj hobj).commOf_ok
      obtain ⟨name, hname⟩ := List.exists_mem_of_ne_nil names (DistObject.commOf_eq_ok hcomm).1
      have htimes := (hagrees hserved fun source _ => (0, if source = a then 0 else 1)).mp
        (hlines _) obj hobj a ha b hb name hname
      by_contra hne
      simp [Ne.symm hne] at htimes
  · rintro (hlocal | hserved)
    · exact local_linesUp hdistinct hvalid hlocal
    · intro values
      apply (hagrees (fun obj hobj => (hserved obj hobj).1) values).mpr
      intro obj hobj a ha b hb name _
      rw [(hserved obj hobj).2 a ha b hb]

end LiningUp

section MixedGroup

def steadyDevice : Device Int where
  read := fun _ _ => (Ret.success, 7, 3)
  write := fun _ _ _ => Ret.success
  logStart := none
  logStop := none
  samples := none

/-- An object with a device, for `true`, and one with a server. -/
def mixedHeap (obj : Bool) : DistObject Int where
  name := if obj then [110] else [111]
  attrInfo := fun _ =>
    if obj then ⟨[steadyDevice], none, List.sum, .fpAdd⟩ else ⟨[], some [[111]], List.sum, .fpAdd⟩
  notMixed := fun _ h => by
    cases obj with
    | false => rfl
    | true => exact absurd rfl h
  sameComm := fun _ _ _ _ => rfl

def mixedCntxt : Cntxt Int := fun _ => .ok none

/-- The value of the remote member is in the block of the local one. -/
theorem mixed_group_is_shifted :
    (∀ obj, ValidFor mixedCntxt [.power] (mixedHeap obj)) ∧
      ¬ LinesUp mixedHeap mixedCntxt [.power] (DistGrp.ofAdds mixedHeap [true, false]) := by
  constructor
  · intro obj
    cases obj with
    | false => exact validFor_served (by decide) rfl (by decide) rfl
    | true => exact ⟨by decide, fun _ _ _ _ => ⟨_, rfl⟩⟩
  · intro hlines
    have hrow := hlines (fun _ _ => (5, 1)) .inOrder (fun _ => (0, 0)) _ _ _ rfl 0 true rfl .inOrder
      [(0, 0)] rfl _ _ _ rfl
    exact absurd hrow (by decide)

/-- Two remote objects, the one with one source and the other with two. -/
def remoteHeap (obj : Bool) : DistObject Int where
  name := if obj then [110] else [111]
  attrInfo := fun _ =>
    ⟨[], some (if obj then [[112]] else [[113], [114]]), List.sum, .fpAdd⟩
  notMixed := fun _ _ => rfl
  sameComm := fun _ _ _ _ => rfl

theorem remoteHeap_valid (obj : Bool) : ValidFor mixedCntxt [.power] (remoteHeap obj) := by
  cases obj with
  | false => exact validFor_served (by decide) rfl (by decide) rfl
  | true => exact validFor_served (by decide) rfl (by decide) rfl

/-- They line up when the two sources have one time, and not for all values. -/
theorem group_reads_line_up_iff_remote :
    ¬ LinesUp remoteHeap mixedCntxt [.power] (DistGrp.ofAdds remoteHeap [true, false]) ∧
      LinesUpAt remoteHeap mixedCntxt [.power] (DistGrp.ofAdds remoteHeap [true, false])
        fun obj _ => (obj.length, 1) := by
  have hvalid : ∀ obj ∈ [true, false], ValidFor mixedCntxt [.power] (remoteHeap obj) :=
    fun obj _ => remoteHeap_valid obj
  obtain ⟨hall, hsome⟩ := group_reads_line_up_iff (by decide) hvalid (by decide)
    (succeeds_of_adds (by decide) hvalid (by decide))
  constructor
  · rw [hall]
    decide
  · rw [hsome (by decide)]
    decide

end MixedGroup

end PwrApi
