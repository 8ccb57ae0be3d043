import PwrApi.Router.Sending

/-! The reduction of the responses of one group: what `reduceGroup` computes, and when
it succeeds. -/

namespace PwrApi.Router

open Runs

variable {V : Type}

def valueAt [Zero V] (r : CommRespEvent V) (i : Nat) : V := (r.value.headD []).getD i 0

def timeAt (r : CommRespEvent V) (i : Nat) : PwrTime := (r.timeStamp.headD []).getD i 0

def sumValues [Zero V] [Add V] (attrs : Nat) (rs : List (CommRespEvent V)) : List V :=
  (List.range attrs).map fun i => (rs.map fun r => valueAt r i).sum

def lastTimes (attrs : Nat) (rs : List (CommRespEvent V)) : List PwrTime :=
  (List.range attrs).map fun i => (rs.getLast?.map fun r => timeAt r i).getD 0

/-- A response with a value and a time for each of `attrs` attributes. -/
def Covers (attrs : Nat) (r : CommRespEvent V) : Prop :=
  attrs ≤ (r.value.headD []).length ∧ attrs ≤ (r.timeStamp.headD []).length

section Rows

variable [AddMonoid V]

theorem addRow_cons {op : ValueOp} {ops : List ValueOp} {cells cells' : List (V × PwrTime)}
    {values : List V} {times : List PwrTime}
    (h : addRow (op :: ops) cells values times = .ok cells') :
    op = .fpAdd ∧ ∃ cell value time rest, cells.head? = some cell ∧
      values.head? = some value ∧ times.head? = some time ∧
      addRow ops cells.tail values.tail times.tail = .ok rest ∧
      cells' = (cell.1 + value, time) :: rest := by
  simp only [addRow, bind_eq_ok, require_eq_ok, orFault_eq_ok, Except.ok.injEq] at h
  obtain ⟨_, hop, cell, hcell, value, hvalue, time, htime, rest, hrest, heq⟩ := h
  exact ⟨hop, cell, value, time, rest, hcell, hvalue, htime, hrest, heq.symm⟩

theorem addRow_ok {ops : List ValueOp} {f : Nat → V × PwrTime} {values : List V}
    {times : List PwrTime} {cells : List (V × PwrTime)}
    (h : addRow ops ((List.range ops.length).map f) values times = .ok cells) :
    cells = (List.range ops.length).map fun i => ((f i).1 + values.getD i 0, times.getD i 0) := by
  induction ops generalizing f values times cells with
  | nil =>
      obtain rfl := Except.ok.inj h
      rfl
  | cons op ops ih =>
      rw [List.length_cons, List.range_succ_eq_map, List.map_cons, List.map_map] at h
      obtain ⟨_, cell, value, time, rest, hcell, hvalue, htime, hrest, rfl⟩ := addRow_cons h
      obtain ⟨values, rfl⟩ := List.head?_eq_some_iff.mp hvalue
      obtain ⟨times, rfl⟩ := List.head?_eq_some_iff.mp htime
      obtain rfl := Option.some.inj hcell
      rw [ih hrest, List.length_cons, List.range_succ_eq_map, List.map_cons, List.map_map]
      rfl

theorem addRow_total {ops : List ValueOp} {cells : List (V × PwrTime)} {values : List V}
    {times : List PwrTime} (hops : ∀ op ∈ ops, op = .fpAdd)
    (hcells : cells.length = ops.length) (hvalues : ops.length ≤ values.length)
    (htimes : ops.length ≤ times.length) :
    ∃ cells' : List (V × PwrTime), addRow ops cells values times = .ok cells' ∧
      cells'.length = ops.length := by
  induction ops generalizing cells values times with
  | nil => exact ⟨cells, rfl, hcells⟩
  | cons op ops ih =>
      rcases cells with _ | ⟨⟨sum, old⟩, cells⟩
      · simp at hcells
      rcases values with _ | ⟨value, values⟩
      · simp at hvalues
      rcases times with _ | ⟨time, times⟩
      · simp at htimes
      simp only [List.length_cons, Nat.add_le_add_iff_right, Nat.add_right_cancel_iff] at *
      obtain ⟨rest, hrest, hlength⟩ :=
        ih (fun o ho => hops o (List.mem_cons_of_mem _ ho)) hcells hvalues htimes
      refine ⟨(sum + value, time) :: rest, ?_, by simp [hlength]⟩
      rw [addRow, require_of _ (hops op List.mem_cons_self)]
      simp [bind, Except.bind, hrest]

theorem addRow_refused {ops : List ValueOp} {cells : List (V × PwrTime)} {values : List V}
    {times : List PwrTime} (hop : ∃ op ∈ ops, op ≠ .fpAdd)
    (hcells : cells.length = ops.length) (hvalues : ops.length ≤ values.length)
    (htimes : ops.length ≤ times.length) :
    addRow ops cells values times = .error .assertFailed := by
  induction ops generalizing cells values times with
  | nil => simp at hop
  | cons op ops ih =>
      rcases cells with _ | ⟨⟨sum, old⟩, cells⟩
      · simp at hcells
      rcases values with _ | ⟨value, values⟩
      · simp at hvalues
      rcases times with _ | ⟨time, times⟩
      · simp at htimes
      simp only [List.length_cons, Nat.add_le_add_iff_right, Nat.add_right_cancel_iff] at *
      by_cases hfirst : op = .fpAdd
      · have hrest : ∃ op ∈ ops, op ≠ .fpAdd := by
          obtain ⟨other, hmem, hother⟩ := hop
          rcases List.mem_cons.mp hmem with rfl | hmem
          · exact (hother hfirst).elim
          · exact ⟨other, hmem, hother⟩
        rw [addRow, require_of _ hfirst]
        simp [bind, Except.bind, ih hrest hcells hvalues htimes]
      · simp [addRow, require, hfirst, bind, Except.bind]

end Rows

section Groups

variable [AddMonoid V]

theorem fold_rows_ok {ops : List ValueOp} {f : Nat → V × PwrTime} {rs : List (CommRespEvent V)}
    {cells : List (V × PwrTime)}
    (h : rs.foldlM (fun cells r =>
      addRow ops cells (r.value.headD []) (r.timeStamp.headD []))
      ((List.range ops.length).map f) = .ok cells) :
    cells = (List.range ops.length).map fun i =>
      ((f i).1 + (rs.map fun r => valueAt r i).sum,
        (rs.getLast?.map fun r => timeAt r i).getD (f i).2) := by
  induction rs generalizing f cells with
  | nil =>
      obtain rfl := Except.ok.inj h
      simp
  | cons r rs ih =>
      rw [List.foldlM_cons, bind_eq_ok] at h
      obtain ⟨mid, hmid, hrest⟩ := h
      rw [addRow_ok hmid] at hrest
      rw [ih hrest]
      apply List.map_congr_left
      intro i _
      rw [List.map_cons, List.sum_cons, ← add_assoc]
      refine congrArg (Prod.mk _) ?_
      cases rs with
      | nil => rfl
      | cons r' rs => simp [List.getLast?_cons]

theorem reduceGroup_ok {ops : List ValueOp} {rs : List (CommRespEvent V)}
    {cells : List (V × PwrTime)} (h : reduceGroup ops rs = .ok cells) :
    cells.map Prod.fst = sumValues ops.length rs ∧
      cells.map Prod.snd = lastTimes ops.length rs := by
  have hzero : ops.map (fun _ => ((0 : V), (0 : PwrTime))) =
      (List.range ops.length).map fun _ => (0, 0) := by
    simp
  unfold reduceGroup at h
  rw [hzero] at h
  rw [fold_rows_ok h]
  simp [sumValues, lastTimes, Function.comp_def]

theorem fold_rows_total {ops : List ValueOp} {rs : List (CommRespEvent V)}
    {cells : List (V × PwrTime)} (hops : ∀ op ∈ ops, op = .fpAdd)
    (hcells : cells.length = ops.length) (hrs : ∀ r ∈ rs, Covers ops.length r) :
    ∃ cells', rs.foldlM (fun cells r =>
      addRow ops cells (r.value.headD []) (r.timeStamp.headD [])) cells = .ok cells' := by
  induction rs generalizing cells with
  | nil => exact ⟨cells, rfl⟩
  | cons r rs ih =>
      obtain ⟨hvalues, htimes⟩ := hrs r List.mem_cons_self
      obtain ⟨mid, hmid, hlength⟩ := addRow_total hops hcells hvalues htimes
      obtain ⟨cells', hcells'⟩ := ih hlength fun r' hr' => hrs r' (List.mem_cons_of_mem r hr')
      refine ⟨cells', ?_⟩
      rw [List.foldlM_cons, bind_eq_ok]
      exact ⟨mid, hmid, hcells'⟩

theorem reduceGroup_total {ops : List ValueOp} {rs : List (CommRespEvent V)}
    (hops : ∀ op ∈ ops, op = .fpAdd) (hrs : ∀ r ∈ rs, Covers ops.length r) :
    ∃ cells, reduceGroup ops rs = .ok cells :=
  fold_rows_total hops (by simp) hrs

theorem reduceGroup_refused {ops : List ValueOp} {rs : List (CommRespEvent V)}
    (hop : ∃ op ∈ ops, op ≠ .fpAdd) (hne : rs ≠ []) (hrs : ∀ r ∈ rs, Covers ops.length r) :
    reduceGroup ops rs = .error .assertFailed := by
  obtain ⟨r, rs, rfl⟩ := List.exists_cons_of_ne_nil hne
  obtain ⟨hvalues, htimes⟩ := hrs r List.mem_cons_self
  unfold reduceGroup
  rw [List.foldlM_cons, addRow_refused hop (by simp) hvalues htimes]
  rfl

theorem mergeGroup_ok {info : CommReqInfo V} {resp merged : CommRespEvent V} {grp : Nat}
    {rs : List (CommRespEvent V)} (h : mergeGroup info resp grp rs = .ok merged) :
    merged.id = resp.id ∧
    merged.errObj = resp.errObj ++ rs.flatMap (·.errObj) ∧
    merged.errAttr = resp.errAttr ++ rs.flatMap (·.errAttr) ∧
    merged.errValue = resp.errValue ++ rs.flatMap (·.errValue) ∧
    (info.ev.op = .get →
      merged.value = resp.value.set grp (sumValues info.valueOp.length rs) ∧
      merged.timeStamp = resp.timeStamp.set grp (lastTimes info.valueOp.length rs)) ∧
    (info.ev.op ≠ .get → merged.value = resp.value ∧ merged.timeStamp = resp.timeStamp) := by
  unfold mergeGroup at h
  by_cases hop : info.ev.op = .get
  · simp only [hop, if_true, bind_eq_ok, Except.ok.injEq] at h
    obtain ⟨cells, hcells, _, rfl, rfl⟩ := h
    obtain ⟨hsums, htimes⟩ := reduceGroup_ok hcells
    refine ⟨rfl, rfl, rfl, rfl, fun _ => ⟨?_, ?_⟩, fun hne => (hne hop).elim⟩
    · rw [← hsums]
    · rw [← htimes]
  · simp only [hop, if_false, bind_eq_ok, Except.ok.injEq] at h
    obtain ⟨_, rfl, rfl⟩ := h
    exact ⟨rfl, rfl, rfl, rfl, fun heq => (hop heq).elim, fun _ => ⟨rfl, rfl⟩⟩

theorem mergeGroup_total (info : CommReqInfo V) (resp : CommRespEvent V) (grp : Nat)
    {rs : List (CommRespEvent V)}
    (hops : info.ev.op = .get → ∀ op ∈ info.valueOp, op = .fpAdd)
    (hrs : info.ev.op = .get → ∀ r ∈ rs, Covers info.valueOp.length r) :
    ∃ merged, mergeGroup info resp grp rs = .ok merged := by
  unfold mergeGroup
  by_cases hop : info.ev.op = .get
  · obtain ⟨cells, hcells⟩ := reduceGroup_total (hops hop) (hrs hop)
    simp [hop, hcells, bind, Except.bind]
  · simp [hop, bind, Except.bind]

theorem mergeGroup_refused {info : CommReqInfo V} (resp : CommRespEvent V) (grp : Nat)
    {rs : List (CommRespEvent V)} (hget : info.ev.op = .get)
    (hop : ∃ op ∈ info.valueOp, op ≠ .fpAdd) (hne : rs ≠ [])
    (hrs : ∀ r ∈ rs, Covers info.valueOp.length r) :
    mergeGroup info resp grp rs = .error .assertFailed := by
  unfold mergeGroup
  rw [if_pos hget, reduceGroup_refused hop hne hrs]
  rfl

end Groups

end PwrApi.Router
