import PwrApi.Client.Blocking

/-! What the caller of a call that waits is told when the channel ends before the
responses have come. -/

namespace PwrApi

open Function Runs

variable {V α : Type}

namespace Blocking

section Reports

variable [Zero V] [Add V] {heap : α → DistObject V} {cntxt : Cntxt V} {s t : Blocking V}
  {l : Label V α}

/-- A call that waits has its request with its `Status` under way; the `Status` of a log is
empty and no other request's. -/
structure Inv (s : Blocking V) : Prop where
  linked : s.client.Linked
  ready : ∀ w, s.waiting = some w → s.client.Ready w.req w.status
  own : ∀ w, s.waiting = some w → w.kind = .log → s.client.statuses w.status = [] ∧
    ∀ r, r ≠ w.req → (s.client.reqs r).commReqs ≠ [] → (s.client.reqs r).status ≠ w.status

omit [Zero V] [Add V] in
theorem inv_start (status : ReqPtr → StatusPtr) (callback : ReqPtr → Bool)
    (buf : Nat → V × PwrTime) : (start status callback buf).Inv where
  linked := ClientState.linked_start status callback buf
  ready := fun _ h => by cases h
  own := fun _ h => by cases h

theorem start_holds {client : ClientState V} (h : client.Linked) {call : BlockingCall V α}
    {r : ReqPtr} {status : StatusPtr} {id : EventId} {b : Begun V}
    (hfree : (client.reqs r).commReqs = []) (hfresh : client.commReqs id = none)
    (hown : call.kind = .log → ∀ r', r' ≠ r → (client.reqs r').commReqs ≠ [] →
      (client.reqs r').status ≠ status)
    (hlocal : ∀ obj ∈ call.locals.1, (heap obj).isLocal = true)
    (hnames : ∀ name ∈ call.locals.2, name ∈ AttrName.indices)
    (hstart : call.start heap cntxt client r status id = .ok (some b)) :
    b.Holds fun t => ClientState.Ready r status t ∧ (call.kind = .log → t.statuses status = [] ∧
      ∀ r', r' ≠ r → (t.reqs r').commReqs ≠ [] → (t.reqs r').status ≠ status) := by
  have log : ∀ obj op, call.kind = .log →
      (client.beginLog obj r status id op).map some = .ok (some b) → b.Holds fun t =>
        ClientState.Ready r status t ∧ (call.kind = .log → t.statuses status = [] ∧
          ∀ r', r' ≠ r → (t.reqs r').commReqs ≠ [] → (t.reqs r').status ≠ status) := by
    intro obj op hkind hbegin
    obtain ⟨begun, hb, heq⟩ := map_eq_ok.mp hbegin
    obtain rfl := Option.some.inj heq
    have hlog := ClientState.ready_log h hfree hfresh hb
    cases begun with
    | returned retval t => exact hlog
    | waits t =>
        refine ⟨hlog.1, fun _ => ⟨hlog.2.1, ?_⟩⟩
        intro r' hr
        rw [(hlog.2.2 r' hr).1, (hlog.2.2 r' hr).2]
        exact hown hkind r' hr
  have group : call.kind = .group → b.Holds (ClientState.Ready r status) → b.Holds fun t =>
      ClientState.Ready r status t ∧ (call.kind = .log → t.statuses status = [] ∧
        ∀ r', r' ≠ r → (t.reqs r').commReqs ≠ [] → (t.reqs r').status ≠ status) := by
    intro hkind hready
    cases b with
    | returned retval t => exact hready
    | waits t => exact ⟨hready, fun hlog => by rw [hkind] at hlog; cases hlog⟩
  have hidle : ClientState.Idle client.commReqs r client := ⟨h, hfree, rfl⟩
  cases call with
  | attrGetValues obj names base =>
      obtain ⟨t, ht, heq⟩ := map_eq_ok.mp hstart
      obtain rfl := Option.some.inj heq
      exact ⟨ClientState.ready_getValues h hfree hfresh ht, fun hlog => by cases hlog⟩
  | attrSetValues obj values =>
      obtain ⟨t, ht, heq⟩ := map_eq_ok.mp hstart
      obtain rfl := Option.some.inj heq
      exact ⟨ClientState.ready_setValues h hfree hfresh ht, fun hlog => by cases hlog⟩
  | attrStartLog obj name => exact log obj (.startLog name) rfl hstart
  | attrStopLog obj name => exact log obj (.stopLog name) rfl hstart
  | attrGetSamples obj name period count base =>
      exact log obj (.getSamples name period count base) rfl hstart
  | grpAttrGetValues grp names base =>
      exact group rfl (ClientState.ready_grpGetValues hidle hfresh hlocal hnames hstart)
  | grpAttrSetValues grp values =>
      exact group rfl (ClientState.ready_grpSetValues hidle hfresh hlocal hnames hstart)

/-- The responses of a call that waits have come. -/
def Answered (s : Blocking V) (w : Waiting) : Prop :=
  ∀ id ∈ (s.client.reqs w.req).commReqs, id ∈ s.client.channel.map (·.base.id)

/-- There is an error in the caller's `Status`, or one in a response that the call reads for
it. -/
def Entered (s : Blocking V) (w : Waiting) : Prop :=
  s.client.statuses w.status ≠ [] ∨ ∃ ev ∈ s.client.channel, s.client.Enters ev w.status

/-- When the channel has ended, the call that waits is one that looks at the code of `wait`,
or it has its responses, or it is one of a group and has an error to return; and there is
an event left for `makeProgress`. -/
def Meets (s : Blocking V) : Label V α → Prop
  | .finish => ∀ w, s.waiting = some w → s.client.closed = true →
      w.kind = .object ∨ s.Answered w ∨ (w.kind = .group ∧ s.Entered w)
  | .client .makeProgress => ¬ s.Drained
  | _ => True

omit [Zero V] [Add V] in
theorem inv_alone (h : t.client.Linked) (hwaiting : t.waiting = none) : t.Inv where
  linked := h
  ready := fun w hw => by rw [hwaiting] at hw; cases hw
  own := fun w hw => by rw [hwaiting] at hw; cases hw

theorem linked_client (h : s.Inv) {l : ClientState.Label V} (hadm : s.client.Admissible l)
    {code : Int32} {client : ClientState V}
    (hexec : s.client.exec cntxt l = .ok (some (code, client))) : client.Linked :=
  ClientState.linked_exec h.linked hadm hexec

omit [Zero V] [Add V] in
theorem finish_cases (h : s.Inv) {w : Waiting} (hw : s.waiting = some w) {retval : Int32}
    {client : ClientState V}
    (hfinish : s.client.finish cntxt w.kind w.req w.status = .ok (some (retval, client))) :
    client.Linked ∧
    ((client.finished w.req ∧ s.Answered w) ∨
      (¬ client.finished w.req ∧ ¬ s.Answered w ∧ s.client.closed = true ∧
        retval = w.kind.retval Ret.ipc (client.statuses w.status) ∧
        (client.statuses w.status ≠ [] ↔ s.Entered w) ∧
        (w.kind = .log → client.statuses w.status = []))) := by
  rw [ClientState.finish, bind_eq_ok] at hfinish
  obtain ⟨result, hwait, hresult⟩ := hfinish
  obtain ⟨⟨code, t⟩, rfl, heq⟩ := Option.map_eq_some_iff.mp (Except.ok.inj hresult)
  obtain ⟨rfl, rfl⟩ := Prod.mk.inj heq
  have hlinked := ClientState.linked_wait h.linked hwait
  obtain ⟨evs, mid, hrun, hend⟩ := ClientState.waitFrom_ok rfl hwait
  have hconsumed := ClientState.consumed_run h.linked (hrun.mono fun _ _ _ hstep => hstep.2)
  refine ⟨hlinked, ?_⟩
  rcases hend with ⟨hfinished, rfl, rfl⟩ | ⟨hopen, hempty, hclosed, rfl, rfl⟩
  · left
    constructor
    · rw [ClientState.finished, ClientState.execCallback_reqs]
      exact hfinished
    · intro id hid
      rw [hconsumed.channel, List.map_append]
      apply List.mem_append_left
      by_contra hnot
      have hstill := (hconsumed.underWay w.req id).mpr ⟨hid, hnot⟩
      rw [hfinished] at hstill
      cases hstill
  · right
    have hchannel : s.client.channel = evs := by
      rw [hconsumed.channel, hempty, List.append_nil]
    obtain ⟨id, hid⟩ := List.exists_mem_of_ne_nil _ hopen
    have hleft := (hconsumed.underWay w.req id).mp hid
    have hentered : t.statuses w.status ≠ [] ↔ s.Entered w := by
      rw [hconsumed.entered, Entered, hchannel]
    refine ⟨hopen, ?_, ?_, rfl, hentered, ?_⟩
    · intro hanswered
      apply hleft.2
      rw [← hchannel]
      exact hanswered id hleft.1
    · rw [← hconsumed.closed]
      exact hclosed
    · intro hlog
      obtain ⟨hnone, hothers⟩ := h.own w hw hlog
      by_contra hsome
      rcases hentered.mp hsome with hbefore | ⟨ev, hev, commReq, hreq, hstatus, _⟩
      · exact hbefore hnone
      · have hexpected : ev.base.id ∈ s.client.expected :=
          List.mem_append_right _ (List.mem_map_of_mem hev)
        obtain ⟨owner, howner⟩ := (h.linked.underWay _).mp hexpected
        obtain ⟨kind, hkind⟩ := h.linked.owner owner _ howner
        rw [hreq] at hkind
        obtain rfl := Option.some.inj hkind
        by_cases howns : owner = w.req
        · subst howns
          have hids := ClientState.commReqs_of_mem (h.ready w hw).single howner
          have hsame := List.mem_singleton.mp (hids ▸ hleft.1)
          apply hleft.2
          rw [hsame, ← hchannel]
          exact List.mem_map_of_mem hev
        · exact hothers owner howns (List.ne_nil_of_mem howner) hstatus

theorem inv_step (h : s.Inv) (hstep : Step heap cntxt s l t) : t.Inv := by
  obtain ⟨hadm, hstep⟩ := hstep
  cases l with
  | start call r status id =>
      obtain ⟨_, _, hfresh, hfree, hown, hlocal, hnames⟩ := hadm
      obtain ⟨b, hstart, rfl⟩ := hstep
      have hholds := start_holds h.linked hfree hfresh hown hlocal hnames hstart
      cases b with
      | returned retval client =>
          exact inv_alone hholds rfl
      | waits client =>
          refine ⟨hholds.1.linked, ?_, ?_⟩
          · intro w hw
            obtain rfl := Option.some.inj hw
            exact hholds.1
          · intro w hw hlog
            obtain rfl := Option.some.inj hw
            exact hholds.2 hlog
  | finish =>
      obtain ⟨w, retval, client, hw, hfinish, rfl⟩ := hstep
      exact inv_alone (finish_cases h hw hfinish).1 rfl
  | client l =>
      rcases hstep with ⟨_, _, rfl⟩ | ⟨code, client, hexec, rfl⟩
      · exact ⟨h.linked, h.ready, h.own⟩
      · cases l with
        | arrive ev =>
            have hlinked := linked_client h hadm.2 hexec
            obtain ⟨_, rfl⟩ := Prod.mk.inj (Option.some.inj (Except.ok.inj hexec))
            exact ⟨hlinked, fun w hw => ⟨hlinked, (h.ready w hw).status, (h.ready w hw).single⟩,
              h.own⟩
        | close =>
            have hlinked := linked_client h (l := .close) trivial hexec
            obtain ⟨_, rfl⟩ := Prod.mk.inj (Option.some.inj (Except.ok.inj hexec))
            exact ⟨hlinked, fun w hw => ⟨hlinked, (h.ready w hw).status, (h.ready w hw).single⟩,
              h.own⟩
        | call obj r id op => exact inv_alone (linked_client h hadm.2.2 hexec) hadm.2.1
        | wait r => exact inv_alone (linked_client h hadm.2.2 hexec) hadm.2.1
        | makeProgress => exact inv_alone (linked_client h hadm.2.2 hexec) hadm.2.1

theorem drained_stuck (h : s.Drained) :
    s.client.exec cntxt .makeProgress = .error .undefined := by
  change s.client.makeProgress cntxt = .error .undefined
  unfold ClientState.makeProgress
  rw [h.2]
  exact if_pos h.1

theorem step_det {t' : Blocking V} (h : Step heap cntxt s l t) (h' : Step heap cntxt s l t') :
    t = t' := by
  replace h := h.2
  replace h' := h'.2
  cases l with
  | start call r status id =>
      obtain ⟨b, hb, rfl⟩ := h
      obtain ⟨b', hb', rfl⟩ := h'
      rw [hb] at hb'
      rw [Option.some.inj (Except.ok.inj hb')]
  | finish =>
      obtain ⟨w, retval, client, hw, hfinish, rfl⟩ := h
      obtain ⟨w', retval', client', hw', hfinish', rfl⟩ := h'
      obtain rfl := Option.some.inj (hw.symm.trans hw')
      rw [hfinish] at hfinish'
      obtain ⟨rfl, rfl⟩ := Prod.mk.inj (Option.some.inj (Except.ok.inj hfinish'))
      rfl
  | client l =>
      rcases h with ⟨rfl, hdrained, rfl⟩ | ⟨code, client, hexec, rfl⟩
      · rcases h' with ⟨_, _, rfl⟩ | ⟨code', client', hexec', rfl⟩
        · rfl
        · rw [drained_stuck hdrained] at hexec'
          cases hexec'
      · rcases h' with ⟨rfl, hdrained, rfl⟩ | ⟨code', client', hexec', rfl⟩
        · rw [drained_stuck hdrained] at hexec
          cases hexec
        · rw [hexec] at hexec'
          obtain ⟨_, rfl⟩ := Prod.mk.inj (Option.some.inj (Except.ok.inj hexec'))
          rfl

theorem retval_ne_success {status : Status} : status.retval ≠ Ret.success ↔ status ≠ [] := by
  unfold Status.retval
  by_cases h : status = []
  · simp [h]
  · simp only [ne_eq, h, not_false_eq_true, iff_true]
    decide

theorem reported_unanswered {w : Waiting} {status : Status}
    (hlog : w.kind = .log → status = []) :
    (Outcome.returned (w.kind.retval Ret.ipc status) (if w.kind = .log then [] else status)
      false).Reported ↔ w.kind = .object ∨ (w.kind = .group ∧ status ≠ []) := by
  unfold Outcome.Reported
  cases hkind : w.kind with
  | object =>
      have hipc : Ret.ipc ≠ Ret.success := by decide
      simp [CallKind.retval, hipc]
  | log =>
      rw [hlog hkind]
      simp [CallKind.retval, Status.popRetval]
  | group =>
      simp only [CallKind.retval, retval_ne_success, reduceCtorEq, if_false, false_or, true_and,
        Bool.false_eq_true, or_false, or_self]

theorem reported_step (h : s.Inv) (hstep : Step heap cntxt s l t) :
    t.outcome.Reported ↔ s.Meets l := by
  replace hstep := hstep.2
  cases l with
  | start call r status id =>
      obtain ⟨b, _, rfl⟩ := hstep
      refine iff_of_true ?_ trivial
      cases b with
      | returned retval client => exact .inr (.inr rfl)
      | waits client => trivial
  | finish =>
      obtain ⟨w, retval, client, hw, hfinish, rfl⟩ := hstep
      have hmeets : s.Meets (.finish : Label V α) ↔ (s.client.closed = true →
          w.kind = .object ∨ s.Answered w ∨ (w.kind = .group ∧ s.Entered w)) := by
        constructor
        · exact fun hall => hall w hw
        · intro hone w' hw'
          obtain rfl := Option.some.inj (hw.symm.trans hw')
          exact hone
      rw [hmeets]
      rcases (finish_cases h hw hfinish).2 with ⟨hdone, hanswered⟩ |
        ⟨hopen, hmissing, hclosed, rfl, hentered, hlog⟩
      · apply iff_of_true
        · exact .inr (.inr (decide_eq_true hdone))
        · exact fun _ => .inr (.inl hanswered)
      · have hreported := reported_unanswered hlog
        rw [← decide_eq_false hopen] at hreported
        rw [← hentered]
        simp only [hclosed, hmissing, true_imp_iff, false_or]
        exact hreported
  | client l =>
      rcases hstep with ⟨rfl, hdrained, rfl⟩ | ⟨code, client, hexec, rfl⟩
      · exact iff_of_false (fun hfalse => hfalse) (fun hnot => hnot hdrained)
      · refine iff_of_true trivial ?_
        cases l with
        | makeProgress =>
            intro hdrained
            rw [drained_stuck hdrained] at hexec
            cases hexec
        | _ => trivial

/-- In every run, the caller is told of each response that was not applied exactly if every
step meets the condition. -/
theorem broken_reported_iff {status : ReqPtr → StatusPtr} {callback : ReqPtr → Bool}
    {buf : Nat → V × PwrTime} {ls : List (Label V α)}
    (hrun : Run (Step heap cntxt) (start status callback buf) ls t) :
    Along (Step heap cntxt) (fun s => s.outcome.Reported) (start status callback buf) ls ↔
      EachStep (Step heap cntxt) Meets (start status callback buf) ls :=
  hrun.along_iff Inv (fun _ _ _ h _ hstep _ => inv_step h hstep)
    (fun _ _ _ h _ hstep => reported_step h hstep) (fun _ _ _ _ => step_det)
    (inv_start status callback buf) trivial

theorem start_of {call : BlockingCall V α} {r : ReqPtr} {status : StatusPtr} {id : EventId}
    {b : Begun V} (hadm : s.Admissible heap (.start call r status id))
    (hstart : call.start heap cntxt s.client r status id = .ok (some b)) :
    Step heap cntxt s (.start call r status id) (begun call r status b) :=
  ⟨hadm, b, hstart, rfl⟩

theorem finish_of {w : Waiting} {retval : Int32} {client : ClientState V}
    (hadm : s.Admissible heap (.finish : Label V α)) (hw : s.waiting = some w)
    (hfinish : s.client.finish cntxt w.kind w.req w.status = .ok (some (retval, client))) :
    Step heap cntxt s .finish (finished w retval client) :=
  ⟨hadm, w, retval, client, hw, hfinish, rfl⟩

end Reports

section StartLog

/-- A log of a remote object is started, and the channel ends before the response. -/
def brokenStartLog : List (Label Int Bool) :=
  [.start (.attrStartLog (Caching.servedHeap true) .power) 0 0 100, .client .close, .finish]

def startedLog : ClientState Int :=
  ((ClientState.start id (fun _ => false) fun _ => (0, 0)).newRequest 0 0 false).send 0 .startLog 100

theorem startedLog_begins :
    BlockingCall.start Caching.servedHeap (fun _ => .ok none)
        (ClientState.start id (fun _ => false) fun _ => ((0 : Int), 0)) 0 0 100
        (.attrStartLog (Caching.servedHeap true) .power) =
      .ok (some (.waits { startedLog with statuses := update (fun _ => []) 0 [] })) := rfl

theorem brokenStartLog_run :
    ∃ s client, Run (Step Caching.servedHeap fun _ => .ok none)
        (start id (fun _ => false) fun _ => (0, 0)) brokenStartLog s ∧
      s = finished ⟨.log, 0, 0⟩ Ret.success client ∧ ¬ client.finished 0 := by
  refine ⟨_, _, .cons (start_of ⟨by simp [start], rfl, rfl, rfl, ?_, ?_, ?_⟩ startedLog_begins)
    (.cons ⟨by simp [Admissible, begun], .inr ⟨_, _, rfl, rfl⟩⟩
    (.cons (finish_of (by simp [Admissible]) rfl rfl) (.nil _))), rfl, ?_⟩
  · exact fun _ r' _ hnone => absurd rfl hnone
  · exact fun _ hobj => absurd hobj List.not_mem_nil
  · exact fun _ hname => absurd hname List.not_mem_nil
  · exact List.cons_ne_nil _ _

theorem broken_reported_iff_startLog :
    Along (Step Caching.servedHeap fun _ => .ok none) (fun s => s.outcome.Reported)
        (start id (fun _ => false) fun _ => ((0 : Int), 0)) brokenStartLog ↔
      EachStep (Step Caching.servedHeap fun _ => .ok none) Meets
        (start id (fun _ => false) fun _ => ((0 : Int), 0)) brokenStartLog := by
  obtain ⟨s, _, hrun, _⟩ := brokenStartLog_run
  exact broken_reported_iff hrun

theorem start_log_is_silent :
    ∃ s, Run (Step Caching.servedHeap fun _ => .ok none)
        (start id (fun _ => false) fun _ => ((0 : Int), 0)) brokenStartLog s ∧
      ¬ s.outcome.Reported := by
  obtain ⟨s, client, hrun, rfl, hopen⟩ := brokenStartLog_run
  refine ⟨_, hrun, ?_⟩
  rintro (hcode | hstatus | hanswered)
  · exact hcode rfl
  · exact hstatus rfl
  · exact hopen (of_decide_eq_true hanswered)

end StartLog

end Blocking

end PwrApi
