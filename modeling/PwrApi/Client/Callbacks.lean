import PwrApi.Client.Progress

/-! How often the callback of a request runs: when its call completes at once, after each
response that `makeProgress` consumes, and at the end of each `wait`. -/

namespace PwrApi

open Function Runs

variable {V : Type}

/-- The call in which the last response of a request was consumed. -/
inductive Completion
  | immediately | byProgress | byWait
  deriving DecidableEq, Repr

/-- A client with what has become of one of its requests: the return value of the call it
was used for, the runs of its callback before that call, how it was completed, and the waits
for it that returned with success after the call. -/
structure Watch (V : Type) where
  client : ClientState V
  issued : Option Int32
  before : List (List EventId)
  how : Option Completion
  waits : Nat

namespace Watch

def completionOf : ClientState.Label V → Option Completion
  | .call _ _ _ _ => some .immediately
  | .makeProgress => some .byProgress
  | .wait _ => some .byWait
  | _ => none

def start (status : ReqPtr → StatusPtr) (callback : ReqPtr → Bool) (buf : Nat → V × PwrTime) :
    Watch V :=
  ⟨.start status callback buf, none, [], none, 0⟩

def issuedAfter (r : ReqPtr) (s : Watch V) (l : ClientState.Label V) (code : Int32) :
    Option Int32 :=
  match l with
  | .call _ r' _ _ => if r' = r then some code else s.issued
  | _ => s.issued

def beforeAfter (r : ReqPtr) (s : Watch V) (l : ClientState.Label V) : List (List EventId) :=
  match l with
  | .call _ r' _ _ => if r' = r then s.client.called r else s.before
  | _ => s.before

def waitsAfter (r : ReqPtr) (s : Watch V) (l : ClientState.Label V) (code : Int32) : Nat :=
  match l with
  | .wait r' =>
      if r' = r ∧ code = Ret.success ∧ s.issued ≠ none then s.waits + 1 else s.waits
  | _ => s.waits

def after (r : ReqPtr) (s : Watch V) (l : ClientState.Label V) (code : Int32)
    (client : ClientState V) : Watch V where
  client := client
  issued := s.issuedAfter r l code
  before := s.beforeAfter r l
  how :=
    if s.how = none ∧ s.issuedAfter r l code = some Ret.success ∧ client.finished r then
      completionOf l
    else s.how
  waits := s.waitsAfter r l code

def Step [Zero V] [Add V] (cntxt : Cntxt V) (r : ReqPtr) (s : Watch V) (l : ClientState.Label V)
    (t : Watch V) : Prop :=
  s.client.Admissible l ∧ (∀ obj id op, l = .call obj r id op → s.issued = none) ∧
    ∃ code, s.client.exec cntxt l = .ok (some (code, t.client)) ∧ t = s.after r l code t.client

/-- Since the call the callback has run once, with no response outstanding. -/
def CalledOnce (s : Watch V) (r : ReqPtr) : Prop := s.client.called r = s.before ++ [[]]

/-- The runs of the callback before the waits. -/
def early : Option Completion → Nat
  | some .immediately => 1
  | some .byProgress => 1
  | _ => 0

structure Inv (r : ReqPtr) (s : Watch V) : Prop where
  linked : s.client.Linked
  callback : (s.client.reqs r).callback = true
  single : (s.client.reqs r).commReqs.length ≤ 1
  fresh : s.issued = none → s.client.finished r ∧ s.how = none ∧ s.waits = 0
  done : s.issued = some Ret.success → (s.how = none ↔ ¬ s.client.finished r)
  called : s.issued = some Ret.success →
    s.client.called r = s.before ++ List.replicate (early s.how + s.waits) []

theorem inv_start (status : ReqPtr → StatusPtr) (callback : ReqPtr → Bool)
    (buf : Nat → V × PwrTime) {r : ReqPtr} (hcallback : callback r = true) :
    (start status callback buf).Inv r where
  linked := ClientState.linked_start status callback buf
  callback := hcallback
  single := Nat.zero_le _
  fresh := fun _ => ⟨rfl, rfl, rfl⟩
  done := fun h => by cases h
  called := fun h => by cases h

section Steps

variable {cntxt : Cntxt V} {r : ReqPtr} {s t : Watch V} {l : ClientState.Label V}

theorem inv_untouched (h : s.Inv r) {client : ClientState V} (hlinked : client.Linked)
    (hreq : (client.reqs r).commReqs = (s.client.reqs r).commReqs)
    (hcallback : (client.reqs r).callback = (s.client.reqs r).callback)
    (hcalled : client.called r = s.client.called r) {code : Int32}
    (hissued : s.issuedAfter r l code = s.issued) (hbefore : s.beforeAfter r l = s.before)
    (hwaits : s.waitsAfter r l code = s.waits) : (s.after r l code client).Inv r := by
  have hfinished : client.finished r ↔ s.client.finished r := by
    rw [ClientState.finished, ClientState.finished, hreq]
  have hhow : (s.after r l code client).how = s.how := by
    simp only [after, hissued]
    rw [if_neg]
    rintro ⟨hnone, hsuccess, hdone⟩
    exact (h.done hsuccess).mp hnone (hfinished.mp hdone)
  refine ⟨hlinked, hcallback.trans h.callback, ?_, ?_, ?_, ?_⟩
  · change (client.reqs r).commReqs.length ≤ 1
    rw [hreq]
    exact h.single
  · intro hnone
    rw [hhow]
    change s.issuedAfter r l code = none at hnone
    rw [hissued] at hnone
    exact ⟨hfinished.mpr (h.fresh hnone).1, (h.fresh hnone).2.1,
      hwaits.trans (h.fresh hnone).2.2⟩
  · intro hsuccess
    rw [hhow]
    change s.issuedAfter r l code = some Ret.success at hsuccess
    rw [hissued] at hsuccess
    rw [h.done hsuccess]
    exact not_congr hfinished.symm
  · intro hsuccess
    change s.issuedAfter r l code = some Ret.success at hsuccess
    rw [hissued] at hsuccess
    rw [hhow]
    change client.called r =
      s.beforeAfter r l ++ List.replicate (early s.how + s.waitsAfter r l code) []
    rw [hcalled, hbefore, hwaits]
    exact h.called hsuccess

theorem inv_consumes (h : s.Inv r) {client : ClientState V} (hlinked : client.Linked)
    (hcallback : (client.reqs r).callback = (s.client.reqs r).callback)
    (hreq : (client.reqs r).commReqs.Sublist (s.client.reqs r).commReqs) {code : Int32}
    (hissued : s.issuedAfter r l code = s.issued) (hbefore : s.beforeAfter r l = s.before)
    (hwaits : s.issued = none → s.waitsAfter r l code = s.waits)
    (hcompletes : completionOf l ≠ none)
    (hcalled : s.issued = some Ret.success →
      client.called r = s.before ++
        List.replicate (early (s.after r l code client).how + s.waitsAfter r l code) []) :
    (s.after r l code client).Inv r := by
  have hfinished : s.client.finished r → client.finished r := by
    intro hdone
    rw [ClientState.finished] at hdone ⊢
    rw [hdone] at hreq
    exact List.sublist_nil.mp hreq
  refine ⟨hlinked, hcallback.trans h.callback, hreq.length_le.trans h.single, ?_, ?_, ?_⟩
  · intro hnone
    change s.issuedAfter r l code = none at hnone
    have hunissued : s.issued = none := hissued.symm.trans hnone
    obtain ⟨hdone, hhow, hzero⟩ := h.fresh hunissued
    refine ⟨hfinished hdone, ?_, (hwaits hunissued).trans hzero⟩
    simp only [after, hnone, reduceCtorEq, false_and, and_false, if_false]
    exact hhow
  · intro hsuccess
    change s.issuedAfter r l code = some Ret.success at hsuccess
    have hopen := h.done (hissued ▸ hsuccess)
    change (if s.how = none ∧ s.issuedAfter r l code = some Ret.success ∧ client.finished r then
      completionOf l else s.how) = none ↔ ¬ client.finished r
    by_cases hhow : s.how = none
    · by_cases hdone : client.finished r
      · rw [if_pos ⟨hhow, hsuccess, hdone⟩]
        exact iff_of_false hcompletes fun hnot => hnot hdone
      · rw [if_neg fun hall => hdone hall.2.2]
        exact iff_of_true hhow hdone
    · rw [if_neg fun hall => hhow hall.1]
      refine iff_of_false hhow fun hnot => hnot (hfinished ?_)
      by_contra hnot
      exact hhow (hopen.mpr hnot)
  · intro hsuccess
    change s.issuedAfter r l code = some Ret.success at hsuccess
    change client.called r = s.beforeAfter r l ++ _
    rw [hbefore]
    exact hcalled (hissued.symm.trans hsuccess)

theorem early_wait {r' : ReqPtr} {code : Int32} {client : ClientState V} :
    early (s.after r (.wait r') code client).how = early s.how := by
  simp only [after, completionOf]
  split
  next hall =>
    rw [hall.1]
    rfl
  next => rfl

end Steps

section Responses

variable {cntxt : Cntxt V} {r : ReqPtr} {s : Watch V}

/-- What responses leave of the requests: they are taken off, and nothing is called. -/
structure Shrinks (s t : ClientState V) : Prop where
  called : t.called = s.called
  reqs : ∀ r, (t.reqs r).callback = (s.reqs r).callback ∧
    (t.reqs r).commReqs.Sublist (s.reqs r).commReqs

theorem shrinks_consume {s t : ClientState V} {ev : Payload V}
    (h : ClientState.Consume cntxt s ev t) : Shrinks s t := by
  obtain ⟨rest, kind, r, buf, status, _, _, _, rfl⟩ := ClientState.consume_ok h
  refine ⟨rfl, fun r' => ?_⟩
  by_cases hr : r' = r
  · subst hr
    constructor
    · simp only [update_self]
    · simp only [update_self]
      exact List.erase_sublist
  · constructor
    · simp only [update_of_ne hr]
    · simp only [update_of_ne hr]
      exact List.Sublist.refl _

theorem shrinks_wait {s t : ClientState V} {evs : List (Payload V)} {r : ReqPtr}
    (h : Run (ClientState.WaitStep cntxt r) s evs t) : Shrinks s t := by
  apply h.invariant (Shrinks s)
  · intro mid ev next hmid hstep
    have hnext := shrinks_consume hstep.2
    refine ⟨hnext.called.trans hmid.called, fun r' => ⟨?_, ?_⟩⟩
    · exact (hnext.reqs r').1.trans (hmid.reqs r').1
    · exact (hnext.reqs r').2.trans (hmid.reqs r').2
  · exact ⟨rfl, fun _ => ⟨rfl, List.Sublist.refl _⟩⟩

theorem waitsAfter_fresh {s : Watch V} (h : s.issued = none) (r' : ReqPtr) (code : Int32) :
    s.waitsAfter r (.wait r') code = s.waits :=
  if_neg fun hall => hall.2.2 h

theorem inv_wait (h : s.Inv r) {r' : ReqPtr} {code : Int32} {client : ClientState V}
    (hwait : s.client.wait cntxt r' = .ok (some (code, client))) :
    (s.after r (.wait r') code client).Inv r := by
  have hlinked := ClientState.linked_wait h.linked hwait
  obtain ⟨evs, mid, hrun, hend⟩ := ClientState.waitFrom_ok rfl hwait
  have hshrinks := shrinks_wait hrun
  obtain ⟨hcallback, hsub⟩ := hshrinks.reqs r
  rcases hend with ⟨hfinished, rfl, rfl⟩ | ⟨_, _, _, rfl, rfl⟩
  · apply inv_consumes h hlinked _ _ rfl rfl (waitsAfter_fresh · r' _) (by simp [completionOf])
    · intro hissued
      rw [early_wait]
      by_cases hr : r' = r
      · subst hr
        have hon : (mid.reqs r').callback = true := hcallback.trans h.callback
        have hcounts : s.waitsAfter r' (.wait r') Ret.success = s.waits + 1 :=
          if_pos ⟨rfl, rfl, by rw [hissued]; exact Option.some_ne_none _⟩
        rw [ClientState.execCallback_called_self hon, hshrinks.called, h.called hissued,
          show (mid.reqs r').commReqs = [] from hfinished, hcounts, ← Nat.add_assoc,
          List.replicate_succ', List.append_assoc]
      · rw [ClientState.execCallback_called_ne (Ne.symm hr), hshrinks.called, h.called hissued]
        simp only [waitsAfter, hr, false_and, if_false]
    · rw [ClientState.execCallback_reqs]
      exact hcallback
    · rw [ClientState.execCallback_reqs]
      exact hsub
  · apply inv_consumes h hlinked hcallback hsub rfl rfl (waitsAfter_fresh · r' _)
      (by simp [completionOf])
    intro hissued
    have hcode : Ret.ipc ≠ Ret.success := by decide
    rw [early_wait, hshrinks.called, h.called hissued]
    simp only [waitsAfter, hcode, false_and, and_false, if_false]

theorem inv_makeProgress (h : s.Inv r) {code : Int32} {client : ClientState V}
    (hprogress : s.client.makeProgress cntxt = .ok (some (code, client))) :
    (s.after r .makeProgress code client).Inv r := by
  obtain ⟨ev, mid, kind, r', hconsume, hreq, rfl, rfl⟩ := ClientState.makeProgress_ok hprogress
  have hlinked := ClientState.linked_callback (ClientState.linked_consume h.linked hconsume) r'
  have hshrinks := shrinks_consume hconsume
  obtain ⟨hcallback, hsub⟩ := hshrinks.reqs r
  obtain ⟨rest, kind', owner, buf, status, hchannel, hreq', _, hmid⟩ :=
    ClientState.consume_ok hconsume
  have howner : owner = r' :=
    (DistCommReq.mk.inj (Option.some.inj (hreq'.symm.trans hreq))).2
  subst howner
  by_cases hr : owner = r
  · subst hr
    have hmem := ClientState.next_expected h.linked hchannel hreq
    have hone := ClientState.commReqs_of_mem h.single hmem
    have hfinished : (mid.reqs owner).commReqs = [] := by
      rw [hmid]
      simp only [update_self, hone, List.erase_cons_head]
    have hon : (mid.reqs owner).callback = true := hcallback.trans h.callback
    apply inv_consumes h hlinked _ _ rfl rfl (fun _ => rfl) (by simp [completionOf])
    · intro hissued
      have hopen : ¬ s.client.finished owner := by
        rw [ClientState.finished, hone]
        exact List.cons_ne_nil _ _
      have hhow : s.how = none := (h.done hissued).mpr hopen
      have hdone : (mid.execCallback owner).finished owner := by
        rw [ClientState.finished, ClientState.execCallback_reqs]
        exact hfinished
      have hafter : (s.after owner .makeProgress Ret.success (mid.execCallback owner)).how =
          some .byProgress := if_pos ⟨hhow, hissued, hdone⟩
      rw [hafter, ClientState.execCallback_called_self hon, hshrinks.called, h.called hissued,
        hfinished, hhow, List.append_assoc]
      change s.before ++ (List.replicate (0 + s.waits) [] ++ [[]]) =
        s.before ++ List.replicate (1 + s.waits) []
      rw [Nat.zero_add, Nat.add_comm, List.replicate_succ']
    · rw [ClientState.execCallback_reqs]
      exact hcallback
    · rw [ClientState.execCallback_reqs]
      exact hsub
  · have hne : r ≠ owner := Ne.symm hr
    apply inv_untouched h hlinked _ _ _ rfl rfl rfl
    · rw [ClientState.execCallback_reqs, hmid]
      simp only [update_of_ne hne]
    · rw [ClientState.execCallback_reqs]
      exact hcallback
    · rw [ClientState.execCallback_called_ne hne, hshrinks.called]

end Responses

section Calls

variable {r r' : ReqPtr} {s : Watch V} {client : ClientState V} {obj : DistObject V}
  {id : EventId} {op : ClientState.Operation V} {code : Int32}

theorem inv_issued (h : s.Inv r) (hissued : s.issued = none) (hlinked : client.Linked)
    (hcallback : (client.reqs r).callback = (s.client.reqs r).callback)
    (hsingle : (client.reqs r).commReqs.length ≤ 1)
    (hsuccess : code = Ret.success →
      (¬ client.finished r ∧ client.called r = s.client.called r) ∨
      (client.finished r ∧ client.called r = s.client.called r ++ [[]])) :
    (s.after r (.call obj r id op) code client).Inv r := by
  obtain ⟨_, hhow, hwaits⟩ := h.fresh hissued
  have hbefore : s.beforeAfter r (.call obj r id op) = s.client.called r := if_pos rfl
  have hcode : s.issuedAfter r (.call obj r id op) code = some code := if_pos rfl
  have hafter : (s.after r (.call obj r id op) code client).how =
      if code = Ret.success ∧ client.finished r then some .immediately else none := by
    simp only [after, hcode, hhow, true_and, Option.some.injEq, completionOf]
  refine ⟨hlinked, hcallback.trans h.callback, hsingle, ?_, ?_, ?_⟩
  · intro hnone
    rw [show (s.after r (.call obj r id op) code client).issued = some code from hcode] at hnone
    cases hnone
  · intro hsome
    have hok : code = Ret.success := Option.some.inj (hcode.symm.trans hsome)
    rw [hafter]
    by_cases hdone : client.finished r
    · rw [if_pos ⟨hok, hdone⟩]
      exact iff_of_false (by simp) fun hnot => hnot hdone
    · rw [if_neg fun hall => hdone hall.2]
      exact iff_of_true rfl hdone
  · intro hsome
    have hok : code = Ret.success := Option.some.inj (hcode.symm.trans hsome)
    rw [hafter]
    change client.called r =
      s.beforeAfter r (.call obj r id op) ++ List.replicate (_ + s.waits) []
    rw [hbefore, hwaits]
    rcases hsuccess hok with ⟨hopen, hsame⟩ | ⟨hdone, hran⟩
    · rw [if_neg fun hall => hopen hall.2, hsame]
      exact (List.append_nil _).symm
    · rw [if_pos ⟨hok, hdone⟩, hran]
      rfl

theorem inv_call [Zero V] [Add V] (h : s.Inv r) (hfresh : s.client.commReqs id = none)
    (honce : r' = r → s.issued = none)
    (hcall : s.client.call obj r' id op = .ok (code, client)) :
    (s.after r (.call obj r' id op) code client).Inv r := by
  have hlinked := ClientState.linked_call h.linked hfresh hcall
  obtain ⟨mid, hsame, hend⟩ := ClientState.call_ok hcall
  by_cases hr : r' = r
  · subst hr
    have hissued := honce rfl
    have hdone : (s.client.reqs r').commReqs = [] := (h.fresh hissued).1
    have hmid : (mid.reqs r').commReqs = [] := (hsame.reqs r').1.trans hdone
    have hmidCalled : mid.called r' = s.client.called r' := congrFun hsame.called r'
    rcases hend with ⟨rfl, hcode⟩ | ⟨kind, comm, retval, rfl, hretval⟩
    · apply inv_issued h hissued hlinked (hsame.reqs r').2
      · rw [hmid]
        exact Nat.zero_le _
      · exact fun hok => absurd hok hcode
    · rcases ClientState.issue_cases mid r' kind id retval comm with hsend | ⟨_, hlocal⟩
      · have hreq : ((mid.send r' kind id).reqs r').commReqs = [id] := by
          simp only [ClientState.send, update_self, hmid, List.nil_append]
        rw [hsend] at hlinked ⊢
        apply inv_issued h hissued hlinked
        · simp only [ClientState.send, update_self]
          exact (hsame.reqs r').2
        · rw [hreq]
          exact Nat.le_refl 1
        · refine fun _ => .inl ⟨?_, hmidCalled⟩
          rw [ClientState.finished, hreq]
          exact List.cons_ne_nil _ _
      · rw [hlocal] at hlinked ⊢
        by_cases hok : retval = Ret.success
        · rw [if_pos ⟨hok, hmid⟩] at hlinked ⊢
          apply inv_issued h hissued hlinked
          · rw [ClientState.execCallback_reqs]
            exact (hsame.reqs r').2
          · rw [ClientState.execCallback_reqs, hmid]
            exact Nat.zero_le _
          · refine fun _ => .inr ⟨?_, ?_⟩
            · rw [ClientState.finished, ClientState.execCallback_reqs]
              exact hmid
            · rw [ClientState.execCallback_called_self ((hsame.reqs r').2.trans h.callback),
                hmidCalled, hmid]
        · rw [if_neg fun hall => hok hall.1] at hlinked ⊢
          apply inv_issued h hissued hlinked (hsame.reqs r').2
          · rw [hmid]
            exact Nat.zero_le _
          · exact fun hcode => absurd (hretval hcode) hok
  · have hne : r ≠ r' := Ne.symm hr
    have hothers : s.issuedAfter r (.call obj r' id op) code = s.issued := if_neg hr
    rcases hend with ⟨rfl, _⟩ | ⟨kind, comm, retval, rfl, _⟩
    · exact inv_untouched h hlinked (hsame.reqs r).1 (hsame.reqs r).2 (congrFun hsame.called r)
        hothers (if_neg hr) rfl
    · obtain ⟨hreq, hcalled⟩ := mid.issue_others r' kind id retval comm hne
      apply inv_untouched h hlinked _ _ _ hothers (if_neg hr) rfl
      · rw [hreq]
        exact (hsame.reqs r).1
      · rw [hreq]
        exact (hsame.reqs r).2
      · rw [hcalled]
        exact congrFun hsame.called r

end Calls

section Histories

variable [Zero V] [Add V] {cntxt : Cntxt V} {r : ReqPtr} {s t : Watch V}

theorem inv_step {l : ClientState.Label V} (h : s.Inv r) (hstep : Step cntxt r s l t) :
    t.Inv r := by
  obtain ⟨hadm, honce, code, hexec, ht⟩ := hstep
  rw [ht]
  cases l with
  | call obj r' id op =>
      obtain ⟨⟨code', client⟩, hcall, heq⟩ := map_eq_ok.mp hexec
      obtain ⟨rfl, rfl⟩ := Prod.mk.inj (Option.some.inj heq)
      apply inv_call h hadm _ hcall
      rintro rfl
      exact honce obj id op rfl
  | arrive ev =>
      obtain ⟨_, hclient⟩ := Prod.mk.inj (Option.some.inj (Except.ok.inj hexec))
      apply inv_untouched h (ClientState.linked_exec h.linked hadm hexec) _ _ _ rfl rfl rfl
      · rw [← hclient]
      · rw [← hclient]
      · rw [← hclient]
  | close =>
      obtain ⟨_, hclient⟩ := Prod.mk.inj (Option.some.inj (Except.ok.inj hexec))
      apply inv_untouched h (ClientState.linked_exec h.linked hadm hexec) _ _ _ rfl rfl rfl
      · rw [← hclient]
      · rw [← hclient]
      · rw [← hclient]
  | wait r' => exact inv_wait h hexec
  | makeProgress => exact inv_makeProgress h hexec

theorem inv_run {status : ReqPtr → StatusPtr} {callback : ReqPtr → Bool}
    {buf : Nat → V × PwrTime} {ls : List (ClientState.Label V)} (hcallback : callback r = true)
    (h : Run (Step cntxt r) (start status callback buf) ls s) : s.Inv r :=
  h.invariant (Inv r) (fun _ _ _ => inv_step) (inv_start status callback buf hcallback)

/-- Over every history of a context in which the request was used for one call that
succeeded and has no response outstanding: from the call on its callback has run once, after
the last response, exactly if the request was completed in its call or by `makeProgress` and
not waited for since, or was completed in a wait, its own or another, and waited for once. -/
theorem callback_once_iff {status : ReqPtr → StatusPtr} {callback : ReqPtr → Bool}
    {buf : Nat → V × PwrTime} {ls : List (ClientState.Label V)} (hcallback : callback r = true)
    (h : Run (Step cntxt r) (start status callback buf) ls s)
    (hissued : s.issued = some Ret.success) (hfinished : s.client.finished r) :
    s.CalledOnce r ↔
      (s.how ≠ some .byWait ∧ s.waits = 0) ∨ (s.how = some .byWait ∧ s.waits = 1) := by
  have hinv := inv_run hcallback h
  have hhow : s.how ≠ none := fun hnone => (hinv.done hissued).mp hnone hfinished
  have hcount : s.CalledOnce r ↔ early s.how + s.waits = 1 := by
    rw [CalledOnce, hinv.called hissued, List.append_cancel_left_eq, ← List.replicate_one,
      List.replicate_inj]
    exact and_iff_left (.inr rfl)
  rw [hcount]
  cases hcase : s.how with
  | none => exact absurd hcase hhow
  | some how =>
      cases how with
      | immediately => simp [early]
      | byProgress => simp [early]
      | byWait => simp [early]

theorem step_of {l : ClientState.Label V} {code : Int32} {client : ClientState V}
    (hadm : s.client.Admissible l) (honce : ∀ obj id op, l = .call obj r id op → s.issued = none)
    (hexec : s.client.exec cntxt l = .ok (some (code, client))) :
    Step cntxt r s l (s.after r l code client) :=
  ⟨hadm, honce, code, hexec, rfl⟩

end Histories

section ForeignWait

def readPower (r : ReqPtr) (id : EventId) (base : Nat) : ClientState.Label Int :=
  .call (Caching.servedHeap true) r id (.getValues [.power] base)

def powerRead (id : EventId) : ClientState.Label Int :=
  .arrive (.commResp (Server.commResp
    { DistComm.getValues [.power] [.fpAdd] with
      toCommEvent := { Router.newCommEvent .commReq id 0 with op := .get } } [(7, 1)]))

/-- Two reads of a remote object are under way, and both responses come before the wait
for the second. -/
def foreignWait : List (ClientState.Label Int) :=
  [readPower 0 100 0, readPower 1 200 1, powerRead 100, powerRead 200, .wait 1]

def twoRequests : Watch Int := start id (fun _ => true) fun _ => (0, 0)

theorem foreignWait_run :
    ∃ s, Run (Step (fun _ => .ok none) 0) twoRequests foreignWait s ∧
      s.issued = some Ret.success ∧ s.client.finished 0 ∧ s.client.called 0 = [] :=
  ⟨_, .cons (step_of rfl (fun _ _ _ _ => rfl) rfl)
    (.cons (step_of rfl (fun _ _ _ h => by cases h) rfl)
    (.cons (step_of ⟨by decide, rfl⟩ (fun _ _ _ h => by cases h) rfl)
    (.cons (step_of ⟨by decide, rfl⟩ (fun _ _ _ h => by cases h) rfl)
    (.cons (step_of trivial (fun _ _ _ h => by cases h) rfl) (.nil _))))), rfl, rfl, rfl⟩

theorem callback_once_iff_foreignWait :
    ∃ s, Run (Step (fun _ => .ok none) 0) twoRequests foreignWait s ∧
      (s.CalledOnce 0 ↔
        (s.how ≠ some .byWait ∧ s.waits = 0) ∨ (s.how = some .byWait ∧ s.waits = 1)) := by
  obtain ⟨s, hrun, hissued, hfinished, _⟩ := foreignWait_run
  exact ⟨s, hrun, callback_once_iff rfl hrun hissued hfinished⟩

/-- The wait for the second request consumes the response of the first, whose callback
does not run. -/
theorem foreign_wait_calls_nothing :
    ∃ s, Run (Step (fun _ => .ok none) 0) twoRequests foreignWait s ∧
      s.issued = some Ret.success ∧ s.client.finished 0 ∧ ¬ s.CalledOnce 0 := by
  obtain ⟨s, hrun, hissued, hfinished, hcalled⟩ := foreignWait_run
  refine ⟨s, hrun, hissued, hfinished, ?_⟩
  rw [CalledOnce, hcalled]
  simp

end ForeignWait

end Watch

end PwrApi
