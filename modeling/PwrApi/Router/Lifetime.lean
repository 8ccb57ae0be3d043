import PwrApi.Router.Requests

/-! The life of a client channel and of the requests that refer to it. -/

namespace PwrApi.Router

open Function Runs

variable {V : Type}

def ClientsRegistered (rtr : Router V) : Prop :=
  ∀ p info, rtr.infos p = some info → rtr.clientMap info.src ≠ none

/-- A client that disconnects has no request under way. -/
def ClosesIdle (rtr : Router V) : Label V → Prop
  | .clientClosed ec => ∀ p info, rtr.infos p = some info → info.src ≠ ec
  | _ => True

section Faults

variable {rtr : Router V}

theorem sendResp_no_channel {id : EventId} {info : CommReqInfo V} {resp : Payload V}
    (h : rtr.clientMap info.src ≠ none) : rtr.sendResp id info resp ≠ .error .deadChannel := by
  unfold sendResp
  rw [require_of _ h]
  exact fun h => by cases h

theorem addRow_no_channel [Add V] (ops : List ValueOp) (cells : List (V × PwrTime))
    (values : List V) (times : List PwrTime) :
    addRow ops cells values times ≠ .error .deadChannel := by
  induction ops generalizing cells values times with
  | nil => exact fun h => by cases h
  | cons op ops ih =>
      refine bind_ne_error (require_ne_error (by decide)) fun _ _ => ?_
      refine bind_ne_error (orFault_ne_error (by decide)) fun cell _ => ?_
      refine bind_ne_error (orFault_ne_error (by decide)) fun value _ => ?_
      refine bind_ne_error (orFault_ne_error (by decide)) fun time _ => ?_
      refine bind_ne_error (ih cells.tail values.tail times.tail) fun rest _ => ?_
      exact fun h => by cases h

variable [Zero V] [Add V]

/-- No response that may come next is sent on a channel that is gone. -/
def AnswersRegistered (rtr : Router V) : Prop :=
  ∀ l ev, rtr.responseOf l = some ev → rtr.dispatch l ≠ .error .deadChannel

theorem mergeGroup_no_channel (info : CommReqInfo V) (resp : CommRespEvent V) (grp : Nat)
    (rs : List (CommRespEvent V)) : mergeGroup info resp grp rs ≠ .error .deadChannel := by
  unfold mergeGroup
  by_cases hop : info.ev.op = .get
  · simp only [hop, if_true]
    refine bind_ne_error ?_ fun cells _ => fun h => by cases h
    exact foldlM_ne_error rs _ fun cells r => addRow_no_channel _ _ _ _
  · simp only [hop, if_false]
    exact fun h => by cases h

theorem processCommResp_no_channel (h : rtr.ClientsRegistered) (r : CommRespEvent V) :
    rtr.processCommResp r ≠ .error .deadChannel := by
  refine bind_ne_error (orFault_ne_error (by decide)) fun info hinfo => ?_
  have hsrc := h r.id info (orFault_eq_ok.mp hinfo)
  refine bind_ne_error (orFault_ne_error (by decide)) fun rs _ => ?_
  refine bind_ne_error (orFault_ne_error (by decide)) fun size _ => ?_
  dsimp only
  split
  · split
    · refine bind_ne_error (mergeGroup_no_channel _ _ _ _) fun merged _ => ?_
      split
      · exact sendResp_no_channel hsrc
      · exact fun h => by cases h
    · exact fun h => by cases h
  · exact fun h => by cases h

theorem processServer_no_channel (h : rtr.ClientsRegistered) {ev : Payload V}
    (hresp : isResponse ev = true) : rtr.processServer none ev ≠ .error .deadChannel := by
  cases ev with
  | commResp r => exact processCommResp_no_channel h r
  | commLogResp r =>
      refine bind_ne_error (orFault_ne_error (by decide)) fun info hinfo => ?_
      have hsrc := h r.id info (orFault_eq_ok.mp hinfo)
      split
      · exact sendResp_no_channel hsrc
      · exact fun h => by cases h
  | commGetSamplesResp r =>
      refine bind_ne_error (orFault_ne_error (by decide)) fun info hinfo => ?_
      have hsrc := h r.id info (orFault_eq_ok.mp hinfo)
      split
      · exact sendResp_no_channel hsrc
      · exact fun h => by cases h
  | _ => cases hresp

theorem answers_of_registered (h : rtr.ClientsRegistered) : rtr.AnswersRegistered := by
  intro l ev hl hfault
  obtain ⟨hresp, rtr₀, f, hsame, _, hdispatch⟩ := dispatch_response hl
  have hregistered : rtr₀.ClientsRegistered := by
    intro p info hinfo
    rw [hsame.infos] at hinfo
    rw [hsame.clientMap]
    exact h p info hinfo
  have hno := processServer_no_channel hregistered hresp
  rw [hdispatch] at hfault
  cases hserver : rtr₀.processServer none ev with
  | ok mid => simp [hserver, Except.map] at hfault
  | error fault =>
      rw [hserver] at hfault hno
      exact hno (by rw [← Except.error.inj hfault])

end Faults

section Runs

variable {rtr rtr' : Router V} {l : Label V}

theorem registered_update (h : rtr.ClientsRegistered) {p : EventId}
    (new : Option (CommReqInfo V)) (hinfos : rtr'.infos = update rtr.infos p new)
    (hclients : rtr'.clientMap = rtr.clientMap)
    (hnew : ∀ info, new = some info → rtr.clientMap info.src ≠ none) :
    rtr'.ClientsRegistered := by
  intro q info hinfo
  rw [hinfos] at hinfo
  rw [hclients]
  by_cases hq : q = p
  · rw [hq, update_self] at hinfo
    exact hnew info hinfo
  · rw [update_of_ne hq] at hinfo
    exact h q info hinfo

variable [Zero V] [Add V]

theorem registered_step (h : rtr.ClientsRegistered) (hstep : rtr.Step l rtr') :
    rtr'.ClientsRegistered ↔ rtr.ClosesIdle l := by
  have hdispatch := hstep.2
  by_cases hclose : ∃ ec, l = .clientClosed ec
  · obtain ⟨ec, rfl⟩ := hclose
    obtain ⟨hclients, hinfos, _⟩ := delClientChan_ok hdispatch
    unfold ClientsRegistered
    rw [hclients, hinfos]
    constructor
    · intro hall p info hinfo heq
      exact hall p info hinfo (by simp [heq])
    · intro hidle p info hinfo
      rw [update_of_ne (hidle p info hinfo)]
      exact h p info hinfo
  · have hidle : rtr.ClosesIdle l := by
      cases l with
      | clientClosed ec => exact (hclose ⟨ec, rfl⟩).elim
      | _ => trivial
    refine iff_of_true ?_ hidle
    cases hreq : requestOf l with
    | some req =>
        obtain ⟨ec, ev, p⟩ := req
        obtain ⟨hclient, new, hsrc, hinfos, _, hclients⟩ := dispatch_request hreq hdispatch
        refine registered_update h (some new) hinfos hclients ?_
        intro info hinfo
        rw [← Option.some.inj hinfo, hsrc]
        exact hclient
    | none =>
        cases hresp : rtr.responseOf l with
        | some ev =>
            obtain ⟨hev, rtr₀, f, hsame, hf, hmap⟩ := dispatch_response hresp
            rw [hmap, map_eq_ok] at hdispatch
            obtain ⟨mid, hserver, rfl⟩ := hdispatch
            obtain ⟨hclients, p, info, hinfo, hcases⟩ := processServer_response hev hserver
            rw [hsame.infos] at hinfo
            have hclients' : (f mid).clientMap = rtr.clientMap := by
              rw [(hf mid).clientMap, hclients, hsame.clientMap]
            rcases hcases with ⟨info', hinfos, hsrc⟩ | hinfos
            · refine registered_update h (p := p) (some info') ?_ hclients' ?_
              · rw [(hf mid).infos, hinfos, hsame.infos]
              · intro other hother
                rw [← Option.some.inj hother, hsrc]
                exact h p info hinfo
            · refine registered_update h (p := p) none ?_ hclients' ?_
              · rw [(hf mid).infos, hinfos, hsame.infos]
              · exact fun _ hnone => by cases hnone
        | none =>
            obtain ⟨hinfos, _⟩ := dispatch_other hreq hresp hdispatch
            intro p info hinfo
            rw [hinfos] at hinfo
            exact dispatch_clients hdispatch (h p info hinfo) fun heq => hclose ⟨_, heq⟩

/-- Along a run from the start the clients of all requests under way are registered
exactly when no client disconnects with a request under way; then no response is ever
sent on a channel that is gone. -/
theorem answers_on_registered_channels (rtrId : RouterID) (routeTable : ObjID → Option AppID)
    (getChannel : RouterID → Option RtrChan) (ls : List (Label V)) (rtr : Router V)
    (hrun : Run Step (start rtrId routeTable getChannel) ls rtr) :
    (Along Step ClientsRegistered (start rtrId routeTable getChannel) ls ↔
      EachStep Step ClosesIdle (start rtrId routeTable getChannel) ls) ∧
    (EachStep Step ClosesIdle (start rtrId routeTable getChannel) ls →
      Along Step AnswersRegistered (start rtrId routeTable getChannel) ls) := by
  have hiff : Along Step ClientsRegistered (start rtrId routeTable getChannel) ls ↔
      EachStep Step ClosesIdle (start rtrId routeTable getChannel) ls := by
    refine Run.along_iff (fun _ => True) (fun _ _ _ _ _ _ _ => trivial)
      (fun s l t _ hs hstep => registered_step hs hstep) hrun (fun s l t t' => step_det)
      trivial ?_
    intro p info hinfo
    cases hinfo
  exact ⟨hiff, fun hidle => Along.mono (fun s => answers_of_registered) (hiff.mpr hidle)⟩

/-- Server 3 connects, a client asks to start a log and disconnects, and the answer comes. -/
def lateAnswer : List (Label Int) :=
  [.acceptServer 7,
    .serverEvent 7 (.serverConnect { toEvent := Event.ofType .serverConnect, name := [110] }),
    .acceptClient 4,
    .clientEvent 4 (.commCreate
      { toCommEvent := newCommEvent .commCreate 0 9, members := [[[110]]] }) 0,
    .clientEvent 4 (.commLogReq
      { toCommEvent := newCommEvent .commLogReq 1 9, attrName := .power }) 100,
    .clientClosed 4]

theorem lateAnswer_run :
    ∃ rtr : Router Int, Run Step (start 1 oneServer fun _ => none) lateAnswer rtr ∧
      rtr.dispatch (.serverEvent 7 (.commLogResp
        { toCommEvent := newCommEvent .commLogResp 100 0, errObj := [], errAttr := []
          errValue := [] })) = .error .deadChannel := by
  refine ⟨_, .cons ⟨rfl, rfl⟩ (.cons ⟨trivial, rfl⟩ (.cons ⟨rfl, rfl⟩ (.cons ⟨rfl, rfl⟩
    (.cons ⟨rfl, rfl⟩ (.cons ⟨trivial, rfl⟩ (.nil _)))))), rfl⟩

theorem answers_on_registered_channels_lateAnswer :
    (Along Step ClientsRegistered (start 1 oneServer fun _ => none) lateAnswer ↔
      EachStep Step ClosesIdle (start 1 oneServer fun _ => none) lateAnswer) ∧
    (EachStep Step ClosesIdle (start 1 oneServer fun _ => none) lateAnswer →
      Along Step AnswersRegistered (start 1 oneServer fun _ => none) lateAnswer) := by
  obtain ⟨rtr, hrun, _⟩ := lateAnswer_run
  exact answers_on_registered_channels 1 oneServer (fun _ => none) lateAnswer rtr hrun

theorem late_answer_on_dead_channel :
    ¬ ∀ rtr : Router Int, Run Step (start 1 oneServer fun _ => none) lateAnswer rtr →
      rtr.AnswersRegistered := by
  intro hall
  obtain ⟨rtr, hrun, hdead⟩ := lateAnswer_run
  exact hall rtr hrun _ _ rfl hdead

end Runs

end PwrApi.Router
