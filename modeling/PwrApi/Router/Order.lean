import PwrApi.Router.Replies
import Mathlib.Algebra.BigOperators.Group.List.Lemmas

/-! What a response owes to the order in which its answers arrive. -/

namespace PwrApi.Router

open Function Runs

section Triples

variable {V : Type}

def errorTriples (r : CommRespEvent V) : List (ObjID × AttrName × Int32) :=
  r.errObj.zip (r.errAttr.zip r.errValue)

/-- A server enters the three parts of an error together. -/
def ErrorsAligned (r : CommRespEvent V) : Prop :=
  r.errObj.length = r.errAttr.length ∧ r.errAttr.length = r.errValue.length

theorem zip_flatMap {α β γ : Type} {f : α → List β} {g : α → List γ} (xs : List α)
    (h : ∀ x ∈ xs, (f x).length = (g x).length) :
    (xs.flatMap f).zip (xs.flatMap g) = xs.flatMap fun x => (f x).zip (g x) := by
  induction xs with
  | nil => rfl
  | cons x xs ih =>
      have hhead := h x List.mem_cons_self
      have htail := ih fun y hy => h y (List.mem_cons_of_mem x hy)
      rw [List.flatMap_cons, List.flatMap_cons, List.flatMap_cons, List.zip_append hhead, htail]

theorem zip_errors (rs : List (CommRespEvent V)) (h : ∀ r ∈ rs, ErrorsAligned r) :
    (rs.flatMap (·.errObj)).zip ((rs.flatMap (·.errAttr)).zip (rs.flatMap (·.errValue))) =
      rs.flatMap errorTriples := by
  rw [zip_flatMap rs fun r hr => (h r hr).2, zip_flatMap rs]
  · rfl
  · intro r hr
    rw [List.length_zip, ← (h r hr).2, Nat.min_self]
    exact (h r hr).1

def Request.allAnswers (req : Request V) : List (CommRespEvent V) :=
  req.done.flatMap req.answers

theorem collect_eq {α : Type} (req : Request V) (f : CommRespEvent V → List α) :
    req.collect f = req.allAnswers.flatMap f := by
  rw [Request.collect, Request.allAnswers, List.flatMap_assoc]

end Triples

section Replies

variable {V : Type} [AddCommMonoid V] {req req₁ req₂ : Request V}
  {reply reply₁ reply₂ : ClientChan × CommRespEvent V}

theorem errorTriples_of_answered (h : Answered req reply)
    (haligned : ∀ g, ∀ r ∈ req.answers g, ErrorsAligned r) :
    errorTriples reply.2 = req.allAnswers.flatMap errorTriples := by
  obtain ⟨_, hobj, hattr, hvalue⟩ := h.errors
  rw [errorTriples, hobj, hattr, hvalue, collect_eq, collect_eq, collect_eq]
  apply zip_errors
  intro r hr
  obtain ⟨g, _, hr⟩ := List.mem_flatMap.mp hr
  exact haligned g r hr

theorem allAnswers_perm (h₁ : Answered req₁ reply₁) (h₂ : Answered req₂ reply₂)
    (hgroups : req₁.groups = req₂.groups)
    (hanswers : ∀ g, (req₁.answers g).Perm (req₂.answers g)) :
    req₁.allAnswers.Perm req₂.allAnswers := by
  have hdone : req₁.done.Perm req₂.done := by
    calc
      List.Perm req₁.done (List.range req₁.groups) := h₁.errors.1
      List.Perm _ (List.range req₂.groups) := by rw [hgroups]
      List.Perm _ req₂.done := h₂.errors.1.symm
  exact hdone.flatMap fun g _ => hanswers g

theorem sumValues_perm (n : Nat) {rs₁ rs₂ : List (CommRespEvent V)} (h : rs₁.Perm rs₂) :
    sumValues n rs₁ = sumValues n rs₂ := by
  apply List.map_congr_left
  intro i _
  exact (h.map _).sum_eq

end Replies

namespace Net

/-- Two runs in which the answers to a `Get` are the same but arrive in other orders: the
responses have the same values and the same errors. The times of a group are those of
the answer that arrived last. -/
theorem reply_order {V : Type} [AddCommMonoid V] (rtrId : RouterID)
    (routeTable : ObjID → Option AppID) (getChannel : RouterID → Option RtrChan)
    (ls₁ ls₂ : List (Label V)) (net₁ net₂ : Net V)
    (hrun₁ : Run Step (start rtrId routeTable getChannel) ls₁ net₁)
    (hrun₂ : Run Step (start rtrId routeTable getChannel) ls₂ net₂)
    (req₁ req₂ : Request V) (reply₁ reply₂ : ClientChan × CommRespEvent V)
    (hclosed₁ : (req₁, reply₁) ∈ net₁.closed.zip (commReplies net₁.rtr.replies))
    (hclosed₂ : (req₂, reply₂) ∈ net₂.closed.zip (commReplies net₂.rtr.replies))
    (hev : req₁.ev = req₂.ev) (hcomm : req₁.commList = req₂.commList)
    (hget : req₁.ev.op = .get)
    (hanswers : ∀ g, (req₁.answers g).Perm (req₂.answers g))
    (haligned : ∀ g, ∀ r ∈ req₁.answers g, ErrorsAligned r) :
    reply₁.2.value = reply₂.2.value ∧
    (errorTriples reply₁.2).Perm (errorTriples reply₂.2) ∧
    (reply₁.2.timeStamp = (List.range req₁.groups).map fun g =>
      lastTimes req₁.ev.valueOp.length (req₁.answers g)) ∧
    reply₂.2.timeStamp = (List.range req₂.groups).map fun g =>
      lastTimes req₂.ev.valueOp.length (req₂.answers g) := by
  have h₁ : Answered req₁ reply₁ :=
    (List.forall₂_iff_zip.mp (inv_run hrun₁).answered).2 hclosed₁
  have h₂ : Answered req₂ reply₂ :=
    (List.forall₂_iff_zip.mp (inv_run hrun₂).answered).2 hclosed₂
  have hgroups : req₁.groups = req₂.groups := by
    rw [Request.groups, Request.groups, hcomm]
  obtain ⟨hvalue₁, htime₁⟩ := h₁.get hget
  obtain ⟨hvalue₂, htime₂⟩ := h₂.get (by rwa [← hev])
  refine ⟨?_, ?_, htime₁, htime₂⟩
  · rw [hvalue₁, hvalue₂, ← hgroups, ← hev]
    apply List.map_congr_left
    intro g _
    exact sumValues_perm _ (hanswers g)
  · have haligned₂ : ∀ g, ∀ r ∈ req₂.answers g, ErrorsAligned r := fun g r hr =>
      haligned g r ((hanswers g).mem_iff.mpr hr)
    rw [errorTriples_of_answered h₁ haligned, errorTriples_of_answered h₂ haligned₂]
    exact (allAnswers_perm h₁ h₂ hgroups hanswers).flatMap_right errorTriples

theorem twoSources_order (first second : Int × PwrTime) :
    ∃ net : Net Int, ∃ req reply,
      Run Step (start 1 oneServer fun _ => none)
        (twoSources ++ [powerAnswer first.1 first.2, powerAnswer second.1 second.2]) net ∧
      net.closed = [req] ∧ commReplies net.rtr.replies = [reply] ∧
      req.ev = { toCommEvent := { newCommEvent .commReq 1 9 with op := .get }, grpIndex := 0
                 attrName := [.power], setValues := [], valueOp := [.fpAdd] } ∧
      req.commList = [[[110], [110]]] ∧
      req.answers = update (fun _ => []) 0
        [powerResp first.1 first.2, powerResp second.1 second.2] ∧
      reply.2.timeStamp = [[second.2]] := by
  refine ⟨_, _, _, .cons (step_of rfl rfl (admissible_other (by simp) (by simp [requestOf]) rfl))
    (.cons (step_of trivial rfl (admissible_other (by simp) (by simp [requestOf]) rfl))
    (.cons (step_of rfl rfl (admissible_other (by simp) (by simp [requestOf]) rfl))
    (.cons (step_of rfl rfl (admissible_other (by simp) (by simp [requestOf]) rfl))
    (.cons (step_of rfl rfl (admissible_commReq rfl (by decide) (by decide) (by decide)))
    (.cons (step_of trivial rfl (admissible_response rfl (.head _)))
    (.cons (step_of trivial rfl (admissible_response rfl (.head _))) (.nil _))))))),
    rfl, rfl, rfl, rfl, ?_, rfl⟩
  simp [Request.answer, powerResp]

theorem reply_order_twoSources :
    ∃ net₁ net₂ : Net Int, ∃ reply₁ reply₂,
      commReplies net₁.rtr.replies = [reply₁] ∧ commReplies net₂.rtr.replies = [reply₂] ∧
      reply₁.2.value = reply₂.2.value ∧
      (errorTriples reply₁.2).Perm (errorTriples reply₂.2) := by
  obtain ⟨net₁, req₁, reply₁, hrun₁, hclosed₁, hreplies₁, hev₁, hcomm₁, hanswers₁, _⟩ :=
    twoSources_order (20, 5) (22, 6)
  obtain ⟨net₂, req₂, reply₂, hrun₂, hclosed₂, hreplies₂, hev₂, hcomm₂, hanswers₂, _⟩ :=
    twoSources_order (22, 6) (20, 5)
  have hperm : ∀ g, (req₁.answers g).Perm (req₂.answers g) := by
    intro g
    rw [hanswers₁, hanswers₂]
    by_cases hg : g = 0
    · rw [hg, update_self, update_self]
      exact List.Perm.swap _ _ _
    · simp [update_of_ne hg]
  have haligned : ∀ g, ∀ r ∈ req₁.answers g, ErrorsAligned r := by
    intro g r hr
    rw [hanswers₁] at hr
    by_cases hg : g = 0
    · simp only [hg, update_self, List.mem_cons, List.not_mem_nil, or_false] at hr
      rcases hr with rfl | rfl <;> exact ⟨rfl, rfl⟩
    · simp [update_of_ne hg] at hr
  obtain ⟨hvalue, herrors, _⟩ := reply_order 1 oneServer (fun _ => none) _ _ net₁ net₂ hrun₁ hrun₂
    req₁ req₂ reply₁ reply₂ (by simp [hclosed₁, hreplies₁]) (by simp [hclosed₂, hreplies₂])
    (by rw [hev₁, hev₂]) (by rw [hcomm₁, hcomm₂]) (by rw [hev₁]) hperm haligned
  exact ⟨net₁, net₂, reply₁, reply₂, hreplies₁, hreplies₂, hvalue, herrors⟩

/-- The times follow the last answer, so two orders of the same answers give two
responses. -/
theorem times_follow_order :
    ¬ ∀ net₁ net₂ : Net Int,
      Run Step (start 1 oneServer fun _ => none)
        (twoSources ++ [powerAnswer 20 5, powerAnswer 22 6]) net₁ →
      Run Step (start 1 oneServer fun _ => none)
        (twoSources ++ [powerAnswer 22 6, powerAnswer 20 5]) net₂ →
      (commReplies net₁.rtr.replies).map (fun reply => reply.2.timeStamp) =
        (commReplies net₂.rtr.replies).map fun reply => reply.2.timeStamp := by
  intro hall
  obtain ⟨net₁, _, reply₁, hrun₁, _, hreplies₁, _, _, _, htime₁⟩ :=
    twoSources_order (20, 5) (22, 6)
  obtain ⟨net₂, _, reply₂, hrun₂, _, hreplies₂, _, _, _, htime₂⟩ :=
    twoSources_order (22, 6) (20, 5)
  have htimes := hall net₁ net₂ hrun₁ hrun₂
  simp [hreplies₁, hreplies₂, htime₁, htime₂] at htimes

end Net

end PwrApi.Router
