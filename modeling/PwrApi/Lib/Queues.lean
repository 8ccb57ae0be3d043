import Mathlib.Data.Option.Basic

/-! Queues in which what an element uses has been made before it: by an element ahead of it,
or outside the queue. -/

namespace PwrApi

variable {α κ : Type}

/-- Every element of the queue uses only what is known or made ahead of it. -/
def Announced (makes uses : α → Option κ) : (κ → Prop) → List α → Prop
  | _, [] => True
  | known, x :: xs => (∀ k, uses x = some k → known k) ∧
      Announced makes uses (fun k => known k ∨ makes x = some k) xs

namespace Announced

variable {makes uses : α → Option κ} {known known' : κ → Prop} {xs ys : List α}

theorem mono (h : Announced makes uses known xs) (hknown : ∀ k, known k → known' k) :
    Announced makes uses known' xs := by
  induction xs generalizing known known' with
  | nil => trivial
  | cons x xs ih =>
      refine ⟨fun k hk => hknown k (h.1 k hk), ih h.2 ?_⟩
      intro k hk
      exact hk.imp (hknown k) id

theorem append (h : Announced makes uses known xs)
    (hlast : ∀ y ∈ ys, ∀ k, uses y = some k → known k ∨ ∃ x ∈ xs, makes x = some k) :
    Announced makes uses known (xs ++ ys) := by
  induction xs generalizing known with
  | nil =>
      induction ys generalizing known with
      | nil => trivial
      | cons y ys ih =>
          have hknown : ∀ z ∈ y :: ys, ∀ k, uses z = some k → known k := by
            intro z hz k hk
            exact (hlast z hz k hk).resolve_right fun ⟨_, hx, _⟩ => List.not_mem_nil hx
          refine ⟨hknown y List.mem_cons_self, ih trivial ?_⟩
          intro z hz k hk
          exact .inl (.inl (hknown z (List.mem_cons_of_mem y hz) k hk))
  | cons x xs ih =>
      refine ⟨h.1, ih h.2 ?_⟩
      intro y hy k hk
      rcases hlast y hy k hk with hknown | ⟨z, hz, hmakes⟩
      · exact .inl (.inl hknown)
      · rcases List.mem_cons.mp hz with rfl | hz
        · exact .inl (.inr hmakes)
        · exact .inr ⟨z, hz, hmakes⟩

end Announced

end PwrApi
