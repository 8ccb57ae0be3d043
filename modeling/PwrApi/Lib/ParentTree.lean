import Mathlib.Logic.Relation
import Mathlib.Data.List.Chain
import Mathlib.Data.List.Nodup

/-! Rooted trees given by a parent function, of any size.

`Route` walks from a node to a destination by a local rule: down into the child
whose subtree holds the destination, else up to the parent. A route exists from
every node, repeats no node, and is the only simple path of the tree. -/

namespace PwrApi

open Relation

/-- A tree in which every node leads up to the root. -/
structure ParentTree (α : Type) where
  parent : α → Option α
  root : α
  parent_root : parent root = none
  reaches : ∀ x, ReflTransGen (fun x y => parent x = some y) x root

namespace ParentTree

variable {α : Type} (t : ParentTree α)

def Below (c x : α) : Prop := ReflTransGen (fun x y => t.parent x = some y) x c

def Adj (x y : α) : Prop := t.parent x = some y ∨ t.parent y = some x

variable {t}

theorem below_refl (c : α) : t.Below c c := .refl

theorem below_of_parent {c x y : α} (h : t.Below c y) (hx : t.parent x = some y) :
    t.Below c x := .head hx h

theorem below_parent {c q x : α} (h : t.Below c x) (hc : t.parent c = some q) :
    t.Below q x := .tail h hc

theorem below_cases {c x : α} (h : t.Below c x) :
    x = c ∨ ∃ y, t.parent x = some y ∧ t.Below c y :=
  ReflTransGen.cases_head h

theorem acyclic (x : α) : ¬ TransGen (fun x y => t.parent x = some y) x x := by
  have h := t.reaches x
  induction h using ReflTransGen.head_induction_on with
  | refl =>
      intro hcycle
      obtain ⟨y, hy, _⟩ := TransGen.head'_iff.mp hcycle
      rw [t.parent_root] at hy
      cases hy
  | head hxy _ ih =>
      intro hcycle
      obtain ⟨z, hz, hback⟩ := TransGen.head'_iff.mp hcycle
      rw [hxy] at hz
      cases hz
      exact ih (TransGen.tail' hback hxy)

theorem not_below_child {c x : α} (hc : t.parent c = some x) : ¬ t.Below c x :=
  fun h => acyclic x (TransGen.tail' h hc)

theorem below_linear {a b x : α} (ha : t.Below a x) (hb : t.Below b x) :
    t.Below a b ∨ t.Below b a := by
  induction ha using ReflTransGen.head_induction_on with
  | refl => exact .inr hb
  | head hxy hay ih =>
      rcases below_cases hb with rfl | ⟨z, hz, hbz⟩
      · exact .inl (.head hxy hay)
      · rw [hxy] at hz
        cases hz
        exact ih hbz

theorem child_unique {a b q x : α} (ha : t.parent a = some q) (hb : t.parent b = some q)
    (hax : t.Below a x) (hbx : t.Below b x) : a = b := by
  have side : ∀ {a b : α}, t.parent a = some q → t.parent b = some q → t.Below a b → a = b := by
    intro a b ha hb hab
    rcases below_cases hab with rfl | ⟨y, hy, hay⟩
    · rfl
    · rw [hb] at hy
      cases hy
      exact (not_below_child ha hay).elim
  rcases below_linear hax hbx with h | h
  · exact side ha hb h
  · exact (side hb ha h).symm

theorem adj_leaves {c q x y : α} (hc : t.parent c = some q) (hadj : t.Adj x y)
    (hx : t.Below c x) (hy : ¬ t.Below c y) : x = c ∧ y = q := by
  rcases hadj with hxy | hyx
  · rcases below_cases hx with rfl | ⟨z, hz, hcz⟩
    · rw [hc] at hxy
      exact ⟨rfl, (Option.some.inj hxy).symm⟩
    · rw [hxy] at hz
      cases hz
      exact (hy hcz).elim
  · exact (hy (below_of_parent hx hyx)).elim

theorem adj_symm {x y : α} (h : t.Adj x y) : t.Adj y x := h.symm

theorem parent_mem_of_cross {c q : α} (hc : t.parent c = some q) (x : α) (path : List α)
    (hchain : (x :: path).IsChain t.Adj) {z : α} (hlast : (x :: path).getLast? = some z)
    (hcross : ¬ (t.Below c x ↔ t.Below c z)) : q ∈ x :: path := by
  induction path generalizing x with
  | nil =>
      have hxz : x = z := by simpa using hlast
      exact (hcross (by rw [hxz])).elim
  | cons y path ih =>
      have hadj : t.Adj x y := by
        rw [List.isChain_cons_cons] at hchain
        exact hchain.1
      have htail : (y :: path).IsChain t.Adj := by
        rw [List.isChain_cons_cons] at hchain
        exact hchain.2
      have hlast' : (y :: path).getLast? = some z := by simpa using hlast
      by_cases hside : t.Below c x ↔ t.Below c y
      · exact List.mem_cons_of_mem x (ih y htail hlast' (by rwa [← hside]))
      · by_cases hx : t.Below c x
        · have hy : ¬ t.Below c y := fun h => hside (iff_of_true hx h)
          rw [← (adj_leaves hc hadj hx hy).2]
          simp
        · have hy : t.Below c y := by
            by_contra hny
            exact hside (iff_of_false hx hny)
          rw [← (adj_leaves hc (adj_symm hadj) hy hx).2]
          simp

/-- The walk that goes down towards the destination when it can, and up otherwise. -/
inductive Route (t : ParentTree α) (dest : α) : α → List α → Prop
  | here : Route t dest dest [dest]
  | down {x c : α} {path : List α} : t.parent c = some x → t.Below c dest →
      Route t dest c path → Route t dest x (x :: path)
  | up {x q : α} {path : List α} : ¬ t.Below x dest → t.parent x = some q →
      Route t dest q path → Route t dest x (x :: path)

namespace Route

variable {dest : α}

theorem exists_down {x : α} (h : t.Below x dest) : ∃ path, Route t dest x path := by
  induction h with
  | refl => exact ⟨[dest], .here⟩
  | tail hbelow hparent ih =>
      obtain ⟨path, hpath⟩ := ih
      exact ⟨_, .down hparent hbelow hpath⟩

theorem exists_route (x : α) : ∃ path, Route t dest x path := by
  have h := t.reaches x
  induction h using ReflTransGen.head_induction_on with
  | refl => exact exists_down (t.reaches dest)
  | @head x q hparent _ ih =>
      by_cases hbelow : t.Below x dest
      · exact exists_down hbelow
      · obtain ⟨path, hpath⟩ := ih
        exact ⟨_, .up hbelow hparent hpath⟩

theorem head_eq {x : α} {path : List α} (h : Route t dest x path) : path.head? = some x := by
  cases h <;> rfl

theorem last_eq {x : α} {path : List α} (h : Route t dest x path) :
    path.getLast? = some dest := by
  induction h with
  | here => rfl
  | down _ _ htail ih =>
      obtain ⟨rest, rfl⟩ : ∃ rest, _ = _ :: rest := List.head?_eq_some_iff.mp htail.head_eq
      simpa using ih
  | up _ _ htail ih =>
      obtain ⟨rest, rfl⟩ : ∃ rest, _ = _ :: rest := List.head?_eq_some_iff.mp htail.head_eq
      simpa using ih

theorem above {x : α} {path : List α} (h : Route t dest x path) :
    ∀ y ∈ path, t.Below y x ∨ t.Below y dest := by
  induction h with
  | here => simp [below_refl]
  | @down x c path hparent hbelow htail ih =>
      intro y hy
      rcases List.mem_cons.mp hy with rfl | hy
      · exact .inl (below_refl y)
      · rcases ih y hy with hyc | hyd
        · exact .inr (hbelow.trans hyc)
        · exact .inr hyd
  | @up x q path hnot hparent htail ih =>
      intro y hy
      rcases List.mem_cons.mp hy with rfl | hy
      · exact .inl (below_refl y)
      · rcases ih y hy with hyq | hyd
        · exact .inl (below_of_parent hyq hparent)
        · exact .inr hyd

theorem stays_below {x : α} {path : List α} (h : Route t dest x path) (hx : t.Below x dest) :
    ∀ y ∈ path, t.Below x y := by
  induction h with
  | here => simp [below_refl]
  | @down x c path hparent hbelow htail ih =>
      intro y hy
      rcases List.mem_cons.mp hy with rfl | hy
      · exact below_refl y
      · exact below_parent (ih hbelow y hy) hparent
  | up hnot => exact (hnot hx).elim

theorem nodup {x : α} {path : List α} (h : Route t dest x path) : path.Nodup := by
  induction h with
  | here => simp
  | @down x c path hparent hbelow htail ih =>
      refine List.nodup_cons.mpr ⟨fun hx => ?_, ih⟩
      exact not_below_child hparent (htail.stays_below hbelow x hx)
  | @up x q path hnot hparent htail ih =>
      refine List.nodup_cons.mpr ⟨fun hx => ?_, ih⟩
      rcases htail.above x hx with hxq | hxd
      · exact not_below_child hparent hxq
      · exact hnot hxd

theorem chain {x : α} {path : List α} (h : Route t dest x path) : path.IsChain t.Adj := by
  induction h with
  | here => exact List.isChain_singleton _
  | down hparent _ htail ih =>
      obtain ⟨rest, rfl⟩ : ∃ rest, _ = _ :: rest := List.head?_eq_some_iff.mp htail.head_eq
      exact List.isChain_cons_cons.mpr ⟨.inr hparent, ih⟩
  | up _ hparent htail ih =>
      obtain ⟨rest, rfl⟩ : ∃ rest, _ = _ :: rest := List.head?_eq_some_iff.mp htail.head_eq
      exact List.isChain_cons_cons.mpr ⟨.inl hparent, ih⟩

/-- The first step of a simple path is the step of the walk: from any other
neighbour the path would have to come back through its start. -/
theorem next_unique {x y z : α} {rest : List α} (hchain : (x :: y :: rest).IsChain t.Adj)
    (hnodup : (x :: y :: rest).Nodup) (hlast : (x :: y :: rest).getLast? = some dest)
    (hz : t.parent z = some x ∧ t.Below z dest ∨ ¬ t.Below x dest ∧ t.parent x = some z) :
    y = z := by
  obtain ⟨hadj, htail⟩ := List.isChain_cons_cons.mp hchain
  have hlast' : (y :: rest).getLast? = some dest := by simpa using hlast
  have hfresh : x ∉ y :: rest := (List.nodup_cons.mp hnodup).1
  rcases hz with ⟨hparent, hbelow⟩ | ⟨hnot, hparent⟩
  · by_contra hne
    have hy : ¬ t.Below z y := fun h =>
      hne (adj_leaves hparent (adj_symm hadj) h (not_below_child hparent)).1
    exact hfresh (parent_mem_of_cross hparent y rest htail hlast'
      fun hiff => hy (hiff.mpr hbelow))
  · rcases hadj with hxy | hyx
    · rw [hparent] at hxy
      exact (Option.some.inj hxy).symm
    · have hy : t.Below y y := below_refl y
      have hdest : ¬ t.Below y dest := fun h => hnot (below_parent h hyx)
      exact (hfresh (parent_mem_of_cross hyx y rest htail hlast'
        fun hiff => hdest (hiff.mp hy))).elim

theorem eq_of_simple {x : α} {path : List α} (h : Route t dest x path) :
    ∀ other : List α, other.head? = some x → other.getLast? = some dest →
      other.IsChain t.Adj → other.Nodup → other = path := by
  have extend : ∀ {x z : α} {path : List α}, x ≠ dest →
      (t.parent z = some x ∧ t.Below z dest ∨ ¬ t.Below x dest ∧ t.parent x = some z) →
      (∀ other : List α, other.head? = some z → other.getLast? = some dest →
        other.IsChain t.Adj → other.Nodup → other = path) →
      ∀ other : List α, other.head? = some x → other.getLast? = some dest →
        other.IsChain t.Adj → other.Nodup → other = x :: path := by
    intro x z path hne hz ih other hhead hlast hchain hnodup
    obtain ⟨rest, rfl⟩ := List.head?_eq_some_iff.mp hhead
    cases rest with
    | nil =>
        have : x = dest := by simpa using hlast
        exact (hne this).elim
    | cons y rest =>
        have hyz : y = z := next_unique hchain hnodup hlast hz
        subst hyz
        rw [ih (y :: rest) rfl (by simpa using hlast) (List.isChain_cons_cons.mp hchain).2
          (List.nodup_cons.mp hnodup).2]
  induction h with
  | here =>
      intro other hhead hlast hchain hnodup
      obtain ⟨rest, rfl⟩ := List.head?_eq_some_iff.mp hhead
      cases rest with
      | nil => rfl
      | cons y rest =>
          have hmem : dest ∈ y :: rest := by
            have hlast' : (y :: rest).getLast? = some dest := by simpa using hlast
            exact List.mem_of_getLast? hlast'
          exact ((List.nodup_cons.mp hnodup).1 hmem).elim
  | @down x c path hparent hbelow _ ih =>
      have hne : x ≠ dest := by
        rintro rfl
        exact not_below_child hparent hbelow
      exact extend hne (.inl ⟨hparent, hbelow⟩) ih
  | @up x q path hnot hparent _ ih =>
      have hne : x ≠ dest := by
        rintro rfl
        exact hnot (below_refl x)
      exact extend hne (.inr ⟨hnot, hparent⟩) ih

end Route

end ParentTree

end PwrApi
