import Mathlib.Data.List.Basic

/-! Ordered forests as documents hold them: an element has its children below it and its later
siblings after it. -/

namespace PwrApi

inductive Forest (α : Type)
  | nil
  | cons (a : α) (below rest : Forest α)
  deriving DecidableEq, Repr

namespace Forest

variable {α β : Type}

def append : Forest α → Forest α → Forest α
  | nil, g => g
  | cons a below rest, g => cons a below (append rest g)

instance : Append (Forest α) := ⟨append⟩

def map (f : α → β) : Forest α → Forest β
  | nil => nil
  | cons a below rest => cons (f a) (map f below) (map f rest)

def roots : Forest α → List α
  | nil => []
  | cons a _ rest => a :: roots rest

def nodes : Forest α → List α
  | nil => []
  | cons a below rest => a :: (nodes below ++ nodes rest)

/-- The first element of a kind in depth-first order, and what is below it. -/
def find? (p : α → Bool) : Forest α → Option (α × Forest α)
  | nil => none
  | cons a below rest =>
      if p a then some (a, below)
      else
        match find? p below with
        | some found => some found
        | none => find? p rest

def copies (a : α) (below : Forest α) : ℕ → Forest α
  | 0 => nil
  | n + 1 => cons a below (copies a below n)

@[simp] theorem nil_append (g : Forest α) : nil ++ g = g := rfl

@[simp] theorem cons_append (a : α) (below rest g : Forest α) :
    cons a below rest ++ g = cons a below (rest ++ g) := rfl

@[simp] theorem append_nil (f : Forest α) : f ++ nil = f := by
  induction f with
  | nil => rfl
  | cons a below rest _ ih => rw [cons_append, ih]

theorem append_assoc (f g h : Forest α) : f ++ g ++ h = f ++ (g ++ h) := by
  induction f with
  | nil => rfl
  | cons a below rest _ ih => rw [cons_append, cons_append, cons_append, ih]

@[simp] theorem map_append (m : α → β) (f g : Forest α) : (f ++ g).map m = f.map m ++ g.map m := by
  induction f with
  | nil => rfl
  | cons a below rest _ ih => rw [cons_append, map, ih, map, cons_append]

@[simp] theorem roots_append (f g : Forest α) : (f ++ g).roots = f.roots ++ g.roots := by
  induction f with
  | nil => rfl
  | cons a below rest _ ih => rw [cons_append, roots, ih, roots, List.cons_append]

@[simp] theorem nodes_append (f g : Forest α) : (f ++ g).nodes = f.nodes ++ g.nodes := by
  induction f with
  | nil => rfl
  | cons a below rest _ ih =>
      rw [cons_append, nodes, ih, nodes, List.cons_append, List.append_assoc]

@[simp] theorem roots_map (m : α → β) (f : Forest α) : (f.map m).roots = f.roots.map m := by
  induction f with
  | nil => rfl
  | cons a below rest _ ih => rw [map, roots, ih, roots, List.map_cons]

@[simp] theorem roots_copies (a : α) (below : Forest α) (n : ℕ) :
    (copies a below n).roots = List.replicate n a := by
  induction n with
  | zero => rfl
  | succ n ih => rw [copies, roots, ih, List.replicate_succ]

theorem mem_nodes_of_mem_roots {f : Forest α} {a : α} (h : a ∈ f.roots) : a ∈ f.nodes := by
  induction f with
  | nil => cases h
  | cons b below rest _ ih =>
      rcases List.mem_cons.mp h with rfl | hrest
      · exact List.mem_cons_self
      · exact List.mem_cons_of_mem b (List.mem_append_right _ (ih hrest))

theorem find?_isSome {p : α → Bool} {f : Forest α} {a : α} (ha : a ∈ f.nodes) (hp : p a = true) :
    ∃ found, f.find? p = some found := by
  induction f with
  | nil => cases ha
  | cons b below rest ihBelow ihRest =>
      unfold find?
      by_cases hb : p b = true
      · exact ⟨_, if_pos hb⟩
      · rw [if_neg hb]
        cases hfound : below.find? p with
        | some found => exact ⟨found, rfl⟩
        | none =>
            rw [nodes, List.mem_cons, List.mem_append] at ha
            rcases ha with rfl | hbelow | hrest
            · exact absurd hp hb
            · obtain ⟨found, hsome⟩ := ihBelow hbelow
              rw [hfound] at hsome
              cases hsome
            · exact ihRest hrest

theorem find?_fst {p : α → Bool} {f : Forest α} {a : α} {below : Forest α}
    (h : f.find? p = some (a, below)) : p a = true := by
  induction f with
  | nil => cases h
  | cons b under rest ihBelow ihRest =>
      unfold find? at h
      by_cases hb : p b = true
      · rw [if_pos hb] at h
        exact (Prod.mk.inj (Option.some.inj h)).1 ▸ hb
      · rw [if_neg hb] at h
        cases hfound : under.find? p with
        | some found =>
            rw [hfound] at h
            exact ihBelow (hfound.trans h)
        | none =>
            rw [hfound] at h
            exact ihRest h

end Forest

end PwrApi
