import Mathlib.Data.List.Forall2
import Mathlib.Logic.Basic
import Mathlib.Tactic.TypeStar

/-! Finite runs of a labelled transition system, and fallible steps.

Two ways to carry a property along a run: an invariant kept by every step, and a
property that a step keeps exactly when a condition on the step holds. -/

namespace PwrApi.Runs

section Fallible

variable {ε α β : Type}

theorem bind_eq_ok {x : Except ε α} {f : α → Except ε β} {b : β} :
    (x >>= f) = .ok b ↔ ∃ a, x = .ok a ∧ f a = .ok b := by
  cases x with
  | error e => simp [bind, Except.bind]
  | ok a => simp [bind, Except.bind]

@[simp] theorem ok_bind (a : α) (f : α → Except ε β) : (Except.ok a >>= f) = f a := rfl

theorem map_eq_ok {x : Except ε α} {f : α → β} {b : β} :
    x.map f = .ok b ↔ ∃ a, x = .ok a ∧ f a = b := by
  cases x <;> simp [Except.map]

theorem bind_ok_eq_ok {f : α → β} (hf : ∀ a b, f a = f b → a = b) {x : Except ε α} {b : α} :
    (x >>= fun a => Except.ok (f a)) = .ok (f b) ↔ x = .ok b := by
  rw [bind_eq_ok]
  constructor
  · rintro ⟨a, hx, hb⟩
    rw [hx, hf a b (Except.ok.inj hb)]
  · exact fun hx => ⟨b, hx, rfl⟩

theorem bind_ne_error {x : Except ε α} {f : α → Except ε β} {e : ε} (hx : x ≠ .error e)
    (hf : ∀ a, x = .ok a → f a ≠ .error e) : (x >>= f) ≠ .error e := by
  cases x with
  | error e' => exact fun h => hx (by rw [Except.error.inj h])
  | ok a => exact hf a rfl

theorem foldlM_ne_error {σ ι : Type} {f : σ → ι → Except ε σ} {e : ε} (xs : List ι) (s : σ)
    (hf : ∀ s x, f s x ≠ .error e) : xs.foldlM f s ≠ .error e := by
  induction xs generalizing s with
  | nil => exact fun h => by cases h
  | cons x xs ih =>
      rw [List.foldlM_cons]
      exact bind_ne_error (hf s x) fun s' _ => ih s'

theorem mapM_ne_error {f : α → Except ε β} {e : ε} {xs : List α}
    (hf : ∀ x ∈ xs, f x ≠ .error e) : xs.mapM f ≠ .error e := by
  induction xs with
  | nil => exact fun h => by cases h
  | cons x xs ih =>
      rw [List.mapM_cons]
      apply bind_ne_error (hf x List.mem_cons_self)
      intro y _
      apply bind_ne_error (ih fun z hz => hf z (List.mem_cons_of_mem x hz))
      exact fun ys _ h => by cases h

theorem foldlM_preserves {σ ι : Type} {f : σ → ι → Except ε σ} (P : σ → Prop)
    (xs : List ι) (hstep : ∀ s x s', x ∈ xs → P s → f s x = .ok s' → P s')
    {s s' : σ} (hs : P s) (h : xs.foldlM f s = .ok s') : P s' := by
  induction xs generalizing s with
  | nil =>
      simp only [List.foldlM_nil, pure, Except.pure, Except.ok.injEq] at h
      exact h ▸ hs
  | cons x xs ih =>
      rw [List.foldlM_cons, bind_eq_ok] at h
      obtain ⟨mid, hmid, hrest⟩ := h
      exact ih (fun s y s' hy => hstep s y s' (List.mem_cons_of_mem x hy))
        (hstep s x mid List.mem_cons_self hs hmid) hrest

theorem foldlM_error {σ ι : Type} {f : σ → ι → Except ε σ} (P : σ → Prop)
    {xs : List ι} (hstep : ∀ s x s', P s → f s x = .ok s' → P s')
    {s : σ} {e : ε} (hs : P s) (h : xs.foldlM f s = .error e) :
    ∃ t, ∃ x ∈ xs, P t ∧ f t x = .error e := by
  induction xs generalizing s with
  | nil => cases h
  | cons x xs ih =>
      rw [List.foldlM_cons] at h
      cases hx : f s x with
      | error e' =>
          rw [hx] at h
          exact ⟨s, x, List.mem_cons_self, hs, hx.trans h⟩
      | ok mid =>
          rw [hx, ok_bind] at h
          obtain ⟨t, y, hy, hP, hfail⟩ := ih (hstep s x mid hs hx) h
          exact ⟨t, y, List.mem_cons_of_mem x hy, hP, hfail⟩

theorem foldlM_congr {σ ι : Type} {f g : σ → ι → Except ε σ} (P : σ → Prop) {xs : List ι}
    (hsame : ∀ s, ∀ x ∈ xs, P s → f s x = g s x)
    (hstep : ∀ s, ∀ x ∈ xs, ∀ s', P s → f s x = .ok s' → P s') {s : σ} (hs : P s) :
    xs.foldlM f s = xs.foldlM g s := by
  induction xs generalizing s with
  | nil => rfl
  | cons x xs ih =>
      rw [List.foldlM_cons, List.foldlM_cons, ← hsame s x List.mem_cons_self hs]
      cases hx : f s x with
      | error e => rfl
      | ok mid =>
          rw [ok_bind, ok_bind]
          exact ih (fun t y hy => hsame t y (List.mem_cons_of_mem x hy))
            (fun t y hy => hstep t y (List.mem_cons_of_mem x hy))
            (hstep s x List.mem_cons_self mid hs hx)

theorem mapM_eq_ok {f : α → Except ε β} {xs : List α} {ys : List β} :
    xs.mapM f = .ok ys ↔ List.Forall₂ (fun x y => f x = .ok y) xs ys := by
  induction xs generalizing ys with
  | nil =>
      rw [List.forall₂_nil_left_iff]
      exact ⟨fun h => (Except.ok.inj h).symm, fun h => h ▸ rfl⟩
  | cons x xs ih =>
      rw [List.mapM_cons, bind_eq_ok]
      constructor
      · intro ⟨y, hy, h⟩
        obtain ⟨rest, hrest, h⟩ := bind_eq_ok.mp h
        obtain rfl := Except.ok.inj h
        exact .cons hy (ih.mp hrest)
      · intro h
        cases h with
        | cons hy hrest => exact ⟨_, hy, bind_eq_ok.mpr ⟨_, ih.mpr hrest, rfl⟩⟩

theorem mapM_isOk {f : α → Except ε β} (xs : List α) :
    (∃ ys, xs.mapM f = .ok ys) ↔ ∀ x ∈ xs, ∃ y, f x = .ok y := by
  induction xs with
  | nil => exact iff_of_true ⟨[], rfl⟩ (by simp)
  | cons x xs ih =>
      rw [List.forall_mem_cons, ← ih]
      constructor
      · intro ⟨ys, hys⟩
        cases mapM_eq_ok.mp hys with
        | cons hy hrest => exact ⟨⟨_, hy⟩, _, mapM_eq_ok.mpr hrest⟩
      · intro ⟨⟨y, hy⟩, rest, hrest⟩
        exact ⟨y :: rest, mapM_eq_ok.mpr (.cons hy (mapM_eq_ok.mp hrest))⟩

theorem mem_of_mapM {f : α → Except ε β} {xs : List α} {ys : List β} (h : xs.mapM f = .ok ys)
    {y : β} (hy : y ∈ ys) : ∃ x ∈ xs, f x = .ok y := by
  have hall := mapM_eq_ok.mp h
  clear h
  induction hall with
  | nil => cases hy
  | cons hhead _ ih =>
      rcases List.mem_cons.mp hy with rfl | hy
      · exact ⟨_, List.mem_cons_self, hhead⟩
      · obtain ⟨x, hx, hfx⟩ := ih hy
        exact ⟨x, List.mem_cons_of_mem _ hx, hfx⟩

theorem mapM_of_ok {f : α → Except ε β} {g : α → β} {xs : List α}
    (h : ∀ x ∈ xs, f x = .ok (g x)) : xs.mapM f = .ok (xs.map g) := by
  rw [mapM_eq_ok, List.forall₂_map_right_iff, List.forall₂_same]
  exact h

theorem mapM_exists {f : α → Except ε β} {R : α → β → Prop} {xs : List α}
    (h : ∀ x ∈ xs, ∃ y, f x = .ok y ∧ R x y) :
    ∃ ys, xs.mapM f = .ok ys ∧ List.Forall₂ R xs ys := by
  obtain ⟨ys, hys⟩ := (mapM_isOk (f := f) xs).mpr fun x hx => ⟨_, (h x hx).choose_spec.1⟩
  refine ⟨ys, hys, ?_⟩
  have hall := mapM_eq_ok.mp hys
  clear hys
  induction hall with
  | nil => exact .nil
  | @cons x y xs ys hxy _ ih =>
      obtain ⟨y', hy', hR⟩ := h x List.mem_cons_self
      rw [hxy] at hy'
      obtain rfl := Except.ok.inj hy'
      exact .cons hR (ih fun z hz => h z (List.mem_cons_of_mem x hz))

theorem foldlM_mono {σ ι : Type} {f g : σ → ι → Except ε σ} (xs : List ι)
    (hstep : ∀ s x s', f s x = .ok s' → g s x = .ok s') {s s' : σ}
    (h : xs.foldlM f s = .ok s') : xs.foldlM g s = .ok s' := by
  induction xs generalizing s with
  | nil => exact h
  | cons x xs ih =>
      rw [List.foldlM_cons, bind_eq_ok] at h ⊢
      obtain ⟨mid, hmid, hrest⟩ := h
      exact ⟨mid, hstep s x mid hmid, ih hrest⟩

/-- A table of what `f` gives on the keys, and of `default` elsewhere. -/
def tabulate [DecidableEq α] (f : α → Except ε β) (default : β) :
    List α → Except ε (α → β)
  | [] => .ok fun _ => default
  | key :: keys => do
      let entry ← f key
      let table ← tabulate f default keys
      .ok fun x => if x = key then entry else table x

theorem tabulate_eq_ok [DecidableEq α] {f : α → Except ε β} {default : β} {keys : List α}
    {table : α → β} (h : tabulate f default keys = .ok table) :
    (∀ key ∈ keys, f key = .ok (table key)) ∧ ∀ key, key ∉ keys → table key = default := by
  induction keys generalizing table with
  | nil =>
      obtain rfl := Except.ok.inj h
      exact ⟨fun key hkey => absurd hkey List.not_mem_nil, fun key _ => rfl⟩
  | cons first keys ih =>
      simp only [tabulate, bind_eq_ok, Except.ok.injEq] at h
      obtain ⟨entry, hentry, rest, hrest, rfl⟩ := h
      obtain ⟨hkeys, hothers⟩ := ih hrest
      constructor
      · intro key hkey
        by_cases hfirst : key = first
        · simp only [if_pos hfirst]
          rw [hfirst, hentry]
        · simp only [if_neg hfirst]
          exact hkeys key ((List.mem_cons.mp hkey).resolve_left hfirst)
      · intro key hkey
        rw [List.mem_cons, not_or] at hkey
        simp only [if_neg hkey.1]
        exact hothers key hkey.2

theorem tabulate_mono [DecidableEq α] {f g : α → Except ε β} {default : β} {keys : List α}
    (hstep : ∀ key entry, f key = .ok entry → g key = .ok entry) {table : α → β}
    (h : tabulate f default keys = .ok table) : tabulate g default keys = .ok table := by
  induction keys generalizing table with
  | nil => exact h
  | cons first keys ih =>
      simp only [tabulate, bind_eq_ok] at h ⊢
      obtain ⟨entry, hentry, rest, hrest, h⟩ := h
      exact ⟨entry, hstep first entry hentry, rest, ih hrest, h⟩

end Fallible

theorem exists_fuel {α : Type} {P : α → Nat → Prop} (xs : List α)
    (h : ∀ x ∈ xs, ∃ n, ∀ k, n ≤ k → P x k) : ∃ n, ∀ x ∈ xs, ∀ k, n ≤ k → P x k := by
  induction xs with
  | nil => exact ⟨0, by simp⟩
  | cons x xs ih =>
      obtain ⟨n, hn⟩ := h x List.mem_cons_self
      obtain ⟨m, hm⟩ := ih fun y hy => h y (List.mem_cons_of_mem x hy)
      refine ⟨n + m, fun y hy k hk => ?_⟩
      rcases List.mem_cons.mp hy with rfl | hy
      · exact hn k (by omega)
      · exact hm y hy k (by omega)

section Labelled

variable {σ ι : Type*}

/-- `Run step s ls s'`: the steps labelled `ls` lead from `s` to `s'`. -/
inductive Run (step : σ → ι → σ → Prop) : σ → List ι → σ → Prop
  | nil (s : σ) : Run step s [] s
  | cons {s t u : σ} {l : ι} {ls : List ι} :
      step s l t → Run step t ls u → Run step s (l :: ls) u

variable {step : σ → ι → σ → Prop}

theorem Run.split {s u : σ} {ls ms : List ι} (h : Run step s (ls ++ ms) u) :
    ∃ t, Run step s ls t ∧ Run step t ms u := by
  induction ls generalizing s with
  | nil => exact ⟨s, .nil s, h⟩
  | cons l ls ih =>
      cases h with
      | cons hl hrest =>
          obtain ⟨t, hfirst, hlast⟩ := ih hrest
          exact ⟨t, .cons hl hfirst, hlast⟩

theorem Run.snoc {s t u : σ} {ls : List ι} {l : ι} (h : Run step s ls t) (hl : step t l u) :
    Run step s (ls ++ [l]) u := by
  induction h with
  | nil => exact .cons hl (.nil u)
  | cons hfirst _ ih => exact .cons hfirst (ih hl)

theorem Run.invariant (inv : σ → Prop)
    (hstep : ∀ s l t, inv s → step s l t → inv t) {s t : σ} {ls : List ι}
    (h : Run step s ls t) (hs : inv s) : inv t := by
  induction h with
  | nil => exact hs
  | cons hl _ ih => exact ih (hstep _ _ _ hs hl)

theorem Run.mono {step' : σ → ι → σ → Prop} (hstep : ∀ s l t, step s l t → step' s l t)
    {s t : σ} {ls : List ι} (h : Run step s ls t) : Run step' s ls t := by
  induction h with
  | nil => exact .nil _
  | cons hl _ ih => exact .cons (hstep _ _ _ hl) ih

/-- The steps taken only where `cond` holds of the state and the label. -/
def Restrict (step : σ → ι → σ → Prop) (cond : σ → ι → Prop) : σ → ι → σ → Prop :=
  fun s l t => step s l t ∧ cond s l

/-- `P` holds in every state the labels lead through, the first included. -/
def Along (step : σ → ι → σ → Prop) (P : σ → Prop) : σ → List ι → Prop
  | s, [] => P s
  | s, l :: ls => P s ∧ ∀ t, step s l t → Along step P t ls

def EachStep (step : σ → ι → σ → Prop) (cond : σ → ι → Prop) : σ → List ι → Prop
  | _, [] => True
  | s, l :: ls => cond s l ∧ ∀ t, step s l t → EachStep step cond t ls

theorem EachStep.congr (inv : σ → Prop) {cond cond' : σ → ι → Prop}
    (hinv : ∀ s l t, inv s → step s l t → inv t)
    (hcond : ∀ s l, inv s → (cond s l ↔ cond' s l)) {s : σ} {ls : List ι} (hs : inv s) :
    EachStep step cond s ls ↔ EachStep step cond' s ls := by
  induction ls generalizing s with
  | nil => exact Iff.rfl
  | cons l ls ih =>
      apply and_congr (hcond s l hs)
      exact forall₂_congr fun t ht => ih (hinv s l t hs ht)

theorem Along.mono {P Q : σ → Prop} (h : ∀ s, P s → Q s) {s : σ} {ls : List ι}
    (hP : Along step P s ls) : Along step Q s ls := by
  induction ls generalizing s with
  | nil => exact h s hP
  | cons l ls ih => exact ⟨h s hP.1, fun t ht => ih (hP.2 t ht)⟩

/-- When a step from a good state leads to a good state exactly if it meets the
condition, a run stays in good states exactly if each of its steps meets it. The
auxiliary invariant may rely on the states being good so far. -/
theorem Run.along_iff (inv : σ → Prop) {P : σ → Prop} {cond : σ → ι → Prop}
    (hinv : ∀ s l t, inv s → P s → step s l t → cond s l → inv t)
    (hstep : ∀ s l t, inv s → P s → step s l t → (P t ↔ cond s l))
    {s u : σ} {ls : List ι} (h : Run step s ls u)
    (hdet : ∀ s l t t', step s l t → step s l t' → t = t')
    (hs : inv s) (hP : P s) : Along step P s ls ↔ EachStep step cond s ls := by
  induction h with
  | nil => exact ⟨fun _ => trivial, fun _ => hP⟩
  | @cons s t u l ls hl _ ih =>
      constructor
      · rintro ⟨_, hall⟩
        have htail := hall t hl
        have hPt : P t := by
          cases ls with
          | nil => exact htail
          | cons m ms => exact htail.1
        have hcond := (hstep s l t hs hP hl).1 hPt
        refine ⟨hcond, fun t' hl' => ?_⟩
        rw [hdet s l t' t hl' hl]
        exact (ih (hinv s l t hs hP hl hcond) hPt).1 htail
      · rintro ⟨hcond, hall⟩
        have hPt := (hstep s l t hs hP hl).2 hcond
        refine ⟨hP, fun t' hl' => ?_⟩
        rw [hdet s l t' t hl' hl]
        exact (ih (hinv s l t hs hP hl hcond) hPt).2 (hall t hl)

end Labelled

end PwrApi.Runs
