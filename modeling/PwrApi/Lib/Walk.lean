import Mathlib.Data.List.Basic
import Mathlib.Logic.Relation
import PwrApi.Lib.Runs

/-! Recursive walks: a call visits a node and then goes on to the nodes below it, with a
state that the visits change. Nothing is kept of the nodes seen before, so that a walk ends
by a rank of the nodes that falls on the way down. -/

namespace PwrApi.Walk

open Relation Runs

variable {α β σ ε : Type}

/-- The bound on nested calls is `fuel`, and `bound` is the fault of one too many. -/
def walk (bound : ε) (visit : σ → α → Except ε (σ × List α)) : ℕ → σ → α → Except ε σ
  | 0, _, _ => .error bound
  | fuel + 1, s, x => do
      let (s, below) ← visit s x
      below.foldlM (walk bound visit fuel) s

/-- The nodes in the order that they are visited in. -/
def order (next : α → List α) : ℕ → α → List α
  | 0, _ => []
  | fuel + 1, x => x :: (next x).flatMap (order next fuel)

variable {bound : ε} {visit : σ → α → Except ε (σ × List α)} {next : α → List α} {rank : α → ℕ}

/-- The nodes that a walk from `x` comes to. -/
def Below (next : α → List α) : α → α → Prop := ReflTransGen fun x y => y ∈ next x

/-- The nodes that a walk from `x` comes to after `x`. -/
def StrictlyBelow (next : α → List α) : α → α → Prop := TransGen fun x y => y ∈ next x

section Order

theorem Below.mono {next' : α → List α} (hnext : ∀ x, ∀ y ∈ next x, y ∈ next' x) {x y : α}
    (h : Below next x y) : Below next' x y := by
  induction h with
  | refl => exact .refl
  | tail _ hlast ih => exact .tail ih (hnext _ _ hlast)

theorem StrictlyBelow.rank_lt (hrank : ∀ x, ∀ y ∈ next x, rank y < rank x) {x y : α}
    (h : StrictlyBelow next x y) : rank y < rank x := by
  induction h with
  | single hfirst => exact hrank _ _ hfirst
  | tail _ hlast ih => exact Nat.lt_trans (hrank _ _ hlast) ih

theorem mem_order {fuel : ℕ} {x y : α} (h : y ∈ order next fuel x) : Below next x y := by
  induction fuel generalizing x with
  | zero => cases h
  | succ fuel ih =>
      rcases List.mem_cons.mp h with rfl | hbelow
      · exact .refl
      · obtain ⟨z, hz, hy⟩ := List.mem_flatMap.mp hbelow
        exact .head hz (ih hy)

theorem mem_order_iff (hrank : ∀ x, ∀ y ∈ next x, rank y < rank x) {fuel : ℕ} {x y : α}
    (hfuel : rank x < fuel) : y ∈ order next fuel x ↔ Below next x y := by
  refine ⟨mem_order, fun hbelow => ?_⟩
  induction fuel generalizing x with
  | zero => exact absurd hfuel (Nat.not_lt_zero _)
  | succ fuel ih =>
      rcases ReflTransGen.cases_head hbelow with rfl | ⟨z, hz, hrest⟩
      · exact List.mem_cons_self
      · have hless := hrank x z hz
        exact List.mem_cons_of_mem x (List.mem_flatMap.mpr ⟨z, hz, ih (by omega) hrest⟩)

theorem filter_order {all : α → List α} {stop : α → Prop} [DecidablePred stop] {p : α → Bool}
    (hnext : ∀ x, next x = if stop x then [] else all x) {fuel : ℕ} {x : α}
    (hskip : ∀ y z, Below next x y → stop y → StrictlyBelow all y z → p z = false) :
    (order all fuel x).filter p = (order next fuel x).filter p := by
  induction fuel generalizing x with
  | zero => rfl
  | succ fuel ih =>
      have hbelow : ((all x).flatMap (order all fuel)).filter p =
          ((next x).flatMap (order next fuel)).filter p := by
        rw [hnext x]
        by_cases hstop : stop x
        · rw [if_pos hstop, List.flatMap_nil, List.filter_nil, List.filter_eq_nil_iff]
          intro z hz
          obtain ⟨y, hy, hyz⟩ := List.mem_flatMap.mp hz
          rw [hskip x z .refl hstop (.head' hy (mem_order hyz))]
          exact Bool.false_ne_true
        · rw [if_neg hstop, List.filter_flatMap, List.filter_flatMap]
          apply List.flatMap_congr
          intro y hy
          refine ih fun u z hu hlast hz => hskip u z (.head ?_ hu) hlast hz
          rw [hnext x, if_neg hstop]
          exact hy
      rw [order, order, List.filter_cons, List.filter_cons, hbelow]

end Order

section Effects

variable {inv : σ → Prop}

theorem walk_effect {R : σ → List α → σ → Prop} (hnil : ∀ s, R s [] s)
    (happend : ∀ {s t u xs ys}, R s xs t → R t ys u → R s (xs ++ ys) u)
    (hvisit : ∀ s x t below, inv s → visit s x = .ok (t, below) →
      R s [x] t ∧ inv t ∧ below = next x)
    {fuel : ℕ} {s t : σ} {x : α} (hs : inv s) (h : walk bound visit fuel s x = .ok t) :
    R s (order next fuel x) t ∧ inv t := by
  induction fuel generalizing s t x with
  | zero => cases h
  | succ fuel ih =>
      have hloop : ∀ (below : List α) {s t : σ}, inv s →
          below.foldlM (walk bound visit fuel) s = .ok t →
          R s (below.flatMap (order next fuel)) t ∧ inv t := by
        intro below
        induction below with
        | nil =>
            intro s t hs hrest
            obtain rfl := Except.ok.inj hrest
            exact ⟨hnil s, hs⟩
        | cons y below ihBelow =>
            intro s t hs hrest
            rw [List.foldlM_cons, bind_eq_ok] at hrest
            obtain ⟨mid, hmid, hrest⟩ := hrest
            obtain ⟨heffect, hinv⟩ := ih hs hmid
            obtain ⟨hlast, ht⟩ := ihBelow hinv hrest
            rw [List.flatMap_cons]
            exact ⟨happend heffect hlast, ht⟩
      obtain ⟨⟨mid, below⟩, hfirst, hrest⟩ := bind_eq_ok.mp h
      obtain ⟨heffect, hinv, rfl⟩ := hvisit s x mid below hs hfirst
      obtain ⟨hlast, ht⟩ := hloop _ hinv hrest
      exact ⟨happend heffect hlast, ht⟩

theorem walk_preserves
    (hvisit : ∀ s x t below, inv s → visit s x = .ok (t, below) → inv t ∧ below = next x)
    {fuel : ℕ} {s t : σ} {x : α} (hs : inv s) (h : walk bound visit fuel s x = .ok t) : inv t := by
  induction fuel generalizing s t x with
  | zero => cases h
  | succ fuel ih =>
      obtain ⟨⟨mid, below⟩, hfirst, hrest⟩ := bind_eq_ok.mp h
      obtain ⟨hmid, _⟩ := hvisit s x mid below hs hfirst
      exact foldlM_preserves inv below (fun s y s' _ hs => ih hs) hmid hrest

/-- A walk comes to its end where the rank falls from a node to those below it, and its
faults are those of its visits. -/
theorem walk_error {P : ε → Prop} (hfault : ∀ s x e, inv s → visit s x = .error e → P e)
    (hvisit : ∀ s x t below, inv s → visit s x = .ok (t, below) → inv t ∧ below = next x)
    (hrank : ∀ x, ∀ y ∈ next x, rank y < rank x)
    {fuel : ℕ} {x : α} (hfuel : rank x < fuel) {s : σ} {e : ε} (hs : inv s)
    (h : walk bound visit fuel s x = .error e) : P e := by
  induction fuel generalizing s x with
  | zero => exact absurd hfuel (Nat.not_lt_zero _)
  | succ fuel ih =>
      cases hfirst : visit s x with
      | error e' =>
          rw [walk, hfirst] at h
          obtain rfl : e' = e := Except.error.inj h
          exact hfault s x e' hs hfirst
      | ok r =>
          rw [walk, hfirst, ok_bind] at h
          obtain ⟨hmid, hbelow⟩ := hvisit s x r.1 r.2 hs hfirst
          obtain ⟨t, y, hy, ht, hlast⟩ := foldlM_error inv
            (fun _ _ _ hu => walk_preserves hvisit hu) hmid h
          have hless := hrank x y (hbelow ▸ hy)
          exact ih (by omega) ht hlast

theorem walk_isOk_iff {Fit : α → Prop} (hfit : ∀ s x, inv s → ((∃ r, visit s x = .ok r) ↔ Fit x))
    (hvisit : ∀ s x t below, inv s → visit s x = .ok (t, below) → inv t ∧ below = next x)
    (hrank : ∀ x, ∀ y ∈ next x, rank y < rank x)
    {fuel : ℕ} {x : α} (hfuel : rank x < fuel) {s : σ} (hs : inv s) :
    (∃ t, walk bound visit fuel s x = .ok t) ↔ ∀ y, Below next x y → Fit y := by
  induction fuel generalizing x s with
  | zero => exact absurd hfuel (Nat.not_lt_zero _)
  | succ fuel ih =>
      have hloop : ∀ (below : List α), (∀ y ∈ below, rank y < fuel) → ∀ {s : σ}, inv s →
          ((∃ t, below.foldlM (walk bound visit fuel) s = .ok t) ↔
            ∀ y ∈ below, ∀ z, Below next y z → Fit z) := by
        intro below hbelow
        induction below with
        | nil => exact fun {s} hs => iff_of_true ⟨s, rfl⟩ (by simp)
        | cons y below ihBelow =>
            intro s hs
            have htail := @ihBelow fun z hz => hbelow z (List.mem_cons_of_mem y hz)
            rw [List.forall_mem_cons, ← ih (hbelow y List.mem_cons_self) hs]
            constructor
            · rintro ⟨t, hall⟩
              obtain ⟨mid, hmid, hrest⟩ := bind_eq_ok.mp hall
              exact ⟨⟨mid, hmid⟩, (htail (walk_preserves hvisit hs hmid)).mp ⟨t, hrest⟩⟩
            · rintro ⟨⟨mid, hmid⟩, hrest⟩
              obtain ⟨t, hok⟩ := (htail (walk_preserves hvisit hs hmid)).mpr hrest
              exact ⟨t, bind_eq_ok.mpr ⟨mid, hmid, hok⟩⟩
      have hnext : ∀ y ∈ next x, rank y < fuel := fun y hy => by
        have hless := hrank x y hy
        omega
      constructor
      · rintro ⟨t, hwalk⟩ y hy
        obtain ⟨⟨mid, below⟩, hfirst, hrest⟩ := bind_eq_ok.mp hwalk
        obtain ⟨hmid, rfl⟩ := hvisit s x mid below hs hfirst
        rcases ReflTransGen.cases_head hy with rfl | ⟨z, hz, hyz⟩
        · exact (hfit s x hs).mp ⟨_, hfirst⟩
        · exact (hloop _ hnext hmid).mp ⟨t, hrest⟩ z hz y hyz
      · intro hall
        obtain ⟨⟨mid, below⟩, hfirst⟩ := (hfit s x hs).mpr (hall x .refl)
        obtain ⟨hmid, rfl⟩ := hvisit s x mid below hs hfirst
        obtain ⟨t, hrest⟩ := (hloop _ hnext hmid).mpr fun y hy z hz => hall z (.head hy hz)
        exact ⟨t, bind_eq_ok.mpr ⟨_, hfirst, hrest⟩⟩

end Effects

end PwrApi.Walk
