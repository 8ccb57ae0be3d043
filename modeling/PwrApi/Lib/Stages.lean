import Mathlib.Data.List.Perm.Subperm

/-! Stages that items pass one after the other.

A stage may hold items back and let them overtake each other, but hands none on more often
than it got it. When it holds none back, it has handed all of them on. -/

namespace PwrApi

variable {ι κ : Type}

/-- What has come `out` of a stage of what went `into` it, which are the same items when it
is `idle`. -/
structure Passes (idle : Prop) (into out : List ι) : Prop where
  once : out.Subperm into
  whole : idle → into.Subperm out

namespace Passes

variable {idle : Prop} {into mid out : List ι}

theorem perm (h : Passes idle into out) (hidle : idle) : into.Perm out :=
  (h.whole hidle).antisymm h.once

theorem of_perm (h : into.Perm out) : Passes idle into out :=
  ⟨h.symm.subperm, fun _ => h.subperm⟩

theorem trans (h : Passes idle into mid) (h' : Passes idle mid out) : Passes idle into out :=
  ⟨h'.once.trans h.once, fun hidle => (h.whole hidle).trans (h'.whole hidle)⟩

theorem mono {idle' : Prop} (h : Passes idle into out) (hidle : idle' → idle) :
    Passes idle' into out :=
  ⟨h.once, fun hidle' => h.whole (hidle hidle')⟩

theorem append {into' out' : List ι} (h : Passes idle into out) (h' : Passes idle into' out') :
    Passes idle (into ++ into') (out ++ out') :=
  ⟨h.once.append h'.once, fun hidle => (h.whole hidle).append (h'.whole hidle)⟩

theorem of_rest {rest : List ι} (h : into.Perm (out ++ rest)) (hidle : idle → rest = []) :
    Passes idle into out := by
  refine ⟨?_, fun hrest => ?_⟩
  · exact (List.sublist_append_left out rest).subperm.trans h.symm.subperm
  · rw [hidle hrest, List.append_nil] at h
    exact h.subperm

theorem filterMap (f : ι → Option κ) (h : Passes idle into out) :
    Passes idle (into.filterMap f) (out.filterMap f) := by
  have hsub : ∀ {l l' : List ι}, l.Subperm l' → (l.filterMap f).Subperm (l'.filterMap f) := by
    rintro l l' ⟨mid, hperm, hsub⟩
    exact ⟨mid.filterMap f, hperm.filterMap f, hsub.filterMap f⟩
  exact ⟨hsub h.once, fun hidle => hsub (h.whole hidle)⟩

theorem map (f : ι → κ) (h : Passes idle into out) : Passes idle (into.map f) (out.map f) := by
  have hmap := h.filterMap (some ∘ f)
  simpa only [List.filterMap_eq_map] using hmap

theorem filter (p : ι → Bool) (h : Passes idle into out) :
    Passes idle (into.filter p) (out.filter p) := by
  have hfilter := h.filterMap (Option.guard p)
  simpa only [List.filterMap_eq_filter] using hfilter

theorem of_keys [DecidableEq κ] (key : ι → κ)
    (h : ∀ k, Passes idle (into.filter fun i => key i = k) (out.filter fun i => key i = k)) :
    Passes idle into out := by
  classical
  have hcount : ∀ (l : List ι) i, (l.filter fun j => key j = key i).count i = l.count i := by
    intro l i
    exact List.count_filter (decide_eq_true rfl)
  constructor
  · refine List.subperm_ext_iff.mpr fun i _ => ?_
    rw [← hcount into i, ← hcount out i]
    exact (h (key i)).once.count_le i
  · intro hidle
    refine List.subperm_ext_iff.mpr fun i _ => ?_
    rw [← hcount into i, ← hcount out i]
    exact ((h (key i)).whole hidle).count_le i

theorem of_pairs [DecidableEq κ] {into out : List (κ × ι)}
    (h : ∀ k, Passes idle ((into.filter fun e => e.1 = k).map Prod.snd)
      ((out.filter fun e => e.1 = k).map Prod.snd)) : Passes idle into out := by
  have hpairs : ∀ (l : List (κ × ι)) k,
      ((l.filter fun e => e.1 = k).map Prod.snd).map (fun i => (k, i)) =
        l.filter fun e => e.1 = k := by
    intro l k
    rw [List.map_map]
    refine (List.map_congr_left fun e he => ?_).trans (List.map_id _)
    rw [Function.comp_apply, ← of_decide_eq_true (List.mem_filter.mp he).2]
    rfl
  refine .of_keys Prod.fst fun k => ?_
  rw [← hpairs into k, ← hpairs out k]
  exact (h k).map _

end Passes

end PwrApi
