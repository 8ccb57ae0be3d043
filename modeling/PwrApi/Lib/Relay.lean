import Mathlib.Algebra.GroupWithZero.Nat
import Mathlib.Data.List.Basic
import Mathlib.Data.List.Infix
import Mathlib.Logic.Function.Basic
import PwrApi.Lib.Runs

/-! Relays: nodes that hand items over, each item from its origin towards a destination by
the rule of the node it has come to, on channels that keep their order.

Where the rules lead from an origin to a destination, the items between the two arrive in
the order in which they entered, each of them once and after the same number of hops. -/

namespace PwrApi

open Function Runs

structure Relay (α κ δ σ ι : Type) where
  /-- The channel towards a destination, with none where its items stay. -/
  next : δ → α → Option κ
  peer : α → κ → α
  name : α → σ
  origin : ι → σ
  dest : ι → δ
  name_inj : Injective name

namespace Relay

variable {α κ δ σ ι : Type}

/-- What every node has taken, what is on the channels with the oldest first, and what has
entered at which node. -/
structure State (α κ ι : Type) where
  taken : α → List ι
  flight : List ((α × κ) × ι)
  entered : List (α × ι)

inductive Label (α κ ι : Type)
  | enter (x : α) (items : List ι)
  | hop (x : α) (ch : κ)

def start : State α κ ι := ⟨fun _ => [], [], []⟩

def isHop : Label α κ ι → Bool
  | .enter _ _ => false
  | .hop _ _ => true

variable (r : Relay α κ δ σ ι)

/-- The nodes from `x` to the one where an item for `d` stays. -/
inductive Trace (d : δ) : α → List α → Prop
  | stay {x : α} : r.next d x = none → Trace d x [x]
  | hop {x : α} {ch : κ} {path : List α} : r.next d x = some ch →
      Trace d (r.peer x ch) path → Trace d x (x :: path)

/-- What `x` passes on of the items it takes. -/
def onward (x : α) (items : List ι) : List ((α × κ) × ι) :=
  items.filterMap fun i => (r.next (r.dest i) x).map fun ch => ((x, ch), i)

section Traces

variable {r} {d : δ}

theorem Trace.unique {x : α} {path path' : List α} (h : r.Trace d x path)
    (h' : r.Trace d x path') : path = path' := by
  induction h generalizing path' with
  | stay hnone =>
      cases h' with
      | stay => rfl
      | hop hsome => cases hnone.symm.trans hsome
  | hop hsome _ ih =>
      cases h' with
      | stay hnone => cases hsome.symm.trans hnone
      | hop hsome' htail =>
          obtain rfl := Option.some.inj (hsome.symm.trans hsome')
          rw [ih htail]

theorem Trace.head {x : α} {path : List α} (h : r.Trace d x path) : ∃ rest, path = x :: rest := by
  cases h with
  | stay => exact ⟨[], rfl⟩
  | hop => exact ⟨_, rfl⟩

theorem Trace.suffix {a x : α} {path : List α} (h : r.Trace d a path) (hx : x ∈ path) :
    ∃ rest, r.Trace d x rest ∧ rest <:+ path := by
  induction h with
  | @stay y hnone =>
      obtain rfl := List.mem_singleton.mp hx
      exact ⟨[x], .stay hnone, List.suffix_rfl⟩
  | @hop y ch path hsome htail ih =>
      rcases List.mem_cons.mp hx with rfl | hx
      · exact ⟨x :: path, .hop hsome htail, List.suffix_rfl⟩
      · obtain ⟨rest, hrest, hsuffix⟩ := ih hx
        exact ⟨rest, hrest, hsuffix.trans (List.suffix_cons y path)⟩

theorem Trace.step {a x : α} {ch : κ} {path : List α} (h : r.Trace d a path) (hx : x ∈ path)
    (hsome : r.next d x = some ch) :
    ∃ rest, r.Trace d (r.peer x ch) rest ∧ (x :: rest) <:+ path := by
  obtain ⟨rest, hrest, hsuffix⟩ := h.suffix hx
  cases hrest with
  | stay hnone => cases hnone.symm.trans hsome
  | hop hsome' htail =>
      obtain rfl := Option.some.inj (hsome'.symm.trans hsome)
      exact ⟨_, htail, hsuffix⟩

theorem Trace.next_mem {a x : α} {ch : κ} {path : List α} (h : r.Trace d a path) (hx : x ∈ path)
    (hsome : r.next d x = some ch) : r.peer x ch ∈ path := by
  obtain ⟨rest, hrest, hsuffix⟩ := h.step hx hsome
  obtain ⟨tail, rfl⟩ := hrest.head
  exact hsuffix.subset (by simp)

theorem Trace.next_ne_start {a x : α} {ch : κ} {path : List α} (h : r.Trace d a path)
    (hx : x ∈ path) (hsome : r.next d x = some ch) : r.peer x ch ≠ a := by
  intro heq
  obtain ⟨rest, hrest, hsuffix⟩ := h.step hx hsome
  rw [heq] at hrest
  have hlength := hsuffix.length_le
  rw [h.unique hrest, List.length_cons] at hlength
  omega

theorem Trace.next_ne {a x : α} {ch : κ} {path : List α} (h : r.Trace d a path) (hx : x ∈ path)
    (hsome : r.next d x = some ch) : r.peer x ch ≠ x := by
  obtain ⟨rest, hrest, _⟩ := h.suffix hx
  obtain ⟨tail, rfl⟩ := hrest.head
  exact hrest.next_ne_start List.mem_cons_self hsome

theorem Trace.before_unique {a x z : α} {ch c : κ} {path : List α} (h : r.Trace d a path)
    (hx : x ∈ path) (hz : z ∈ path) (hxs : r.next d x = some ch) (hzs : r.next d z = some c)
    (heq : r.peer z c = r.peer x ch) : z = x := by
  obtain ⟨rest, hrest, hsuffix⟩ := h.step hx hxs
  obtain ⟨rest', hrest', hsuffix'⟩ := h.step hz hzs
  rw [heq] at hrest'
  obtain rfl := hrest.unique hrest'
  have hsame : z :: rest = x :: rest :=
    (List.suffix_of_suffix_length_le hsuffix' hsuffix (by simp)).eq_of_length (by simp)
  exact (List.cons.inj hsame).1

theorem mem_onward {x : α} {items : List ι} {e : (α × κ) × ι} (h : e ∈ r.onward x items) :
    e.2 ∈ items ∧ e.1.1 = x ∧ r.next (r.dest e.2) x = some e.1.2 := by
  obtain ⟨i, hi, hmap⟩ := List.mem_filterMap.mp h
  obtain ⟨ch, hch, rfl⟩ := Option.map_eq_some_iff.mp hmap
  exact ⟨hi, rfl, hch⟩

end Traces

section Hops

/-- The number of hops to each of the known destinations. -/
structure Hops (r : Relay α κ δ σ ι) (known : δ → Prop) (hops : δ → α → Nat) : Prop where
  stay : ∀ d x, known d → r.next d x = none → hops d x = 0
  hop : ∀ d x ch, known d → r.next d x = some ch → hops d x = hops d (r.peer x ch) + 1

def left (r : Relay α κ δ σ ι) (hops : δ → α → Nat) (flight : List ((α × κ) × ι)) : Nat :=
  (flight.map fun e => hops (r.dest e.2) e.1.1).sum

def due (r : Relay α κ δ σ ι) (hops : δ → α → Nat) (entered : List (α × ι)) : Nat :=
  (entered.map fun e => hops (r.dest e.2) e.1).sum

variable {r} {known : δ → Prop} {hops : δ → α → Nat}

theorem left_onward (hr : Hops r known hops) (x : α) {items : List ι}
    (hknown : ∀ i ∈ items, known (r.dest i)) :
    r.left hops (r.onward x items) = (items.map fun i => hops (r.dest i) x).sum := by
  induction items with
  | nil => rfl
  | cons i items ih =>
      have hi : known (r.dest i) := hknown i List.mem_cons_self
      have htail := ih fun j hj => hknown j (List.mem_cons_of_mem i hj)
      cases hnext : r.next (r.dest i) x with
      | none =>
          have hcons : r.onward x (i :: items) = r.onward x items := by
            simp [onward, hnext]
          rw [hcons, htail, List.map_cons, List.sum_cons, hr.stay _ _ hi hnext, Nat.zero_add]
      | some ch =>
          have hcons : r.onward x (i :: items) = ((x, ch), i) :: r.onward x items := by
            simp [onward, hnext]
          rw [hcons, left, List.map_cons, List.sum_cons, List.map_cons, List.sum_cons, ← htail]
          rfl

/-- What is on the channels is for known destinations, and on the way that their rule gives. -/
def Placed (r : Relay α κ δ σ ι) (known : δ → Prop) (s : State α κ ι) : Prop :=
  ∀ e ∈ s.flight, known (r.dest e.2) ∧ r.next (r.dest e.2) e.1.1 = some e.1.2

theorem placed_remove {s : State α κ ι} (h : Placed r known s) {front back : List ((α × κ) × ι)}
    {e : (α × κ) × ι} (hflight : s.flight = front ++ e :: back) :
    Placed r known { s with flight := front ++ back } := by
  intro e' he'
  refine h e' ?_
  rw [hflight]
  exact List.mem_append.mpr ((List.mem_append.mp he').imp_right (List.mem_cons_of_mem _))

open Classical in
/-- The length of the way from a node, where its rule leads to an end. -/
noncomputable def distance (r : Relay α κ δ σ ι) (d : δ) (x : α) : Nat :=
  if h : ∃ path, r.Trace d x path then h.choose.length - 1 else 0

theorem distance_of_trace {d : δ} {x : α} {path : List α} (h : r.Trace d x path) :
    r.distance d x + 1 = path.length := by
  have hexists : ∃ path, r.Trace d x path := ⟨path, h⟩
  obtain ⟨rest, hrest⟩ := h.head
  rw [distance, dif_pos hexists, hexists.choose_spec.unique h, hrest, List.length_cons]
  exact Nat.sub_add_cancel (Nat.succ_pos _)

theorem hops_distance (htrace : ∀ d x, known d → ∃ path, r.Trace d x path) :
    Hops r known r.distance := by
  constructor
  · intro d x _ hnone
    have hlength := distance_of_trace (.stay hnone : r.Trace d x [x])
    simpa using hlength
  · intro d x ch hd hsome
    obtain ⟨path, hpath⟩ := htrace d (r.peer x ch) hd
    have hhere := distance_of_trace (.hop hsome hpath : r.Trace d x (x :: path))
    rw [List.length_cons, ← distance_of_trace hpath] at hhere
    omega

end Hops

section Flow

variable [DecidableEq δ] [DecidableEq σ]

def flow (a : α) (d : δ) (items : List ι) : List ι :=
  items.filter fun i => r.origin i = r.name a ∧ r.dest i = d

theorem flow_append (a : α) (d : δ) (items more : List ι) :
    r.flow a d (items ++ more) = r.flow a d items ++ r.flow a d more :=
  List.filter_append ..

variable {r}

theorem flow_eq_nil {a : α} {d : δ} {items : List ι}
    (h : ∀ i ∈ items, r.origin i = r.name a → r.dest i ≠ d) : r.flow a d items = [] := by
  rw [flow, List.filter_eq_nil_iff]
  intro i hi hflow
  obtain ⟨horigin, hdest⟩ := of_decide_eq_true hflow
  exact h i hi horigin hdest

end Flow

section Channels

variable [DecidableEq α]

def take (s : State α κ ι) (x : α) (items : List ι) : State α κ ι :=
  { s with
    taken := update s.taken x (s.taken x ++ items)
    flight := s.flight ++ r.onward x items }

inductive Step : State α κ ι → Label α κ ι → State α κ ι → Prop
  | enter {s : State α κ ι} {x : α} {items : List ι} :
      (∀ i ∈ items, r.origin i = r.name x) →
      Step s (.enter x items)
        (r.take { s with entered := s.entered ++ items.map fun i => (x, i) } x items)
  | hop {s : State α κ ι} {x : α} {ch : κ} {i : ι} {front back : List ((α × κ) × ι)} :
      s.flight = front ++ ((x, ch), i) :: back → (∀ e ∈ front, e.1 ≠ (x, ch)) →
      Step s (.hop x ch) (r.take { s with flight := front ++ back } (r.peer x ch) [i])

variable {r} {known : δ → Prop} {hops : δ → α → Nat}

theorem placed_take {s : State α κ ι} (h : Placed r known s) {x : α} {items : List ι}
    (hknown : ∀ i ∈ items, known (r.dest i)) : Placed r known (r.take s x items) := by
  intro e he
  rcases List.mem_append.mp he with he | he
  · exact h e he
  · obtain ⟨hmem, hex, hnext⟩ := mem_onward he
    exact ⟨hknown e.2 hmem, hex ▸ hnext⟩

section Counting

variable {s t : State α κ ι} {l : Label α κ ι} {ls : List (Label α κ ι)}

theorem placed_step (h : Placed r known s) (hstep : r.Step s l t)
    (hknown : ∀ e ∈ t.entered, known (r.dest e.2)) : Placed r known t := by
  cases hstep with
  | @enter x items =>
      have hentered : Placed r known
          { s with entered := s.entered ++ items.map fun i => (x, i) } := h
      refine placed_take hentered fun i hi => hknown (x, i) ?_
      exact List.mem_append_right _ (List.mem_map_of_mem hi)
  | @hop x ch i front back hflight =>
      have hi : known (r.dest i) := (h ((x, ch), i) (by simp [hflight])).1
      exact placed_take (placed_remove h hflight) (by simpa using hi)

theorem hops_step (hr : Hops r known hops) (h : Placed r known s) (hstep : r.Step s l t)
    (hknown : ∀ e ∈ t.entered, known (r.dest e.2)) :
    (if isHop l then 1 else 0) + r.left hops t.flight + r.due hops s.entered =
      r.left hops s.flight + r.due hops t.entered := by
  cases hstep with
  | @enter x items =>
      have hitems : ∀ i ∈ items, known (r.dest i) := fun i hi =>
        hknown (x, i) (List.mem_append_right _ (List.mem_map_of_mem hi))
      have hleft := left_onward hr x hitems
      simp only [isHop, take, left, due, List.map_append, List.sum_append, List.map_map,
        Function.comp_def] at hleft ⊢
      rw [hleft]
      simp
      omega
  | @hop x ch i front back hflight =>
      obtain ⟨hi, hnext⟩ := h ((x, ch), i) (by simp [hflight])
      have hone : ∀ j ∈ [i], known (r.dest j) := by simpa using hi
      have hleft := left_onward hr (r.peer x ch) hone
      have hhop : hops (r.dest i) x = hops (r.dest i) (r.peer x ch) + 1 :=
        hr.hop _ _ _ hi hnext
      simp only [isHop, if_true, take, left, due, hflight, List.map_append, List.map_cons,
        List.sum_append, List.sum_cons, List.map_nil, List.sum_nil] at hleft ⊢
      omega

theorem entered_subset (hrun : Run r.Step s ls t) : ∀ e ∈ s.entered, e ∈ t.entered := by
  induction hrun with
  | nil => exact fun e he => he
  | cons hl _ ih =>
      intro e he
      cases hl with
      | enter => exact ih e (List.mem_append_left _ he)
      | hop => exact ih e he

theorem run_hops (hr : Hops r known hops) (hrun : Run r.Step s ls t) (h : Placed r known s)
    (hknown : ∀ e ∈ t.entered, known (r.dest e.2)) :
    Placed r known t ∧ ls.countP isHop + r.left hops t.flight + r.due hops s.entered =
      r.left hops s.flight + r.due hops t.entered := by
  induction hrun with
  | nil => exact ⟨h, by simp⟩
  | @cons s mid t l ls hl hrest ih =>
      have hmid : ∀ e ∈ mid.entered, known (r.dest e.2) := fun e he =>
        hknown e (entered_subset hrest e he)
      obtain ⟨hplaced, hrun⟩ := ih (placed_step h hl hmid) hknown
      have hstep := hops_step hr h hl hmid
      refine ⟨hplaced, ?_⟩
      rw [List.countP_cons]
      omega

/-- Every item has entered at a node, which is its origin. -/
structure Entered (r : Relay α κ δ σ ι) (s : State α κ ι) : Prop where
  origin : ∀ e ∈ s.entered, r.origin e.2 = r.name e.1
  taken : ∀ x, ∀ i ∈ s.taken x, ∃ a, (a, i) ∈ s.entered
  flight : ∀ e ∈ s.flight, ∃ a, (a, e.2) ∈ s.entered

theorem entered_take (h : Entered r s) (x : α) {items : List ι}
    (hitems : ∀ i ∈ items, ∃ a, (a, i) ∈ s.entered) : Entered r (r.take s x items) := by
  refine ⟨h.origin, fun z i hi => ?_, fun e he => ?_⟩
  · by_cases hz : z = x
    · subst hz
      simp only [take, update_self, List.mem_append] at hi
      exact hi.elim (h.taken z i) (hitems i)
    · simp only [take, update_of_ne hz] at hi
      exact h.taken z i hi
  · rcases List.mem_append.mp he with he | he
    · exact h.flight e he
    · exact hitems e.2 (mem_onward he).1

theorem entered_step (s : State α κ ι) (l : Label α κ ι) (t : State α κ ι) (h : Entered r s)
    (hstep : r.Step s l t) : Entered r t := by
  cases hstep with
  | @enter x items horigin =>
      have hall : Entered r { s with entered := s.entered ++ items.map fun i => (x, i) } := by
        refine ⟨fun e he => ?_, fun z i hi => ?_, fun e he => ?_⟩
        · rcases List.mem_append.mp he with he | he
          · exact h.origin e he
          · obtain ⟨i, hi, rfl⟩ := List.mem_map.mp he
            exact horigin i hi
        · obtain ⟨a, ha⟩ := h.taken z i hi
          exact ⟨a, List.mem_append_left _ ha⟩
        · obtain ⟨a, ha⟩ := h.flight e he
          exact ⟨a, List.mem_append_left _ ha⟩
      exact entered_take hall x fun i hi =>
        ⟨x, List.mem_append_right _ (List.mem_map_of_mem hi)⟩
  | @hop x ch i front back hflight hfront =>
      have hleft : Entered r { s with flight := front ++ back } := by
        refine ⟨h.origin, h.taken, fun e he => h.flight e ?_⟩
        rw [hflight]
        rcases List.mem_append.mp he with he | he
        · exact List.mem_append_left _ he
        · exact List.mem_append_right _ (List.mem_cons_of_mem _ he)
      refine entered_take hleft _ fun j hj => ?_
      obtain rfl := List.mem_singleton.mp hj
      exact h.flight ((x, ch), j) (by simp [hflight])

theorem run_entered {ls : List (Label α κ ι)} (hrun : Run r.Step start ls s) : Entered r s :=
  hrun.invariant _ entered_step ⟨fun _ he => absurd he List.not_mem_nil,
    fun _ _ hi => absurd hi List.not_mem_nil, fun _ he => absurd he List.not_mem_nil⟩

end Counting

variable [DecidableEq δ] [DecidableEq σ] {a : α} {d : δ}

theorem flow_taken_take (s : State α κ ι) (x : α) (items : List ι) (z : α) :
    r.flow a d ((r.take s x items).taken z) =
      r.flow a d (s.taken z) ++ if z = x then r.flow a d items else [] := by
  by_cases hz : z = x
  · subst hz
    simp only [take, update_self, if_pos, flow_append]
  · simp only [take, update_of_ne hz, if_neg hz, List.append_nil]

theorem flow_entered (a : α) (d : δ) (entered : List (α × ι)) (x : α) (items : List ι) :
    r.flow a d (((entered ++ items.map fun i => (x, i)).filter fun e => e.1 = a).map Prod.snd) =
      r.flow a d ((entered.filter fun e => e.1 = a).map Prod.snd) ++
        if x = a then r.flow a d items else [] := by
  rw [List.filter_append, List.map_append, flow_append]
  congr 1
  by_cases hx : x = a
  · rw [if_pos hx]
    congr 1
    simp [List.filter_map, Function.comp_def, hx]
  · rw [if_neg hx]
    simp [List.filter_map, Function.comp_def, hx, flow]

variable (r) [DecidableEq κ]

def wire (flight : List ((α × κ) × ι)) (x : α) (ch : κ) : List ι :=
  (flight.filter fun e => e.1 = (x, ch)).map Prod.snd

/-- The items from `a` to `d` on the channels of a way, those nearest to its end first. -/
def onWay (a : α) (d : δ) (flight : List ((α × κ) × ι)) : List α → List ι
  | [] => []
  | x :: path =>
      onWay a d flight path ++
        match r.next d x with
        | some ch => r.flow a d (wire flight x ch)
        | none => []

theorem wire_append (flight more : List ((α × κ) × ι)) (x : α) (ch : κ) :
    wire (flight ++ more) x ch = wire flight x ch ++ wire more x ch := by
  simp [wire]

variable {r}

theorem flow_wire_onward (a : α) (d : δ) (x : α) (items : List ι) (z : α) (ch : κ) :
    r.flow a d (wire (r.onward x items) z ch) =
      if z = x ∧ r.next d x = some ch then r.flow a d items else [] := by
  induction items with
  | nil => simp [onward, wire, flow]
  | cons i items ih =>
      have hcons : r.onward x (i :: items) = r.onward x [i] ++ r.onward x items := by
        simp only [onward, ← List.filterMap_append, List.singleton_append]
      have hone : r.flow a d (wire (r.onward x [i]) z ch) =
          if z = x ∧ r.next d x = some ch then r.flow a d [i] else [] := by
        by_cases hflow : r.origin i = r.name a ∧ r.dest i = d
        · obtain ⟨horigin, rfl⟩ := hflow
          by_cases hz : z = x
          · subst hz
            cases hnext : r.next (r.dest i) z with
            | none => simp [onward, wire, flow, hnext]
            | some c =>
                by_cases hc : c = ch
                · subst hc
                  simp [onward, wire, flow, hnext]
                · simp [onward, wire, flow, hnext, hc]
          · have hx : ¬ x = z := fun heq => hz heq.symm
            cases hnext : r.next (r.dest i) x with
            | none => simp [onward, wire, flow, hnext]
            | some c => simp [onward, wire, flow, hnext, hz, hx]
        · have hempty : r.flow a d [i] = [] := by simp [flow, hflow]
          rw [hempty, ite_self]
          apply flow_eq_nil
          intro j hj horigin hdest
          have hji : j = i := by
            obtain ⟨e, he, rfl⟩ := List.mem_map.mp hj
            have := List.mem_of_mem_filter he
            simp only [onward, List.mem_filterMap, List.mem_singleton] at this
            obtain ⟨k, rfl, hk⟩ := this
            obtain ⟨c, _, rfl⟩ := Option.map_eq_some_iff.mp hk
            rfl
          exact hflow ⟨hji ▸ horigin, hji ▸ hdest⟩
      have hflow : r.flow a d (i :: items) = r.flow a d [i] ++ r.flow a d items := by
        rw [← flow_append, List.singleton_append]
      rw [hcons, wire_append, flow_append, hone, ih, hflow]
      split <;> simp

/-- Along a way, each node has taken what the next one has and what is on the channel
between the two; no other node and no other channel has anything of the flow. -/
structure InOrder (r : Relay α κ δ σ ι) (a : α) (d : δ) (path : List α) (s : State α κ ι) :
    Prop where
  taken : ∀ x, x ∉ path → r.flow a d (s.taken x) = []
  flight : ∀ e ∈ s.flight, r.origin e.2 = r.name a → r.dest e.2 = d →
    e.1.1 ∈ path ∧ r.next d e.1.1 = some e.1.2
  link : ∀ x ∈ path, ∀ ch, r.next d x = some ch →
    r.flow a d (s.taken x) =
      r.flow a d (s.taken (r.peer x ch)) ++ r.flow a d (wire s.flight x ch)
  first : r.flow a d (s.taken a) =
    r.flow a d ((s.entered.filter fun e => e.1 = a).map Prod.snd)

variable {path : List α} {s t : State α κ ι}

theorem inOrder_start : InOrder r a d path start :=
  ⟨fun _ _ => rfl, fun _ he => absurd he List.not_mem_nil, fun _ _ _ _ => rfl, rfl⟩

theorem flow_wire_take (s : State α κ ι) (x : α) (items : List ι) (z : α) (ch : κ) :
    r.flow a d (wire (r.take s x items).flight z ch) =
      r.flow a d (wire s.flight z ch) ++
        if z = x ∧ r.next d x = some ch then r.flow a d items else [] := by
  rw [take, wire_append, flow_append, flow_wire_onward]

theorem inOrder_other (h : InOrder r a d path s) {x : α} {items : List ι}
    (hnone : r.flow a d items = []) : InOrder r a d path (r.take s x items) := by
  refine ⟨fun z hz => ?_, fun e he horigin hdest => ?_, fun z hz ch hch => ?_, ?_⟩
  · rw [flow_taken_take, h.taken z hz, hnone, ite_self, List.append_nil]
  · rcases List.mem_append.mp he with he | he
    · exact h.flight e he horigin hdest
    · have hmem : e.2 ∈ r.flow a d items :=
        List.mem_filter.mpr ⟨(mem_onward he).1, decide_eq_true ⟨horigin, hdest⟩⟩
      rw [hnone] at hmem
      exact absurd hmem List.not_mem_nil
  · rw [flow_taken_take, flow_taken_take, flow_wire_take, hnone]
    simpa using h.link z hz ch hch
  · rw [flow_taken_take, hnone, ite_self, List.append_nil]
    exact h.first

theorem inOrder_enter (hpath : r.Trace d a path) (h : InOrder r a d path s) {x : α}
    {items : List ι} (horigin : ∀ i ∈ items, r.origin i = r.name x) :
    InOrder r a d path
      (r.take { s with entered := s.entered ++ items.map fun i => (x, i) } x items) := by
  by_cases hx : x = a
  · subst hx
    obtain ⟨rest, hrest⟩ := hpath.head
    have hstart : x ∈ path := by simp [hrest]
    refine ⟨fun z hz => ?_, fun e he horig hdest => ?_, fun z hz ch hch => ?_, ?_⟩
    · have hzx : z ≠ x := fun heq => hz (heq ▸ hstart)
      rw [flow_taken_take, if_neg hzx, List.append_nil]
      exact h.taken z hz
    · rcases List.mem_append.mp he with he | he
      · exact h.flight e he horig hdest
      · obtain ⟨_, hex, hnext⟩ := mem_onward he
        rw [hex, ← hdest]
        exact ⟨hstart, hnext⟩
    · have hlink := h.link z hz ch hch
      rw [flow_taken_take, flow_taken_take, flow_wire_take,
        if_neg (hpath.next_ne_start hz hch), List.append_nil]
      by_cases hzx : z = x
      · subst hzx
        rw [if_pos rfl, if_pos ⟨rfl, hch⟩, ← List.append_assoc]
        exact congrArg (· ++ _) hlink
      · rw [if_neg hzx, if_neg fun hand => hzx hand.1, List.append_nil, List.append_nil]
        exact hlink
    · rw [flow_taken_take, if_pos rfl]
      show _ = r.flow x d (((s.entered ++ items.map fun i => (x, i)).filter _).map Prod.snd)
      rw [flow_entered, if_pos rfl]
      exact congrArg (· ++ _) h.first
  · have hnone : r.flow a d items = [] := by
      refine flow_eq_nil fun i hi horig => ?_
      exact absurd (r.name_inj ((horigin i hi).symm.trans horig)) hx
    have hentered : InOrder r a d path
        { s with entered := s.entered ++ items.map fun i => (x, i) } := by
      refine ⟨h.taken, h.flight, h.link, ?_⟩
      rw [flow_entered, if_neg hx, List.append_nil]
      exact h.first
    exact inOrder_other hentered hnone

theorem wire_remove {front back : List ((α × κ) × ι)} {x : α} {ch : κ} {i : ι} (z : α) (c : κ) :
    wire (front ++ ((x, ch), i) :: back) z c =
      wire front z c ++ (if (z, c) = (x, ch) then [i] else []) ++ wire back z c := by
  by_cases hz : (z, c) = (x, ch)
  · simp [wire, hz]
  · have hx : ¬ (x, ch) = (z, c) := fun heq => hz heq.symm
    simp [wire, hz, hx]

theorem inOrder_hop (hpath : r.Trace d a path) (h : InOrder r a d path s) {x : α} {ch : κ}
    {i : ι} {front back : List ((α × κ) × ι)}
    (hflight : s.flight = front ++ ((x, ch), i) :: back) (hfront : ∀ e ∈ front, e.1 ≠ (x, ch)) :
    InOrder r a d path (r.take { s with flight := front ++ back } (r.peer x ch) [i]) := by
  have hmem : ∀ e ∈ front ++ back, e ∈ s.flight := by
    intro e he
    rw [hflight]
    rcases List.mem_append.mp he with he | he
    · exact List.mem_append_left _ he
    · exact List.mem_append_right _ (List.mem_cons_of_mem _ he)
  by_cases hflow : r.origin i = r.name a ∧ r.dest i = d
  · obtain ⟨hx, hnext⟩ := h.flight ((x, ch), i) (by simp [hflight]) hflow.1 hflow.2
    have hone : r.flow a d [i] = [i] := by simp [flow, hflow]
    have hy := hpath.next_mem hx hnext
    have hxy : x ≠ r.peer x ch := (hpath.next_ne hx hnext).symm
    refine ⟨fun z hz => ?_, fun e he horig hdest => ?_, fun z hz c hc => ?_, ?_⟩
    · have hzy : z ≠ r.peer x ch := fun heq => hz (heq ▸ hy)
      rw [flow_taken_take, if_neg hzy, List.append_nil]
      exact h.taken z hz
    · rcases List.mem_append.mp he with he | he
      · exact h.flight e (hmem e he) horig hdest
      · obtain ⟨_, hex, henext⟩ := mem_onward he
        rw [hex, ← hdest]
        exact ⟨hy, henext⟩
    · have hlink := h.link z hz c hc
      rw [hflight, wire_remove, flow_append, flow_append] at hlink
      rw [flow_taken_take, flow_taken_take, flow_wire_take, wire_append, flow_append, hone]
      by_cases hzx : z = x
      · subst hzx
        obtain rfl := Option.some.inj (hc.symm.trans hnext)
        have hempty : wire front z c = [] := by
          rw [wire, List.map_eq_nil_iff, List.filter_eq_nil_iff]
          exact fun e he heq => hfront e he (of_decide_eq_true heq)
        rw [if_neg hxy, if_pos rfl, if_neg fun hand => hxy hand.1]
        rw [hempty, if_pos rfl, hone] at hlink
        rw [hempty, hlink]
        simp [flow]
      · have hkey : ¬ (z, c) = (x, ch) := fun heq => hzx (Prod.mk.inj heq).1
        have hpeer : ¬ r.peer z c = r.peer x ch := fun heq =>
          hzx (hpath.before_unique hx hz hnext hc heq)
        have hnil : r.flow a d ([] : List ι) = [] := rfl
        rw [if_neg hkey, hnil, List.append_nil] at hlink
        rw [if_neg hpeer, List.append_nil]
        by_cases hzy : z = r.peer x ch
        · rw [if_pos hzy, if_pos ⟨hzy, hzy ▸ hc⟩, hlink]
          simp
        · rw [if_neg hzy, if_neg fun hand => hzy hand.1, hlink]
          simp
    · have ha : a ≠ r.peer x ch := (hpath.next_ne_start hx hnext).symm
      rw [flow_taken_take, if_neg ha, List.append_nil]
      exact h.first
  · have hnone : r.flow a d [i] = [] := by simp [flow, hflow]
    have hremoved : InOrder r a d path { s with flight := front ++ back } := by
      refine ⟨h.taken, fun e he => h.flight e (hmem e he), fun z hz c hc => ?_, h.first⟩
      have hlink := h.link z hz c hc
      have hnil : r.flow a d (if (z, c) = (x, ch) then [i] else []) = [] := by
        split
        · exact hnone
        · rfl
      rw [hflight, wire_remove, flow_append, flow_append, hnil, List.append_nil] at hlink
      rw [hlink, wire_append, flow_append]
    exact inOrder_other hremoved hnone

theorem inOrder_step (hpath : r.Trace d a path) (s : State α κ ι) (l : Label α κ ι)
    (t : State α κ ι) (h : InOrder r a d path s) (hstep : r.Step s l t) :
    InOrder r a d path t := by
  cases hstep with
  | enter horigin => exact inOrder_enter hpath h horigin
  | hop hflight hfront => exact inOrder_hop hpath h hflight hfront

theorem onWay_nil (a : α) (d : δ) (path : List α) : r.onWay a d [] path = [] := by
  induction path with
  | nil => rfl
  | cons x path ih =>
      rw [Relay.onWay, ih]
      cases r.next d x <;> rfl

theorem InOrder.onWay (h : InOrder r a d path s) {x b : α} {rest : List α}
    (hrest : r.Trace d x rest) (hsub : ∀ y ∈ rest, y ∈ path) (hlast : rest.getLast? = some b) :
    r.flow a d (s.taken x) = r.flow a d (s.taken b) ++ r.onWay a d s.flight rest := by
  induction hrest with
  | stay hnone =>
      obtain rfl : _ = b := by simpa using hlast
      simp [Relay.onWay, hnone]
  | @hop x ch rest hsome htail ih =>
      obtain ⟨tail, rfl⟩ := htail.head
      rw [h.link x (hsub x List.mem_cons_self) ch hsome,
        ih (fun y hy => hsub y (List.mem_cons_of_mem x hy)) (by simpa using hlast)]
      simp [Relay.onWay, hsome]

/-- In every run, what has entered at `a` for `d` is, in order, what the end of the way has
taken and then what is still on the way. -/
theorem run_in_order {ls : List (Label α κ ι)} (hrun : Run r.Step start ls s)
    (hpath : r.Trace d a path) {b : α} (hlast : path.getLast? = some b) :
    r.flow a d ((s.entered.filter fun e => e.1 = a).map Prod.snd) =
      r.flow a d (s.taken b) ++ r.onWay a d s.flight path ∧
    ∀ x, x ∉ path → r.flow a d (s.taken x) = [] := by
  have h : InOrder r a d path s := hrun.invariant _ (inOrder_step hpath) inOrder_start
  refine ⟨?_, h.taken⟩
  rw [← h.first]
  exact h.onWay hpath (fun _ hy => hy) hlast

end Channels

end Relay

end PwrApi
