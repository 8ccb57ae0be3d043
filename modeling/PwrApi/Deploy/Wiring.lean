import PwrApi.Deploy.Threads

/-! The connections of a cluster: whom each router reaches on each of its channels. -/

namespace PwrApi

open Text Opening

/-- What a daemon can be reached at. -/
inductive Port
  | client
  | server
  | link (i : Nat)
  deriving DecidableEq, Repr

namespace Opening

def Core.entries : Core → List Entry
  | tree links => links
  | torus _ => []

end Opening

namespace Process

/-- The host and port that a channel of the router is opened to. -/
def dials (p : Process) (ch : Nat) : Option (Text × UInt16) := do
  let rtr ← p.rtr
  let entry ← rtr.core.entries[ch]?
  match entry.send with
  | some (.client host port) => some (host, portOf port)
  | _ => none

/-- The port that the router listens at. -/
def listens (p : Process) (port : Port) : Option UInt16 := do
  let rtr ← p.rtr
  let opened ←
    match port with
    | .client => rtr.client
    | .server => rtr.server
    | .link i => rtr.core.entries[i]?.bind (·.recv)
  match opened with
  | .listening port => some (portOf port)
  | .client _ _ => none

end Process

namespace Cluster

open Daemon Router

variable (c : Cluster)

def nodeOf : Option (Fin c.numBoards) → Nat
  | none => c.rootNode
  | some i => i * c.nodesPerBoard

theorem boards_id : c.numBoards ≤ (UInt32.ofNat c.numBoards).toNat := by
  have := c.boards_small
  rw [UInt32.toNat_ofNat']
  omega

/-- The tree that the routers are meant to be. -/
def net : TreeNetwork (Option (Fin c.numBoards)) :=
  TreeNetwork.daemonNetwork (UInt32.ofNat c.numBoards) c.boards_id

/-- The routers are those of the tree and run nowhere else, no two ports of the cluster are
the same, and each channel reaches the router at its other end, on the link that leads back. -/
structure Wired (procs : Nat → Process) : Prop where
  router : ∀ x, ∃ rtr, (procs (c.nodeOf x)).rtr = some rtr ∧ rtr.rtrId = c.net.id x ∧
    rtr.core.getChannel = (fun id => .ok (treeChannel (c.net.links x) id)) ∧
    rtr.routeTable = (c.run (c.nodeOf x)).routeFile
  only : ∀ k < c.numNodes, (procs k).rtr ≠ none → ∃ x, c.nodeOf x = k
  one : ∀ k < c.numNodes, ∀ k' < c.numNodes, ∀ l l' port, (procs k).listens l = some port →
    (procs k').listens l' = some port → c.hostAt k = c.hostAt k' → k = k' ∧ l = l'
  reach : ∀ x ch, (∃ link ∈ c.net.links x, link.send = some ch) → ∃ back port,
    (procs (c.nodeOf x)).dials ch = some (c.hostAt (c.nodeOf (c.net.peer x ch)), port) ∧
      (procs (c.nodeOf (c.net.peer x ch))).listens (.link back) = some port ∧
      c.net.peer (c.net.peer x ch) back = x

section Digits

theorem length_decimal_le {n k : Nat} (hk : 0 < k) (hn : n < 10 ^ k) : (decimal n).length ≤ k := by
  induction k generalizing n with
  | zero => omega
  | succ k ih =>
      by_cases hsmall : n < 10
      · rw [decimal_small hsmall, List.length_singleton]
        omega
      · rw [decimal_big hsmall, List.length_append, List.length_singleton]
        have hpow : 10 ^ (k + 1) = 10 ^ k * 10 := Nat.pow_succ 10 k
        have hk' : 0 < k := by
          by_contra hzero
          obtain rfl : k = 0 := by omega
          simp at hn
          omega
        have := ih (n := n / 10) hk' (by omega)
        omega

theorem value_lt {digits : Text} (hdigits : ∀ d ∈ digits, isDigit d = true) :
    value digits < 10 ^ digits.length := by
  induction digits using List.reverseRecOn with
  | nil => simp [value]
  | append_singleton digits d ih =>
      have hbefore := ih fun e he => hdigits e (List.mem_append_left _ he)
      have hd := (digit_of_isDigit (hdigits d (by simp))).1
      rw [value_concat, List.length_append, List.length_singleton, Nat.pow_succ]
      omega

theorem portOf_short (n : Nat) {k : Nat} (hpos : 0 < k) (hk : k ≤ 4) :
    (portOf ((decimal n).take k)).toNat < 16000 := by
  have hdigits : ∀ d ∈ (decimal n).take k, isDigit d = true := fun d hd =>
    decimalFrom_digits (n + 1) n d (List.mem_of_mem_take hd)
  have hlength : ((decimal n).take k).length ≤ 4 := by
    rw [List.length_take]
    omega
  have hne : (decimal n).take k ≠ [] := by
    intro hnil
    rcases List.take_eq_nil_iff.mp hnil with hzero | hnil
    · omega
    · exact decimal_ne_nil n hnil
  have hvalue : value ((decimal n).take k) < 10 ^ 4 :=
    lt_of_lt_of_le (value_lt hdigits) (Nat.pow_le_pow_right (by decide) hlength)
  have hread : atoi ((decimal n).take k ++ []) = _ := atoi_digits hne hdigits (by simp)
  rw [List.append_nil] at hread
  have hclamp : clampLong (value ((decimal n).take k)) = value ((decimal n).take k) := by
    unfold clampLong
    omega
  rw [portOf, hread, hclamp]
  show ((UInt32.ofNat _).toUInt16).toNat < _
  rw [UInt32.toNat_toUInt16, UInt32.toNat_ofNat']
  omega

end Digits

section Routers

variable {c}

theorem boards_pos : 0 < c.numBoards := by
  have := c.nodes
  rw [Machine.lt_numBoards]
  omega

theorem leaf_ne_root (i : Nat) : i * c.nodesPerBoard ≠ c.rootNode := by
  intro heq
  apply (rootNode_mod (c := c)).1
  rw [← heq, Nat.mul_mod_left]

theorem nodeOf_lt (x : Option (Fin c.numBoards)) : c.nodeOf x < c.numNodes := by
  cases x with
  | none => exact rootNode_lt
  | some i => exact first_lt i.isLt

theorem nodeOf_rtr (x : Option (Fin c.numBoards)) :
    imARtr (c.nodeOf x) c.nodesPerBoard c.rootNode = true := by
  cases x with
  | none => simp [imARtr, nodeOf]
  | some i => simp [imARtr, nodeOf]

theorem exists_nodeOf {k : Nat} (hk : k < c.numNodes)
    (hrtr : imARtr k c.nodesPerBoard c.rootNode = true) : ∃ x, c.nodeOf x = k := by
  simp only [imARtr, decide_eq_true_eq] at hrtr
  rcases hrtr with rfl | hfirst
  · exact ⟨none, rfl⟩
  · exact ⟨some ⟨k / c.nodesPerBoard, board_lt hk⟩,
      Nat.div_mul_cancel (Nat.dvd_of_mod_eq_zero hfirst)⟩

theorem processAt_rtr (x : Option (Fin c.numBoards)) :
    (c.processAt (c.nodeOf x)).rtr = some (c.rtrAt (c.nodeOf x)) := by
  rw [processAt, nodeOf_rtr x]
  rfl

theorem entriesAt_root : c.entriesAt (c.nodeOf none) =
    (List.range c.numBoards).map fun i => rootEntry i (c.hostAt (i * c.nodesPerBoard)) :=
  if_pos rfl

theorem entriesAt_leaf (i : Fin c.numBoards) :
    c.entriesAt (c.nodeOf (some i)) = [leafEntry i (c.hostAt c.rootNode)] := by
  have hdiv : ↑i * c.nodesPerBoard / c.nodesPerBoard = ↑i :=
    Nat.mul_div_cancel _ c.nodesPerBoard_pos
  rw [entriesAt, nodeOf, if_neg (leaf_ne_root i), hdiv]

theorem root_entry {i : Nat} (hi : i < c.numBoards) :
    (c.entriesAt (c.nodeOf none))[i]? = some (rootEntry i (c.hostAt (i * c.nodesPerBoard))) := by
  rw [entriesAt_root, List.getElem?_map, List.getElem?_range hi]
  rfl

theorem entry_cases {x : Option (Fin c.numBoards)} {i : Nat} {entry : Entry}
    (h : (c.entriesAt (c.nodeOf x))[i]? = some entry) :
    (x = none ∧ i < c.numBoards ∧ entry = rootEntry i (c.hostAt (i * c.nodesPerBoard))) ∨
      ∃ j, x = some j ∧ i = 0 ∧ entry = leafEntry j (c.hostAt c.rootNode) := by
  cases x with
  | none =>
      have hi : i < c.numBoards := by
        have hlength := (List.getElem?_eq_some_iff.mp h).1
        rw [entriesAt_root, List.length_map, List.length_range] at hlength
        exact hlength
      rw [root_entry hi] at h
      exact .inl ⟨rfl, hi, (Option.some.inj h).symm⟩
  | some j =>
      rw [entriesAt_leaf] at h
      have hi : i = 0 := by
        have hlength := (List.getElem?_eq_some_iff.mp h).1
        rw [List.length_singleton] at hlength
        omega
      subst hi
      exact .inr ⟨j, rfl, rfl, (Option.some.inj h).symm⟩

theorem entriesAt_links (x : Option (Fin c.numBoards)) :
    (c.entriesAt (c.nodeOf x)).map (·.link) = c.net.links x := by
  cases x with
  | none =>
      rw [entriesAt_root, List.map_map, ← List.map_coe_finRange_eq_range, List.map_map]
      rfl
  | some i =>
      rw [entriesAt_leaf]
      rfl

theorem rtrIdAt_eq (x : Option (Fin c.numBoards)) :
    UInt32.ofNat (c.rtrIdAt (c.nodeOf x)) = c.net.id x := by
  cases x with
  | none => exact congrArg UInt32.ofNat (if_pos rfl)
  | some i =>
      have hid : c.rtrIdAt (c.nodeOf (some i)) = i := by
        rw [rtrIdAt, nodeOf, if_neg (leaf_ne_root i), Nat.mul_div_cancel _ c.nodesPerBoard_pos]
      rw [hid]
      rfl

end Routers

section Ports

variable {c}

theorem portOf_port {port : Nat} (h : port < 2 ^ 16) :
    (portOf (decimal port)).toNat = port := by
  have hread : portOf (decimal port ++ []) = _ := portOf_decimal h (by simp)
  rw [List.append_nil] at hread
  rw [hread, UInt16.toNat_ofNat']
  omega

def Port.number : Port → Nat
  | .client => 15000
  | .server => 15001
  | .link i => 16000 + i

theorem Port.number_inj {l l' : Port} (h : Port.number l = Port.number l') : l = l' := by
  cases l <;> cases l' <;> simp only [Port.number] at h <;> first | rfl | omega | skip
  congr 1
  omega

theorem listens_cases {k : Nat} (hk : k < c.numNodes) {l : Port} {port : UInt16}
    (h : (c.processAt k).listens l = some port) : port.toNat = Port.number l := by
  have hports := c.ports
  by_cases hrtr : imARtr k c.nodesPerBoard c.rootNode = true
  · obtain ⟨x, rfl⟩ := exists_nodeOf hk hrtr
    simp only [Process.listens, processAt_rtr, Option.bind_eq_bind, Option.bind_some] at h
    cases l with
    | client =>
        obtain rfl : portOf (decimal 15000) = port := Option.some.inj h
        exact portOf_port (by decide)
    | server =>
        obtain rfl : portOf (decimal 15001) = port := Option.some.inj h
        exact portOf_port (by decide)
    | link i =>
        simp only [rtrAt, Core.entries] at h
        cases hentry : (c.entriesAt (c.nodeOf x))[i]? with
        | none =>
            rw [hentry] at h
            cases h
        | some entry =>
            rw [hentry] at h
            rcases entry_cases hentry with ⟨_, hi, rfl⟩ | ⟨j, _, rfl, rfl⟩
            · obtain rfl : portOf (decimal (16000 + i)) = port := Option.some.inj h
              exact portOf_port (by omega)
            · obtain rfl : portOf (decimal 16000) = port := Option.some.inj h
              exact portOf_port (by decide)
  · rw [processAt, if_neg hrtr] at h
    cases h

theorem listens_link {x : Option (Fin c.numBoards)} {i : Nat} {entry : Entry} {text : Text}
    (hentry : (c.entriesAt (c.nodeOf x))[i]? = some entry)
    (hrecv : entry.recv = some (.listening text)) :
    (c.processAt (c.nodeOf x)).listens (.link i) = some (portOf text) := by
  simp [Process.listens, processAt_rtr, rtrAt, Core.entries, hentry, hrecv]

theorem dials_link {x : Option (Fin c.numBoards)} {ch : Nat} {entry : Entry} {host text : Text}
    (hentry : (c.entriesAt (c.nodeOf x))[ch]? = some entry)
    (hsend : entry.send = some (.client host text)) :
    (c.processAt (c.nodeOf x)).dials ch = some (host, portOf text) := by
  simp [Process.dials, processAt_rtr, rtrAt, Core.entries, hentry, hsend]

theorem firstPort_long {host : Text} (hhost : 4 ≤ host.length) :
    portOf (firstPort host) = portOf (decimal 16000) := by
  have hfive : (decimal 16000).length = 5 := by decide
  have hsplit : firstPort host =
      decimal 16000 ++ (58 :: (decimal 0 ++ 58 :: decimal 0)).take (host.length + 1 - 5) := by
    rw [firstPort, List.take_append, hfive, List.take_of_length_le (by omega)]
  have hstop : ∀ d ∈ ((58 :: (decimal 0 ++ 58 :: decimal 0)).take (host.length + 1 - 5)).head?,
      isDigit d = false := by
    intro d hd
    cases hcount : host.length + 1 - 5 with
    | zero =>
        rw [hcount] at hd
        cases hd
    | succ count =>
        rw [hcount] at hd
        obtain rfl := Option.some.inj hd
        rfl
  have hread : portOf (decimal 16000 ++ []) = _ := portOf_decimal (by decide) (by simp)
  rw [List.append_nil] at hread
  rw [hsplit, portOf_decimal (by decide) hstop, hread]

theorem leafPort_long {host : Text} (hhost : 4 ≤ host.length) {i : Nat} (hi : i < c.numBoards) :
    leafPort i host = decimal (16000 + i) := by
  have hports := c.ports
  apply List.take_of_length_le
  have := length_decimal_le (n := 16000 + i) (k := 5) (by decide) (by omega)
  omega

theorem firstPort_short {host : Text} (hhost : host.length < 4) :
    (portOf (firstPort host)).toNat < 16000 := by
  have hfive : (decimal 16000).length = 5 := by decide
  have htake : firstPort host = (decimal 16000).take (host.length + 1) := by
    rw [firstPort, List.take_append_of_le_length (by omega)]
  rw [htake]
  exact portOf_short _ (by omega) (by omega)

theorem leafPort_short {host : Text} (hhost : host.length < 4) (i : Nat) :
    (portOf (leafPort i host)).toNat < 16000 := portOf_short _ (by omega) (by omega)

end Ports

section Wiring

variable {c}

theorem link_of_net {x : Option (Fin c.numBoards)} {ch : Nat}
    (h : ∃ link ∈ c.net.links x, link.send = some ch) :
    (x = none ∧ ch < c.numBoards) ∨ ∃ j, x = some j ∧ ch = 0 := by
  obtain ⟨link, hlink, hsend⟩ := h
  cases x with
  | none =>
      obtain ⟨i, _, rfl⟩ := List.mem_map.mp hlink
      obtain rfl : (i : Nat) = ch := Option.some.inj hsend
      exact .inl ⟨rfl, i.isLt⟩
  | some j =>
      obtain rfl := List.mem_singleton.mp hlink
      exact .inr ⟨j, rfl, (Option.some.inj hsend).symm⟩

theorem reach_of_long (hfirst : 4 ≤ (c.hostAt 0).length) (hroot : 4 ≤ (c.hostAt c.rootNode).length)
    {x : Option (Fin c.numBoards)} {ch : Nat}
    (h : ∃ link ∈ c.net.links x, link.send = some ch) : ∃ back port,
    (c.processAt (c.nodeOf x)).dials ch = some (c.hostAt (c.nodeOf (c.net.peer x ch)), port) ∧
      (c.processAt (c.nodeOf (c.net.peer x ch))).listens (.link back) = some port ∧
      c.net.peer (c.net.peer x ch) back = x := by
  rcases link_of_net h with ⟨rfl, hch⟩ | ⟨j, rfl, rfl⟩
  · have hpeer : c.net.peer none ch = some ⟨ch, hch⟩ := dif_pos hch
    have hsend : (rootEntry ch (c.hostAt (ch * c.nodesPerBoard))).send =
        some (.client (c.hostAt (ch * c.nodesPerBoard))
          (if ch = 0 then firstPort (c.hostAt (ch * c.nodesPerBoard)) else decimal 16000)) := rfl
    have hport : portOf (if ch = 0 then firstPort (c.hostAt (ch * c.nodesPerBoard))
        else decimal 16000) = portOf (decimal 16000) := by
      split
      · next hzero =>
        rw [hzero, Nat.zero_mul]
        exact firstPort_long hfirst
      · rfl
    have hleaf : (c.entriesAt (c.nodeOf (some ⟨ch, hch⟩)))[0]? =
        some (leafEntry ch (c.hostAt c.rootNode)) := by
      rw [entriesAt_leaf]
      rfl
    refine ⟨0, portOf (decimal 16000), ?_, ?_, ?_⟩
    · rw [dials_link (root_entry hch) hsend, hport, hpeer]
      rfl
    · rw [hpeer]
      exact listens_link hleaf rfl
    · rw [hpeer]
      rfl
  · have hpeer : c.net.peer (some j) 0 = none := rfl
    have hleaf : (c.entriesAt (c.nodeOf (some j)))[0]? =
        some (leafEntry j (c.hostAt c.rootNode)) := by
      rw [entriesAt_leaf]
      rfl
    refine ⟨j, portOf (decimal (16000 + j)), ?_, ?_, ?_⟩
    · rw [dials_link hleaf rfl, leafPort_long hroot j.isLt]
      rfl
    · exact listens_link (root_entry j.isLt) rfl
    · exact dif_pos j.isLt

theorem wired_of_long (hfirst : 4 ≤ (c.hostAt 0).length)
    (hroot : 4 ≤ (c.hostAt c.rootNode).length) : c.Wired c.processAt := by
  constructor
  · intro x
    refine ⟨_, processAt_rtr x, rtrIdAt_eq x, ?_, rfl⟩
    rw [← entriesAt_links]
    rfl
  · intro k hk hrtr
    apply exists_nodeOf hk
    by_contra hnone
    exact hrtr (if_neg hnone)
  · intro k hk k' hk' l l' port hl hl' hhost
    refine ⟨hostAt_inj hk hk' hhost, Port.number_inj ?_⟩
    rw [← listens_cases hk hl, ← listens_cases hk' hl']
  · exact fun x ch h => reach_of_long hfirst hroot h

/-- Each channel that a router of the cluster sends on leads to the router at its other end if
and only if the hosts of the first node and of the root have names of four bytes or more: a
port is cut to the length of the host before it and one more. -/
theorem wired_iff (c : Cluster) :
    (∃ procs : Nat → Process, (∀ k < c.numNodes,
        (getApps c.toMachine (c.run k) k c.nidMap).map startDaemon = some (.ok (procs k))) ∧
      c.Wired procs) ↔
      4 ≤ (c.hostAt 0).length ∧ 4 ≤ (c.hostAt c.rootNode).length := by
  constructor
  · rintro ⟨procs, hprocs, hwired⟩
    have hproc : ∀ x, procs (c.nodeOf x) = c.processAt (c.nodeOf x) := by
      intro x
      have hstart := hprocs _ (nodeOf_lt x)
      rw [daemon_eq (nodeOf_lt x)] at hstart
      exact (Except.ok.inj (Option.some.inj hstart)).symm
    have hlisten : ∀ {x : Option (Fin c.numBoards)} {back : Nat} {port : UInt16},
        (procs (c.nodeOf x)).listens (.link back) = some port → 16000 ≤ port.toNat := by
      intro x back port h
      rw [hproc] at h
      rw [listens_cases (nodeOf_lt x) h]
      exact Nat.le_add_right 16000 back
    constructor
    · by_contra hshort
      obtain ⟨back, port, hdial, hback, _⟩ := hwired.reach none 0
        ⟨⟨some 0, 0, 0⟩, List.mem_map.mpr ⟨⟨0, boards_pos⟩, List.mem_finRange _, rfl⟩, rfl⟩
      rw [hproc, dials_link (root_entry boards_pos) rfl] at hdial
      obtain ⟨_, rfl⟩ := Prod.mk.inj (Option.some.inj hdial)
      have hlow := firstPort_short (Nat.lt_of_not_le hshort)
      have hhigh := hlisten hback
      rw [if_pos rfl, Nat.zero_mul] at hhigh
      omega
    · by_contra hshort
      obtain ⟨back, port, hdial, hback, _⟩ := hwired.reach (some ⟨0, boards_pos⟩) 0
        ⟨⟨some 0, 0, 0⟩, List.mem_singleton.mpr rfl, rfl⟩
      have hleaf : (c.entriesAt (c.nodeOf (some ⟨0, boards_pos⟩)))[0]? =
          some (leafEntry 0 (c.hostAt c.rootNode)) := by
        rw [entriesAt_leaf]
        rfl
      rw [hproc, dials_link hleaf rfl] at hdial
      obtain ⟨_, rfl⟩ := Prod.mk.inj (Option.some.inj hdial)
      have hlow := leafPort_short (Nat.lt_of_not_le hshort) 0
      have hhigh := hlisten hback
      omega
  · rintro ⟨hfirst, hroot⟩
    exact ⟨c.processAt, fun k hk => daemon_eq hk, wired_of_long hfirst hroot⟩

end Wiring

end Cluster

end PwrApi
