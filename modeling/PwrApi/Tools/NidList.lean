import PwrApi.Lib.Distinct
import PwrApi.Lib.Text

/-! The list of nodes that the ranks of an application make, one on every node for its
daemon: `createNidList` of `powerrt.cc`. Each rank runs it on what `MPI_Allgather` delivers
to all of them. -/

namespace PwrApi.PowerRt

open Text

/-- `operator<<` for an `int`. -/
def showInt (n : Int32) : Text :=
  if n < 0 then 45 :: decimal n.toInt.natAbs else decimal n.toInt.toNat

/-- `std::setw( width )` with the fill `'0'`. -/
def setw (width : ℕ) (s : Text) : Text := s.leftpad width 48

/-- `pos` and `nodeid` of a name. A name without a digit is read beyond its end. -/
def readName (procName : Text) : Option (ℕ × Int32) := do
  let pos ← procName.findIdx? isDigit
  some (pos, atoi (procName.drop pos))

/-- What the call leaves, with `none` for what it does not set. -/
structure NidList where
  nidList : Text
  numNodes : Option ℕ
  myNid : Option ℕ
  deriving DecidableEq, Repr

/-- The loop for `launcherRank`, which also compares the name lengths up to there. -/
def findLauncher (nodeid : Int32) (size : ℕ) : ℕ → ℕ → List (Int32 × ℕ) → Option ℕ × ℕ
  | _, nameLen, [] => (none, nameLen)
  | i, nameLen, (rbuf, rbuf2) :: rest =>
      if rbuf = nodeid then (some i, nameLen)
      else
        findLauncher nodeid size (i + 1)
          (if nameLen = size ∧ rbuf2 ≠ nameLen then rbuf2 else nameLen) rest

/-- The variables of the loop over the nodes. -/
structure Loop where
  nodes : List Int32
  numNodes : ℕ
  myNid : Option ℕ
  ret : Text

/-- What the loop does for the value of the rank `i`. -/
def addNode (nodeid : Int32) (entry : Int32 → Text) (s : Loop) (gathered : Int32 × ℕ) : Loop :=
  let (rbuf, i) := gathered
  if rbuf ∈ s.nodes then s
  else
    { nodes := s.nodes ++ [rbuf]
      numNodes := s.numNodes + 1
      myNid := if rbuf = nodeid then some s.numNodes else s.myNid
      ret := s.ret ++ (if i > 0 then [44] else []) ++ entry rbuf }

def createNidList (names : List Text) (myRank : Fin names.length) : Option NidList := do
  let procName := names.get myRank
  let (pos, nodeid) ← readName procName
  let rbuf ← names.mapM fun name => (readName name).map Prod.snd
  let rbuf2 := names.map List.length
  let (launcherRank, nameLen) :=
    findLauncher nodeid procName.length 0 procName.length (rbuf.zip rbuf2)
  if launcherRank ≠ some myRank.val then some ⟨[], none, none⟩
  else
    let entry := fun id =>
      if nameLen = procName.length then setw (procName.length - pos) (showInt id) else showInt id
    let s := rbuf.zipIdx.foldl (addNode nodeid entry) ⟨[], 0, none, procName.take pos ++ [91]⟩
    some ⟨s.ret ++ [93], some s.numNodes, s.myNid⟩

def number (pre name : Text) : ℕ := value (name.drop pre.length)

/-- All names are one prefix without digits and a number, a different one for each name. -/
structure NodeNames (pre : Text) (names : List Text) : Prop where
  nonempty : pre ≠ []
  noDigit : ∀ c ∈ pre, isDigit c = false
  named : ∀ name ∈ names, ∃ digits, name = pre ++ digits ∧ digits ≠ [] ∧
    ∀ c ∈ digits, isDigit c = true
  numbers : ∀ name ∈ names, ∀ name' ∈ names, number pre name = number pre name' → name = name'

/-- One rank on each node has a list, all of them the same, of the names of the nodes in the
order of the ranks and with the place of its own. -/
structure Agreed (pre : Text) (names : List Text) (result : Fin names.length → NidList) : Prop where
  one : ∀ name ∈ names, ∃! rank, names.get rank = name ∧ (result rank).nidList ≠ []
  same : ∀ rank rank', (result rank).nidList ≠ [] → (result rank').nidList ≠ [] →
    (result rank).nidList = (result rank').nidList ∧ (result rank).numNodes = (result rank').numNodes
  entries : ∀ rank, (result rank).nidList ≠ [] → ∃ entries,
    (result rank).nidList = pre ++ 91 :: (List.intercalate [44] entries ++ [93]) ∧
      entries.map (pre ++ ·) = names.eraseDups
  myNid : ∀ rank, (result rank).nidList ≠ [] →
    (result rank).myNid = some (names.eraseDups.idxOf (names.get rank))

def Agree (pre : Text) (names : List Text) : Prop :=
  ∃ result, (∀ rank, createNidList names rank = some (result rank)) ∧ Agreed pre names result

/-- The numbers fit an `int`, and the names are all of one length, or they have no leading
zeros and the first is no longer than any other. -/
structure Uniform (pre : Text) (names : List Text) : Prop where
  range : ∀ name ∈ names, number pre name < 2 ^ 31
  width : (∀ name ∈ names, ∀ name' ∈ names, name.length = name'.length) ∨
    (∀ name ∈ names, decimal (number pre name) = name.drop pre.length) ∧
      ∀ first ∈ names.head?, ∀ name ∈ names, first.length ≤ name.length

section Entries

theorem showInt_of_nonneg {id : Int32} (hid : 0 ≤ id.toInt) : showInt id = decimal id.toInt.toNat := by
  have hneg : ¬ id < 0 := by
    rw [Int32.lt_iff_toInt_lt, Int32.toInt_zero]
    omega
  rw [showInt, if_neg hneg]

theorem comma_not_mem_showInt (id : Int32) : 44 ∉ showInt id := by
  unfold showInt
  by_cases hneg : id < 0
  · rw [if_pos hneg, List.mem_cons, not_or]
    exact ⟨by decide, not_mem_decimal rfl _⟩
  · rw [if_neg hneg]
    exact not_mem_decimal rfl _

theorem value_showInt {id : Int32} (hdigits : ∀ c ∈ showInt id, isDigit c = true) :
    value (showInt id) < 2 ^ 31 := by
  by_cases hneg : id < 0
  · rw [showInt, if_pos hneg] at hdigits
    have hminus := hdigits 45 List.mem_cons_self
    cases hminus
  · have hrange := id.toInt_lt
    rw [showInt, if_neg hneg, value_decimal]
    omega

theorem mem_setw {width : ℕ} {s : Text} {c : UInt8} (h : c ∈ setw width s) : c = 48 ∨ c ∈ s := by
  rcases List.mem_append.mp h with hzero | hs
  · exact .inl (List.eq_of_mem_replicate hzero)
  · exact .inr hs

theorem setw_of_le {width : ℕ} {s : Text} (h : width ≤ s.length) : setw width s = s := by
  rw [setw, List.leftpad, Nat.sub_eq_zero_of_le h, List.replicate_zero, List.nil_append]

end Entries

section Loops

variable {nodeid : Int32} {size : ℕ}

/-- The names are compared until one differs. -/
def lastLen (size : ℕ) (lens : List ℕ) (nameLen : ℕ) : ℕ :=
  lens.foldl (fun nameLen len => if nameLen = size ∧ len ≠ nameLen then len else nameLen) nameLen

theorem lastLen_eq_iff {lens : List ℕ} {nameLen : ℕ} :
    lastLen size lens nameLen = size ↔ nameLen = size ∧ ∀ len ∈ lens, len = size := by
  induction lens generalizing nameLen with
  | nil => simp [lastLen]
  | cons len lens ih =>
      rw [lastLen, List.foldl_cons, ← lastLen, ih, List.forall_mem_cons]
      by_cases hsize : nameLen = size
      · subst hsize
        by_cases hlen : len = nameLen <;> simp [hlen]
      · simp [hsize]

theorem findLauncher_found {before after : List (Int32 × ℕ)} {len : ℕ}
    (hbefore : ∀ p ∈ before, p.1 ≠ nodeid) (i nameLen : ℕ) :
    findLauncher nodeid size i nameLen (before ++ (nodeid, len) :: after) =
      (some (i + before.length), lastLen size (before.map Prod.snd) nameLen) := by
  induction before generalizing i nameLen with
  | nil => simp [findLauncher, lastLen]
  | cons p before ih =>
      obtain ⟨hp, hrest⟩ := List.forall_mem_cons.mp hbefore
      obtain ⟨id, other⟩ := p
      rw [List.cons_append, findLauncher, if_neg hp, ih hrest, List.length_cons, List.map_cons,
        lastLen, lastLen, List.foldl_cons]
      have hsum : i + 1 + before.length = i + (before.length + 1) := by omega
      rw [hsum]

theorem findLauncher_lt {before after : List (Int32 × ℕ)}
    (hbefore : ∃ p ∈ before, p.1 = nodeid) (i nameLen : ℕ) :
    ∃ k, (findLauncher nodeid size i nameLen (before ++ after)).1 = some k ∧ k < i + before.length := by
  induction before generalizing i nameLen with
  | nil => simp at hbefore
  | cons p before ih =>
      obtain ⟨id, other⟩ := p
      rw [List.cons_append, findLauncher, List.length_cons]
      by_cases hid : id = nodeid
      · rw [if_pos hid]
        exact ⟨i, rfl, by omega⟩
      · rw [if_neg hid]
        have hlater : ∃ p ∈ before, p.1 = nodeid := by simpa [hid] using hbefore
        obtain ⟨k, hk, hless⟩ := ih hlater (i + 1) _
        exact ⟨k, hk, by omega⟩

theorem foldl_addNode (entry : Int32 → Text) (start : Text) (ids : List Int32) :
    ids.zipIdx.foldl (addNode nodeid entry) ⟨[], 0, none, start⟩ =
      { nodes := ids.eraseDups
        numNodes := ids.eraseDups.length
        myNid := if nodeid ∈ ids then some (ids.eraseDups.idxOf nodeid) else none
        ret := start ++ List.intercalate [44] (ids.eraseDups.map entry) } := by
  induction ids using List.reverseRecOn with
  | nil => simp
  | append_singleton ids id ih =>
      rw [List.zipIdx_append, List.foldl_append, ih, Distinct.eraseDups_concat]
      by_cases hknown : id ∈ ids
      · have hmem : nodeid ∈ ids ++ [id] ↔ nodeid ∈ ids := by
          rw [List.mem_append, List.mem_singleton, or_iff_left_iff_imp]
          rintro rfl
          exact hknown
        simp [addNode, hknown, hmem]
      · have hnew : id ∉ ids.eraseDups := fun h => hknown (List.mem_eraseDups.mp h)
        have hret : start ++ List.intercalate [44] (ids.eraseDups.map entry) ++
            (if ids.length > 0 then [44] else []) ++ entry id =
              start ++ List.intercalate [44] ((ids.eraseDups ++ [id]).map entry) := by
          cases ids with
          | nil => simp
          | cons first ids =>
              rw [List.map_append, List.map_singleton, Text.intercalate_concat]
              · simp
              · simp [List.eraseDups_cons]
        have hplace : (if id = nodeid then some ids.eraseDups.length
            else if nodeid ∈ ids then some (ids.eraseDups.idxOf nodeid) else none) =
              if nodeid ∈ ids ++ [id] then some ((ids.eraseDups ++ [id]).idxOf nodeid) else none := by
          by_cases hid : id = nodeid
          · subst hid
            simp [List.idxOf_append, hnew]
          · have hother : ¬ nodeid = id := fun h => hid h.symm
            by_cases hmem : nodeid ∈ ids
            · simp [hid, hmem, List.idxOf_append]
            · simp [hid, hother, hmem]
        simp only [List.zipIdx_singleton, List.foldl_cons, List.foldl_nil, addNode,
          List.mem_eraseDups, hknown, if_false, Nat.zero_add, hret, hplace, List.length_append,
          List.length_singleton]

end Loops

section Results

def nodeid (pre name : Text) : Int32 := atoi (name.drop pre.length)

def nodes (pre : Text) (names : List Text) : List Int32 := (names.map (nodeid pre)).eraseDups

/-- The entry for a value: it is padded if the names before have the launcher's length. -/
def entry (pre : Text) (names : List Text) (rank : Fin names.length) (id : Int32) : Text :=
  if ∀ len ∈ (names.take rank).map List.length, len = (names.get rank).length then
    setw ((names.get rank).length - pre.length) (showInt id)
  else showInt id

/-- What a rank returns: a list if there is no rank before it with its value. -/
def result (pre : Text) (names : List Text) (rank : Fin names.length) : NidList :=
  if nodeid pre (names.get rank) ∈ (names.take rank).map (nodeid pre) then ⟨[], none, none⟩
  else
    { nidList := pre ++ 91 ::
        (List.intercalate [44] ((nodes pre names).map (entry pre names rank)) ++ [93])
      numNodes := some (nodes pre names).length
      myNid := some ((nodes pre names).idxOf (nodeid pre (names.get rank))) }

theorem mapM_some {α β : Type} {f : α → Option β} {g : α → β} {xs : List α}
    (h : ∀ x ∈ xs, f x = some (g x)) : xs.mapM f = some (xs.map g) := by
  induction xs with
  | nil => rfl
  | cons x xs ih =>
      obtain ⟨hx, hrest⟩ := List.forall_mem_cons.mp h
      rw [List.mapM_cons, hx, ih hrest]
      rfl

variable {pre : Text} {names : List Text}

theorem NodeNames.readName (h : NodeNames pre names) {name : Text} (hname : name ∈ names) :
    readName name = some (pre.length, nodeid pre name) := by
  obtain ⟨digits, rfl, hne, hdigits⟩ := h.named name hname
  have hpos : (pre ++ digits).findIdx? isDigit = some pre.length := by
    have hpre : pre.findIdx? isDigit = none := by
      rw [List.findIdx?_eq_none_iff]
      exact h.noDigit
    cases digits with
    | nil => exact absurd rfl hne
    | cons c digits =>
        simp [List.findIdx?_append, hpre, List.findIdx?_cons, hdigits c List.mem_cons_self]
  rw [PowerRt.readName, hpos]
  rfl

theorem split_at (rank : Fin names.length) :
    names = names.take rank ++ names.get rank :: names.drop (rank + 1) := by
  rw [List.get_eq_getElem, ← List.drop_eq_getElem_cons, List.take_append_drop]

theorem NodeNames.createNidList (h : NodeNames pre names) (rank : Fin names.length) :
    createNidList names rank = some (result pre names rank) := by
  have hgathered : names.mapM (fun name => (PowerRt.readName name).map Prod.snd) =
      some (names.map (nodeid pre)) :=
    mapM_some fun name hname => by rw [h.readName hname]; rfl
  have hzip : (names.map (nodeid pre)).zip (names.map List.length) =
      (names.take rank).map (fun name => (nodeid pre name, name.length)) ++
        (nodeid pre (names.get rank), (names.get rank).length) ::
          (names.drop (rank + 1)).map fun name => (nodeid pre name, name.length) := by
    rw [List.zip_map', ← List.map_cons (f := fun name => (nodeid pre name, name.length)),
      ← List.map_append, ← split_at]
  have hlength : ((names.take rank).map fun name => (nodeid pre name, name.length)).length = rank := by
    rw [List.length_map, List.length_take, Nat.min_eq_left (Nat.le_of_lt rank.isLt)]
  simp only [PowerRt.createNidList, h.readName (List.get_mem names rank), hgathered,
    Option.bind_eq_bind, Option.bind_some, hzip]
  by_cases hearlier : nodeid pre (names.get rank) ∈ (names.take rank).map (nodeid pre)
  · have hfound : ∃ p ∈ (names.take rank).map (fun name => (nodeid pre name, name.length)),
        p.1 = nodeid pre (names.get rank) := by
      obtain ⟨name, hname, hsame⟩ := List.mem_map.mp hearlier
      exact ⟨_, List.mem_map_of_mem hname, hsame⟩
    obtain ⟨k, hk, hless⟩ : ∃ k, _ = some k ∧ _ :=
      findLauncher_lt hfound 0 (names.get rank).length
    have hother : ¬ some k = some rank.val := by
      rw [Option.some.injEq]
      omega
    rw [hk, if_pos hother, result, if_pos hearlier]
  · have hbefore : ∀ p ∈ (names.take rank).map (fun name => (nodeid pre name, name.length)),
        p.1 ≠ nodeid pre (names.get rank) := by
      rintro p hp hsame
      obtain ⟨name, hname, rfl⟩ := List.mem_map.mp hp
      exact hearlier (hsame ▸ List.mem_map_of_mem hname)
    have hown : nodeid pre (names.get rank) ∈ names.map (nodeid pre) :=
      List.mem_map_of_mem (List.get_mem names rank)
    have hpre : (names.get rank).take pre.length = pre := by
      obtain ⟨digits, hname, _⟩ := h.named _ (List.get_mem names rank)
      rw [hname, List.take_left]
    have hlens : ((names.take rank).map fun name => (nodeid pre name, name.length)).map Prod.snd =
        (names.take rank).map List.length := by
      rw [List.map_map]
      rfl
    rw [findLauncher_found hbefore, hlength, Nat.zero_add, hlens]
    have hentry : (fun id => if lastLen (names.get rank).length ((names.take rank).map List.length)
        (names.get rank).length = (names.get rank).length then
          setw ((names.get rank).length - pre.length) (showInt id) else showInt id) =
            entry pre names rank := by
      funext id
      simp only [entry, lastLen_eq_iff, true_and]
    simp only [ne_eq, not_true, if_false, hentry, foldl_addNode, if_pos hown, hpre, result,
      if_neg hearlier, List.append_assoc, List.cons_append, List.nil_append]
    rfl

theorem entry_cases (pre : Text) (rank : Fin names.length) (id : Int32) :
    entry pre names rank id = showInt id ∨
    entry pre names rank id = setw ((names.get rank).length - pre.length) (showInt id) := by
  unfold entry
  split
  · exact .inr rfl
  · exact .inl rfl

theorem comma_not_mem_entry (rank : Fin names.length) (id : Int32) :
    44 ∉ entry pre names rank id := by
  rcases entry_cases pre rank id with h | h
  · rw [h]
    exact comma_not_mem_showInt id
  · rw [h]
    intro hcomma
    rcases mem_setw hcomma with hzero | hcomma
    · cases hzero
    · exact comma_not_mem_showInt id hcomma

theorem value_entry {rank : Fin names.length} {id : Int32}
    (hdigits : ∀ c ∈ entry pre names rank id, isDigit c = true) :
    value (entry pre names rank id) < 2 ^ 31 := by
  rcases entry_cases pre rank id with h | h
  · rw [h] at hdigits ⊢
    exact value_showInt hdigits
  · rw [h] at hdigits ⊢
    rw [setw, value_leftpad]
    exact value_showInt fun c hc => hdigits c (List.mem_append_right _ hc)

theorem NodeNames.digits (h : NodeNames pre names) {name : Text} (hname : name ∈ names) :
    pre ++ name.drop pre.length = name ∧ name.drop pre.length ≠ [] ∧
      ∀ c ∈ name.drop pre.length, isDigit c = true := by
  obtain ⟨digits, rfl, hne, hdigits⟩ := h.named name hname
  rw [List.drop_left]
  exact ⟨rfl, hne, hdigits⟩

theorem NodeNames.showInt_nodeid (h : NodeNames pre names) {name : Text} (hname : name ∈ names)
    (hrange : number pre name < 2 ^ 31) :
    (nodeid pre name).toInt = number pre name ∧
      showInt (nodeid pre name) = decimal (number pre name) := by
  obtain ⟨_, hne, hdigits⟩ := h.digits hname
  have hread : nodeid pre name = Int32.ofInt (clampLong (number pre name)) := by
    have hall : atoi (name.drop pre.length ++ []) = _ := atoi_digits hne hdigits (by simp)
    rwa [List.append_nil] at hall
  have hclamp : clampLong (number pre name) = number pre name := by
    unfold clampLong
    omega
  have hvalue : (nodeid pre name).toInt = number pre name := by
    rw [hread, hclamp, Int32.toInt_ofInt_of_le (by omega) (by omega)]
  refine ⟨hvalue, ?_⟩
  rw [showInt_of_nonneg (by omega), hvalue, Int.toNat_natCast]

theorem NodeNames.nodeid_inj (h : NodeNames pre names)
    (hrange : ∀ name ∈ names, number pre name < 2 ^ 31) {name name' : Text} (hname : name ∈ names)
    (hname' : name' ∈ names) (hsame : nodeid pre name = nodeid pre name') : name = name' := by
  apply h.numbers name hname name' hname'
  have hvalue := (h.showInt_nodeid hname (hrange name hname)).1
  have hvalue' := (h.showInt_nodeid hname' (hrange name' hname')).1
  rw [hsame] at hvalue
  omega

theorem NodeNames.nodes_eq (h : NodeNames pre names)
    (hrange : ∀ name ∈ names, number pre name < 2 ^ 31) :
    nodes pre names = names.eraseDups.map (nodeid pre) :=
  Distinct.eraseDups_map fun _ hname _ hname' => h.nodeid_inj hrange hname hname'

end Results

section Agreement

variable {pre : Text} {names : List Text}

/-- The rank comes first of those with its name. -/
def Launches (names : List Text) (rank : Fin names.length) : Prop :=
  names.get rank ∉ names.take rank

/-- The entries of a rank for all names are their digits. -/
def Exact (pre : Text) (names : List Text) (rank : Fin names.length) : Prop :=
  ∀ name ∈ names, entry pre names rank (nodeid pre name) = name.drop pre.length

theorem NodeNames.agree_iff (h : NodeNames pre names) :
    Agree pre names ↔ Agreed pre names (result pre names) := by
  constructor
  · rintro ⟨result', hresult, hagreed⟩
    have hsame : result' = result pre names := funext fun rank =>
      Option.some.inj ((hresult rank).symm.trans (h.createNidList rank))
    exact hsame ▸ hagreed
  · exact fun hagreed => ⟨_, h.createNidList, hagreed⟩

theorem result_of_nodeid {rank : Fin names.length}
    (hfirst : nodeid pre (names.get rank) ∉ (names.take rank).map (nodeid pre)) :
    (result pre names rank).nidList ≠ [] ∧ (result pre names rank).nidList = pre ++ 91 ::
      (List.intercalate [44] ((nodes pre names).map (entry pre names rank)) ++ [93]) := by
  rw [result, if_neg hfirst]
  exact ⟨by simp, rfl⟩

theorem entries_eq {entries entries' : List Text} (hne : entries ≠ []) (hne' : entries' ≠ [])
    (hcomma : ∀ s ∈ entries, 44 ∉ s) (hcomma' : ∀ s ∈ entries', 44 ∉ s)
    (h : pre ++ 91 :: (List.intercalate [44] entries ++ [93]) =
      pre ++ 91 :: (List.intercalate [44] entries' ++ [93])) : entries = entries' := by
  apply intercalate_inj hne hne' hcomma hcomma'
  have htail := List.append_cancel_left h
  exact List.append_cancel_right (List.cons.inj htail).2

theorem NodeNames.entries_of_agreed (h : NodeNames pre names)
    (hagreed : Agreed pre names (result pre names)) {rank : Fin names.length}
    (hfirst : nodeid pre (names.get rank) ∉ (names.take rank).map (nodeid pre)) :
    (nodes pre names).map (entry pre names rank) =
      names.eraseDups.map fun name => name.drop pre.length := by
  obtain ⟨hnonempty, hlist⟩ := result_of_nodeid hfirst
  obtain ⟨entries, hentries, hnames⟩ := hagreed.entries rank hnonempty
  have hdrop : entries = names.eraseDups.map fun name => name.drop pre.length := by
    rw [← hnames, List.map_map]
    have hid : (fun name : Text => name.drop pre.length) ∘ (pre ++ ·) = id :=
      funext fun s => List.drop_left
    rw [hid, List.map_id]
  have hmem := List.get_mem names rank
  rw [← hdrop]
  apply entries_eq _ _ _ _ (hlist.symm.trans hentries)
  · exact List.ne_nil_of_mem (List.mem_map_of_mem (List.mem_eraseDups.mpr (List.mem_map_of_mem hmem)))
  · rw [hdrop]
    exact List.ne_nil_of_mem (List.mem_map_of_mem (List.mem_eraseDups.mpr hmem))
  · intro s hs
    obtain ⟨id, _, rfl⟩ := List.mem_map.mp hs
    exact comma_not_mem_entry rank id
  · intro s hs hcomma
    rw [hdrop] at hs
    obtain ⟨name, hname, rfl⟩ := List.mem_map.mp hs
    have hdigit := (h.digits (List.mem_eraseDups.mp hname)).2.2 44 hcomma
    cases hdigit

theorem NodeNames.range_of_agreed (h : NodeNames pre names)
    (hagreed : Agreed pre names (result pre names)) {name : Text} (hname : name ∈ names) :
    number pre name < 2 ^ 31 := by
  have hzero : nodeid pre (names.get ⟨0, List.length_pos_of_mem hname⟩) ∉
      (names.take 0).map (nodeid pre) := by simp
  have hentries := h.entries_of_agreed hagreed hzero
  have hmem : name.drop pre.length ∈ names.eraseDups.map fun name => name.drop pre.length :=
    List.mem_map_of_mem (List.mem_eraseDups.mpr hname)
  rw [← hentries] at hmem
  obtain ⟨id, _, hid⟩ := List.mem_map.mp hmem
  rw [number, ← hid]
  apply value_entry
  rw [hid]
  exact (h.digits hname).2.2

theorem NodeNames.launches_iff (h : NodeNames pre names)
    (hrange : ∀ name ∈ names, number pre name < 2 ^ 31) (rank : Fin names.length) :
    nodeid pre (names.get rank) ∉ (names.take rank).map (nodeid pre) ↔ Launches names rank := by
  rw [Launches, not_iff_not, List.mem_map]
  constructor
  · rintro ⟨name, hname, hsame⟩
    have hmem := List.get_mem names rank
    exact h.nodeid_inj hrange (List.mem_of_mem_take hname) hmem hsame ▸ hname
  · exact fun hname => ⟨_, hname, rfl⟩

theorem Launches.unique {rank rank' : Fin names.length} (h : Launches names rank)
    (h' : Launches names rank') (hsame : names.get rank = names.get rank') : rank = rank' := by
  have hnot : ∀ {r r' : Fin names.length}, Launches names r' → names.get r = names.get r' → ¬ r < r' := by
    intro r r' hr' hget hless
    apply hr'
    rw [← hget]
    exact List.mem_take_iff_getElem.mpr ⟨r, by omega, rfl⟩
  have hle := hnot h' hsame
  have hge := hnot h hsame.symm
  omega

theorem exists_launches {name : Text} (hname : name ∈ names) :
    ∃ rank, names.get rank = name ∧ Launches names rank := by
  have hlt := List.idxOf_lt_length_of_mem hname
  have hget : names.get ⟨names.idxOf name, hlt⟩ = name := List.getElem_idxOf hlt
  refine ⟨⟨names.idxOf name, hlt⟩, hget, fun hmem => ?_⟩
  rw [hget] at hmem
  rw [List.mem_take_iff_idxOf_lt hname] at hmem
  exact Nat.lt_irrefl _ hmem

theorem NodeNames.exact_iff (h : NodeNames pre names)
    (hrange : ∀ name ∈ names, number pre name < 2 ^ 31) (rank : Fin names.length) :
    Exact pre names rank ↔ (nodes pre names).map (entry pre names rank) =
      names.eraseDups.map fun name => name.drop pre.length := by
  rw [h.nodes_eq hrange, List.map_map, List.map_inj_left]
  simp only [Exact, List.mem_eraseDups, Function.comp]

theorem NodeNames.nidList_iff (h : NodeNames pre names)
    (hrange : ∀ name ∈ names, number pre name < 2 ^ 31) (rank : Fin names.length) :
    (result pre names rank).nidList ≠ [] ↔ Launches names rank := by
  rw [← h.launches_iff hrange]
  constructor
  · intro hne hmem
    rw [result, if_pos hmem] at hne
    exact hne rfl
  · exact fun hfirst => (result_of_nodeid hfirst).1

theorem NodeNames.result_exact (h : NodeNames pre names)
    (hrange : ∀ name ∈ names, number pre name < 2 ^ 31) {rank : Fin names.length}
    (hrank : Launches names rank) (hexact : Exact pre names rank) : result pre names rank =
      { nidList := pre ++ 91 :: (List.intercalate [44]
          (names.eraseDups.map fun name => name.drop pre.length) ++ [93])
        numNodes := some names.eraseDups.length
        myNid := some (names.eraseDups.idxOf (names.get rank)) } := by
  have hplace : (nodes pre names).idxOf (nodeid pre (names.get rank)) =
      names.eraseDups.idxOf (names.get rank) := by
    rw [h.nodes_eq hrange]
    refine Distinct.idxOf_map fun name hname hsame => ?_
    exact h.nodeid_inj hrange (List.mem_eraseDups.mp hname) (List.get_mem names rank) hsame
  rw [result, if_neg ((h.launches_iff hrange rank).mpr hrank), (h.exact_iff hrange rank).mp hexact,
    hplace, h.nodes_eq hrange, List.length_map]

theorem NodeNames.agreed_iff (h : NodeNames pre names)
    (hrange : ∀ name ∈ names, number pre name < 2 ^ 31) :
    Agreed pre names (result pre names) ↔ ∀ rank, Launches names rank → Exact pre names rank := by
  constructor
  · intro hagreed rank hrank
    rw [h.exact_iff hrange]
    exact h.entries_of_agreed hagreed ((h.launches_iff hrange rank).mpr hrank)
  · intro hexact
    have hresult {rank : Fin names.length} (hne : (result pre names rank).nidList ≠ []) :=
      h.result_exact hrange ((h.nidList_iff hrange rank).mp hne)
        (hexact rank ((h.nidList_iff hrange rank).mp hne))
    constructor
    · intro name hname
      obtain ⟨rank, hget, hrank⟩ := exists_launches hname
      refine ⟨rank, ⟨hget, (h.nidList_iff hrange rank).mpr hrank⟩, ?_⟩
      rintro rank' ⟨hget', hne⟩
      exact ((h.nidList_iff hrange rank').mp hne).unique hrank (hget'.trans hget.symm)
    · intro rank rank' hne hne'
      rw [hresult hne, hresult hne']
      exact ⟨rfl, rfl⟩
    · intro rank hne
      rw [hresult hne]
      refine ⟨_, rfl, ?_⟩
      rw [List.map_map]
      conv_rhs => rw [← List.map_id names.eraseDups]
      apply List.map_congr_left
      intro name hname
      exact (h.digits (List.mem_eraseDups.mp hname)).1
    · intro rank hne
      rw [hresult hne]

theorem NodeNames.entry_nodeid (h : NodeNames pre names)
    (hrange : ∀ name ∈ names, number pre name < 2 ^ 31) (rank : Fin names.length) {name : Text}
    (hname : name ∈ names) : entry pre names rank (nodeid pre name) =
      if ∀ len ∈ (names.take rank).map List.length, len = (names.get rank).length then
        setw ((names.get rank).length - pre.length) (decimal (number pre name))
      else decimal (number pre name) := by
  rw [entry, (h.showInt_nodeid hname (hrange name hname)).2]

theorem NodeNames.exact_of_same_length (h : NodeNames pre names)
    (hrange : ∀ name ∈ names, number pre name < 2 ^ 31)
    (hsame : ∀ name ∈ names, ∀ name' ∈ names, name.length = name'.length)
    (rank : Fin names.length) : Exact pre names rank := by
  intro name hname
  have hlens : ∀ len ∈ (names.take rank).map List.length, len = (names.get rank).length := by
    intro len hlen
    obtain ⟨other, hother, rfl⟩ := List.mem_map.mp hlen
    exact hsame other (List.mem_of_mem_take hother) _ (List.get_mem names rank)
  obtain ⟨_, hne, hdigits⟩ := h.digits hname
  have hwidth : (names.get rank).length - pre.length = (name.drop pre.length).length := by
    rw [List.length_drop, hsame _ (List.get_mem names rank) name hname]
  rw [h.entry_nodeid hrange rank hname, if_pos hlens, hwidth]
  exact leftpad_decimal_value hne hdigits

theorem NodeNames.exact_of_plain (h : NodeNames pre names)
    (hrange : ∀ name ∈ names, number pre name < 2 ^ 31)
    (hplain : ∀ name ∈ names, decimal (number pre name) = name.drop pre.length)
    (hfirst : ∀ first ∈ names.head?, ∀ name ∈ names, first.length ≤ name.length)
    (rank : Fin names.length) : Exact pre names rank := by
  intro name hname
  rw [h.entry_nodeid hrange rank hname]
  by_cases hlens : ∀ len ∈ (names.take rank).map List.length, len = (names.get rank).length
  · have hshort : (names.get rank).length ≤ name.length := by
      cases names with
      | nil => cases hname
      | cons first rest =>
          have hleast := hfirst first rfl name hname
          obtain ⟨k, hk⟩ := rank
          cases k with
          | zero => exact hleast
          | succ k =>
              have hlen := hlens first.length (List.mem_map_of_mem (by simp))
              exact hlen ▸ hleast
    rw [if_pos hlens, setw_of_le, hplain name hname]
    rw [hplain name hname, List.length_drop]
    exact Nat.sub_le_sub_right hshort _
  · rw [if_neg hlens, hplain name hname]

theorem NodeNames.width_of_exact (h : NodeNames pre names)
    (hrange : ∀ name ∈ names, number pre name < 2 ^ 31)
    (hexact : ∀ rank, Launches names rank → Exact pre names rank) :
    (∀ name ∈ names, ∀ name' ∈ names, name.length = name'.length) ∨
      (∀ name ∈ names, decimal (number pre name) = name.drop pre.length) ∧
        ∀ first ∈ names.head?, ∀ name ∈ names, first.length ≤ name.length := by
  cases names with
  | nil => exact .inl fun _ hname => by cases hname
  | cons first rest =>
      by_cases hsame : ∀ name ∈ first :: rest, name.length = first.length
      · exact .inl fun name hname name' hname' => (hsame name hname).trans (hsame name' hname').symm
      · simp only [not_forall] at hsame
        obtain ⟨long, hlong, hother⟩ := hsame
        refine .inr ⟨fun name hname => ?_, ?_⟩
        · -- the launcher of the other length does not pad
          obtain ⟨rank, hget, hrank⟩ := exists_launches hlong
          have hlens : ¬ ∀ len ∈ ((first :: rest).take rank).map List.length,
              len = ((first :: rest).get rank).length := by
            intro hall
            rw [hget] at hall
            obtain ⟨k, hk⟩ := rank
            cases k with
            | zero =>
                obtain rfl : first = long := hget
                exact hother rfl
            | succ k => exact hother (hall first.length (List.mem_map_of_mem (by simp))).symm
          have hentry := hexact rank hrank name hname
          rwa [h.entry_nodeid hrange rank hname, if_neg hlens] at hentry
        · -- the first rank pads to its own length
          intro _ hfirst name hname
          obtain rfl := Option.some.inj hfirst
          have hzero : Launches (first :: rest) ⟨0, Nat.succ_pos _⟩ := by simp [Launches]
          have hentry := hexact _ hzero name hname
          rw [h.entry_nodeid hrange _ hname, if_pos (by simp)] at hentry
          have hlength := congrArg List.length hentry
          rw [setw, List.leftpad, List.length_append, List.length_replicate, List.length_drop] at hlength
          obtain ⟨hsplit, hne, _⟩ := h.digits hname
          have hpos := List.length_pos_of_ne_nil hne
          rw [List.length_drop] at hpos
          simp only [List.get_eq_getElem, List.getElem_cons_zero] at hlength
          omega

/-- The launchers agree if and only if the names are uniform. -/
theorem nidList_agree_iff (h : NodeNames pre names) : Agree pre names ↔ Uniform pre names := by
  rw [h.agree_iff]
  constructor
  · intro hagreed
    have hrange : ∀ name ∈ names, number pre name < 2 ^ 31 := fun name => h.range_of_agreed hagreed
    exact ⟨hrange, h.width_of_exact hrange ((h.agreed_iff hrange).mp hagreed)⟩
  · intro huniform
    rw [h.agreed_iff huniform.range]
    intro rank _
    rcases huniform.width with hsame | ⟨hplain, hfirst⟩
    · exact h.exact_of_same_length huniform.range hsame rank
    · exact h.exact_of_plain huniform.range hplain hfirst rank

def tenNine : List Text := [[110, 49, 48], [110, 57]]

theorem tenNine_names : NodeNames [110] tenNine where
  nonempty := by decide
  noDigit := by
    have hall : (([110] : Text).all fun c => !isDigit c) = true := by decide
    simpa using hall
  named := by
    intro name hname
    have hsplit : ∀ name ∈ tenNine, name = [110] ++ name.drop 1 ∧ name.drop 1 ≠ [] ∧
        (name.drop 1).all isDigit = true := by decide
    obtain ⟨hname, hne, hdigits⟩ := hsplit name hname
    exact ⟨_, hname, hne, List.all_eq_true.mp hdigits⟩
  numbers := by decide

theorem nidList_agree_iff_tenNine : Agree [110] tenNine ↔ Uniform [110] tenNine :=
  nidList_agree_iff tenNine_names

theorem tenNine_lists (hone : 1 < tenNine.length) :
    createNidList tenNine ⟨0, Nat.zero_lt_of_lt hone⟩ =
        some ⟨[110, 91, 49, 48, 44, 48, 57, 93], some 2, some 0⟩ ∧
      createNidList tenNine ⟨1, hone⟩ = some ⟨[110, 91, 49, 48, 44, 57, 93], some 2, some 1⟩ :=
  ⟨rfl, rfl⟩

/-- The first of the two returns `n[10,09]`, and the second `n[10,9]`. -/
theorem launchers_differ : NodeNames [110] tenNine ∧ ¬ Agree [110] tenNine := by
  refine ⟨tenNine_names, ?_⟩
  rintro ⟨results, hresults, hagreed⟩
  have hone : 1 < tenNine.length := by decide
  obtain ⟨hfirst, hsecond⟩ := tenNine_lists hone
  rw [hresults, Option.some.injEq] at hfirst hsecond
  have hsame := (hagreed.same ⟨0, Nat.zero_lt_of_lt hone⟩ ⟨1, hone⟩ (by simp [hfirst])
    (by simp [hsecond])).1
  rw [hfirst, hsecond] at hsame
  simp at hsame

end Agreement

end PwrApi.PowerRt
