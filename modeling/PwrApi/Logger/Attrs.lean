import Mathlib.Data.Rat.Init
import PwrApi.Lib.Runs
import PwrApi.Lib.Text
import PwrApi.Types

/-! The attribute lists of the logger, which the constructors of `mult.h` and `setMult.h` cut
at their commas. -/

namespace PwrApi.Logger

open Text

inductive Fault
  | assertion
  | outOfRange
  deriving DecidableEq, Repr

def getAttr (name : Text) : Except Fault AttrName :=
  if name = [101, 110, 101, 114, 103, 121] then .ok .energy
  else if name = [112, 111, 119, 101, 114] then .ok .power
  else .error .assertion

/-- `find_first_of( c, pos )`. -/
def findFirstFrom (c : UInt8) (s : Text) (pos : ℕ) : Option ℕ :=
  (findFirst c (s.drop pos)).map fun offset => pos + offset

theorem le_of_findFirstFrom {c : UInt8} {s : Text} {pos tmp : ℕ}
    (h : findFirstFrom c s pos = some tmp) : pos ≤ tmp := by
  obtain ⟨offset, _, rfl⟩ := Option.map_eq_some_iff.mp h
  exact Nat.le_add_right pos offset

/-- `getAttr( attrs.substr( pos, tmp ) )`. -/
def attrAt (attrs : Text) (pos : ℕ) (tmp : Option ℕ) : Except Fault AttrName :=
  match substr attrs pos tmp with
  | some name => getAttr name
  | none => .error .outOfRange

/-- The loop of the constructors. -/
def attrsFrom (attrs : Text) (pos : ℕ) (m_attrs : List AttrName) : Except Fault (List AttrName) :=
  if _ : pos < attrs.length then
    match _ : findFirstFrom 44 attrs pos with
    | some tmp =>
        attrAt attrs pos (some tmp) >>= fun attr =>
          attrsFrom attrs (tmp + 1) (m_attrs ++ [attr])
    | none =>
        attrAt attrs pos none >>= fun attr =>
          attrsFrom attrs attrs.length (m_attrs ++ [attr])
  else .ok m_attrs
termination_by attrs.length - pos
decreasing_by
  · have hle := le_of_findFirstFrom ‹_›
    omega
  · omega

section Constructors

variable {γ : Type}

structure Mult (γ : Type) where
  grp : γ
  attrs : List AttrName

/-- The constructor, once it has its group. -/
def mult (grp : γ) (attrs : Text) : Except Fault (Mult γ) :=
  attrsFrom attrs 0 [] >>= fun m_attrs => .ok ⟨grp, m_attrs⟩

structure SetMult (γ : Type) where
  grp : γ
  attrs : List AttrName
  values : List ℚ

def setMult (grp : γ) (attrs : Text) : Except Fault (SetMult γ) :=
  attrsFrom attrs 0 [] >>= fun m_attrs =>
    .ok ⟨grp, m_attrs, (List.range m_attrs.length).map fun i => 1000 + i⟩

end Constructors

section Loop

variable {attrs name rest : Text} {pos : ℕ} {m_attrs : List AttrName}

theorem getAttr_comma (h : 44 ∈ name) : getAttr name = .error .assertion := by
  have henergy : name ≠ [101, 110, 101, 114, 103, 121] := by
    rintro rfl
    exact absurd h (by decide)
  have hpower : name ≠ [112, 111, 119, 101, 114] := by
    rintro rfl
    exact absurd h (by decide)
  rw [getAttr, if_neg henergy, if_neg hpower]

theorem getAttr_known {attr : AttrName} (h : getAttr name = .ok attr) : name ≠ [] ∧ 44 ∉ name := by
  constructor
  · rintro rfl
    cases h
  · intro hcomma
    rw [getAttr_comma hcomma] at h
    cases h

theorem attrsFrom_end : attrsFrom attrs attrs.length m_attrs = .ok m_attrs := by
  rw [attrsFrom, dif_neg (Nat.lt_irrefl _)]

theorem attrsFrom_none (hpos : pos < attrs.length) (hfind : findFirstFrom 44 attrs pos = none) :
    attrsFrom attrs pos m_attrs =
      attrAt attrs pos none >>= fun attr => .ok (m_attrs ++ [attr]) := by
  rw [attrsFrom, dif_pos hpos]
  split
  · next tmp hsome => cases hfind.symm.trans hsome
  · simp only [attrsFrom_end]

theorem attrsFrom_some (hpos : pos < attrs.length) {tmp : ℕ}
    (hfind : findFirstFrom 44 attrs pos = some tmp) : attrsFrom attrs pos m_attrs =
      attrAt attrs pos (some tmp) >>= fun attr =>
        attrsFrom attrs (tmp + 1) (m_attrs ++ [attr]) := by
  rw [attrsFrom, dif_pos hpos]
  split
  · next tmp' hsome =>
      obtain rfl := Option.some.inj (hfind.symm.trans hsome)
      rfl
  · next hnone => cases hfind.symm.trans hnone

theorem attrsFrom_last (front : Text) (m_attrs : List AttrName) (hne : name ≠ []) (hname : 44 ∉ name) :
    attrsFrom (front ++ name) front.length m_attrs =
      getAttr name >>= fun attr => .ok (m_attrs ++ [attr]) := by
  have hpos : front.length < (front ++ name).length := by
    have hlength := List.length_pos_of_ne_nil hne
    rw [List.length_append]
    omega
  have hfind : findFirstFrom 44 (front ++ name) front.length = none := by
    rw [findFirstFrom, List.drop_left, findFirst_none hname, Option.map_none]
  have hcut : attrAt (front ++ name) front.length none = getAttr name := by
    rw [attrAt, substr, if_pos (Nat.le_of_lt hpos)]
    simp only [List.drop_left]
  rw [attrsFrom_none hpos hfind, hcut]

theorem attrsFrom_next (front : Text) (m_attrs : List AttrName) (hname : 44 ∉ name) (rest : Text) :
    attrsFrom (front ++ (name ++ 44 :: rest)) front.length m_attrs =
      getAttr ((name ++ 44 :: rest).take (front.length + name.length)) >>= fun attr =>
        attrsFrom (front ++ (name ++ 44 :: rest)) (front.length + name.length + 1)
          (m_attrs ++ [attr]) := by
  have hpos : front.length < (front ++ (name ++ 44 :: rest)).length := by
    simp only [List.length_append, List.length_cons]
    omega
  have hfind : findFirstFrom 44 (front ++ (name ++ 44 :: rest)) front.length =
      some (front.length + name.length) := by
    rw [findFirstFrom, List.drop_left, findFirst_append hname, Option.map_some]
  have hcut : attrAt (front ++ (name ++ 44 :: rest)) front.length
      (some (front.length + name.length)) =
        getAttr ((name ++ 44 :: rest).take (front.length + name.length)) := by
    rw [attrAt, substr, if_pos (Nat.le_of_lt hpos)]
    simp only [List.drop_left]
  rw [attrsFrom_some hpos hfind, hcut]

theorem attrsFrom_first (hname : 44 ∉ name) (rest : Text) :
    attrsFrom (name ++ 44 :: rest) 0 [] = getAttr name >>= fun attr =>
      attrsFrom (name ++ 44 :: rest) (name.length + 1) [attr] := by
  have hnext := attrsFrom_next [] [] hname rest
  simp only [List.nil_append, List.length_nil, Nat.zero_add, List.take_left] at hnext
  exact hnext

theorem attrsFrom_later {front : Text} (hfront : front ≠ []) (hname : 44 ∉ name) (rest : Text) :
    attrsFrom (front ++ (name ++ 44 :: rest)) front.length m_attrs = .error .assertion := by
  have hlength := List.length_pos_of_ne_nil hfront
  have hcomma : 44 ∈ (name ++ 44 :: rest).take (front.length + name.length) := by
    rw [List.take_append, List.mem_append]
    obtain ⟨more, hmore⟩ := Nat.exists_eq_add_of_le' hlength
    have hcount : front.length + name.length - name.length = more + 1 := by omega
    rw [hcount, List.take_succ_cons]
    exact Or.inr List.mem_cons_self
  rw [attrsFrom_next front m_attrs hname rest, getAttr_comma hcomma]
  rfl

theorem attrsFrom_iff {names : List Text} {known : List AttrName} (hne : names ≠ [])
    (hknown : names.mapM getAttr = .ok known) :
    attrsFrom (List.intercalate [44] names) 0 [] = .ok known ↔ names.length ≤ 2 := by
  have hnames := Runs.mapM_eq_ok.mp hknown
  cases hnames with
  | nil => exact absurd rfl hne
  | @cons name attr names attrs hname hnames =>
      have hfirst := getAttr_known hname
      cases hnames with
      | nil =>
          have hlast := attrsFrom_last [] [] hfirst.1 hfirst.2
          rw [List.nil_append, List.length_nil, hname, Runs.ok_bind] at hlast
          rw [List.intercalate_singleton, hlast]
          exact iff_of_true rfl (by simp)
      | @cons name' attr' names attrs hname' hnames =>
          have hsecond := getAttr_known hname'
          have hfront : name ++ [44] ≠ [] := by simp
          have hlength : (name ++ [44]).length = name.length + 1 := by simp
          have hsplit (rest : Text) : name ++ 44 :: rest = (name ++ [44]) ++ rest := by simp
          rw [Text.intercalate_cons, attrsFrom_first hfirst.2, hname, Runs.ok_bind, hsplit, ← hlength]
          cases hnames with
          | nil =>
              rw [List.intercalate_singleton, attrsFrom_last _ _ hsecond.1 hsecond.2, hname',
                Runs.ok_bind]
              exact iff_of_true rfl (by simp)
          | @cons name'' attr'' names attrs hname'' hnames =>
              rw [Text.intercalate_cons, attrsFrom_later hfront hsecond.2]
              refine iff_of_false (by simp) ?_
              simp only [List.length_cons]
              omega

end Loop

section Lists

variable {γ : Type}

theorem mult_ok_iff (grp : γ) (attrs : Text) (known : List AttrName) :
    mult grp attrs = .ok ⟨grp, known⟩ ↔ attrsFrom attrs 0 [] = .ok known :=
  Runs.bind_ok_eq_ok fun _ _ h => (Mult.mk.inj h).2

theorem setMult_ok_iff (grp : γ) (attrs : Text) (known : List AttrName) :
    setMult grp attrs = .ok ⟨grp, known, (List.range known.length).map fun i => 1000 + i⟩ ↔
      attrsFrom attrs 0 [] = .ok known := by
  have hattrs (m_attrs m_attrs' : List AttrName)
      (h : SetMult.mk grp m_attrs ((List.range m_attrs.length).map fun i => 1000 + i) =
        ⟨grp, m_attrs', (List.range m_attrs'.length).map fun i => 1000 + i⟩) :
      m_attrs = m_attrs' := (SetMult.mk.inj h).2.1
  rw [setMult, Runs.bind_ok_eq_ok hattrs]

/-- Both constructors take the list as it is if and only if it has at most two names. -/
theorem constructors_iff (grp : γ) {names : List Text} {known : List AttrName} (hne : names ≠ [])
    (hknown : names.mapM getAttr = .ok known) :
    (mult grp (List.intercalate [44] names) = .ok ⟨grp, known⟩ ↔ names.length ≤ 2) ∧
      (setMult grp (List.intercalate [44] names) = .ok ⟨grp, known,
        (List.range known.length).map fun i => 1000 + i⟩ ↔ names.length ≤ 2) := by
  have hiff := attrsFrom_iff hne hknown
  rw [mult_ok_iff, setMult_ok_iff]
  exact ⟨hiff, hiff⟩

def energy : Text := [101, 110, 101, 114, 103, 121]

def power : Text := [112, 111, 119, 101, 114]

theorem constructors_iff_powerEnergy :
    (mult () (List.intercalate [44] [power, energy]) = .ok ⟨(), [.power, .energy]⟩ ↔
      [power, energy].length ≤ 2) ∧
    (setMult () (List.intercalate [44] [power, energy]) = .ok ⟨(), [.power, .energy],
      (List.range [AttrName.power, AttrName.energy].length).map fun i => 1000 + i⟩ ↔
      [power, energy].length ≤ 2) :=
  constructors_iff () (List.cons_ne_nil power [energy]) rfl

/-- The second of three names is cut too long. -/
theorem three_names_fail : ¬ mult () (List.intercalate [44] [energy, power, energy]) =
    .ok ⟨(), [.energy, .power, .energy]⟩ := by
  have hnames : [energy, power, energy].mapM getAttr = .ok [.energy, .power, .energy] := rfl
  rw [mult_ok_iff, attrsFrom_iff (List.cons_ne_nil energy [power, energy]) hnames]
  decide

end Lists

end PwrApi.Logger
