import PwrApi.Lib.StackCodec
import PwrApi.Types
import Mathlib.Tactic.NormNum

/-! The serialization buffer of `serialize.h`: a byte vector that `operator<<`
appends to and `operator>>` takes from the end of. -/

namespace PwrApi.Wire

open StackCodec

abbrev SerialBuf := List UInt8

/-- What the templates `operator<<( const T )` and `operator>>( T& )` use of `T`:
its size, the cast to `uint64_t` and the cast back of the `size` bytes read. -/
class Scalar (T : Type) where
  size : Nat
  toWord : T → Nat
  ofWord : Nat → Option T
  size_le : size ≤ 8
  ofWord_toWord : ∀ t, ofWord (toWord t % 2 ^ (8 * size)) = some t

section Words

instance : Scalar UInt8 where
  size := 1
  toWord t := t.toNat
  ofWord w := some (UInt8.ofNat w)
  size_le := by decide
  ofWord_toWord t := by
    rw [Nat.mod_eq_of_lt (by simpa using t.toNat_lt)]
    simp

instance : Scalar UInt32 where
  size := 4
  toWord t := t.toNat
  ofWord w := some (UInt32.ofNat w)
  size_le := by decide
  ofWord_toWord t := by
    rw [Nat.mod_eq_of_lt (by simpa using t.toNat_lt)]
    simp

instance : Scalar UInt64 where
  size := 8
  toWord t := t.toNat
  ofWord w := some (UInt64.ofNat w)
  size_le := by decide
  ofWord_toWord t := by
    rw [Nat.mod_eq_of_lt (by simpa using t.toNat_lt)]
    simp

/-- The cast of a signed integer to `uint64_t`: sign extension. -/
def signExtend (i : Int) : Nat := (i % 2 ^ 64).toNat

theorem signExtend_bmod (i : Int) (n : Nat) (hn : n ≤ 64) :
    Int.bmod (signExtend i % 2 ^ n : Nat) (2 ^ n) = Int.bmod i (2 ^ n) := by
  have hpos : (0 : Int) ≤ i % 2 ^ 64 := Int.emod_nonneg _ (by decide)
  have hdvd : (2 : Int) ^ n ∣ 2 ^ 64 := pow_dvd_pow 2 hn
  have hmod : ((signExtend i % 2 ^ n : Nat) : Int) = i % ((2 ^ n : Nat) : Int) := by
    rw [signExtend, Int.natCast_mod, Int.toNat_of_nonneg hpos]
    push_cast
    exact Int.emod_emod_of_dvd i hdvd
  rw [hmod, Int.emod_bmod]

instance : Scalar Int32 where
  size := 4
  toWord t := signExtend t.toInt
  ofWord w := some (Int32.ofNat w)
  size_le := by decide
  ofWord_toWord t := by
    congr 1
    apply Int32.toInt_inj.mp
    rw [← Int32.ofInt_eq_ofNat, Int32.toInt_ofInt]
    refine (signExtend_bmod t.toInt 32 (by decide)).trans ?_
    rw [show 2 ^ 32 = Int32.size from rfl, ← Int32.toInt_ofInt, Int32.ofInt_toInt]

instance : Scalar Int64 where
  size := 8
  toWord t := signExtend t.toInt
  ofWord w := some (Int64.ofNat w)
  size_le := by decide
  ofWord_toWord t := by
    congr 1
    apply Int64.toInt_inj.mp
    rw [← Int64.ofInt_eq_ofNat, Int64.toInt_ofInt]
    refine (signExtend_bmod t.toInt 64 (by decide)).trans ?_
    rw [show 2 ^ 64 = Int64.size from rfl, ← Int64.toInt_ofInt, Int64.ofInt_toInt]

/-- An enumeration with only non-negative codes is an unsigned integer. -/
@[reducible] def unsignedEnum {T : Type} (toCode : T → Nat) (ofCode : Nat → Option T)
    (hcode : ∀ t, ofCode (toCode t) = some t) (hlt : ∀ t, toCode t < 2 ^ 32) : Scalar T where
  size := 4
  toWord := toCode
  ofWord := ofCode
  size_le := by decide
  ofWord_toWord t := by rw [Nat.mod_eq_of_lt (hlt t), hcode]

instance : Scalar ValueOp :=
  unsignedEnum ValueOp.toCode ValueOp.ofCode ValueOp.ofCode_toCode ValueOp.toCode_lt

instance : Scalar OpType :=
  unsignedEnum OpType.toCode OpType.ofCode OpType.ofCode_toCode OpType.toCode_lt

instance : Scalar EventType :=
  unsignedEnum EventType.toCode EventType.ofCode EventType.ofCode_toCode EventType.toCode_lt

/-- `PWR_AttrName` has negative codes, so it is a signed integer: a code is sign
extended on the way out and cut to 32 bits on the way in. -/
instance : Scalar AttrName where
  size := 4
  toWord t := signExtend t.toCode
  ofWord w := AttrName.ofCode (Int.bmod w (2 ^ 32))
  size_le := by decide
  ofWord_toWord t := by
    have hbounds := AttrName.toCode_bounds t
    have hsigned : Int.bmod t.toCode (2 ^ 32) = t.toCode :=
      Int.bmod_eq_of_le (by omega) (by omega)
    have hword := signExtend_bmod t.toCode 32 (by decide)
    show AttrName.ofCode (Int.bmod (signExtend t.toCode % 2 ^ 32 : Nat) (2 ^ 32)) = some t
    rw [hword, hsigned]
    exact AttrName.ofCode_toCode t

end Words

/-- `operator<<( const T )` and `operator>>( T& )`. A double goes through the same
eight bytes as its bit pattern. -/
def put {T : Type} [Scalar T] (buf : SerialBuf) (t : T) : SerialBuf :=
  buf ++ wordBytes (Scalar.toWord t) (Scalar.size T)

def get {T : Type} [Scalar T] (buf : SerialBuf) : Option (T × SerialBuf) := do
  let (w, buf) ← popWord (Scalar.size T) buf
  let t ← Scalar.ofWord w
  some (t, buf)

@[simp] theorem get_put {T : Type} [Scalar T] (buf : SerialBuf) (t : T) :
    get (put buf t) = some (t, buf) := by
  simp only [get, put, popWord_append, Option.bind_eq_bind, Option.bind_some,
    Scalar.ofWord_toWord]

/-! Loops over a sequence count with a 32-bit `unsigned`. Writing is meant for
lengths below `2 ^ 32`, where that counter reaches the end; reading takes the
stored length modulo `2 ^ 32` and leaves the other elements as `resize` made them. -/

/-- The lengths the loop counter covers. -/
def Fits {α : Type} (xs : List α) : Prop := xs.length < 2 ^ 32

instance {α : Type} (xs : List α) : Decidable (Fits xs) := Nat.decLt _ _

def putVec {α : Type} (putElem : SerialBuf → α → SerialBuf) (buf : SerialBuf)
    (xs : List α) : SerialBuf :=
  put (xs.foldl putElem buf) (UInt64.ofNat xs.length)

def getVec {α : Type} [Inhabited α] (getElem : SerialBuf → Option (α × SerialBuf))
    (buf : SerialBuf) : Option (List α × SerialBuf) := do
  let (len, buf) ← get (T := UInt64) buf
  let n := len.toNat % 2 ^ 32
  let (xs, buf) ← popN getElem n buf
  some (xs ++ List.replicate (len.toNat - n) default, buf)

theorem putVec_roundTrips {α : Type} [Inhabited α] {ok : α → Prop}
    {putElem : SerialBuf → α → SerialBuf} {getElem : SerialBuf → Option (α × SerialBuf)}
    (h : RoundTrips ok putElem getElem) :
    RoundTrips (fun xs => Fits xs ∧ ∀ x ∈ xs, ok x) (putVec putElem) (getVec getElem) := by
  rintro buf xs ⟨hfits, hok⟩
  have hlen : (UInt64.ofNat xs.length).toNat = xs.length :=
    UInt64.toNat_ofNat_of_lt' (lt_trans hfits (by decide))
  have hcount : xs.length % 2 ^ 32 = xs.length := Nat.mod_eq_of_lt hfits
  simp only [putVec, getVec, get_put, Option.bind_eq_bind, Option.bind_some, hlen, hcount,
    popN_foldl h xs hok]
  simp

/-- `operator<<( const std::string& )` pushes the characters themselves. -/
def putString (buf : SerialBuf) (str : List UInt8) : SerialBuf :=
  putVec (fun buf c => buf ++ [c]) buf str

def getString (buf : SerialBuf) : Option (List UInt8 × SerialBuf) :=
  getVec popBack buf

theorem putString_roundTrips : RoundTrips Fits putString getString := by
  intro buf str hfits
  have h : RoundTrips (fun _ => True) (fun (buf : SerialBuf) (c : UInt8) => buf ++ [c]) popBack :=
    fun buf c _ => popBack_append buf c
  exact putVec_roundTrips h buf str ⟨hfits, fun _ _ => trivial⟩

@[simp] theorem getString_putString (buf : SerialBuf) {str : List UInt8} (h : Fits str) :
    getString (putString buf str) = some (str, buf) :=
  putString_roundTrips buf str h

theorem put_roundTrips {T : Type} [Scalar T] :
    RoundTrips (fun _ : T => True) put get :=
  fun buf t _ => get_put buf t

@[simp] theorem getVec_putVec {T : Type} [Inhabited T] [Scalar T] (buf : SerialBuf)
    {xs : List T} (h : Fits xs) : getVec get (putVec put buf xs) = some (xs, buf) :=
  putVec_roundTrips put_roundTrips buf xs ⟨h, fun _ _ => trivial⟩

/-- Every length met in a vector of vectors is covered by the loop counter. -/
def FitsAll {α : Type} (xss : List (List α)) : Prop := Fits xss ∧ ∀ xs ∈ xss, Fits xs

@[simp] theorem getVecs_putVecs {T : Type} [Inhabited T] [Scalar T] (buf : SerialBuf)
    {xss : List (List T)} (h : FitsAll xss) :
    getVec (getVec get) (putVec (putVec put) buf xss) = some (xss, buf) :=
  putVec_roundTrips (putVec_roundTrips put_roundTrips) buf xss
    ⟨h.1, fun xs hxs => ⟨h.2 xs hxs, fun _ _ => trivial⟩⟩

@[simp] theorem getStrings_putStrings (buf : SerialBuf) {strs : List ObjID} (h : FitsAll strs) :
    getVec getString (putVec putString buf strs) = some (strs, buf) :=
  putVec_roundTrips putString_roundTrips buf strs h

@[simp] theorem getGroups_putGroups (buf : SerialBuf) {groups : List (List ObjID)}
    (hfits : Fits groups) (hall : ∀ group ∈ groups, FitsAll group) :
    getVec (getVec getString) (putVec (putVec putString) buf groups) = some (groups, buf) :=
  putVec_roundTrips (putVec_roundTrips putString_roundTrips) buf groups ⟨hfits, hall⟩

end PwrApi.Wire
