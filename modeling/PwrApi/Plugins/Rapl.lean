import PwrApi.Lib.Runs
import PwrApi.Lib.Text
import PwrApi.Lib.Tokens

/-! Initializing the RAPL plugin and opening its descriptors, `pwr_rapldev.c`: both cut their
strings with `strtok`, which keeps its position from one call to the next. -/

namespace PwrApi.Rapl

open Tokens

/-- `layer_t`. -/
inductive Layer
  | pkg
  | pp0
  | pp1
  deriving DecidableEq, Repr

/-- `INTEL_LAYER_DRAM` has the value of `INTEL_LAYER_PP1`. -/
def Layer.dram : Layer := .pp1

def colon (c : UInt8) : Bool := c = 58

inductive OpenError
  /-- "missing layer separator in open string" -/
  | separator (openstr : Text)
  /-- "unknown layer specification in open string" -/
  | layer (openstr : Text)
  deriving DecidableEq, Repr

/-- A `pwr_raplfd_t`, over the type of the devices. -/
structure Descriptor (δ : Type) where
  dev : δ
  layer : Layer
  deriving DecidableEq, Repr

/-- The layer that a token names. -/
def layerNamed (token : Text) : Option Layer :=
  if token = [112, 107, 103] then some .pkg
  else if token = [112, 112, 48] then some .pp0
  else if token = [112, 112, 49] then some .pp1
  else if token = [100, 114, 97, 109] then some .dram
  else none

/-- `rapldev_parse_init`, with the position that `strtok` is left at. -/
def parseInit (initstr : Text) : Option Int32 × Text :=
  let (token, saved) := strtok colon initstr
  (token.map Text.atoi, saved)

/-- `rapldev_parse_open` from the position that `strtok` is at. -/
def parseOpen (saved openstr : Text) : Except OpenError Layer × Text :=
  match strtok colon saved with
  | (none, saved) => (.error (.separator openstr), saved)
  | (some token, saved) =>
      match layerNamed token with
      | some layer => (.ok layer, saved)
      | none => (.error (.layer openstr), saved)

section Calls

variable {δ : Type}

/-- `pwr_rapldev_init`, where `probe` identifies the processor and reads the registers of a
core. -/
def rapldevInit (probe : Int32 → Option δ) (initstr : Text) : Option δ × Text :=
  let (core, saved) := parseInit initstr
  (core.bind probe, saved)

def rapldevOpen (dev : δ) (saved openstr : Text) : Except OpenError (Descriptor δ) × Text :=
  let (layer, saved) := parseOpen saved openstr
  (layer.map (Descriptor.mk dev), saved)

inductive Call (δ : Type)
  | rapldevInit (initstr : Text)
  | rapldevOpen (dev : δ) (openstr : Text)

/-- `strtok` without a string, before it ever had one. -/
inductive Fault
  | position
  deriving DecidableEq, Repr

/-- A call leaves `strtok` at a position, which there is none of at first. -/
def call (probe : Int32 → Option δ) (saved : Option Text) : Call δ → Except Fault (Option Text)
  | .rapldevInit initstr => .ok (some (rapldevInit probe initstr).2)
  | .rapldevOpen dev openstr =>
      match saved with
      | some saved => .ok (some (rapldevOpen dev saved openstr).2)
      | none => .error .position

def run (probe : Int32 → Option δ) (calls : List (Call δ)) : Except Fault (Option Text) :=
  calls.foldlM (call probe) none

/-- The result of opening after a sequence of calls. -/
def openAfter (probe : Int32 → Option δ) (calls : List (Call δ)) (dev : δ) (openstr : Text) :
    Except Fault (Except OpenError (Descriptor δ)) :=
  run probe calls >>= fun saved =>
    match saved with
    | some saved => .ok (rapldevOpen dev saved openstr).1
    | none => .error .position

/-- The layer that an open string asks for. -/
def asked (openstr : Text) : Option Layer := (tokens colon openstr).head?.bind layerNamed

/-- The last initialization string, with the number of times that was opened since. -/
def lastInit (calls : List (Call δ)) : Option (Text × ℕ) :=
  calls.foldl (fun last call =>
    match call with
    | .rapldevInit initstr => some (initstr, 0)
    | .rapldevOpen _ _ => last.map fun last => (last.1, last.2 + 1)) none

/-- The layer that stands at a place of an initialization string. -/
def layerAt (initstr : Text) (place : ℕ) : Option Layer :=
  (tokens colon initstr)[place]?.bind layerNamed

end Calls

section Positions

variable {δ : Type} {probe : Int32 → Option δ}

theorem rapldevInit_snd (initstr : Text) :
    tokens colon (rapldevInit probe initstr).2 = (tokens colon initstr).tail :=
  (strtok_tokens initstr).2

theorem parseOpen_eq (saved openstr : Text) :
    (parseOpen saved openstr).1.toOption = (tokens colon saved).head?.bind layerNamed ∧
      tokens colon (parseOpen saved openstr).2 = (tokens colon saved).tail := by
  obtain ⟨htoken, hrest⟩ := @strtok_tokens UInt8 colon saved
  rw [← htoken, ← hrest, parseOpen]
  obtain ⟨token, rest⟩ := strtok colon saved
  cases token with
  | none => exact ⟨rfl, rfl⟩
  | some token =>
      simp only [Option.bind_some]
      cases layerNamed token with
      | none => exact ⟨rfl, rfl⟩
      | some layer => exact ⟨rfl, rfl⟩

theorem rapldevOpen_eq (dev : δ) (saved openstr : Text) :
    (rapldevOpen dev saved openstr).1.toOption =
        ((tokens colon saved).head?.bind layerNamed).map (Descriptor.mk dev) ∧
      tokens colon (rapldevOpen dev saved openstr).2 = (tokens colon saved).tail := by
  obtain ⟨hlayer, hrest⟩ := parseOpen_eq saved openstr
  rw [← hlayer, ← hrest, rapldevOpen]
  obtain ⟨layer, rest⟩ := parseOpen saved openstr
  cases layer with
  | error e => exact ⟨rfl, rfl⟩
  | ok layer => exact ⟨rfl, rfl⟩

theorem run_concat (calls : List (Call δ)) (next : Call δ) :
    run probe (calls ++ [next]) = run probe calls >>= fun saved => call probe saved next := by
  simp [run]

theorem lastInit_concat (calls : List (Call δ)) (next : Call δ) : lastInit (calls ++ [next]) =
    match next with
    | .rapldevInit initstr => some (initstr, 0)
    | .rapldevOpen _ _ => (lastInit calls).map fun last => (last.1, last.2 + 1) := by
  rw [lastInit, List.foldl_concat]
  rfl

theorem run_tokens (calls : List (Call δ)) {saved : Option Text}
    (hrun : run probe calls = .ok saved) : saved.map (tokens colon) =
      (lastInit calls).map fun last => (tokens colon last.1).drop (last.2 + 1) := by
  induction calls using List.reverseRecOn generalizing saved with
  | nil =>
      obtain rfl := Except.ok.inj hrun
      rfl
  | append_singleton calls next ih =>
      obtain ⟨before, hbefore, hcall⟩ := Runs.bind_eq_ok.mp (run_concat calls next ▸ hrun)
      have hleft := ih hbefore
      rw [lastInit_concat]
      cases next with
      | rapldevInit initstr =>
          obtain rfl := Except.ok.inj hcall
          simp only [Option.map_some, rapldevInit_snd, Nat.zero_add, List.drop_one]
      | rapldevOpen dev openstr =>
          cases before with
          | none => cases hcall
          | some before =>
              obtain rfl := Except.ok.inj hcall
              simp only [Option.map_some, (rapldevOpen_eq dev before openstr).2]
              cases hlast : lastInit calls with
              | none => simp [hlast] at hleft
              | some last =>
                  rw [hlast] at hleft
                  have htokens := Option.some.inj hleft
                  simp only [Option.map_some, htokens, List.tail_drop]

theorem run_ok (probe : Int32 → Option δ) (calls : List (Call δ))
    (hinit : ∀ before dev openstr, before ++ [.rapldevOpen dev openstr] <+: calls →
      (lastInit before).isSome) : ∃ saved, run probe calls = .ok saved := by
  induction calls using List.reverseRecOn with
  | nil => exact ⟨none, rfl⟩
  | append_singleton calls next ih =>
      obtain ⟨saved, hsaved⟩ := ih fun before dev openstr hstart =>
        hinit before dev openstr (hstart.trans (List.prefix_append calls [next]))
      rw [run_concat, hsaved, Runs.ok_bind]
      cases next with
      | rapldevInit initstr => exact ⟨_, rfl⟩
      | rapldevOpen dev openstr =>
          have hsome := hinit calls dev openstr (List.prefix_refl _)
          have hleft := run_tokens calls hsaved
          cases saved with
          | some saved => exact ⟨_, rfl⟩
          | none =>
              obtain ⟨last, hlast⟩ := Option.isSome_iff_exists.mp hsome
              simp [hlast] at hleft

theorem openAfter_eq (probe : Int32 → Option δ) (calls : List (Call δ)) (dev : δ) (openstr : Text)
    {initstr : Text} {opens : ℕ} {saved : Option Text} (hrun : run probe calls = .ok saved)
    (hlast : lastInit calls = some (initstr, opens)) :
    ∃ result, openAfter probe calls dev openstr = .ok result ∧
      result.toOption = (layerAt initstr (opens + 1)).map (Descriptor.mk dev) := by
  have hleft := run_tokens calls hrun
  rw [hlast, Option.map_some, Option.map_eq_some_iff] at hleft
  obtain ⟨position, rfl, htokens⟩ := hleft
  refine ⟨(rapldevOpen dev position openstr).1, by rw [openAfter, hrun, Runs.ok_bind], ?_⟩
  rw [(rapldevOpen_eq dev position openstr).1, htokens, List.head?_drop, layerAt]

theorem lastInit_of_openAfter {calls : List (Call δ)} {dev : δ} {openstr : Text}
    {result : Except OpenError (Descriptor δ)} (h : openAfter probe calls dev openstr = .ok result) :
    ∃ saved last, run probe calls = .ok saved ∧ lastInit calls = some last := by
  obtain ⟨saved, hrun, hopen⟩ := Runs.bind_eq_ok.mp h
  have hleft := run_tokens calls hrun
  cases saved with
  | none => cases hopen
  | some position =>
      rw [Option.map_some, eq_comm, Option.map_eq_some_iff] at hleft
      obtain ⟨last, hlast, _⟩ := hleft
      exact ⟨some position, last, hrun, hlast⟩

end Positions

/-- Each open string decides what is opened if and only if the next place of the last
initialization string always names the same layer. -/
theorem opens_asked_iff {δ : Type} (probe : Int32 → Option δ) (calls : List (Call δ)) :
    (∀ before dev openstr, before ++ [.rapldevOpen dev openstr] <+: calls →
      ∃ result, openAfter probe before dev openstr = .ok result ∧
        result.toOption = (asked openstr).map (Descriptor.mk dev)) ↔
      ∀ before dev openstr, before ++ [.rapldevOpen dev openstr] <+: calls →
        ∃ initstr opens, lastInit before = some (initstr, opens) ∧
          layerAt initstr (opens + 1) = asked openstr := by
  have hinj (dev : δ) : Function.Injective (Option.map (Descriptor.mk dev)) :=
    Option.map_injective fun layer layer' h => (Descriptor.mk.inj h).2
  constructor
  · intro h before dev openstr hstart
    obtain ⟨result, hopen, hresult⟩ := h before dev openstr hstart
    obtain ⟨saved, ⟨initstr, opens⟩, hrun, hlast⟩ := lastInit_of_openAfter hopen
    obtain ⟨result', hopen', hresult'⟩ := openAfter_eq probe before dev openstr hrun hlast
    obtain rfl := Except.ok.inj (hopen.symm.trans hopen')
    exact ⟨initstr, opens, hlast, hinj dev (hresult'.symm.trans hresult)⟩
  · intro h before dev openstr hstart
    obtain ⟨initstr, opens, hlast, hlayer⟩ := h before dev openstr hstart
    obtain ⟨saved, hrun⟩ := run_ok probe before fun earlier dev' openstr' hearlier => by
      obtain ⟨_, _, hearlier, _⟩ := h earlier dev' openstr'
        (hearlier.trans ((List.prefix_append before _).trans hstart))
      rw [hearlier, Option.isSome_some]
    rw [← hlayer]
    exact openAfter_eq probe before dev openstr hrun hlast

/-- After an initialization with "0", opening "pkg" fails. -/
theorem open_string_is_ignored :
    ¬ ∃ result, openAfter (fun _ => some ()) [.rapldevInit [48]] () [112, 107, 103] = .ok result ∧
      result.toOption = (asked [112, 107, 103]).map (Descriptor.mk ()) := by
  rintro ⟨result, hopen, hresult⟩
  obtain ⟨result', hopen', hresult'⟩ := openAfter_eq (fun _ => some ())
    [.rapldevInit [48]] () [112, 107, 103] rfl rfl
  obtain rfl := Except.ok.inj (hopen.symm.trans hopen')
  rw [hresult'] at hresult
  exact absurd hresult (by decide)

end PwrApi.Rapl
