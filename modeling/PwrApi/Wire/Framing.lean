import PwrApi.Lib.Pieces
import PwrApi.Router.State

/-! The events on a TCP connection: `sendEvent` and `getEvent` of `tcpEventChannel.cc`. -/

namespace PwrApi.Wire

open Pieces Runs

/-- What a channel carries: an event as it is, or wrapped for the routers. -/
inductive Message
  | event (e : Payload UInt64)
  | router (re : RouterEvent)
  deriving DecidableEq, Repr

namespace Message

def eventType : Message → EventType
  | event e => e.eventType
  | router _ => .router2Router

def base : Message → Event
  | event e => e.base
  | router re => re.toEvent

def serializeOut : Message → SerialBuf → SerialBuf
  | event e => e.serializeOut
  | router re => re.serializeOut

def AllFit : Message → Prop
  | event e => e.AllFit
  | router re => Fits re.payload

/-- An event with the type of its class that the other end allocates. -/
structure Sendable (tags : List EventType) (ev : Message) : Prop where
  tag : ev.eventType ∈ tags
  type : ev.base.type = ev.eventType.code
  fits : ev.AllFit
  length : (ev.serializeOut []).length < 2 ^ 64

end Message

/-- An allocation function, which has a case for each of `tags` and asserts on the others. -/
def allocEvent (tags : List EventType) (type : UInt32) (buf : SerialBuf) :
    Except Fault Message := do
  let t ← orFault (EventType.ofCode type.toNat) .assertFailed
  require (t ∈ tags) .assertFailed
  if t = .router2Router then do
    let (re, _) ← orFault (RouterEvent.serializeIn buf) .undefined
    .ok (.router re)
  else do
    let (e, _) ← orFault (Payload.construct t buf) .undefined
    .ok (.event e)

/-- The three writes of `TcpEventChannel::sendEvent`: the type, the length and the bytes. -/
def sendEvent (ev : Message) : List (List UInt8) :=
  let buf := ev.serializeOut []
  [put [] ev.base.type, put [] (UInt64.ofNat buf.length), buf]

/-- `TcpEventChannel::getEvent`, with one read for each part; `none` is `NULL`. -/
def getEvent (tags : List EventType) (pieces : List (List UInt8)) :
    Except Fault (Option Message × List (List UInt8)) := do
  let first := readPiece 4 pieces
  if first.1.length = 0 then .ok (none, first.2)
  else do
    require (first.1.length = 4) .assertFailed
    let (type, _) ← orFault (get (T := UInt32) first.1) .undefined
    let second := readPiece 8 first.2
    require (second.1.length = 8) .assertFailed
    let (length, _) ← orFault (get (T := UInt64) second.1) .undefined
    let third := readPiece length.toNat second.2
    require (third.1.length = length.toNat) .assertFailed
    let ev ← allocEvent tags type third.1
    .ok (some ev, third.2)

def getEvents (tags : List EventType) : Nat → List (List UInt8) →
    Except Fault (List (Option Message))
  | 0, _ => .ok []
  | n + 1, pieces => do
      let (ev, pieces) ← getEvent tags pieces
      let evs ← getEvents tags n pieces
      .ok (ev :: evs)

/-- However often `getEvent` is called, it returns the events in order and then `NULL`. -/
def Received (tags : List EventType) (evs : List Message) (pieces : List (List UInt8)) : Prop :=
  ∀ k, getEvents tags (evs.length + k) pieces = .ok (evs.map some ++ List.replicate k none)

section Fields

theorem put_ne_nil {T : Type} [Scalar T] (hsize : 0 < Scalar.size T) (buf : SerialBuf) (t : T) :
    put buf t ≠ [] := by
  intro hnil
  have hlength := congrArg List.length hnil
  simp only [put, StackCodec.wordBytes, List.length_append, List.length_map, List.length_range,
    List.length_nil] at hlength
  omega

theorem serializeOut_ne_nil (ev : Message) : ev.serializeOut [] ≠ [] := by
  cases ev with
  | router re => exact put_ne_nil (by decide) _ _
  | event e => cases e <;> exact put_ne_nil (by decide) _ _

theorem sendEvent_nonempty (ev : Message) : ∀ field ∈ sendEvent ev, field ≠ [] := by
  intro field hfield
  simp only [sendEvent, List.mem_cons, List.not_mem_nil, or_false] at hfield
  rcases hfield with rfl | rfl | rfl
  · exact put_ne_nil (by decide) _ _
  · exact put_ne_nil (by decide) _ _
  · exact serializeOut_ne_nil ev

theorem allocEvent_sent {tags : List EventType} {ev : Message} (h : ev.Sendable tags) :
    allocEvent tags ev.base.type (ev.serializeOut []) = .ok ev := by
  have htype : EventType.ofCode ev.base.type.toNat = some ev.eventType := by
    rw [h.type, EventType.ofCode_code]
  have htag := h.tag
  cases ev with
  | router re =>
      have hround := re.serializeIn_serializeOut [] h.fits
      simp only [allocEvent, htype, orFault_some, bind, Except.bind, require_of _ htag]
      simp [Message.eventType, Message.serializeOut, hround]
  | event e =>
      have hround := e.construct_serializeOut [] h.fits
      have hne : e.eventType ≠ .router2Router := by
        cases e <;> intro heq <;> cases heq
      simp only [allocEvent, htype, orFault_some, bind, Except.bind, require_of _ htag]
      simp [Message.eventType, Message.serializeOut, hround, hne]

end Fields

section Reading

variable {tags : List EventType} {ev : Message} {pieces : List (List UInt8)}

theorem getEvent_sent (hev : ev.Sendable tags) (hread : Readable (sendEvent ev) pieces) :
    getEvent tags pieces = .ok (some ev, skip (sendEvent ev) pieces) := by
  obtain ⟨htype, hlength, hbody, _⟩ := hread
  have hfour : (put [] ev.base.type).length = 4 := rfl
  have height : (put [] (UInt64.ofNat (ev.serializeOut []).length)).length = 8 := rfl
  have hsize : (UInt64.ofNat (ev.serializeOut []).length).toNat = (ev.serializeOut []).length :=
    UInt64.toNat_ofNat_of_lt' hev.length
  rw [hfour] at htype hlength hbody
  rw [height] at hlength hbody
  simp [getEvent, sendEvent, skip, htype, hlength, hbody, hfour, height, hsize, require, bind,
    Except.bind, allocEvent_sent hev]

theorem getEvent_cut {rest : List UInt8} (hev : ev.Sendable tags)
    (hpieces : ∀ piece ∈ pieces, piece ≠ [])
    (hstream : pieces.flatten = (sendEvent ev).flatten ++ rest)
    (hcut : ¬ Readable (sendEvent ev) pieces) : getEvent tags pieces = .error .assertFailed := by
  have hfour : (put [] ev.base.type).length = 4 := rfl
  have height : (put [] (UInt64.ofNat (ev.serializeOut []).length)).length = 8 := rfl
  have hsize : (UInt64.ofNat (ev.serializeOut []).length).toNat = (ev.serializeOut []).length :=
    UInt64.toNat_ofNat_of_lt' hev.length
  simp only [sendEvent, List.flatten_cons, List.append_assoc] at hstream
  have hstart : (readPiece 4 pieces).1.length ≠ 0 := by
    intro hzero
    have hnil := read_eq_nil hpieces (by decide) (List.eq_nil_of_length_eq_zero hzero)
    have hlength := congrArg List.length hstream
    rw [hnil, List.flatten_nil, List.length_append, hfour, List.length_nil] at hlength
    omega
  by_cases htype : (readPiece 4 pieces).1.length = 4
  · obtain ⟨htype, hrest⟩ := read_field hstream htype
    rw [hfour] at htype hrest
    by_cases hlength : (readPiece 8 (readPiece 4 pieces).2).1.length = 8
    · obtain ⟨hlength, hrest⟩ := read_field hrest hlength
      rw [height] at hlength hrest
      have hshort :
          (readPiece (ev.serializeOut []).length (readPiece 8 (readPiece 4 pieces).2).2).1.length ≠
          (ev.serializeOut []).length := by
        intro hbody
        apply hcut
        exact ⟨htype, hlength, (read_field hrest hbody).1, trivial⟩
      simp [getEvent, htype, hlength, hfour, height, hsize, hshort, require, bind, Except.bind]
    · simp [getEvent, htype, hlength, hfour, require, bind, Except.bind]
  · simp [getEvent, htype, List.length_eq_zero_iff.not.mp hstart, require, bind, Except.bind]

theorem getEvents_succ {n : Nat} {received : Option Message} {rest : List (List UInt8)}
    (h : getEvent tags pieces = .ok (received, rest)) :
    getEvents tags (n + 1) pieces = (getEvents tags n rest).map (received :: ·) := by
  rw [getEvents, h]
  cases hrest : getEvents tags n rest with
  | error fault => simp [hrest, bind, Except.bind, Except.map]
  | ok evs => simp [hrest, bind, Except.bind, Except.map]

theorem getEvents_end (k : Nat) : getEvents tags k [] = .ok (List.replicate k none) := by
  induction k with
  | zero => rfl
  | succ k ih =>
      have hnull : getEvent tags [] = .ok (none, []) := rfl
      rw [getEvents_succ hnull, ih, List.replicate_succ]
      rfl

/-- The events of a connection are received exactly if no type, length or body is cut: each
piece that the stream is delivered in is a run of whole fields. -/
theorem received_iff {evs : List Message} (hevs : ∀ ev ∈ evs, ev.Sendable tags)
    (hpieces : ∀ piece ∈ pieces, piece ≠ [])
    (hstream : pieces.flatten = (evs.flatMap sendEvent).flatten) :
    Received tags evs pieces ↔ WholeFields (evs.flatMap sendEvent) pieces := by
  rw [← readable_iff_wholeFields _ hpieces hstream]
  · induction evs generalizing pieces with
    | nil =>
        have hnil : pieces = [] := by
          rw [List.eq_nil_iff_forall_not_mem]
          intro piece hpiece
          exact hpieces piece hpiece (List.flatten_eq_nil_iff.mp hstream piece hpiece)
        subst hnil
        apply iff_of_true _ trivial
        intro k
        rw [List.length_nil, Nat.zero_add]
        exact getEvents_end k
    | cons ev evs ih =>
        have hev := hevs ev List.mem_cons_self
        rw [List.flatMap_cons, List.flatten_append] at hstream
        rw [List.flatMap_cons, readable_append]
        by_cases hread : Readable (sendEvent ev) pieces
        · have hfirst := getEvent_sent hev hread
          have hrest := ih (fun other hother => hevs other (List.mem_cons_of_mem ev hother))
            (skip_nonempty hpieces) (skip_flatten hstream hread)
          rw [and_iff_right hread, ← hrest]
          apply forall_congr'
          intro k
          rw [List.length_cons, Nat.add_right_comm, getEvents_succ hfirst, map_eq_ok,
            List.map_cons, List.cons_append]
          constructor
          · rintro ⟨received, hreceived, h⟩
            rw [hreceived, (List.cons.inj h).2]
          · exact fun h => ⟨_, h, rfl⟩
        · have hfault := getEvent_cut hev hpieces hstream hread
          apply iff_of_false
          · intro hreceived
            have h := hreceived 0
            simp [getEvents, hfault, bind, Except.bind] at h
          · exact fun h => hread h.1
  · intro field hfield
    obtain ⟨ev, _, hmem⟩ := List.mem_flatMap.mp hfield
    exact sendEvent_nonempty ev field hmem

end Reading

section CutType

theorem sampleLogReq_sendable :
    Message.Sendable [.commLogReq, .commReq] (.event sampleLogReq) where
  tag := by decide
  type := rfl
  fits := trivial
  length := by decide

theorem received_iff_onePiece :
    Received [.commLogReq, .commReq] [.event sampleLogReq, .event sampleLogReq]
        [(sendEvent (.event sampleLogReq)).flatten ++ (sendEvent (.event sampleLogReq)).flatten] ↔
      WholeFields ([Message.event sampleLogReq, .event sampleLogReq].flatMap sendEvent)
        [(sendEvent (.event sampleLogReq)).flatten ++
          (sendEvent (.event sampleLogReq)).flatten] := by
  apply received_iff
  · intro ev hev
    obtain rfl : ev = .event sampleLogReq := by simpa using hev
    exact sampleLogReq_sendable
  · decide
  · decide

/-- The first byte of a type that arrives before the others fails the assertion. -/
theorem cut_type_fails :
    [[5], (sendEvent (.event sampleLogReq)).flatten.tail].flatten =
        (sendEvent (.event sampleLogReq)).flatten ∧
      getEvent [.commLogReq] [[5], (sendEvent (.event sampleLogReq)).flatten.tail] =
        .error .assertFailed ∧
      ¬ Received [.commLogReq] [.event sampleLogReq]
        [[5], (sendEvent (.event sampleLogReq)).flatten.tail] := by
  have hfault : getEvent [.commLogReq] [[5], (sendEvent (.event sampleLogReq)).flatten.tail] =
      .error .assertFailed := rfl
  refine ⟨by decide, hfault, ?_⟩
  intro hreceived
  have hfirst := hreceived 0
  rw [List.length_singleton, getEvents, hfault] at hfirst
  cases hfirst

end CutType

end PwrApi.Wire
