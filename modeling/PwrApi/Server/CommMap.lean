import PwrApi.Router.State

/-! The table of communicators of a server: `commCreateEvent.h`, `commDestroyEvent.h` and
the lookups of the requests, all of `server/`. -/

namespace PwrApi.Server

open Function Runs

variable {V : Type}

/-- `m_commMap`, with the objects of an entry by their names and `none` for a pointer that
`resize` has made. -/
abbrev CommMap := CommID → Option (List (Option ObjID))

/-- `cInfo.objects.resize( size )`. -/
def resize (objects : List (Option ObjID)) (size : Nat) : List (Option ObjID) :=
  objects.take size ++ List.replicate (size - objects.length) none

/-- `SrvrCommCreateEvent::process`, where `found` are the names that the context has. -/
def createComm (found : ObjID → Bool) (map : CommMap) (ev : CommCreateEvent) :
    Except Fault CommMap := do
  let objects := resize ((map ev.commID).getD []) ev.members.length
  let group ← orFault ev.members.head? .undefined
  require (group.length = 1) .assertFailed
  let name ← orFault group.head? .undefined
  require (found name) .assertFailed
  .ok (update map ev.commID (some (objects.set 0 (some name))))

/-- `SrvrCommDestroyEvent::process`. -/
def destroyComm (map : CommMap) (ev : CommDestroyEvent) : CommMap :=
  update map ev.commID none

/-- `m_commMap[commID].objects[0]`. -/
def commObj (map : CommMap) (id : CommID) : Except Fault ObjID := do
  let objects ← orFault (map id) .undefined
  let obj ← orFault objects.head? .undefined
  orFault obj .undefined

/-- The events of `allocReqEvent`, as far as the table is concerned. -/
def receive (found : ObjID → Bool) (map : CommMap) (ev : Payload V) : Except Fault CommMap :=
  match ev with
  | .commCreate ev => createComm found map ev
  | .commDestroy ev => .ok (destroyComm map ev)
  | .commReq ev => (commObj map ev.commID).map fun _ => map
  | .commLogReq ev => (commObj map ev.commID).map fun _ => map
  | .commGetSamplesReq ev => (commObj map ev.commID).map fun _ => map
  | _ => .error .assertFailed

def creates : Payload V → Option CommID
  | .commCreate ev => some ev.commID
  | _ => none

def destroys : Payload V → Option CommID
  | .commDestroy ev => some ev.commID
  | _ => none

def requests : Payload V → Option CommID
  | .commReq ev => some ev.commID
  | .commLogReq ev => some ev.commID
  | .commGetSamplesReq ev => some ev.commID
  | _ => none

section Entries

variable {found : ObjID → Bool} {map map' : CommMap} {ev : Payload V} {id : CommID}

theorem createComm_other {create : CommCreateEvent} (h : createComm found map create = .ok map')
    (hid : create.commID ≠ id) : map' id = map id := by
  simp only [createComm, bind_eq_ok, Except.ok.injEq] at h
  obtain ⟨_, _, _, _, _, _, _, _, rfl⟩ := h
  exact update_of_ne (Ne.symm hid) _ _

theorem createComm_self {create : CommCreateEvent} {name : ObjID} {rest : List (List ObjID)}
    (hmembers : create.members = [name] :: rest) (h : createComm found map create = .ok map') :
    commObj map' create.commID = .ok name := by
  simp only [createComm, hmembers, bind_eq_ok, Except.ok.injEq, List.head?_cons, orFault_some,
    exists_eq_left'] at h
  obtain ⟨_, _, _, _, rfl⟩ := h
  have hpos : 0 < (resize ((map create.commID).getD []) ([name] :: rest).length).length := by
    rw [resize, List.length_append, List.length_take, List.length_replicate, List.length_cons]
    omega
  obtain ⟨first, others, hcons⟩ := List.exists_cons_of_length_pos hpos
  simp only [commObj, update_self, orFault_some, bind, Except.bind, hcons, List.set_cons_zero,
    List.head?_cons]

theorem createComm_known (map : CommMap) {create : CommCreateEvent} {name : ObjID}
    {rest : List (List ObjID)} (hmembers : create.members = [name] :: rest)
    (hfound : found name) :
    ∃ map', createComm found map create = .ok map' ∧ commObj map' create.commID = .ok name := by
  have hcreated : ∃ map', createComm found map create = .ok map' := by
    simp only [createComm, hmembers, List.head?_cons, orFault_some, bind_eq_ok, require_eq_ok]
    exact ⟨_, [name], rfl, (), List.length_singleton, name, rfl, (), hfound, rfl⟩
  obtain ⟨map', hmap'⟩ := hcreated
  exact ⟨map', hmap', createComm_self hmembers hmap'⟩

theorem receive_other (h : receive found map ev = .ok map') (hcreate : creates ev ≠ some id)
    (hdestroy : destroys ev ≠ some id) : map' id = map id := by
  cases ev with
  | commCreate create => exact createComm_other h fun heq => hcreate (by rw [creates, heq])
  | commDestroy destroy =>
      obtain rfl := Except.ok.inj h
      have hid : id ≠ destroy.commID := fun heq => hdestroy (by rw [destroys, heq])
      exact update_of_ne hid _ _
  | commReq req =>
      obtain ⟨_, _, rfl⟩ := map_eq_ok.mp h
      rfl
  | commLogReq req =>
      obtain ⟨_, _, rfl⟩ := map_eq_ok.mp h
      rfl
  | commGetSamplesReq req =>
      obtain ⟨_, _, rfl⟩ := map_eq_ok.mp h
      rfl
  | _ => cases h

theorem receive_destroy (h : receive found map ev = .ok map') (hdestroy : destroys ev = some id) :
    map' id = none := by
  cases ev with
  | commDestroy destroy =>
      obtain rfl := Except.ok.inj h
      obtain rfl := Option.some.inj hdestroy
      exact update_self _ _ _
  | _ => cases hdestroy

theorem receives_entry {evs : List (Payload V)}
    (h : evs.foldlM (receive found) map = .ok map') (hentry : map' id ≠ none)
    (hbefore : map id = none) : ∃ ev ∈ evs, creates ev = some id := by
  induction evs generalizing map with
  | nil =>
      obtain rfl := Except.ok.inj h
      exact absurd hbefore hentry
  | cons ev evs ih =>
      rw [List.foldlM_cons, bind_eq_ok] at h
      obtain ⟨mid, hmid, hrest⟩ := h
      by_cases hcreate : creates ev = some id
      · exact ⟨ev, List.mem_cons_self, hcreate⟩
      · have hnone : mid id = none := by
          by_cases hdestroy : destroys ev = some id
          · exact receive_destroy hmid hdestroy
          · rw [receive_other hmid hcreate hdestroy, hbefore]
        obtain ⟨other, hother, hcreates⟩ := ih hrest hnone
        exact ⟨other, List.mem_cons_of_mem ev hother, hcreates⟩

theorem receives_destroyed {evs : List (Payload V)}
    (h : evs.foldlM (receive found) map = .ok map')
    (hcreate : ∀ ev ∈ evs, creates ev ≠ some id) :
    (∃ ev ∈ evs, destroys ev = some id) ∨ map id = none → map' id = none := by
  induction evs generalizing map with
  | nil =>
      obtain rfl := Except.ok.inj h
      rintro (⟨ev, hev, _⟩ | hnone)
      · cases hev
      · exact hnone
  | cons ev evs ih =>
      rw [List.foldlM_cons, bind_eq_ok] at h
      obtain ⟨mid, hmid, hrest⟩ := h
      intro hgone
      apply ih hrest fun other hother => hcreate other (List.mem_cons_of_mem ev hother)
      by_cases hdestroy : destroys ev = some id
      · exact .inr (receive_destroy hmid hdestroy)
      · rw [receive_other hmid (hcreate ev List.mem_cons_self) hdestroy]
        rcases hgone with ⟨other, hother, hdestroys⟩ | hnone
        · rcases List.mem_cons.mp hother with rfl | hother
          · exact absurd hdestroys hdestroy
          · exact .inl ⟨other, hother, hdestroys⟩
        · exact .inr hnone

end Entries

end PwrApi.Server
