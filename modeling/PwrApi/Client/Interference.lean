import PwrApi.Client.Progress

/-! Reads under way for several requests of one context: which buffers and which `Status`
a response changes, and what has been applied when a wait returns with success. -/

namespace PwrApi

open Function Memory Runs

variable {V : Type}

theorem DistRequest.addErrors_append {cntxt : Cntxt V} {status status' : Status}
    {errObj : List ObjID} {errAttr : List AttrName} {errValue : List Int32}
    (h : addErrors cntxt status errObj errAttr errValue = .ok status') :
    ∃ errors, addErrors cntxt [] errObj errAttr errValue = .ok errors ∧
      status' = status ++ errors := by
  simp only [addErrors, bind_eq_ok, Except.ok.injEq] at h ⊢
  obtain ⟨errors, herrors, rfl⟩ := h
  exact ⟨errors, ⟨errors, herrors, List.nil_append errors⟩, rfl⟩

/-- A call of `attrGetValues` for a request: the communicator request that it has sent, if
any, and the part of the buffers that the caller gave it. -/
structure Read where
  req : ReqPtr
  id : Option EventId
  base : Nat
  size : Nat

namespace Read

/-- For another request, into other buffers. -/
def Apart (a b : Read) : Prop :=
  a.req ≠ b.req ∧ (a.base + a.size ≤ b.base ∨ b.base + b.size ≤ a.base)

instance : Std.Symm Apart where
  symm _ _ h := ⟨h.1.symm, h.2.symm⟩

/-- The response to a read: one row, with no more values than were asked for. -/
def Answered (read : Read) (ev : Payload V) : Prop :=
  read.id = some ev.base.id ∧ ∃ resp row times, ev = .commResp resp ∧ resp.value = [row] ∧
    resp.timeStamp = [times] ∧ times.length = row.length ∧ row.length ≤ read.size

def Holds (read : Read) (buf : Nat → V × PwrTime) (ev : Payload V) : Prop :=
  ∃ resp row times, ev = .commResp resp ∧ resp.value = [row] ∧ resp.timeStamp = [times] ∧
    row.length ≤ read.size ∧
    (readRow buf read.base row.length).map Prod.fst = row ∧
    (readRow buf read.base row.length).map Prod.snd = times

/-- A response changes the buffers of the read, where it stands afterwards, and adds its
errors to the `Status` of the read's request, and changes no other. -/
structure Writes (cntxt : Cntxt V) (read : Read) (ev : Payload V) (s t : ClientState V) :
    Prop where
  buf : ∀ addr, addr < read.base ∨ read.base + read.size ≤ addr → t.buf addr = s.buf addr
  holds : read.Holds t.buf ev
  statuses : ∃ resp errors, ev = .commResp resp ∧
    DistRequest.addErrors cntxt [] resp.errObj resp.errAttr resp.errValue = .ok errors ∧
    t.statuses = update s.statuses (s.reqs read.req).status
      (s.statuses (s.reqs read.req).status ++ errors)

theorem holds_apart {read other : Read} {buf : Nat → V × PwrTime} {ev : Payload V}
    {cells : List (V × PwrTime)} (hapart : read.Apart other) (hcells : cells.length ≤ other.size)
    (h : read.Holds buf ev) : read.Holds (writeRow buf other.base cells) ev := by
  obtain ⟨resp, row, times, hev, hvalue, htimes, hsize, hrow⟩ := h
  have hsame : readRow (writeRow buf other.base cells) read.base row.length =
      readRow buf read.base row.length := by
    apply readRow_writeRow_apart
    have hregions := hapart.2
    omega
  rw [← hsame] at hrow
  exact ⟨resp, row, times, hev, hvalue, htimes, hsize, hrow⟩

theorem holds_written {read : Read} {buf : Nat → V × PwrTime} {resp : CommRespEvent V}
    {row : List V} {times : List PwrTime} (hvalue : resp.value = [row])
    (htimes : resp.timeStamp = [times]) (hlength : times.length = row.length)
    (hsize : row.length ≤ read.size) :
    read.Holds (writeRow buf read.base (row.zip times)) (.commResp resp) := by
  have hcells : (row.zip times).length = row.length := by
    rw [List.length_zip, hlength, Nat.min_self]
  have hread : readRow (writeRow buf read.base (row.zip times)) read.base row.length =
      row.zip times := by
    calc
      readRow (writeRow buf read.base (row.zip times)) read.base row.length =
          readRow (writeRow buf read.base (row.zip times)) read.base (row.zip times).length := by
        rw [hcells]
      _ = row.zip times := readRow_writeRow buf read.base _
  refine ⟨resp, row, times, rfl, hvalue, htimes, hsize, ?_, ?_⟩
  · rw [hread]
    exact List.map_fst_zip (Nat.le_of_eq hlength.symm)
  · rw [hread]
    exact List.map_snd_zip (Nat.le_of_eq hlength)

/-- The router answers a read on one object as `Answered` has it. -/
theorem answered_merged [AddMonoid V] {read : Read} {req : CommReqEvent V} {objs : List ObjID}
    {info : EventId} {resp merged : CommRespEvent V} {rs : List (CommRespEvent V)}
    (hop : req.op = .get) (hid : read.id = some req.id) (hsize : req.valueOp.length ≤ read.size)
    (hresp : (Router.newCommReqInfo 0 req info [objs]).resp = .commResp resp)
    (hmerged : Router.mergeGroup (Router.newCommReqInfo 0 req info [objs]) resp 0 rs =
      .ok merged) : read.Answered (.commResp merged) := by
  have hmerge := Router.mergeGroup_ok hmerged
  have hwrites := hmerge.2.2.2.2.1 hop
  obtain rfl := Payload.commResp.inj hresp
  have hops : (Router.newCommReqInfo 0 req info [objs]).valueOp = req.valueOp := if_pos hop
  rw [hops] at hwrites
  refine ⟨hid.trans (congrArg some hmerge.1.symm), merged,
    Router.sumValues req.valueOp.length rs, Router.lastTimes req.valueOp.length rs, rfl,
    ?_, ?_, ?_, ?_⟩
  · rw [hwrites.1]
    simp only [hop, if_true]
    rfl
  · rw [hwrites.2]
    simp only [hop, if_true]
    rfl
  · simp [Router.lastTimes, Router.sumValues]
  · simpa [Router.sumValues] using hsize

end Read

namespace ClientState

variable {s t : ClientState V} {r : ReqPtr} {id : EventId}

theorem getValues_ok [Zero V] [Add V] {obj : DistObject V} {names : List AttrName} {base : Nat}
    {code : Int32} (h : s.call obj r id (.getValues names base) = .ok (code, t)) :
    ∃ cells : List (V × PwrTime), cells.length ≤ names.length ∧
      t.buf = writeRow s.buf base cells ∧
      t.channel = s.channel ∧ t.consumed = s.consumed ∧
      (∀ r', (t.reqs r').value = if r' = r then (s.reqs r).value.set 0 base
        else (s.reqs r').value) ∧
      ((t.commReqs = s.commReqs ∧ t.awaited = s.awaited) ∨
        (t.commReqs = update s.commReqs id (some ⟨.get, r⟩) ∧
          t.awaited = s.awaited ++ [id])) := by
  simp only [call, attrGetValues, DistObject.attrGetValuesStart, bind_eq_ok,
    Except.ok.injEq] at h
  obtain ⟨_, ⟨started, ⟨comm, _, hstarted⟩, rfl⟩, h⟩ := h
  have ht := (Prod.mk.inj h).2
  have hcells : started.cells.length ≤ names.length := by
    rw [← hstarted]
    exact obj.toObject.attrGetValuesFrom_length_le 0 names
  rw [← ht]
  have hframe := issue_frame ({ s.setValue r base with buf := writeRow s.buf base started.cells })
    r .get id started.retval (started.sent.map Prod.fst)
  refine ⟨started.cells, hcells, hframe.1, hframe.2.2.1, hframe.2.2.2.1, fun r' => ?_, ?_⟩
  · rw [(hframe.2.2.2.2 r').1]
    by_cases hr : r' = r
    · subst hr
      simp only [setValue, update_self, if_true]
    · simp only [setValue, update_of_ne hr, if_neg hr]
  · rcases issue_sent ({ s.setValue r base with buf := writeRow s.buf base started.cells })
      r .get id started.retval (started.sent.map Prod.fst) with hlocal | hremote
    · exact .inl ⟨hlocal.1, hlocal.2.1⟩
    · exact .inr ⟨hremote.1, hremote.2.1⟩

theorem getValues_ids (hfresh : s.commReqs id = none) (hchannel : t.channel = s.channel)
    (hsent : (t.commReqs = s.commReqs ∧ t.awaited = s.awaited) ∨
      (t.commReqs = update s.commReqs id (some ⟨.get, r⟩) ∧ t.awaited = s.awaited ++ [id])) :
    (∀ other, other ≠ id → t.commReqs other = s.commReqs other ∧
      (other ∈ t.expected ↔ other ∈ s.expected)) ∧
    (t.commReqs id = none ∨ t.commReqs id = some ⟨.get, r⟩ ∧ id ∈ t.expected) := by
  unfold expected
  rw [hchannel]
  rcases hsent with ⟨hsame, hawaited⟩ | ⟨hadded, hawaited⟩
  · rw [hsame, hawaited]
    exact ⟨fun other _ => ⟨rfl, Iff.rfl⟩, .inl hfresh⟩
  · rw [hadded, hawaited]
    refine ⟨fun other hother => ⟨update_of_ne hother _ _, ?_⟩, .inr ⟨update_self .., by simp⟩⟩
    simp [hother]

end ClientState

structure Reading (V : Type) where
  client : ClientState V
  reads : List Read

namespace Reading

def start (status : ReqPtr → StatusPtr) (callback : ReqPtr → Bool) (buf : Nat → V × PwrTime) :
    Reading V := ⟨.start status callback buf, []⟩

def issued (l : ClientState.Label V) (client : ClientState V) : List Read :=
  match l with
  | .call _ r id (.getValues names base) =>
      [⟨r, (client.commReqs id).map fun _ => id, base, names.length⟩]
  | _ => []

/-- The calls are reads, each with a request and buffers of its own, and the responses
answer reads. -/
def Separate (s : Reading V) : ClientState.Label V → Prop
  | .call _ r _ (.getValues names base) =>
      ∀ read ∈ s.reads, read.Apart ⟨r, none, base, names.length⟩
  | .call _ _ _ _ => False
  | .arrive ev => ∃ read ∈ s.reads, read.Answered ev
  | _ => True

def Step [Zero V] [Add V] (cntxt : Cntxt V) (s : Reading V) (l : ClientState.Label V)
    (t : Reading V) : Prop :=
  s.client.Admissible l ∧ s.Separate l ∧
    (∃ code, s.client.exec cntxt l = .ok (some (code, t.client))) ∧
    t.reads = s.reads ++ issued l t.client

structure Inv (s : Reading V) : Prop where
  linked : s.client.Linked
  single : ∀ r, (s.client.reqs r).value.length = 1
  apart : s.reads.Pairwise Read.Apart
  value : ∀ read ∈ s.reads, (s.client.reqs read.req).value = [read.base]
  sent : ∀ read ∈ s.reads, ∀ id, read.id = some id →
    s.client.commReqs id = some ⟨.get, read.req⟩
  known : ∀ id commReq, s.client.commReqs id = some commReq → ∃ read ∈ s.reads, read.id = some id
  arrived : ∀ ev ∈ s.client.channel, ∃ read ∈ s.reads, read.Answered ev
  stands : ∀ ev ∈ s.client.consumed, ev.base.id ∉ s.client.expected ∧
    ∃ read ∈ s.reads, read.id = some ev.base.id ∧ read.Holds s.client.buf ev
  accounted : ∀ read ∈ s.reads, ∀ id, read.id = some id →
    id ∈ s.client.expected ∨ ∃ ev ∈ s.client.consumed, ev.base.id = id

theorem inv_start (status : ReqPtr → StatusPtr) (callback : ReqPtr → Bool)
    (buf : Nat → V × PwrTime) : (start status callback buf).Inv where
  linked := ClientState.linked_start status callback buf
  single := fun _ => rfl
  apart := .nil
  value := fun _ hread => absurd hread List.not_mem_nil
  sent := fun _ hread => absurd hread List.not_mem_nil
  known := fun _ _ h => by cases h
  arrived := fun _ hev => absurd hev List.not_mem_nil
  stands := fun _ hev => absurd hev List.not_mem_nil
  accounted := fun _ hread => absurd hread List.not_mem_nil

section Reads

variable {cntxt : Cntxt V} {s : Reading V} {client : ClientState V} {ev : Payload V}
  {read read' : Read}

theorem read_unique (h : s.Inv) (hread : read ∈ s.reads) (hread' : read' ∈ s.reads)
    (hreq : read.req = read'.req) : read = read' := by
  by_contra hne
  exact (h.apart.forall hread hread' hne).1 hreq

theorem read_unique_id (h : s.Inv) (hread : read ∈ s.reads) (hread' : read' ∈ s.reads)
    {id : EventId} (hid : read.id = some id) (hid' : read'.id = some id) : read = read' := by
  apply read_unique h hread hread'
  have hsent := h.sent read hread id hid
  rw [h.sent read' hread' id hid'] at hsent
  exact (DistCommReq.mk.inj (Option.some.inj hsent)).2.symm

theorem consume_read (h : s.Inv) (hconsume : ClientState.Consume cntxt s.client ev client) :
    ∃ read ∈ s.reads, read.id = some ev.base.id ∧ ∃ rest cells status,
      s.client.channel = ev :: rest ∧ cells.length ≤ read.size ∧
      read.Writes cntxt ev s.client client ∧
      client = { s.client with
        channel := rest
        buf := writeRow s.client.buf read.base cells
        statuses := update s.client.statuses (s.client.reqs read.req).status status
        reqs := update s.client.reqs read.req
          { s.client.reqs read.req with
            commReqs := (s.client.reqs read.req).commReqs.erase ev.base.id }
        consumed := s.client.consumed ++ [ev] } := by
  obtain ⟨rest, kind, r, buf, status, hchannel, hreq, hprocess, rfl⟩ :=
    ClientState.consume_ok hconsume
  have hnext : ev ∈ s.client.channel := by
    rw [hchannel]
    exact List.mem_cons_self
  obtain ⟨read, hread, hid, resp, row, times, rfl, hvalue, htimes, hlength, hsize⟩ :=
    h.arrived ev hnext
  have hsame := (h.sent read hread _ hid).symm.trans hreq
  obtain ⟨rfl, rfl⟩ := DistCommReq.mk.inj (Option.some.inj hsame)
  simp only [DistCommReq.process, DistRequest.getValueAt, h.value read hread, hvalue, htimes,
    bind_eq_ok, Except.ok.injEq] at hprocess
  obtain ⟨_, _, status', herrors, hwritten⟩ := hprocess
  obtain ⟨rfl, rfl⟩ := Prod.mk.inj hwritten
  have hcells : (row.zip times).length ≤ read.size := by
    rw [List.length_zip]
    omega
  obtain ⟨errors, hadded, hstatus⟩ := DistRequest.addErrors_append herrors
  refine ⟨read, hread, hid, rest, row.zip times, status', hchannel, hcells, ⟨?_, ?_, ?_⟩, rfl⟩
  · intro addr haddr
    change writeRow s.client.buf read.base (row.zip times) addr = s.client.buf addr
    exact writeRow_outside (by omega)
  · exact Read.holds_written hvalue htimes hlength hsize
  · exact ⟨resp, errors, rfl, hadded, by rw [hstatus]⟩

theorem inv_consume (h : s.Inv) (hconsume : ClientState.Consume cntxt s.client ev client) :
    (⟨client, s.reads⟩ : Reading V).Inv := by
  have hlinked := ClientState.linked_consume h.linked hconsume
  obtain ⟨read, hread, hid, rest, cells, status, hchannel, hcells, hwrites, hclient⟩ :=
    consume_read h hconsume
  have hperm : s.client.expected.Perm (ev.base.id :: client.expected) := by
    rw [hclient]
    exact ClientState.expected_next hchannel
  have honce : ev.base.id ∉ client.expected :=
    (List.nodup_cons.mp (hperm.nodup_iff.mp h.linked.once)).1
  have hvalue : ∀ r, (client.reqs r).value = (s.client.reqs r).value := by
    intro r
    rw [hclient]
    by_cases hr : r = read.req
    · subst hr
      simp only [update_self]
    · simp only [update_of_ne hr]
  have hcommReqs : client.commReqs = s.client.commReqs := by rw [hclient]
  have hconsumed : client.consumed = s.client.consumed ++ [ev] := by rw [hclient]
  refine ⟨hlinked, ?_, h.apart, ?_, ?_, ?_, ?_, ?_, ?_⟩
  · intro r
    rw [hvalue]
    exact h.single r
  · intro other hother
    rw [hvalue]
    exact h.value other hother
  · intro other hother id hid'
    rw [hcommReqs]
    exact h.sent other hother id hid'
  · intro id commReq hcommReq
    rw [hcommReqs] at hcommReq
    exact h.known id commReq hcommReq
  · intro other hother
    apply h.arrived other
    rw [hchannel]
    rw [hclient] at hother
    exact List.mem_cons_of_mem ev hother
  · intro other hother
    rw [hconsumed, List.mem_append, List.mem_singleton] at hother
    rcases hother with hbefore | rfl
    · have hold := h.stands other hbefore
      have hne : other.base.id ≠ ev.base.id := by
        intro heq
        apply hold.1
        rw [heq, hperm.mem_iff]
        exact List.mem_cons_self
      constructor
      · intro hmem
        exact hold.1 (hperm.mem_iff.mpr (List.mem_cons_of_mem _ hmem))
      · obtain ⟨reader, hreader, hreaderId, hholds⟩ := hold.2
        have hdifferent : reader ≠ read := by
          rintro rfl
          exact hne (Option.some.inj (hreaderId.symm.trans hid))
        refine ⟨reader, hreader, hreaderId, ?_⟩
        rw [hclient]
        exact Read.holds_apart (h.apart.forall hreader hread hdifferent) hcells hholds
    · exact ⟨honce, read, hread, hid, hwrites.holds⟩
  · intro other hother id hid'
    rcases h.accounted other hother id hid' with hexpected | ⟨done, hdone, hdoneId⟩
    · rw [hperm.mem_iff, List.mem_cons] at hexpected
      rcases hexpected with rfl | hexpected
      · refine .inr ⟨ev, ?_, rfl⟩
        rw [hconsumed]
        exact List.mem_append_right _ List.mem_cons_self
      · exact .inl hexpected
    · refine .inr ⟨done, ?_, hdoneId⟩
      rw [hconsumed]
      exact List.mem_append_left _ hdone

theorem inv_consumes (h : s.Inv) {evs : List (Payload V)}
    (hrun : Run (ClientState.Consume cntxt) s.client evs client) :
    (⟨client, s.reads⟩ : Reading V).Inv :=
  hrun.invariant (fun client => (⟨client, s.reads⟩ : Reading V).Inv)
    (fun mid _ _ hmid hconsume => inv_consume (s := ⟨mid, s.reads⟩) hmid hconsume) h

theorem inv_callback (h : s.Inv) (r : ReqPtr) :
    (⟨s.client.execCallback r, s.reads⟩ : Reading V).Inv := by
  have hexpected : (s.client.execCallback r).expected = s.client.expected := by
    rw [ClientState.expected, ClientState.expected, ClientState.execCallback_awaited,
      ClientState.execCallback_channel]
  refine ⟨ClientState.linked_callback h.linked r, ?_, h.apart, ?_, ?_, ?_, ?_, ?_, ?_⟩
  · simpa using h.single
  · simpa using h.value
  · simpa using h.sent
  · simpa using h.known
  · simpa using h.arrived
  · simpa [hexpected] using h.stands
  · simpa [hexpected] using h.accounted

theorem inv_arrive (h : s.Inv) (hev : ev.base.id ∈ s.client.awaited)
    (hanswered : ∃ read ∈ s.reads, read.Answered ev) :
    (⟨{ s.client with
        channel := s.client.channel ++ [ev]
        awaited := s.client.awaited.erase ev.base.id }, s.reads⟩ : Reading V).Inv := by
  have hlinked := ClientState.linked_arrive h.linked hev
  have hexpected : ∀ id, id ∈ ({ s.client with
      channel := s.client.channel ++ [ev]
      awaited := s.client.awaited.erase ev.base.id } : ClientState V).expected ↔
      id ∈ s.client.expected := by
    intro id
    rw [hlinked.underWay, h.linked.underWay]
  refine ⟨hlinked, h.single, h.apart, h.value, h.sent, h.known, ?_, ?_, ?_⟩
  · intro other hother
    rcases List.mem_append.mp hother with hbefore | hnew
    · exact h.arrived other hbefore
    · rw [List.mem_singleton.mp hnew]
      exact hanswered
  · intro other hother
    rw [hexpected]
    exact h.stands other hother
  · intro other hother id hid
    rw [hexpected]
    exact h.accounted other hother id hid

theorem issued_id {r : ReqPtr} {id : EventId} (base size : Nat)
    (hnew : client.commReqs id = none ∨
      client.commReqs id = some ⟨.get, r⟩ ∧ id ∈ client.expected) :
    (∀ other ∈ (Read.mk r ((client.commReqs id).map fun _ => id) base size).id,
      other = id ∧ client.commReqs id = some ⟨.get, r⟩ ∧ id ∈ client.expected) ∧
    ∀ commReq, client.commReqs id = some commReq →
      (Read.mk r ((client.commReqs id).map fun _ => id) base size).id = some id := by
  rcases hnew with hnone | ⟨hsome, hexpected⟩
  · rw [hnone]
    refine ⟨?_, ?_⟩
    · intro other hother
      cases hother
    · intro commReq hcommReq
      cases hcommReq
  · rw [hsome]
    refine ⟨?_, fun _ _ => rfl⟩
    intro other hother
    exact ⟨(Option.some.inj hother).symm, rfl, hexpected⟩

theorem inv_call [Zero V] [Add V] {obj : DistObject V} {r : ReqPtr} {id : EventId}
    {names : List AttrName} {base : Nat} {code : Int32} (h : s.Inv)
    (hfresh : s.client.commReqs id = none)
    (hapart : ∀ read ∈ s.reads, read.Apart ⟨r, none, base, names.length⟩)
    (hcall : s.client.call obj r id (.getValues names base) = .ok (code, client)) :
    (⟨client, s.reads ++ issued (.call obj r id (.getValues names base)) client⟩ :
      Reading V).Inv := by
  have hlinked := ClientState.linked_call h.linked hfresh hcall
  obtain ⟨cells, hcells, hbuf, hchannel, hconsumed, hvalue, hsent⟩ :=
    ClientState.getValues_ok hcall
  have hused : ∀ read ∈ s.reads, ∀ other, read.id = some other → other ≠ id := by
    rintro read hread other hother rfl
    rw [h.sent read hread other hother] at hfresh
    cases hfresh
  obtain ⟨helsewhere, hnew⟩ := ClientState.getValues_ids hfresh hchannel hsent
  obtain ⟨hnewId, hnewKnown⟩ := issued_id base names.length hnew
  set new : Read := ⟨r, (client.commReqs id).map fun _ => id, base, names.length⟩
  have hmem : ∀ read, read ∈ s.reads ++ issued (.call obj r id (.getValues names base)) client ↔
      read ∈ s.reads ∨ read = new := by
    intro read
    rw [List.mem_append]
    exact or_congr_right List.mem_singleton
  refine ⟨hlinked, ?_, ?_, ?_, ?_, ?_, ?_, ?_, ?_⟩
  · intro r'
    rw [hvalue]
    split
    · rw [List.length_set]
      exact h.single r
    · exact h.single r'
  · rw [List.pairwise_append]
    refine ⟨h.apart, List.pairwise_singleton _ _, ?_⟩
    intro read hread other hother
    rw [List.mem_singleton.mp hother]
    exact hapart read hread
  · intro read hread
    rw [hvalue]
    rcases (hmem read).mp hread with hold | rfl
    · rw [if_neg (hapart read hold).1]
      exact h.value read hold
    · rw [if_pos rfl]
      obtain ⟨first, hfirst⟩ := List.length_eq_one_iff.mp (h.single r)
      rw [hfirst]
      rfl
  · intro read hread other hother
    rcases (hmem read).mp hread with hold | rfl
    · rw [(helsewhere other (hused read hold other hother)).1]
      exact h.sent read hold other hother
    · obtain ⟨rfl, hsome, _⟩ := hnewId other hother
      exact hsome
  · intro other commReq hother
    by_cases hid : other = id
    · subst hid
      exact ⟨new, (hmem new).mpr (.inr rfl), hnewKnown commReq hother⟩
    · rw [(helsewhere other hid).1] at hother
      obtain ⟨read, hread, hreadId⟩ := h.known other commReq hother
      exact ⟨read, (hmem read).mpr (.inl hread), hreadId⟩
  · intro ev hev
    rw [hchannel] at hev
    obtain ⟨read, hread, hanswered⟩ := h.arrived ev hev
    exact ⟨read, (hmem read).mpr (.inl hread), hanswered⟩
  · intro ev hev
    rw [hconsumed] at hev
    obtain ⟨hgone, read, hread, hid, hholds⟩ := h.stands ev hev
    rw [(helsewhere _ (hused read hread _ hid)).2]
    refine ⟨hgone, read, (hmem read).mpr (.inl hread), hid, ?_⟩
    rw [hbuf]
    exact Read.holds_apart (hapart read hread) hcells hholds
  · intro read hread other hother
    rcases (hmem read).mp hread with hold | rfl
    · rw [(helsewhere _ (hused read hold other hother)).2, hconsumed]
      exact h.accounted read hold other hother
    · obtain ⟨rfl, _, hexpected⟩ := hnewId other hother
      exact .inl hexpected

theorem inv_step [Zero V] [Add V] {t : Reading V} {l : ClientState.Label V} (h : s.Inv)
    (hstep : Step cntxt s l t) : t.Inv := by
  obtain ⟨hadm, hseparate, ⟨code, hexec⟩, hreads⟩ := hstep
  cases t with
  | mk client reads =>
      change reads = s.reads ++ issued l client at hreads
      subst hreads
      cases l with
      | call obj r id op =>
          obtain ⟨⟨code', client'⟩, hcall, heq⟩ := map_eq_ok.mp hexec
          obtain ⟨rfl, rfl⟩ := Prod.mk.inj (Option.some.inj heq)
          cases op with
          | getValues names base => exact inv_call h hadm hseparate hcall
          | setValues values => exact hseparate.elim
          | startLog name => exact hseparate.elim
          | stopLog name => exact hseparate.elim
          | getSamples name period count base => exact hseparate.elim
      | arrive ev =>
          obtain ⟨_, rfl⟩ := Prod.mk.inj (Option.some.inj (Except.ok.inj hexec))
          simp only [issued, List.append_nil]
          exact inv_arrive h hadm.1 hseparate
      | close =>
          obtain ⟨_, rfl⟩ := Prod.mk.inj (Option.some.inj (Except.ok.inj hexec))
          simp only [issued, List.append_nil]
          have hlinked := ClientState.linked_congr (t := { s.client with closed := true })
            h.linked rfl rfl rfl fun _ => rfl
          exact ⟨hlinked, h.single, h.apart, h.value, h.sent, h.known, h.arrived, h.stands,
            h.accounted⟩
      | wait r =>
          obtain ⟨evs, mid, hrun, hend⟩ := ClientState.waitFrom_ok rfl hexec
          have hmid : (⟨mid, s.reads⟩ : Reading V).Inv :=
            inv_consumes h (hrun.mono fun _ _ _ hwait => hwait.2)
          simp only [issued, List.append_nil]
          rcases hend with ⟨_, _, rfl⟩ | ⟨_, _, _, _, rfl⟩
          · exact inv_callback hmid r
          · exact hmid
      | makeProgress =>
          obtain ⟨ev, mid, kind, r, hconsume, _, _, rfl⟩ := ClientState.makeProgress_ok hexec
          simp only [issued, List.append_nil]
          exact inv_callback (inv_consume h hconsume) r

/-- What a client relies on while reads for several requests are under way: a wait or
`makeProgress` changes the buffers and each `Status` through responses only, a response
changes those of the read that issued it only, and a wait that returns with success leaves
each response of its request applied and none expected. -/
structure Independent [Zero V] [Add V] (cntxt : Cntxt V) (s : Reading V) : Prop where
  consumes : ∀ l code t, (l = .makeProgress ∨ ∃ r, l = .wait r) →
    s.client.exec cntxt l = .ok (some (code, t)) →
    ∃ evs mid, Run (ClientState.Consume cntxt) s.client evs mid ∧
      t.buf = mid.buf ∧ t.statuses = mid.statuses
  writes : ∀ evs mid ev t, Run (ClientState.Consume cntxt) s.client evs mid →
    ClientState.Consume cntxt mid ev t →
    ∃ read ∈ s.reads, read.id = some ev.base.id ∧ read.Writes cntxt ev mid t
  applied : ∀ r t, s.client.wait cntxt r = .ok (some (Ret.success, t)) →
    ∀ read ∈ s.reads, read.req = r → ∀ id, read.id = some id →
      id ∉ t.expected ∧ ∃ ev ∈ t.consumed, ev.base.id = id ∧ read.Holds t.buf ev

theorem applied_of_finished (h : s.Inv) (hread : read ∈ s.reads) {id : EventId}
    (hid : read.id = some id) (hfinished : s.client.finished read.req) :
    id ∉ s.client.expected ∧
      ∃ ev ∈ s.client.consumed, ev.base.id = id ∧ read.Holds s.client.buf ev := by
  have hgone : id ∉ s.client.expected := by
    intro hexpected
    have howner := ClientState.mem_of_expected h.linked hexpected (h.sent read hread id hid)
    rw [hfinished] at howner
    cases howner
  refine ⟨hgone, ?_⟩
  obtain ⟨ev, hev, rfl⟩ := (h.accounted read hread id hid).resolve_left hgone
  obtain ⟨_, reader, hreader, hreaderId, hholds⟩ := h.stands ev hev
  obtain rfl := read_unique_id h hread hreader hid hreaderId
  exact ⟨ev, hev, rfl, hholds⟩

theorem independent_of_inv [Zero V] [Add V] (h : s.Inv) : s.Independent cntxt where
  consumes := by
    rintro l code t (rfl | ⟨r, rfl⟩) hexec
    · obtain ⟨ev, mid, kind, r, hconsume, _, _, rfl⟩ := ClientState.makeProgress_ok hexec
      refine ⟨[ev], mid, .cons hconsume (.nil mid), ?_, ?_⟩
      · exact ClientState.execCallback_buf mid r
      · exact ClientState.execCallback_statuses mid r
    · obtain ⟨evs, mid, hrun, hend⟩ := ClientState.waitFrom_ok rfl hexec
      refine ⟨evs, mid, hrun.mono fun _ _ _ hwait => hwait.2, ?_⟩
      rcases hend with ⟨_, _, rfl⟩ | ⟨_, _, _, _, rfl⟩
      · exact ⟨ClientState.execCallback_buf mid r, ClientState.execCallback_statuses mid r⟩
      · exact ⟨rfl, rfl⟩
  writes := by
    intro evs mid ev t hrun hconsume
    obtain ⟨read, hread, hid, _, _, _, _, _, hwrites, _⟩ :=
      consume_read (s := ⟨mid, s.reads⟩) (inv_consumes h hrun) hconsume
    exact ⟨read, hread, hid, hwrites⟩
  applied := by
    rintro r t hwait read hread rfl id hid
    obtain ⟨evs, mid, hrun, hend⟩ := ClientState.waitFrom_ok rfl hwait
    have hmid : (⟨mid, s.reads⟩ : Reading V).Inv :=
      inv_consumes h (hrun.mono fun _ _ _ hwait => hwait.2)
    rcases hend with ⟨hfinished, _, rfl⟩ | ⟨_, _, _, hcode, _⟩
    · have hdone := inv_callback hmid read.req
      apply applied_of_finished hdone hread hid
      rw [ClientState.finished, ClientState.execCallback_reqs]
      exact hfinished
    · exact absurd hcode (by decide)

/-- Reads that each have a request and buffers of their own stay independent, in whatever
order their responses come and are consumed. -/
theorem reads_independent [Zero V] [Add V] {status : ReqPtr → StatusPtr}
    {callback : ReqPtr → Bool} {buf : Nat → V × PwrTime} {ls : List (ClientState.Label V)}
    (hrun : Run (Step cntxt) (start status callback buf) ls s) : s.Independent cntxt :=
  independent_of_inv (hrun.invariant Inv (fun _ _ _ => inv_step) (inv_start status callback buf))

theorem step_of [Zero V] [Add V] {l : ClientState.Label V} {code : Int32}
    (hadm : s.client.Admissible l) (hseparate : s.Separate l)
    (hexec : s.client.exec cntxt l = .ok (some (code, client))) :
    Step cntxt s l ⟨client, s.reads ++ issued l client⟩ :=
  ⟨hadm, hseparate, ⟨code, hexec⟩, rfl⟩

end Reads

section TwoReads

def twoReads : List (ClientState.Label Int) :=
  let answer (id : EventId) (value : Int) : ClientState.Label Int :=
    .arrive (.commResp (Server.commResp
      { DistComm.getValues [.power] [.fpAdd] with
        toCommEvent := { Router.newCommEvent .commReq id 0 with op := .get } } [(value, 1)]))
  [.call (Caching.servedHeap true) 0 100 (.getValues [.power] 0),
    .call (Caching.servedHeap true) 1 200 (.getValues [.power] 1), answer 200 8, answer 100 7]

theorem twoReads_run :
    ∃ s : Reading Int, Run (Step fun _ => .ok none) (start id (fun _ => false) fun _ => (0, 0))
      twoReads s ∧ s.reads = [⟨0, some 100, 0, 1⟩, ⟨1, some 200, 1, 1⟩] := by
  refine ⟨_, .cons (step_of rfl ?_ rfl) (.cons (step_of rfl ?_ rfl)
    (.cons (step_of ⟨by decide, rfl⟩ ?_ rfl) (.cons (step_of ⟨by decide, rfl⟩ ?_ rfl)
    (.nil _)))), rfl⟩
  · exact fun _ hread => absurd hread List.not_mem_nil
  · intro read hread
    rw [List.mem_singleton.mp hread]
    exact ⟨by decide, by decide⟩
  · exact ⟨_, List.mem_cons_of_mem _ List.mem_cons_self, rfl, _, _, _, rfl, rfl, rfl, rfl, le_rfl⟩
  · exact ⟨_, List.mem_cons_self, rfl, _, _, _, rfl, rfl, rfl, rfl, le_rfl⟩

theorem reads_independent_twoReads :
    ∃ s : Reading Int, s.reads = [⟨0, some 100, 0, 1⟩, ⟨1, some 200, 1, 1⟩] ∧
      s.Independent fun _ => .ok none := by
  obtain ⟨s, hrun, hreads⟩ := twoReads_run
  exact ⟨s, hreads, reads_independent hrun⟩

end TwoReads

end Reading

end PwrApi
