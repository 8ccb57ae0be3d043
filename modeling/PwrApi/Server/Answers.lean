import PwrApi.Server.Serving

/-! What a server answers: each request once, and nothing else. -/

namespace PwrApi

open Function Memory Runs Server

variable {V : Type}

/-- What was sent goes back where the request came from. -/
structure Reply.Answers (reply : Reply V) : Prop where
  chan : reply.chan = reply.entry.chan
  src : reply.event.src = reply.entry.event.dest
  dest : reply.event.dest = reply.entry.event.src
  payload : Matches reply.entry.event.payload reply.event.payload

namespace ServerState

def settle (s : ServerState V) (key : EventKey) (reply : Reply V) : ServerState V :=
  { s with
    events := update s.events key none
    finiMap := Table.erase key s.finiMap
    sent := s.sent ++ [reply] }

/-- What holds between two events: the table has the requests that were not answered, which
all wait for one response. It holds of all but the request `busy` while that is served. -/
structure Consistent (cntxt : Cntxt V) (busy : Option EventKey) (s : ServerState V) : Prop where
  linked : s.ctx.Linked
  keys : (s.finiMap.map Prod.fst).Nodup
  once : s.received.Perm (s.sent.map Reply.entry ++ s.finiMap.map Prod.snd)
  asked : ∀ entry ∈ s.received, (requests entry.event.payload).isSome
  replies : ∀ reply ∈ s.sent, reply.Answers
  known : ∀ key entry, (key, entry) ∈ s.finiMap →
    ∃ base, s.events key = some ⟨entry.event.payload, base⟩
  waits : ∀ key ∈ s.finiMap.map Prod.fst, busy ≠ some key → Waits s.ctx key
  idle : ∀ key, key ∉ s.finiMap.map Prod.fst → (s.ctx.reqs key).commReqs = []
  fits : ∀ ev ∈ s.ctx.channel, ∃ commReq, s.ctx.commReqs ev.base.id = some commReq ∧
    Fits cntxt commReq.kind ev
  objects : ∀ id name, commObj s.commMap id = .ok name → ∃ obj, cntxt name = .ok (some obj)

section Settling

variable {cntxt : Cntxt V} {busy : Option EventKey} {s : ServerState V} {key : EventKey}
  {entry : FiniEntry V}

theorem mem_of_lookup (h : s.finiMap.lookup key = some entry) : (key, entry) ∈ s.finiMap :=
  (Table.perm_of_lookup h).symm.subset List.mem_cons_self

theorem callback_ok (h : Consistent cntxt busy s) (hentry : s.finiMap.lookup key = some entry)
    (hstatus : Poppable (s.ctx.statuses key)) :
    ∃ reply, s.callback key = .ok (s.settle key reply) ∧ reply.entry = entry ∧
      reply.Answers := by
  have hmem := mem_of_lookup hentry
  obtain ⟨base, hevent⟩ := h.known key entry hmem
  have hreceived : entry ∈ s.received :=
    h.once.symm.subset (List.mem_append_right _ (List.mem_map.mpr ⟨(key, entry), hmem, rfl⟩))
  obtain ⟨payload, hrespond, hmatches⟩ :=
    respond_ok (h.asked entry hreceived) hstatus
  refine ⟨⟨entry, entry.chan, entry.event.dest, entry.event.src, payload⟩, ?_, rfl, rfl, rfl,
    rfl, hmatches⟩
  simp only [callback, hevent, orFault_some, bind_eq_ok, exists_eq_left', Except.ok.injEq]
  exact ⟨payload, hrespond, by simp only [fini, hentry]; rfl⟩

theorem consistent_settle (h : Consistent cntxt (some key) s)
    (hentry : s.finiMap.lookup key = some entry) (hfree : (s.ctx.reqs key).commReqs = [])
    {reply : Reply V} (hreply : reply.entry = entry) (hanswers : reply.Answers) :
    Consistent cntxt none (s.settle key reply) := by
  have hperm := Table.perm_of_lookup hentry
  obtain ⟨hgone, hkeys⟩ := Table.nodup_erase h.keys hentry
  have hbefore : ∀ k, k ∈ (Table.erase key s.finiMap).map Prod.fst →
      k ∈ s.finiMap.map Prod.fst ∧ k ≠ key := by
    intro k hk
    constructor
    · exact (hperm.map Prod.fst).symm.subset (List.mem_cons_of_mem key hk)
    · rintro rfl
      exact hgone hk
  refine ⟨h.linked, hkeys, ?_, h.asked, ?_, ?_, ?_, ?_, h.fits, h.objects⟩
  · calc
      List.Perm s.received (s.sent.map Reply.entry ++ s.finiMap.map Prod.snd) := h.once
      List.Perm _ (s.sent.map Reply.entry ++
          (entry :: (Table.erase key s.finiMap).map Prod.snd)) :=
        (hperm.map Prod.snd).append_left _
      List.Perm _ ((s.sent ++ [reply]).map Reply.entry ++
          (Table.erase key s.finiMap).map Prod.snd) := by
        rw [List.map_append, List.map_singleton, hreply, List.append_assoc,
          List.singleton_append]
  · intro other hother
    rcases List.mem_append.mp hother with hother | hother
    · exact h.replies other hother
    · rw [List.mem_singleton.mp hother]
      exact hanswers
  · intro k e hk
    obtain ⟨_, hne⟩ := hbefore k (List.mem_map.mpr ⟨(k, e), hk, rfl⟩)
    obtain ⟨base, hbase⟩ := h.known k e (hperm.symm.subset (List.mem_cons_of_mem _ hk))
    exact ⟨base, (update_of_ne hne _ _).trans hbase⟩
  · intro k hk _
    obtain ⟨hk, hne⟩ := hbefore k hk
    exact h.waits k hk fun heq => hne (Option.some.inj heq).symm
  · intro k hk
    by_cases hne : k = key
    · rw [hne]
      exact hfree
    · apply h.idle
      intro hmem
      rcases List.mem_cons.mp ((hperm.map Prod.fst).subset hmem) with heq | hmem
      · exact hne heq
      · exact hk hmem

theorem callbacks_none {ctx : ClientState V} (h : ctx.called key = s.ctx.called key) :
    s.callbacks key ctx = .ok { s with ctx } := by
  rw [callbacks, h, Nat.sub_self]
  rfl

theorem callbacks_one {ctx : ClientState V} {ids : List EventId}
    (h : ctx.called key = s.ctx.called key ++ [ids]) {t : ServerState V}
    (hcallback : { s with ctx }.callback key = .ok t) : s.callbacks key ctx = .ok t := by
  rw [callbacks, h, List.length_append, List.length_singleton, Nat.add_sub_cancel_left]
  exact bind_eq_ok.mpr ⟨t, hcallback, rfl⟩

theorem consistent_ctx (h : Consistent cntxt busy s) (hbusy : ∀ k, busy = some k → k = key)
    (hkey : key ∈ s.finiMap.map Prod.fst) {ctx : ClientState V} (hframe : Frame s.ctx ctx key) :
    Consistent cntxt (some key) { s with ctx } := by
  refine ⟨hframe.linked, h.keys, h.once, h.asked, h.replies, h.known, ?_, ?_, ?_, h.objects⟩
  · intro k hk hne
    have hother : k ≠ key := fun heq => hne (by rw [heq])
    exact (h.waits k hk fun heq => hother (hbusy k heq)).of_kept (hframe.others k hother)
  · intro k hk
    have hother : k ≠ key := fun heq => hk (heq ▸ hkey)
    exact (hframe.others k hother).commReqs.trans (h.idle k hk)
  · intro ev hev
    obtain ⟨commReq, hcommReq, hfits⟩ := h.fits ev (hframe.channel ev hev)
    exact ⟨commReq, hframe.commReqs _ _ hcommReq, hfits⟩

theorem consistent_waits (h : Consistent cntxt (some key) s) (hwaits : Waits s.ctx key) :
    Consistent cntxt none s := by
  refine ⟨h.linked, h.keys, h.once, h.asked, h.replies, h.known, ?_, h.idle, h.fits, h.objects⟩
  intro k hk _
  by_cases hne : k = key
  · rw [hne]
    exact hwaits
  · exact h.waits k hk fun heq => hne (Option.some.inj heq).symm

theorem callback_settles (h : Consistent cntxt (some key) s)
    (hentry : s.finiMap.lookup key = some entry) (hfree : (s.ctx.reqs key).commReqs = [])
    (hstatus : Poppable (s.ctx.statuses key)) :
    ∃ reply, s.callback key = .ok (s.settle key reply) ∧ reply.entry = entry ∧
      Consistent cntxt none (s.settle key reply) := by
  obtain ⟨reply, hcallback, hreply, hanswers⟩ := callback_ok h hentry hstatus
  exact ⟨reply, hcallback, hreply, consistent_settle h hentry hfree hreply hanswers⟩

end Settling

section Requests

variable {cntxt : Cntxt V} {s : ServerState V} {key : EventKey}

theorem process_ends {id : EventId} {code : Int32} {ctx : ClientState V}
    (h : Consistent cntxt (some key) s) {entry : FiniEntry V}
    (hentry : s.finiMap.lookup key = some entry) (hserved : Served s.ctx key id code ctx)
    (hfresh : s.ctx.commReqs id = none)
    (hreq : s.ctx.reqs key = { value := [0], status := key, callback := true, commReqs := [] })
    (hclean : s.ctx.statuses key = []) :
    ∃ t, (do
        let s ← s.callbacks key ctx
        if code ≠ Ret.success then s.callback key else .ok s) = .ok t ∧
      Consistent cntxt none t ∧ t.received = s.received := by
  have hkey : key ∈ s.finiMap.map Prod.fst :=
    List.mem_map.mpr ⟨(key, entry), mem_of_lookup hentry, rfl⟩
  have hfree : (s.ctx.reqs key).commReqs = [] := by rw [hreq]
  obtain ⟨hframe, hcases⟩ := served_cases hserved h.linked hfresh (by rw [hreq]) hfree
  have hnext : Consistent cntxt (some key) { s with ctx } :=
    consistent_ctx h (fun k hk => (Option.some.inj hk).symm) hkey hframe
  have hsettles (hkept : Kept s.ctx ctx key) := callback_settles hnext hentry
    (hkept.commReqs.trans hfree) (by
      rw [hkept.statuses, hclean]
      exact fun error herror => absurd herror List.not_mem_nil)
  rcases hcases with ⟨hcode, hcalled, hkept⟩ | ⟨hcode, hcalled, hkept⟩ |
    ⟨hcode, hcalled, hsent, hcallback, hstatus, hplace, hstatuses⟩
  · obtain ⟨reply, hreply, _, hsettled⟩ := hsettles hkept
    refine ⟨_, ?_, hsettled, rfl⟩
    rw [callbacks_none hcalled]
    exact (if_pos hcode).trans hreply
  · obtain ⟨reply, hreply, _, hsettled⟩ := hsettles hkept
    refine ⟨_, ?_, hsettled, rfl⟩
    rw [callbacks_one hcalled hreply]
    exact if_neg fun hne => hne hcode
  · refine ⟨_, ?_, consistent_waits hnext ⟨?_, ?_, ?_, ⟨id, hsent⟩, ?_⟩, rfl⟩
    · rw [callbacks_none hcalled]
      exact if_neg fun hne => hne hcode
    · exact hcallback
    · rw [hstatus, hreq]
    · rw [hplace, hreq]
      rfl
    · rw [hstatuses, hclean]

variable [Zero V]

theorem frame_begin (h : Consistent cntxt none s) (hkey : key ∉ s.finiMap.map Prod.fst)
    (base : Nat) (payload : Payload V) (cells : Nat) :
    Frame s.ctx (s.beginRequest key base payload cells).ctx key where
  linked := ClientState.linked_congr
    (ClientState.linked_newRequest h.linked (h.idle key hkey) key true) rfl rfl rfl fun _ => rfl
  others := by
    intro r hr
    have hreq : (s.beginRequest key base payload cells).ctx.reqs r = s.ctx.reqs r :=
      ClientState.newRequest_of_ne s.ctx key true hr
    exact ⟨by rw [hreq], by rw [hreq], by rw [hreq], by rw [hreq], update_of_ne hr _ _⟩
  channel := fun _ hev => hev
  commReqs := fun _ _ hcommReq => hcommReq

theorem consistent_begin (h : Consistent cntxt none s) (hkey : key ∉ s.finiMap.map Prod.fst)
    {entry : FiniEntry V} (hrequest : (requests entry.event.payload).isSome) (base cells : Nat) :
    Consistent cntxt (some key) (({ s with
      finiMap := Table.insert key entry s.finiMap
      received := s.received ++ [entry] } : ServerState V).beginRequest key base
        entry.event.payload cells) := by
  have hframe := frame_begin h hkey base entry.event.payload cells
  have hinsert : Table.insert key entry s.finiMap = s.finiMap ++ [(key, entry)] :=
    Table.insert_of_not_mem hkey
  have hkeys : (Table.insert key entry s.finiMap).map Prod.fst =
      s.finiMap.map Prod.fst ++ [key] := by
    rw [hinsert, List.map_append, List.map_singleton]
  refine ⟨hframe.linked, ?_, ?_, ?_, h.replies, ?_, ?_, ?_, ?_, h.objects⟩
  · change ((Table.insert key entry s.finiMap).map Prod.fst).Nodup
    rw [hkeys, (List.perm_append_singleton _ _).nodup_iff, List.nodup_cons]
    exact ⟨hkey, h.keys⟩
  · change (s.received ++ [entry]).Perm
      (s.sent.map Reply.entry ++ (Table.insert key entry s.finiMap).map Prod.snd)
    rw [hinsert, List.map_append, List.map_singleton, ← List.append_assoc]
    exact h.once.append_right _
  · intro other hother
    rcases List.mem_append.mp hother with hother | hother
    · exact h.asked other hother
    · rw [List.mem_singleton.mp hother]
      exact hrequest
  · intro k e hk
    have hmem : (k, e) ∈ s.finiMap ++ [(key, entry)] := hinsert ▸ hk
    rcases List.mem_append.mp hmem with hmem | hmem
    · have hne : k ≠ key := fun heq => hkey (heq ▸ List.mem_map.mpr ⟨(k, e), hmem, rfl⟩)
      obtain ⟨base', hbase'⟩ := h.known k e hmem
      exact ⟨base', (update_of_ne hne _ _).trans hbase'⟩
    · obtain ⟨rfl, rfl⟩ := Prod.mk.inj (List.mem_singleton.mp hmem)
      exact ⟨base, update_self _ _ _⟩
  · intro k hk hne
    have hother : k ≠ key := fun heq => hne (by rw [heq])
    rcases List.mem_append.mp (hkeys ▸ hk) with hk | hk
    · exact (h.waits k hk (by simp)).of_kept (hframe.others k hother)
    · exact absurd (List.mem_singleton.mp hk) hother
  · intro k hk
    have hnot : k ∉ s.finiMap.map Prod.fst ++ [key] := hkeys ▸ hk
    rw [List.mem_append, List.mem_singleton, not_or] at hnot
    exact (hframe.others k hnot.2).commReqs.trans (h.idle k hnot.1)
  · exact h.fits

variable [Add V]

omit [Zero V] [Add V] in
theorem operation_requests {base : Nat} {payload : Payload V}
    {call : CommID × ClientState.Operation V × Nat} (h : operation base payload = some call) :
    (requests payload).isSome := by
  cases payload with
  | commReq req => rfl
  | commLogReq req => rfl
  | commGetSamplesReq req => rfl
  | _ => cases h

theorem process_request {base : Nat} {id : EventId} {payload : Payload V} {commID : CommID}
    {op : ClientState.Operation V} {cells : Nat}
    (h : operation base payload = some (commID, op, cells)) :
    s.process cntxt key base id payload = (do
      let s ← s.processRequest cntxt key base id payload commID op cells
      .ok (false, s)) := by
  cases payload with
  | commReq req => simp only [process, h, orFault_some, bind, Except.bind]
  | commLogReq req => simp only [process, h, orFault_some, bind, Except.bind]
  | commGetSamplesReq req => simp only [process, h, orFault_some, bind, Except.bind]
  | _ => cases h

theorem processRequest_ok (h : Consistent cntxt none s) {event : Router.RouterEvent V}
    {chan base : Nat} {id : EventId} (hkey : key ∉ s.finiMap.map Prod.fst)
    (hfresh : s.ctx.commReqs id = none) {commID : CommID} {op : ClientState.Operation V}
    {cells : Nat} (hop : operation base event.payload = some (commID, op, cells))
    {name : ObjID} (hname : commObj s.commMap commID = .ok name) {obj : DistObject V}
    (hobj : cntxt name = .ok (some obj)) (hsuits : Suits obj op) :
    ∃ t, s.processRouterEvent cntxt event chan key base id = .ok t ∧
      Consistent cntxt none t ∧ t.received = s.received ++ [⟨event, chan⟩] := by
  have hrequest := operation_requests hop
  let begun : ServerState V := ({ s with
      finiMap := Table.insert key ⟨event, chan⟩ s.finiMap
      received := s.received ++ [⟨event, chan⟩] } : ServerState V).beginRequest key base
        event.payload cells
  have hbegun : Consistent cntxt (some key) begun := consistent_begin h hkey hrequest base cells
  obtain ⟨code, ctx, hcall, hserved⟩ : ∃ code ctx, begun.ctx.call obj key id op =
      .ok (code, ctx) ∧ Served begun.ctx key id code ctx := call_served hsuits
  obtain ⟨t, ht, hconsistent, hreceived⟩ := process_ends hbegun (Table.lookup_insert hkey)
    hserved hfresh (ClientState.newRequest_self s.ctx key key true) (update_self _ _ _)
  refine ⟨t, ?_, hconsistent, hreceived⟩
  simp only [processRouterEvent, hrequest, if_true, process_request hop, bind_eq_ok]
  refine ⟨(false, t), ⟨t, ?_, rfl⟩, rfl⟩
  have hfound : commObject cntxt name = .ok obj := by
    rw [commObject, hobj]
    rfl
  simp only [processRequest, bind_eq_ok]
  refine ⟨name, hname, obj, hfound, (code, ctx), hcall, ?_⟩
  exact bind_eq_ok.mp ht

omit [Zero V] [Add V] in
theorem consistent_commMap (h : Consistent cntxt none s) {commMap : CommMap}
    (hobjects : ∀ id name, commObj commMap id = .ok name → ∃ obj, cntxt name = .ok (some obj)) :
    Consistent cntxt none { s with commMap } :=
  ⟨h.linked, h.keys, h.once, h.asked, h.replies, h.known, h.waits, h.idle, h.fits, hobjects⟩

theorem processRouterEvent_done {event : Router.RouterEvent V} {chan base : Nat} {id : EventId}
    (hkey : key ∉ s.finiMap.map Prod.fst) (hrequest : requests event.payload = none)
    {commMap : CommMap} (hprocess : (s.initFini key event chan).process cntxt key base id
      event.payload = .ok (true, { s.initFini key event chan with commMap })) :
    s.processRouterEvent cntxt event chan key base id = .ok { s with commMap } := by
  simp only [processRouterEvent, hrequest, Option.isSome_none, Bool.false_eq_true, if_false,
    hprocess, bind_eq_ok]
  refine ⟨_, rfl, ?_⟩
  simp only [if_true, freeFini, initFini, Table.lookup_insert hkey, orFault_some,
    Table.erase_insert hkey, bind_eq_ok]
  exact ⟨⟨event, chan⟩, rfl, trivial⟩

theorem process_commCreate (cntxt : Cntxt V) (key : EventKey) (base : Nat) (id : EventId)
    (create : CommCreateEvent) :
    ∃ found : ObjID → Bool,
      (∀ {name : ObjID} {obj : DistObject V}, cntxt name = .ok (some obj) → found name = true) ∧
      ∀ s : ServerState V, s.process cntxt key base id (.commCreate create) = (do
        let commMap ← createComm found s.commMap create
        .ok (true, { s with commMap })) := by
  refine ⟨_, ?_, fun s => rfl⟩
  intro name obj hobj
  simp only [hobj]

theorem processCreate_ok (h : Consistent cntxt none s) {event : Router.RouterEvent V}
    (chan base : Nat) (id : EventId) (hkey : key ∉ s.finiMap.map Prod.fst)
    {create : CommCreateEvent} (hcreate : event.payload = .commCreate create) {name : ObjID}
    {rest : List (List ObjID)} (hmembers : create.members = [name] :: rest)
    {obj : DistObject V} (hobj : cntxt name = .ok (some obj)) :
    ∃ t, s.processRouterEvent cntxt event chan key base id = .ok t ∧
      Consistent cntxt none t ∧ t.received = s.received := by
  obtain ⟨found, hknown, hprocess⟩ := process_commCreate cntxt key base id create
  obtain ⟨commMap, hcreated, hself⟩ := createComm_known s.commMap hmembers (hknown hobj)
  refine ⟨{ s with commMap }, ?_, ?_, rfl⟩
  · apply processRouterEvent_done hkey
    · rw [hcreate]
      rfl
    · rw [hcreate, hprocess]
      exact bind_eq_ok.mpr ⟨commMap, hcreated, rfl⟩
  · apply consistent_commMap h
    intro other known hknown
    by_cases hother : create.commID = other
    · rw [← hother, hself] at hknown
      obtain rfl := Except.ok.inj hknown
      exact ⟨obj, hobj⟩
    · apply h.objects other known
      rwa [commObj, createComm_other hcreated hother] at hknown

theorem processDestroy_ok (h : Consistent cntxt none s) {event : Router.RouterEvent V}
    (chan base : Nat) (id : EventId) (hkey : key ∉ s.finiMap.map Prod.fst)
    {destroy : CommDestroyEvent} (hdestroy : event.payload = .commDestroy destroy) :
    ∃ t, s.processRouterEvent cntxt event chan key base id = .ok t ∧
      Consistent cntxt none t ∧ t.received = s.received := by
  refine ⟨{ s with commMap := destroyComm s.commMap destroy }, ?_, ?_, rfl⟩
  · apply processRouterEvent_done hkey
    · rw [hdestroy]
      rfl
    · rw [hdestroy]
      rfl
  · apply consistent_commMap h
    intro other name hname
    by_cases hother : other = destroy.commID
    · rw [hother, commObj, destroyComm, update_self] at hname
      cases hname
    · apply h.objects other name
      rwa [commObj, destroyComm, update_of_ne hother] at hname

omit [Zero V] [Add V] in
theorem makeProgress_ok (h : Consistent cntxt none s) (hchannel : s.ctx.channel ≠ []) :
    ∃ t, s.makeProgress cntxt = .ok (some t) ∧ Consistent cntxt none t ∧
      t.received = s.received ∧ ∃ key entry reply, s.finiMap.lookup key = some entry ∧
        reply.entry = entry ∧ t.finiMap = Table.erase key s.finiMap ∧
        t.sent = s.sent ++ [reply] := by
  obtain ⟨ev, rest, hnext⟩ := List.exists_cons_of_ne_nil hchannel
  obtain ⟨⟨kind, key⟩, hreq, hfits⟩ := h.fits ev (by rw [hnext]; exact List.mem_cons_self)
  have hmem := ClientState.next_expected h.linked hnext hreq
  have hkey : key ∈ s.finiMap.map Prod.fst := by
    by_contra hkey
    rw [h.idle key hkey] at hmem
    cases hmem
  obtain ⟨⟨_, entry⟩, hentry, rfl⟩ := List.mem_map.mp hkey
  have hlookup := Table.lookup_of_mem h.keys hentry
  obtain ⟨ctx, hprogress, hframe, hcalled, hfree, hstatus⟩ :=
    progress_waits h.linked hnext hreq (h.waits _ hkey (by simp)) hfits
  have hbusy : Consistent cntxt (some _) { s with ctx } :=
    consistent_ctx h (fun k hk => by cases hk) hkey hframe
  obtain ⟨reply, hcallback, hreply, hsettled⟩ := callback_settles hbusy hlookup hfree hstatus
  refine ⟨_, ?_, hsettled, rfl, _, entry, reply, hlookup, hreply, rfl, rfl⟩
  rw [makeProgress, hprogress]
  refine bind_eq_ok.mpr ⟨_, rfl, ?_⟩
  simp only [hnext, hreq, orFault_some, bind_eq_ok]
  exact ⟨_, rfl, _, callbacks_one hcalled hcallback, rfl⟩

end Requests

section Arrivals

variable {cntxt : Cntxt V} {s : ServerState V}

theorem arrive_ok [Zero V] [Add V] (h : Consistent cntxt none s) {ev : Payload V}
    (hawaited : ev.base.id ∈ s.ctx.awaited)
    (hfits : ∀ commReq, s.ctx.commReqs ev.base.id = some commReq →
      Fits cntxt commReq.kind ev) :
    ∃ t, s.exec cntxt (.arrive ev) = .ok (some t) ∧ Consistent cntxt none t ∧
      t.received = s.received := by
  refine ⟨_, rfl, ⟨ClientState.linked_arrive h.linked hawaited, h.keys, h.once, h.asked,
    h.replies, h.known, ?_, h.idle, ?_, h.objects⟩, rfl⟩
  · intro key hkey hbusy
    exact (h.waits key hkey hbusy).of_kept ⟨rfl, rfl, rfl, rfl, rfl⟩
  · intro other hother
    rcases List.mem_append.mp hother with hother | hother
    · exact h.fits other hother
    · obtain rfl := List.mem_singleton.mp hother
      obtain ⟨r, hr⟩ := (h.linked.underWay _).mp (List.mem_append_left _ hawaited)
      obtain ⟨kind, hkind⟩ := h.linked.owner r _ hr
      exact ⟨_, hkind, hfits _ hkind⟩

def Whole : Payload V → Prop
  | .commReq req => req.op = .get ∨ req.attrName.length = req.setValues.length
  | _ => True

/-- The events that a server can process: a communicator is made for an object of the
context, and a request suits the object of a communicator that is known. -/
def Accepts (cntxt : Cntxt V) (commMap : CommMap) (base : Nat) : Payload V → Prop
  | .commCreate create => ∃ name rest obj, create.members = [name] :: rest ∧
      cntxt name = .ok (some obj)
  | .commDestroy _ => True
  | payload => Whole payload ∧ ∃ commID op cells name,
      operation base payload = some (commID, op, cells) ∧ commObj commMap commID = .ok name ∧
      ∀ obj, cntxt name = .ok (some obj) → Suits obj op

/-- What comes to a server: events that it can process, at addresses that are not in use,
and one response to each request of its own, which it reads when there are any. -/
def Admissible (cntxt : Cntxt V) (s : ServerState V) : Label V → Prop
  | .routerEvent event _ key base id => key ∉ s.finiMap.map Prod.fst ∧
      s.ctx.commReqs id = none ∧ Accepts cntxt s.commMap base event.payload
  | .arrive ev => s.ctx.Admissible (.arrive ev) ∧
      ∀ commReq, s.ctx.commReqs ev.base.id = some commReq → Fits cntxt commReq.kind ev
  | .makeProgress => s.ctx.channel ≠ []

def Label.request : Label V → Option (FiniEntry V)
  | .routerEvent event chan _ _ _ =>
      if (requests event.payload).isSome then some ⟨event, chan⟩ else none
  | _ => none

/-- What comes is processed, and leaves the server in order with the request received. -/
def Proceeds [Zero V] [Add V] (cntxt : Cntxt V) (s : ServerState V) (l : Label V) : Prop :=
  ∃ t, s.exec cntxt l = .ok (some t) ∧ Consistent cntxt none t ∧
    t.received = s.received ++ l.request.toList

variable [Zero V] [Add V]

theorem request_proceeds (h : Consistent cntxt none s) {event : Router.RouterEvent V}
    {chan : Nat} {key : EventKey} {base : Nat} {id : EventId}
    (hkey : key ∉ s.finiMap.map Prod.fst) (hfresh : s.ctx.commReqs id = none)
    {call : CommID × ClientState.Operation V × Nat} {name : ObjID}
    (hop : operation base event.payload = some call) (hname : commObj s.commMap call.1 = .ok name)
    (hsuits : ∀ obj, cntxt name = .ok (some obj) → Suits obj call.2.1) :
    s.Proceeds cntxt (.routerEvent event chan key base id) := by
  obtain ⟨obj, hobj⟩ := h.objects call.1 name hname
  obtain ⟨t, ht, hconsistent, hreceived⟩ :=
    processRequest_ok h hkey hfresh hop hname hobj (hsuits obj hobj)
  refine ⟨t, map_eq_ok.mpr ⟨t, ht, rfl⟩, hconsistent, ?_⟩
  rw [Label.request, if_pos (operation_requests hop)]
  exact hreceived

theorem other_proceeds {event : Router.RouterEvent V} {chan : Nat} {key : EventKey}
    {base : Nat} {id : EventId} (hrequest : requests event.payload = none)
    (h : ∃ t, s.processRouterEvent cntxt event chan key base id = .ok t ∧
      Consistent cntxt none t ∧ t.received = s.received) :
    s.Proceeds cntxt (.routerEvent event chan key base id) := by
  obtain ⟨t, ht, hconsistent, hreceived⟩ := h
  refine ⟨t, map_eq_ok.mpr ⟨t, ht, rfl⟩, hconsistent, ?_⟩
  rw [Label.request, hrequest, hreceived]
  exact (List.append_nil _).symm

theorem routerEvent_proceeds (h : Consistent cntxt none s) {event : Router.RouterEvent V}
    {chan : Nat} {key : EventKey} {base : Nat} {id : EventId}
    (hadm : s.Admissible cntxt (.routerEvent event chan key base id)) :
    s.Proceeds cntxt (.routerEvent event chan key base id) := by
  obtain ⟨hkey, hfresh, haccepts⟩ := hadm
  obtain ⟨src, dest, payload⟩ := event
  cases payload with
  | commCreate create =>
      obtain ⟨name, rest, obj, hmembers, hobj⟩ := haccepts
      exact other_proceeds rfl (processCreate_ok h chan base id hkey rfl hmembers hobj)
  | commDestroy destroy => exact other_proceeds rfl (processDestroy_ok h chan base id hkey rfl)
  | commReq req =>
      obtain ⟨_, _, _, _, _, hop, hname, hsuits⟩ := haccepts
      exact request_proceeds h hkey hfresh hop hname hsuits
  | commLogReq req =>
      obtain ⟨_, _, _, _, _, hop, hname, hsuits⟩ := haccepts
      exact request_proceeds h hkey hfresh hop hname hsuits
  | commGetSamplesReq req =>
      obtain ⟨_, _, _, _, _, hop, hname, hsuits⟩ := haccepts
      exact request_proceeds h hkey hfresh hop hname hsuits
  | _ =>
      obtain ⟨_, _, _, _, _, hop, _⟩ := haccepts
      cases hop

theorem exec_proceeds (h : Consistent cntxt none s) {l : Label V}
    (hadm : s.Admissible cntxt l) : s.Proceeds cntxt l := by
  cases l with
  | routerEvent event chan key base id => exact routerEvent_proceeds h hadm
  | arrive ev =>
      obtain ⟨t, ht, hconsistent, hreceived⟩ := arrive_ok h hadm.1.1 hadm.2
      exact ⟨t, ht, hconsistent, hreceived.trans (List.append_nil _).symm⟩
  | makeProgress =>
      obtain ⟨t, ht, hconsistent, hreceived, _⟩ := makeProgress_ok h hadm
      exact ⟨t, ht, hconsistent, hreceived.trans (List.append_nil _).symm⟩

/-- Something comes that may, and the server goes on. -/
def Step (cntxt : Cntxt V) (s : ServerState V) (l : Label V) (t : ServerState V) : Prop :=
  s.Admissible cntxt l ∧ s.exec cntxt l = .ok (some t)

omit [Zero V] [Add V] in
theorem consistent_start (cntxt : Cntxt V) (buf : Nat → V × PwrTime) :
    Consistent cntxt none (start buf) where
  linked := ClientState.linked_start _ _ _
  keys := List.nodup_nil
  once := .refl _
  asked := fun _ h => absurd h List.not_mem_nil
  replies := fun _ h => absurd h List.not_mem_nil
  known := fun _ _ h => absurd h List.not_mem_nil
  waits := fun _ h => absurd h List.not_mem_nil
  idle := fun _ _ => rfl
  fits := fun _ h => absurd h List.not_mem_nil
  objects := fun _ _ h => by cases h

theorem run_consistent {t : ServerState V} {ls : List (Label V)} (h : Consistent cntxt none s)
    (hrun : Run (Step cntxt) s ls t) :
    Consistent cntxt none t ∧ t.received = s.received ++ ls.filterMap Label.request := by
  induction hrun with
  | nil => exact ⟨h, (List.append_nil _).symm⟩
  | @cons s mid t l ls hstep _ ih =>
      obtain ⟨hadm, hexec⟩ := hstep
      obtain ⟨mid', hmid', hconsistent, hreceived⟩ := exec_proceeds h hadm
      obtain rfl := Option.some.inj (Except.ok.inj (hexec.symm.trans hmid'))
      obtain ⟨ht, hall⟩ := ih hconsistent
      refine ⟨ht, ?_⟩
      rw [hall, hreceived, List.append_assoc, List.filterMap_cons]
      cases l.request <;> rfl

end Arrivals

/-- Each request is answered once, and nothing else: those that came were answered or are in
the table, where each waits for a response that has not been read. A response that is read
answers one of them, and nothing that comes fails. -/
structure AnswersEach [Zero V] [Add V] (cntxt : Cntxt V) (ls : List (Label V))
    (s : ServerState V) : Prop where
  once : (ls.filterMap Label.request).Perm (s.sent.map Reply.entry ++ s.finiMap.map Prod.snd)
  replies : ∀ reply ∈ s.sent, reply.Answers
  awaits : ∀ key entry, (key, entry) ∈ s.finiMap →
    ∃ id kind, id ∈ s.ctx.expected ∧ s.ctx.commReqs id = some ⟨kind, key⟩
  answers : s.ctx.channel ≠ [] → ∃ t key entry reply, s.makeProgress cntxt = .ok (some t) ∧
    s.finiMap.lookup key = some entry ∧ reply.entry = entry ∧
    t.finiMap = Table.erase key s.finiMap ∧ t.sent = s.sent ++ [reply]
  proceeds : ∀ l, s.Admissible cntxt l → ∃ t, s.exec cntxt l = .ok (some t)

theorem requests_answered_once [Zero V] [Add V] {cntxt : Cntxt V} {buf : Nat → V × PwrTime}
    {ls : List (Label V)} {s : ServerState V} (hrun : Run (Step cntxt) (start buf) ls s) :
    s.AnswersEach cntxt ls := by
  obtain ⟨h, hreceived⟩ := run_consistent (consistent_start cntxt buf) hrun
  refine ⟨?_, h.replies, ?_, ?_, ?_⟩
  · have honce := h.once
    rwa [hreceived] at honce
  · intro key entry hentry
    have hkey : key ∈ s.finiMap.map Prod.fst := List.mem_map.mpr ⟨(key, entry), hentry, rfl⟩
    obtain ⟨id, hsent⟩ := (h.waits key hkey (by simp)).sent
    have hmem : id ∈ (s.ctx.reqs key).commReqs := by
      rw [hsent]
      exact List.mem_singleton_self id
    obtain ⟨kind, hkind⟩ := h.linked.owner key id hmem
    exact ⟨id, kind, (h.linked.underWay id).mpr ⟨key, hmem⟩, hkind⟩
  · intro hchannel
    obtain ⟨t, ht, _, _, key, entry, reply, hlookup, hreply, herase, hsent⟩ :=
      makeProgress_ok h hchannel
    exact ⟨t, key, entry, reply, ht, hlookup, hreply, herase, hsent⟩
  · intro l hadm
    obtain ⟨t, ht, _⟩ := exec_proceeds h hadm
    exact ⟨t, ht⟩

section Pair

/-- A device with the value 3 that takes no logs and no samples. -/
def steadyDevice : Device Int := ⟨fun _ _ => (Ret.success, 3, 1), fun _ _ _ => Ret.success,
  none, none, none⟩

/-- An object with `count` such devices for each attribute. -/
def localObject (count : Nat) : DistObject Int where
  name := [112]
  attrInfo := fun _ => ⟨List.replicate count steadyDevice, none, List.sum, .fpAdd⟩
  notMixed := fun _ h => absurd rfl h
  sameComm := fun _ _ h => absurd rfl h

/-- A context with a local object and one that is served elsewhere. -/
def pairCntxt (count : Nat) : Cntxt Int := fun name =>
  .ok (if name = [112] then some (localObject count)
    else if name = [110] then some (Caching.servedHeap true) else none)

def createLabel (commID : CommID) (name : ObjID) : Label Int :=
  .routerEvent ⟨0, 1, .commCreate
    { toCommEvent := { Router.newCommEvent .commCreate 0 0 with commID }, members := [[name]] }⟩
    5 20 0 100

def getLabel (commID : CommID) (key : EventKey) (id : EventId) : Label Int :=
  .routerEvent ⟨0, 1, .commReq { DistComm.getValues [.power] [.fpAdd] with
    toCommEvent := { Router.newCommEvent .commReq 9 0 with commID, op := .get } }⟩ 5 key key id

/-- The communicators of both objects, a read of each, and the response to the second. -/
def twoReads : List (Label Int) :=
  [createLabel 1 [112], createLabel 2 [110], getLabel 1 30 300, getLabel 2 40 400,
    .arrive (.commResp (Server.commResp { DistComm.getValues [.power] [.fpAdd] with
      toCommEvent := { Router.newCommEvent .commReq 400 0 with op := .get } } [(7, 1)])),
    .makeProgress]

theorem twoReads_run : ∃ s, Run (Step (pairCntxt 1)) (start fun _ => (0, 0)) twoReads s ∧
    s.sent.length = 2 ∧ s.finiMap = [] := by
  refine ⟨_, .cons ⟨⟨by decide, rfl, ?_⟩, rfl⟩ (.cons ⟨⟨?_, rfl, ?_⟩, rfl⟩
    (.cons ⟨⟨?_, rfl, ?_⟩, rfl⟩ (.cons ⟨⟨?_, rfl, ?_⟩, rfl⟩ (.cons ⟨⟨?_, ?_⟩, rfl⟩
    (.cons ⟨?_, rfl⟩ (.nil _)))))), rfl, rfl⟩
  · exact ⟨[112], [], localObject 1, rfl, rfl⟩
  · exact List.not_mem_nil
  · exact ⟨[110], [], Caching.servedHeap true, rfl, rfl⟩
  · exact List.not_mem_nil
  · refine ⟨.inl rfl, _, _, _, [112], rfl, rfl, ?_⟩
    rintro obj ⟨⟩
    exact ⟨.inl fun _ => rfl, List.cons_ne_nil _ _, .inl fun _ _ => .inl (List.cons_ne_nil _ _)⟩
  · exact List.not_mem_nil
  · refine ⟨.inl rfl, _, _, _, [110], rfl, rfl, ?_⟩
    rintro obj ⟨⟩
    exact ⟨.inr fun _ => rfl, List.cons_ne_nil _ _, .inl fun _ _ => .inr (Option.some_ne_none _)⟩
  · exact ⟨List.mem_singleton_self _, rfl⟩
  · rintro commReq ⟨⟩
    exact ⟨rfl, rfl, rfl, fun _ hname => absurd hname List.not_mem_nil⟩
  · exact List.cons_ne_nil _ _

theorem requests_answered_once_twoReads :
    ∃ s : ServerState Int, s.sent.length = 2 ∧ s.finiMap = [] ∧
      s.AnswersEach (pairCntxt 1) twoReads := by
  obtain ⟨s, hrun, hsent, hempty⟩ := twoReads_run
  exact ⟨s, hsent, hempty, requests_answered_once hrun⟩

/-- A request for four samples of the local object. -/
def samplesLabel : Label Int :=
  .routerEvent ⟨0, 1, .commGetSamplesReq { DistComm.getSamples .power 0 1 4 with
    toCommEvent := { Router.newCommEvent .commGetSamplesReq 9 0 with commID := 1 } }⟩ 5 30 30 300

/-- The request is for a valid attribute of a local object that is known, and aborts the
server, which has not answered it. -/
theorem samples_of_two_devices_abort :
    ∃ s, Run (Step (pairCntxt 2)) (start fun _ => (0, 0)) [createLabel 1 [112]] s ∧
      s.finiMap = [] ∧ s.sent = [] ∧ commObj s.commMap 1 = .ok [112] ∧
      pairCntxt 2 [112] = .ok (some (localObject 2)) ∧ Uniform (localObject 2) ∧
      Unmixed (localObject 2) [.power] ∧
      s.exec (pairCntxt 2) samplesLabel = .error .assertFailed := by
  refine ⟨_, .cons ⟨⟨List.not_mem_nil, rfl, ?_⟩, rfl⟩ (.nil _), rfl, rfl, rfl, rfl,
    .inl fun _ => rfl, ⟨List.cons_ne_nil _ _, .inl fun _ _ => .inl (List.cons_ne_nil _ _)⟩, rfl⟩
  exact ⟨[112], [], localObject 2, rfl, rfl⟩

end Pair

end ServerState

end PwrApi
