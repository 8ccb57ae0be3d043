import PwrApi.Deploy.Service

/-! Requests and answers end to end: what a router was answered is what it has asked for, apart
from what is under way, waits in a queue or is served. -/

namespace PwrApi.Service

open Function Runs Router

variable {α V : Type}

section Rest

variable [DecidableEq α]

/-- Nothing is on the connections, waits for a server, or is to be read or answered by one. -/
structure AtRest (s : Service α V) : Prop where
  flight : s.transport.flight = []
  queues : ∀ x id, (s.transport.routers x).mail.pendingEvents id = []
  read : ∀ k, s.read k = (s.written k).length
  served : ∀ k, (s.servers k).finiMap = []
  taken : ∀ k, s.taken k = (s.servers k).sent

/-- Nothing is under way, and all events are for routers of the tree. -/
def Settled (net : TreeNetwork α) (s : Service α V) : Prop :=
  s.AtRest ∧ ∀ e ∈ s.transport.made, ∃ y, rtrIdOf e.2.dest = net.id y

/-- The requests that the router at `x` has sent to servers. -/
def requestsOf (s : Service α V) (x : α) : List (RouterEvent V) :=
  ((s.transport.made.filter fun e => e.1 = x).map Prod.snd).filter isRequest

def answersOf (s : Service α V) (x : α) : List (RouterEvent V) :=
  (s.transport.routers x).ownCalls.filter fun re => isResponse re.payload

/-- The replies of the servers of `y` to the router at `x`, as `y` has read them. -/
def repliesFor (net : TreeNetwork α) (s : Service α V) (y x : α) :
    List ((α × ServerChan) × Reply V) :=
  s.came.filter fun c => c.1.1 = y ∧ rtrIdOf c.2.event.dest = net.id x

/-- The replies whose answers have come to the router at `x`, of those of the servers of one
router the first ones. -/
structure Traced (net : TreeNetwork α) (s : Service α V) (x : α)
    (came : List ((α × ServerChan) × Reply V)) : Prop where
  events : came.map (fun c => c.2.event) = s.answersOf x
  order : ∀ y, (came.filter fun c => c.1.1 = y) <+: s.repliesFor net y x

end Rest

section Tags

variable {re : RouterEvent V}

theorem not_isResponse_of_isRequest (h : isRequest re = true) : ¬ isResponse re.payload := by
  unfold isRequest at h
  cases hpayload : re.payload with
  | commReq req => exact Bool.false_ne_true
  | commLogReq req => exact Bool.false_ne_true
  | commGetSamplesReq req => exact Bool.false_ne_true
  | _ =>
      rw [hpayload] at h
      cases h

theorem askedTag_of_matches {req resp : Payload V} (h : Matches req resp) :
    askedTag req = tagOf resp := by
  cases req with
  | commReq req =>
      cases resp with
      | commResp resp =>
          obtain ⟨hid, hgroup⟩ := h
          simp [askedTag, Server.requests, tagOf, hid, hgroup]
      | _ => cases h
  | commLogReq req =>
      cases resp with
      | commLogResp resp =>
          have hid : resp.id = req.id := h
          simp [askedTag, Server.requests, tagOf, hid]
      | _ => cases h
  | commGetSamplesReq req =>
      cases resp with
      | commGetSamplesResp resp =>
          have hid : resp.id = req.id := h
          simp [askedTag, Server.requests, tagOf, hid]
      | _ => cases h
  | _ => cases h

theorem answeredTag_reply {reply : Reply V} (h : reply.Answers) :
    answeredTag reply.event.payload = askedTag reply.entry.event.payload := by
  rw [answeredTag, if_pos (isResponse_of_matches h.payload), askedTag_of_matches h.payload]

end Tags

section Stages

variable [DecidableEq α] [Zero V] [Add V] {net : TreeNetwork α}
  {cntxt : α × ServerChan → Cntxt V} {table : α → ObjID → Option AppID} {s : Service α V}

theorem tree_in_order (h : Inv net cntxt table s) (x y : α) :
    ∃ rest, s.transport.sent net x y = s.transport.seen net x y y ++ rest ∧
      (s.transport.flight = [] → rest = []) := by
  obtain ⟨path, hroute⟩ : ∃ path, ParentTree.Route net.toParentTree y x path :=
    ParentTree.Route.exists_route x
  obtain ⟨ls, t, hrun, ht⟩ := h.relay
  obtain ⟨horder, _⟩ :=
    Relay.run_in_order hrun (Transport.trace_of_route hroute) hroute.last_eq
  rw [ht.entered, ht.taken, ht.flight] at horder
  refine ⟨_, horder, fun hflight => ?_⟩
  rw [hflight, Relay.onWay_nil]

theorem Inv.entered (h : Inv net cntxt table s) {z : α} {re : RouterEvent V}
    (hre : re ∈ (s.transport.routers z).mail.calls.map Prod.snd) :
    ∃ a, (a, re) ∈ s.transport.made ∧ rtrIdOf re.src = net.id a := by
  obtain ⟨ls, t, hrun, ht⟩ := h.relay
  have hentered := Relay.run_entered hrun
  obtain ⟨a, ha⟩ := hentered.taken z re (by rwa [ht.taken])
  exact ⟨a, ht.entered ▸ ha, hentered.origin (a, re) ha⟩

theorem Inv.mem_came (h : Inv net cntxt table s) {c : (α × ServerChan) × Reply V}
    (hc : c ∈ s.came) : c.2 ∈ (s.servers c.1).sent := by
  refine (h.taken c.1).subset ?_
  exact List.mem_map.mpr ⟨c, List.mem_filter.mpr ⟨hc, decide_eq_true rfl⟩, rfl⟩

theorem Inv.response (h : Inv net cntxt table s) {a : α} {re : RouterEvent V}
    (hre : (a, re) ∈ s.transport.made) (hresp : isResponse re.payload = true) :
    ∃ ec, ∃ reply ∈ (s.servers (a, ec)).sent, reply.event = re := by
  have hmem : (a, re) ∈ s.transport.made.filter fun e => isResponse e.2.payload :=
    List.mem_filter.mpr ⟨hre, hresp⟩
  rw [h.replies] at hmem
  obtain ⟨⟨⟨x, ec⟩, reply⟩, hc, heq⟩ := List.mem_map.mp hmem
  obtain ⟨rfl, rfl⟩ := Prod.mk.inj heq
  exact ⟨ec, reply, h.mem_came hc, rfl⟩

theorem Inv.request_src (h : Inv net cntxt table s) {z : α} {re : RouterEvent V}
    (hre : re ∈ (s.transport.routers z).mail.calls.map Prod.snd) (hrequest : isRequest re = true) :
    ∃ a, (a, re) ∈ s.transport.made ∧ re.src = appId (net.id a) noServer := by
  obtain ⟨a, ha, _⟩ := h.entered hre
  exact ⟨a, ha, h.own (a, re) ha (not_isResponse_of_isRequest hrequest)⟩

theorem Inv.mem_calls (h : Inv net cntxt table s) {k : α × ServerChan} {re : RouterEvent V}
    (hre : re ∈ s.written k) (hrequest : isRequest re = true) :
    re ∈ (s.transport.routers k.1).mail.calls.map Prod.snd := by
  rw [Service.written, writtenTo_eq] at hre
  obtain ⟨e, he, rfl⟩ := List.mem_map.mp hre
  have hserver : e.2 ∈ ((s.transport.routers k.1).toServers.map Prod.snd).filter isRequest :=
    List.mem_filter.mpr ⟨List.mem_map_of_mem (List.mem_of_mem_filter he), hrequest⟩
  have hpasses : Passes False _ _ := h.written k.1 False.elim
  exact List.mem_of_mem_filter (hpasses.once.subset hserver)

theorem passes_server (h : Inv net cntxt table s) (k : α × ServerChan) :
    Passes s.AtRest ((s.written k).filter isRequest)
      ((s.taken k).map fun reply => reply.entry.event) := by
  have hread : Passes s.AtRest ((s.written k).filter isRequest)
      ((s.servers k).received.map (·.event)) := by
    have hperm : ((s.written k).filter isRequest).Perm
        ((s.servers k).received.map (·.event) ++
          ((s.written k).drop (s.read k)).filter isRequest) := by
      rw [h.received k, ← List.filter_append, List.take_append_drop]
    refine .of_rest hperm fun hrest => ?_
    rw [hrest.read k, List.drop_length]
    rfl
  have hserved : Passes s.AtRest (s.servers k).received ((s.servers k).sent.map Reply.entry) := by
    refine .of_rest (h.consistent k).once fun hrest => ?_
    rw [hrest.served k]
    rfl
  have htaken : Passes s.AtRest (s.servers k).sent (s.taken k) := by
    obtain ⟨rest, hall⟩ := h.taken k
    have hperm : (s.servers k).sent.Perm (s.taken k ++ rest) := .of_eq hall.symm
    refine .of_rest hperm fun hrest => ?_
    rw [← hrest.taken k] at hall
    exact List.append_cancel_left (hall.trans (List.append_nil _).symm)
  have hsent := (hserved.trans (htaken.map Reply.entry)).map (·.event)
  rw [List.map_map] at hsent
  exact hread.trans hsent

theorem passes_servers (h : Inv net cntxt table s) (y : α) :
    Passes s.AtRest (((s.transport.routers y).toServers.map Prod.snd).filter isRequest)
      ((s.came.filter fun c => c.1.1 = y).map fun c => c.2.entry.event) := by
  have hpairs : Passes s.AtRest ((s.transport.routers y).toServers.filter fun e => isRequest e.2)
      ((s.came.filter fun c => c.1.1 = y).map fun c => (c.1.2, c.2.entry.event)) := by
    refine .of_pairs fun ec => ?_
    have hinto : ((((s.transport.routers y).toServers.filter fun e => isRequest e.2).filter
        fun e => e.1 = ec).map Prod.snd) = (s.written (y, ec)).filter isRequest := by
      rw [Service.written, writtenTo_eq, List.filter_map, List.filter_filter, List.filter_filter]
      congr 1
      exact List.filter_congr fun e _ => Bool.and_comm _ _
    have hout : ((((s.came.filter fun c => c.1.1 = y).map fun c =>
        (c.1.2, c.2.entry.event)).filter fun e => e.1 = ec).map Prod.snd) =
        (s.taken (y, ec)).map fun reply => reply.entry.event := by
      rw [Service.taken, eventsFor, List.filter_map, List.filter_filter, List.map_map,
        List.map_map]
      congr 1
      refine List.filter_congr fun c _ => ?_
      simp [Prod.ext_iff, Bool.and_comm]
    rw [hinto, hout]
    exact passes_server h (y, ec)
  have hall := hpairs.map Prod.snd
  rw [List.map_map] at hall
  rw [List.filter_map]
  exact hall

theorem requests_sent (h : Inv net cntxt table s) (x y : α) :
    ((s.requestsOf x).filter fun re => rtrIdOf re.dest = net.id y) =
      (s.transport.sent net x y).filter isRequest := by
  rw [requestsOf, Transport.sent, Transport.between, List.filter_filter, List.filter_filter]
  refine List.filter_congr fun re hre => ?_
  obtain ⟨⟨z, re⟩, hmem, rfl⟩ := List.mem_map.mp hre
  obtain ⟨hmade, hz⟩ := List.mem_filter.mp hmem
  obtain rfl : z = x := of_decide_eq_true hz
  cases hrequest : isRequest re with
  | false => simp
  | true =>
      have hsrc := h.own (z, re) hmade (not_isResponse_of_isRequest hrequest)
      have hsrc : rtrIdOf re.src = net.id z := by rw [hsrc, rtrIdOf_appId]
      simp [hsrc]

theorem Inv.came_answers (h : Inv net cntxt table s) {c : (α × ServerChan) × Reply V}
    (hc : c ∈ s.came) :
    c.2.Answers ∧ isRequest c.2.entry.event = true ∧
      rtrIdOf c.2.entry.event.dest = net.id c.1.1 ∧ rtrIdOf c.2.event.src = net.id c.1.1 := by
  obtain ⟨hanswers, _, hrequest, hlocal⟩ := h.sent (h.mem_came hc)
  exact ⟨hanswers, hrequest, hlocal, by rw [hanswers.src, hlocal]⟩

theorem Inv.answers_at (h : Inv net cntxt table s) {came : List ((α × ServerChan) × Reply V)}
    (hmem : ∀ c ∈ came, c ∈ s.came) (y : α) :
    ((came.map fun c => c.2.event).filter fun re => rtrIdOf re.src = net.id y) =
      (came.filter fun c => c.1.1 = y).map fun c => c.2.event := by
  rw [List.filter_map]
  congr 1
  refine List.filter_congr fun c hc => ?_
  have hiff : rtrIdOf c.2.event.src = net.id y ↔ c.1.1 = y := by
    rw [(h.came_answers (hmem c hc)).2.2.2]
    exact ⟨fun heq => net.id_inj _ _ heq, fun heq => by rw [heq]⟩
  simp [hiff]

theorem replies_sent (h : Inv net cntxt table s) (y x : α) :
    ((s.transport.sent net y x).filter fun re => isResponse re.payload) =
      (s.repliesFor net y x).map fun c => c.2.event := by
  have hcame := congrArg (fun l => (l.filter fun e => e.1 = y).map Prod.snd) h.replies
  rw [List.filter_map, List.map_map, List.filter_filter] at hcame
  have hresponses : (((s.transport.made.filter fun e => e.1 = y).map Prod.snd).filter fun re =>
      isResponse re.payload) = (s.came.filter fun c => c.1.1 = y).map fun c => c.2.event := by
    rw [List.filter_map, List.filter_filter]
    refine Eq.trans ?_ hcame
    congr 1
    exact List.filter_congr fun e _ => Bool.and_comm _ _
  have hsplit : ((s.transport.sent net y x).filter fun re => isResponse re.payload) =
      ((((s.transport.made.filter fun e => e.1 = y).map Prod.snd).filter fun re =>
        isResponse re.payload).filter fun re =>
          rtrIdOf re.src = net.id y ∧ rtrIdOf re.dest = net.id x) := by
    rw [Transport.sent, Transport.between, List.filter_filter, List.filter_filter]
    exact List.filter_congr fun re _ => Bool.and_comm _ _
  rw [hsplit, hresponses, List.filter_map, List.filter_filter, repliesFor]
  congr 1
  refine List.filter_congr fun c hc => ?_
  by_cases hy : c.1.1 = y
  · simp [← hy, (h.came_answers hc).2.2.2]
  · simp [hy]

theorem answers_seen (h : Inv net cntxt table s) (y x : α) :
    ((s.answersOf x).filter fun re => rtrIdOf re.src = net.id y) =
      (s.transport.seen net y x x).filter fun re => isResponse re.payload := by
  rw [answersOf, ownCalls, Transport.seen, Transport.between, List.filter_filter,
    List.filter_filter, List.filter_filter]
  refine List.filter_congr fun re hre => ?_
  cases hresp : isResponse re.payload with
  | false => simp
  | true =>
      obtain ⟨a, hmade, _⟩ := h.entered hre
      obtain ⟨ec, reply, hreply, rfl⟩ := h.response hmade hresp
      obtain ⟨hanswers, hwritten, hrequest, _⟩ := h.sent hreply
      obtain ⟨b, _, hb⟩ := h.request_src (h.mem_calls hwritten hrequest) hrequest
      -- the reply goes to the router that has asked, not to one of its servers
      have hdest : reply.event.dest = appId (net.id b) noServer := by rw [hanswers.dest, hb]
      have hown : reply.event.dest = appId (s.transport.routers x).rtrId noServer ↔
          rtrIdOf reply.event.dest = net.id x := by
        rw [hdest, rtrIdOf_appId, h.rtrId]
        exact ⟨fun heq => by simpa using congrArg rtrIdOf heq, fun heq => by rw [heq]⟩
      by_cases hx : rtrIdOf reply.event.dest = net.id x <;> simp [hown, hx]

theorem passes_requests (h : Inv net cntxt table s) (x y : α) :
    Passes s.AtRest ((s.transport.seen net x y y).filter isRequest)
      ((s.repliesFor net y x).map fun c => c.2.entry.event) := by
  have hservers := (h.written y fun hrest => (AtRest.queues hrest) y).trans (passes_servers h y)
  have hfrom := hservers.filter fun re => rtrIdOf re.src = net.id x
  have hinto : ((((s.transport.routers y).mail.calls.map Prod.snd).filter fun re =>
      rtrIdOf re.dest = net.id y ∧ isRequest re).filter fun re => rtrIdOf re.src = net.id x) =
      (s.transport.seen net x y y).filter isRequest := by
    rw [Transport.seen, Transport.between, List.filter_filter, List.filter_filter]
    refine List.filter_congr fun re _ => ?_
    cases isRequest re <;> simp
  have hout : (((s.came.filter fun c => c.1.1 = y).map fun c => c.2.entry.event).filter fun re =>
      rtrIdOf re.src = net.id x) = (s.repliesFor net y x).map fun c => c.2.entry.event := by
    rw [List.filter_map, List.filter_filter, repliesFor]
    congr 1
    refine List.filter_congr fun c hc => ?_
    simp [(h.came_answers hc).1.dest, Bool.and_comm]
  rwa [hinto, hout] at hfrom

end Stages

section Tracing

variable [DecidableEq α] {net : TreeNetwork α} {table : α → ObjID → Option AppID}
  {s s' : Service α V} {x : α} {came : List ((α × ServerChan) × Reply V)}

theorem traced_start (buf : α × ServerChan → Nat → V × PwrTime) :
    Traced net (start net table buf) x [] :=
  ⟨rfl, fun _ => List.nil_prefix⟩

theorem Traced.mem (h : Traced net s x came) {c : (α × ServerChan) × Reply V} (hc : c ∈ came) :
    c ∈ s.came :=
  List.mem_of_mem_filter ((h.order c.1.1).subset
    (List.mem_filter.mpr ⟨hc, decide_eq_true rfl⟩))

theorem Traced.mono (h : Traced net s x came) (hanswers : s'.answersOf x = s.answersOf x)
    (hcame : s.came <+: s'.came) : Traced net s' x came :=
  ⟨h.events.trans hanswers.symm, fun y => (h.order y).trans (hcame.filter _)⟩

variable [Zero V] [Add V] {cntxt : α × ServerChan → Cntxt V}

theorem Traced.take (h : Traced net s x came) (hinv : Inv net cntxt table s')
    (hcame : s.came <+: s'.came) {re : RouterEvent V}
    (hanswers : s'.answersOf x = s.answersOf x ++ [re]) :
    ∃ c, c.2.event = re ∧ Traced net s' x (came ++ [c]) := by
  have hmem : re ∈ s'.answersOf x := hanswers ▸ List.mem_append_right _ (List.mem_singleton_self _)
  obtain ⟨hown, hresp⟩ := List.mem_filter.mp hmem
  obtain ⟨y, hmade, hsrc⟩ := hinv.entered (List.mem_of_mem_filter hown)
  have hlater : ∀ z, (came.filter fun c => c.1.1 = z) <+: s'.repliesFor net z x :=
    fun z => (h.order z).trans (hcame.filter _)
  have hbefore : ((s'.answersOf x).filter fun re => rtrIdOf re.src = net.id y) =
      ((came.filter fun c => c.1.1 = y).map fun c => c.2.event) ++ [re] := by
    have hold := hinv.answers_at (fun c hc => hcame.subset (h.mem hc)) y
    rw [hanswers, List.filter_append, ← h.events, hold]
    simp [hsrc]
  obtain ⟨rest, horder, _⟩ := tree_in_order hinv y x
  have hreplies := replies_sent hinv y x
  rw [horder, List.filter_append, ← answers_seen hinv, hbefore] at hreplies
  obtain ⟨more, hmore⟩ := hlater y
  rw [← hmore, List.map_append, List.append_assoc, List.append_cancel_left_eq] at hreplies
  cases more with
  | nil => cases hreplies
  | cons c more =>
      obtain ⟨hre, _⟩ := List.cons.inj hreplies
      have hc : c ∈ s'.repliesFor net y x := hmore ▸ List.mem_append_right _ List.mem_cons_self
      have hat : c.1.1 = y := (of_decide_eq_true (List.mem_filter.mp hc).2).1
      refine ⟨c, hre.symm, ?_, fun z => ?_⟩
      · rw [List.map_append, h.events, hanswers, hre]
        rfl
      · rw [List.filter_append]
        by_cases hz : c.1.1 = z
        · obtain rfl : z = y := hz.symm.trans hat
          refine ⟨more, ?_⟩
          rw [← hmore]
          simp [hz]
        · have hnone : ([c].filter fun c => c.1.1 = z) = [] := by simp [hz]
          rw [hnone, List.append_nil]
          exact hlater z

theorem Traced.passes (h : Traced net s x came) (hinv : Inv net cntxt table s) :
    Passes (Settled net s) (s.requestsOf x) (came.map fun c => c.2.entry.event) := by
  refine .of_keys (fun re => rtrIdOf re.dest) fun d => ?_
  have hlocal : ∀ c ∈ came, rtrIdOf c.2.entry.event.dest = net.id c.1.1 :=
    fun c hc => (hinv.came_answers (h.mem hc)).2.2.1
  by_cases hd : ∃ y, d = net.id y
  · obtain ⟨y, rfl⟩ := hd
    have hout : ((came.map fun c => c.2.entry.event).filter fun re => rtrIdOf re.dest = net.id y) =
        (came.filter fun c => c.1.1 = y).map fun c => c.2.entry.event := by
      rw [List.filter_map]
      congr 1
      refine List.filter_congr fun c hc => ?_
      have hiff : rtrIdOf c.2.entry.event.dest = net.id y ↔ c.1.1 = y := by
        rw [hlocal c hc]
        exact ⟨fun heq => net.id_inj _ _ heq, fun heq => by rw [heq]⟩
      simp [hiff]
    obtain ⟨there, hthere, hnothing⟩ := tree_in_order hinv x y
    have hsent : Passes (Settled net s) (s.transport.sent net x y) (s.transport.seen net x y y) :=
      .of_rest (.of_eq hthere) fun hrest => hnothing hrest.1.flight
    obtain ⟨back, hback, hempty⟩ := tree_in_order hinv y x
    have hcome : Passes (Settled net s) (s.repliesFor net y x)
        (came.filter fun c => c.1.1 = y) := by
      obtain ⟨rest, hrest⟩ := h.order y
      refine .of_rest (.of_eq hrest.symm) fun hsettled => ?_
      have hall := replies_sent hinv y x
      rw [hback, hempty hsettled.1.flight, List.append_nil, ← answers_seen hinv, ← h.events,
        hinv.answers_at (fun c hc => h.mem hc), ← hrest] at hall
      have hlength := congrArg List.length hall
      rw [List.length_map, List.length_map, List.length_append] at hlength
      exact List.length_eq_zero_iff.mp (by omega)
    rw [requests_sent hinv, hout]
    exact ((hsent.filter isRequest).trans ((passes_requests hinv x y).mono And.left)).trans
      (hcome.map _)
  · constructor
    · have hnone : ((came.map fun c => c.2.entry.event).filter fun re => rtrIdOf re.dest = d) =
          [] := by
        refine List.filter_eq_nil_iff.mpr fun re hre hrtr => hd ?_
        obtain ⟨c, hc, rfl⟩ := List.mem_map.mp hre
        exact ⟨c.1.1, (of_decide_eq_true hrtr).symm.trans (hlocal c hc)⟩
      rw [hnone]
      exact List.nil_subperm
    · rintro ⟨_, hrouted⟩
      have hnone : ((s.requestsOf x).filter fun re => rtrIdOf re.dest = d) = [] := by
        refine List.filter_eq_nil_iff.mpr fun re hre hrtr => hd ?_
        obtain ⟨e, he, rfl⟩ := List.mem_map.mp (List.mem_of_mem_filter hre)
        obtain ⟨y, hy⟩ := hrouted e (List.mem_of_mem_filter he)
        exact ⟨y, (of_decide_eq_true hrtr).symm.trans hy⟩
      rw [hnone]
      exact List.nil_subperm

end Tracing

end PwrApi.Service
