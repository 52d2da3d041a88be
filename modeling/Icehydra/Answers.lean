import Icehydra.Interference

/-!
# Answers — what one frame brings to one connection

A frame the broker has read leads to sends on several connections. On any one of
them it leads to at most one frame, and the frame alone says which: the relayed
one where the connection belongs to a node the frame addresses, the reply where
the frame is a request of this connection. A whole log then holds, for each
connection, frames that are answered in the order in which they were read.
-/

namespace Icehydra

open Block NonBlock
open scoped List

/-! ## The answer -/

/-- What `parser_reserve_cmd` sends for the request. -/
def Frame.reply (nodeStart : PubSubNode) (f : Frame) : Option Frame :=
  match replyBuf nodeStart f.head with
  | some (buf, some data) => some (frameGiven buf data)
  | _ => none

/-- What the frame brings to the process of this name; `own` says whether the
frame is its own. -/
def Frame.answer (cfg : Config) (name : Bytes) (own : Bool) (f : Frame) : Option Frame :=
  if getProtocolCmdType f.head = ihCmdTypeSendReserve then
    if own then f.reply cfg.nodeStart else none
  else if Broker.Relays f.head ∧ ∃ n ∈ cfg.nodes, n.name = name ∧ Addressed f.ids n then
    some f.relayed
  else none

/-- The sends on a connection that have put out all their bytes. -/
def completed (calls : List Call) (cid : Nat) : List Call :=
  calls.filter fun c => c.conn = some cid ∧ c.Complete

/-- The visit has brought the connection of this process its answer, or nothing. -/
structure Visit.Answered (cfg : Config) (name : Bytes) (cid : Nat) (v : Visit) : Prop where
  conn : ∃ src, v.conn = some src
  answer : ∃ gs : List Frame,
    gs <+ (v.frame.answer cfg name (v.conn = some cid)).toList ∧
      (completed v.calls cid).map Call.frame = gs.map Frame.bytes

/-! ## One send for each node -/

theorem Kernel.send_nodes (k : Kernel) (node : Nat) (fd : Int) (cmdHead : Bytes)
    (data : Option Bytes) : (k.send node fd cmdHead data).calls.map Call.node <+ [node] := by
  cases data with
  | none => exact List.nil_sublist _
  | some data =>
      simp only [Kernel.send]
      split
      · exact List.nil_sublist _
      · exact List.Sublist.refl _

theorem upToFailure_nodes {as : List Attempt}
    (h : ∀ a ∈ as, a.calls.map Call.node <+ [a.target.2]) :
    ((upToFailure as).flatMap Attempt.calls).map Call.node
      <+ as.map fun a => a.target.2 := by
  induction as with
  | nil => exact List.nil_sublist _
  | cons a as ih =>
      have hhead : a.calls.map Call.node <+ [a.target.2] := h a (by simp)
      have htail := ih fun b hb => h b (List.mem_cons_of_mem a hb)
      rw [upToFailure]
      split
      · rw [List.flatMap_cons, List.map_append, List.map_cons]
        exact hhead.append htail
      · rw [List.flatMap_singleton, List.map_cons]
        exact hhead.trans (List.singleton_sublist.mpr (by simp))

/-- Distinct ids make distinct recipients. -/
theorem relayAttempts_nodes_nodup {k : Kernel} {nodes : List PubSubNode} {rbuf : Bytes}
    (hids : (frameIds rbuf).Nodup) :
    ((relayAttempts k nodes rbuf).map fun a => a.target.2).Nodup := by
  have htargets : (relayAttempts k nodes rbuf).map Attempt.target
      = recipients (frameIds rbuf) nodes.zipIdx := attempts_targets _ _ _ _
  have hmap : (relayAttempts k nodes rbuf).map (fun a => a.target.2)
      = (recipients (frameIds rbuf) nodes.zipIdx).map Prod.snd := by
    rw [← htargets, List.map_map]
    rfl
  rw [hmap, recipients_of_nodup hids]
  have hidx : (nodes.zipIdx.map Prod.snd).Nodup := by
    rw [List.zipIdx_map_snd]
    exact List.nodup_range'
  exact List.Nodup.sublist (List.filter_sublist.map Prod.snd) hidx

namespace Broker

theorem outgoing_nodes_nodup {s : Broker} (hlen : protocolCmdHeadLen ≤ s.rbuf.length)
    (hids : Relays s.rbuf → (frameIds s.rbuf).Nodup) (i : Nat) (cur : PubSubNode) :
    ((s.outgoing i cur).calls.map Call.node).Nodup := by
  by_cases hrel : Relays s.rbuf
  · rw [outgoing_calls hrel hlen]
    have hnodup : ((relayAttempts s.kernel s.nodes s.rbuf).map fun a => a.target.2).Nodup :=
      relayAttempts_nodes_nodup (hids hrel)
    refine List.Nodup.sublist ?_ hnodup
    apply upToFailure_nodes
    intro a ha
    obtain ⟨-, k', -, hcalls, -⟩ := mem_attempts ha
    rw [hcalls]
    exact Kernel.send_nodes _ _ _ _ _
  · cases hcalls : (s.outgoing i cur).calls with
    | nil => exact List.nodup_nil
    | cons c cs =>
        obtain ⟨buf, data, -, hsend⟩ :=
          outgoing_reply (i := i) (c := c) hrel (by rw [hcalls]; simp)
        rw [← hcalls, hsend]
        exact List.Nodup.sublist (Kernel.send_nodes _ _ _ _ _) (by simp)

/-- The nodes keep the names and ids of the configuration. -/
theorem exists_of_static {cfg : Config} {s : Broker} (hinv : Inv cfg s) {n : PubSubNode}
    (hn : n ∈ s.nodes) : ∃ m ∈ cfg.nodes, m.name = n.name ∧ m.id = n.id := by
  have hmem : (n.name, n.id) ∈ staticOf cfg.nodes := by
    rw [← hinv.static]
    exact List.mem_map_of_mem (f := fun n : PubSubNode => (n.name, n.id)) hn
  obtain ⟨m, hm, heq⟩ := List.mem_map.mp hmem
  exact ⟨m, hm, (Prod.mk.inj heq).1, (Prod.mk.inj heq).2⟩

section Handled

variable {cfg : Config} {s : Broker} (hinv : Inv cfg s) {i : Nat} {rset : Int → Bool}
  (hpc : s.pc = .handle i rset) {cur : PubSubNode} (hcur : s.nodes[i]? = some cur)

include hinv hpc hcur

/-- On one connection there is at most one. -/
theorem completed_length_le (hatt : s.Attached) (hnames : (s.nodes.map PubSubNode.name).Nodup)
    (hids : Relays s.rbuf → (frameIds s.rbuf).Nodup) (cid : Nat) :
    (completed (s.outgoing i cur).calls cid).length ≤ 1 := by
  have hlen := (hinv.holding i rset hpc).rbuf_length
  have hnodup : ((completed (s.outgoing i cur).calls cid).map Call.node).Nodup :=
    List.Nodup.sublist (List.filter_sublist.map Call.node) (outgoing_nodes_nodup hlen hids i cur)
  by_contra hlong
  obtain ⟨c, d, rest, hcd⟩ : ∃ c d rest,
      completed (s.outgoing i cur).calls cid = c :: d :: rest := by
    match hcalls : completed (s.outgoing i cur).calls cid with
    | [] | [_] => rw [hcalls] at hlong; simp at hlong
    | c :: d :: rest => exact ⟨c, d, rest, rfl⟩
  have hmem : ∀ x ∈ completed (s.outgoing i cur).calls cid,
      x ∈ (s.outgoing i cur).calls ∧ x.conn = some cid := by
    intro x hx
    have := List.mem_filter.mp hx
    exact ⟨this.1, (of_decide_eq_true this.2).1⟩
  obtain ⟨hc, hcconn⟩ := hmem c (by rw [hcd]; simp)
  obtain ⟨hd, hdconn⟩ := hmem d (by rw [hcd]; simp)
  -- both go to the descriptor of the connection, which one node has
  obtain ⟨conn, hconn, hcid⟩ := (hinv.wrote hpc cur).conn_of_mem hc hcconn
  obtain ⟨conn', hconn', hcid'⟩ := (hinv.wrote hpc cur).conn_of_mem hd hdconn
  have hfd := hinv.ledger.cid_inj hconn hconn' (hcid.trans hcid'.symm)
  obtain ⟨n, hn, hnfd⟩ := outgoing_node hlen hcur hc
  obtain ⟨m, hm, hmfd⟩ := outgoing_node hlen hcur hd
  have hsame : d.node = c.node := by
    apply hatt.alone hnames c.node d.node n m hn hm
    · rw [← hnfd]
      exact hinv.ledger.conns_pos hconn
    · rw [← hnfd, ← hmfd, hfd]
  rw [hcd, List.map_cons, List.map_cons, hsame] at hnodup
  exact absurd hnodup (by simp)

omit hcur in
/-- What a completed send to the connection of this process carries. -/
theorem completed_frame (hatt : s.Attached) {name : Bytes} {cid : Nat}
    (hpeer : ∀ fd un, s.kernel.ident fd = some (cid, un) →
      ∀ n ∈ s.nodes, isPeer n.name un = true → n.name = name)
    {c : Call} (hc : c ∈ completed (s.outgoing i cur).calls cid) :
    ∃ g, c.frame = Frame.bytes g ∧
      (frameIn s.rbuf).answer cfg name ((s.kernel.conns cur.connfd).map Conn.cid = some cid)
        = some g := by
  have hlen := (hinv.holding i rset hpc).rbuf_length
  obtain ⟨-, -, rbuf, f, -, -, -, hbuf⟩ := hinv.holding i rset hpc
  have hf : frameIn s.rbuf = f := by rw [hbuf, frameIn_storeFrame]
  have htype : getProtocolCmdType s.rbuf = getProtocolCmdType f.head := by
    rw [hbuf, getProtocolCmdType_storeFrame]
  obtain ⟨hc, hconn, -⟩ : c ∈ (s.outgoing i cur).calls ∧ c.conn = some cid ∧ c.Complete := by
    simpa [completed] using hc
  rw [hf]
  by_cases hrel : Relays s.rbuf
  · obtain ⟨conn, hc', hcid⟩ := (hinv.wrote hpc cur).conn_of_mem hc hconn
    rw [outgoing_relay hrel] at hc
    obtain ⟨n, hn, haddr, -, hfd, hframe, -⟩ := mem_broadcastCmd_calls _ _ hlen hc
    rw [hfd] at hc'
    -- the node has this connection because the process behind it bears its name
    obtain ⟨cid', un, hid, hpeer'⟩ := hatt c.node n hn (hinv.ledger.conns_pos hc')
    have hsame : cid' = cid := by
      rw [Kernel.ident_eq hc', Option.some.injEq, Prod.mk.injEq] at hid
      rw [← hid.1, hcid]
    have hname := hpeer n.connfd un (by rw [hid, hsame]) n (List.mem_of_getElem? hn) hpeer'
    obtain ⟨m, hm, hmname, hmid⟩ := exists_of_static hinv (List.mem_of_getElem? hn)
    rw [hbuf, relayFrame_storeFrame] at hframe
    rw [hbuf, frameIds_storeFrame] at haddr
    have hrel' : Relays f.head := by
      rw [Relays, ← htype]
      exact hrel
    have haddr' : Addressed f.ids m := by
      rw [Addressed, hmid]
      exact haddr
    refine ⟨f.relayed, hframe, ?_⟩
    rw [Frame.answer, if_neg hrel'.1, if_pos ⟨hrel', m, hm, hmname.trans hname, haddr'⟩]
  · obtain ⟨buf, data, ⟨hr, hreply⟩, hout⟩ := outgoing_reply hrel hc
    rw [hout] at hc
    obtain ⟨d, hd, -, -, hcfd, hcc, hframe, -⟩ := Kernel.send_calls hc
    obtain rfl := Option.some.inj hd
    refine ⟨frameGiven buf data, hframe, ?_⟩
    rw [hcc] at hconn
    have hanswer : f.reply s.nodeStart = some (frameGiven buf data) := by
      rw [hbuf] at hreply
      simp only [Frame.reply, replyBuf, getProtocolCmdId_storeFrame] at hreply ⊢
      rw [hreply]
    rw [Frame.answer, if_pos (htype.symm.trans hr), if_pos (decide_eq_true hconn),
      ← hinv.nodeStart, hanswer]

end Handled

/-- **One visit.** What the broker sends on a connection while it handles a frame
is the answer to this frame, or a piece of it, or nothing. -/
theorem visit_answered {cfg : Config} {s : Broker} (hinv : Inv cfg s) {i : Nat}
    {rset : Int → Bool} (hpc : s.pc = .handle i rset) {cur : PubSubNode}
    (hcur : s.nodes[i]? = some cur) (hatt : s.Attached)
    (hnames : (s.nodes.map PubSubNode.name).Nodup)
    (hids : Relays s.rbuf → (frameIds s.rbuf).Nodup) {name : Bytes} {cid : Nat}
    (hpeer : ∀ fd un, s.kernel.ident fd = some (cid, un) →
      ∀ n ∈ s.nodes, isPeer n.name un = true → n.name = name) :
    (s.visitOf i cur (s.outgoing i cur).calls).Answered cfg name cid where
  conn := by
    obtain ⟨cur', c, -, -, hcur', -, hc, -⟩ := hinv.holding i rset hpc
    rw [hcur] at hcur'
    obtain rfl := Option.some.inj hcur'
    exact ⟨c.cid, congrArg (Option.map Conn.cid) hc⟩
  answer := by
    have hone := completed_length_le hinv hpc hcur hatt hnames hids cid
    show ∃ gs : List Frame, _ ∧ (completed (s.outgoing i cur).calls cid).map Call.frame = _
    match hcalls : completed (s.outgoing i cur).calls cid with
    | [] => exact ⟨[], List.nil_sublist _, rfl⟩
    | [c] =>
        obtain ⟨g, hg, hans⟩ :=
          completed_frame hinv hpc hatt hpeer (c := c) (by rw [hcalls]; simp)
        refine ⟨[g], ?_, by rw [List.map_singleton, List.map_singleton, hg]⟩
        exact (congrArg Option.toList hans).symm ▸ List.Sublist.refl [g]
    | c :: d :: rest =>
        rw [hcalls] at hone
        exact absurd hone (by simp)

end Broker

/-! ## The whole log -/

theorem completed_cons (v : Visit) (log : List Visit) (cid : Nat) :
    ((callsOn (v :: log) cid).filter fun c => c.Complete)
      = completed v.calls cid ++ (callsOn log cid).filter fun c => c.Complete := by
  simp only [callsOn, completed, List.flatMap_cons, List.filter_append, List.filter_filter]
  congr 1
  apply List.filter_congr
  intro c _
  rw [Bool.decide_and, Bool.and_comm]

theorem framesFrom_cons (v : Visit) (log : List Visit) (cid : Nat) :
    framesFrom (v :: log) cid
      = (if v.conn = some cid then [v.frame] else []) ++ framesFrom log cid := by
  by_cases hv : v.conn = some cid <;> simp [framesFrom, hv]

/-- **A whole log**: what has gone out whole on a connection, by the connection
it came from, are answers to the frames read there, in their order. -/
theorem answered_log {cfg : Config} {name : Bytes} {cid : Nat} {log : List Visit}
    (h : ∀ v ∈ log, v.Answered cfg name cid) :
    ∃ ds : List (Nat × Frame),
      ((callsOn log cid).filter fun c => c.Complete).map Call.frame
        = ds.map (fun d => d.2.bytes) ∧
      ∀ src, (ds.filter fun d => d.1 = src).map Prod.snd
        <+ (framesFrom log src).filterMap (Frame.answer cfg name (src = cid)) := by
  induction log with
  | nil => exact ⟨[], rfl, fun src => List.nil_sublist _⟩
  | cons v log ih =>
      obtain ⟨ds, hds, hsub⟩ := ih fun w hw => h w (List.mem_cons_of_mem v hw)
      obtain ⟨⟨src, hsrc⟩, gs, hgs, hcalls⟩ := h v List.mem_cons_self
      refine ⟨gs.map (src, ·) ++ ds, ?_, fun src' => ?_⟩
      · rw [completed_cons, List.map_append, hcalls, hds, List.map_append, List.map_map]
        rfl
      · rw [framesFrom_cons, List.filterMap_append, List.filter_append, List.map_append]
        apply List.Sublist.append ?_ (hsub src')
        by_cases hown : src = src'
        · obtain rfl := hown
          have hall : ((gs.map (src, ·)).filter fun d => d.1 = src).map Prod.snd = gs := by
            simp [List.filter_map, Function.comp_def]
          have hans : v.frame.answer cfg name (v.conn = some cid)
              = v.frame.answer cfg name (src = cid) := by
            simp [hsrc]
          have hone : [v.frame].filterMap (Frame.answer cfg name (src = cid))
              = (v.frame.answer cfg name (src = cid)).toList := by
            cases hg : v.frame.answer cfg name (src = cid) <;> simp [hg]
          rw [hall, if_pos hsrc, hone, ← hans]
          exact hgs
        · have hnone : ((gs.map (src, ·)).filter fun d => d.1 = src') = [] := by
            simp [hown]
          rw [hnone]
          exact List.nil_sublist _

end Icehydra
