import Icehydra.Disconnect

/-!
# Delivery — every client gets its frames in order

As long as nothing fails and every addressed node is connected, each frame that
is read is written exactly once to each of its recipients before the next one
is read. What a client has been sent is therefore an interleaving of what the
others have sent to it.
-/

namespace Icehydra

open Block NonBlock

/-! ## Frames that arrive -/

/-- A frame as the library sends it. -/
structure Frame.WellFormed (f : Frame) : Prop where
  parallel : getProtocolCmdType f.head = ihCmdTypeSendParallel
  ids_le : getProtocolBroadcastLen f.head ≤ f.body.length
  body_le : f.body.length ≤ maxCmdLen - protocolCmdHeadLen
  nodup : f.ids.Nodup

theorem Frame.WellFormed.relays {f : Frame} (h : f.WellFormed) : Broker.Relays f.head := by
  rw [Broker.Relays, h.parallel]
  decide

/-- The frames on the output of the `cid`-th connection, each with the
connection it was read from. -/
def deliveries (log : List Visit) (cid : Nat) : List (Option Nat × Bytes) :=
  log.flatMap fun v => (v.calls.filter fun c => c.conn = some cid).map fun c => (v.conn, c.bytes)

theorem deliveries_bytes (log : List Visit) (cid : Nat) :
    (deliveries log cid).flatMap Prod.snd = (callsOn log cid).flatMap Call.bytes := by
  induction log with
  | nil => rfl
  | cons v log ih =>
      have hcons : callsOn (v :: log) cid
          = (v.calls.filter fun c => c.conn = some cid) ++ callsOn log cid := by
        simp [callsOn]
      rw [deliveries, List.flatMap_cons, List.flatMap_append, ← deliveries, ih, hcons,
        List.flatMap_append, List.flatMap_map]

/-- In an enumerated list each position occurs once. -/
theorem filter_zipIdx {α : Type} (l : List α) (k : Nat) {j : Nat} {a : α} (h : l[j]? = some a) :
    ((l.zipIdx k).filter fun p => p.2 = k + j) = [(a, k + j)] := by
  induction l generalizing k j with
  | nil => cases h
  | cons b l ih =>
      rw [List.zipIdx_cons]
      cases j with
      | zero =>
          have hnone : ((l.zipIdx (k + 1)).filter fun p => p.2 = k + 0) = [] := by
            apply List.filter_eq_nil_iff.mpr
            intro p hp
            have hle := (List.mem_zipIdx hp).1
            simp only [decide_eq_true_eq]
            omega
          obtain rfl := Option.some.inj h
          rw [List.filter_cons_of_pos (by simp), hnone]
          rfl
      | succ j =>
          have hrec := ih (k + 1) (j := j) h
          rw [show k + 1 + j = k + (j + 1) by omega] at hrec
          rw [List.filter_cons_of_neg (by simp), hrec]

namespace Broker

/-! ## Runs in which nothing fails -/

/-- Nothing fails in the step: a client connects while its node is not
connected, receives and sends complete, and what is handled is a well-formed
frame whose recipients are connected. -/
structure NothingFails (s : Broker) (e : Event) : Prop where
  connects : ∀ a, e = .accept a → a.Taken → ∀ n ∈ s.nodes, isPeer n.name a.un = true →
    n.connfd ≤ 0
  receives : ∀ i rset cur, s.Receives i rset cur →
    Through (s.kernel.sock cur.connfd).recvs maxTimes
      [protocolCmdHeadLen, nextLen (s.kernel.sock cur.connfd)]
  sends : ∀ i rset, s.pc = .handle i rset → ∀ a ∈ relayAttempts s.kernel s.nodes s.rbuf, a.Ok
  wellFormed : ∀ i rset, s.pc = .handle i rset → (frameIn s.rbuf).WellFormed
  connected : ∀ i rset, s.pc = .handle i rset → ∀ n ∈ s.nodes,
    Addressed (frameIn s.rbuf).ids n → Connected s.kernel n

theorem NothingFails.not_closes {s : Broker} {e : Event} (h : s.NothingFails e) (j : Nat) :
    ¬ s.Closes j := by
  rintro (⟨rset, cur, hrecv, hshort⟩ | ⟨i, rset, a, hpc, -, hf, -, -⟩)
  · exact hshort (h.receives j rset cur hrecv)
  · obtain ⟨hmem, hfail⟩ := firstFailure_mem hf
    exact hfail (h.sends i rset hpc a hmem)

/-- The frame of this visit has been written once to each node it is for, as
far as they are still attached, and it was for attached nodes only. -/
structure Relayed (s : Broker) (v : Visit) : Prop where
  reached : ∀ n ∈ s.nodes, Addressed v.frame.ids n → 0 < n.connfd
  delivered : ∀ n ∈ s.nodes, ∀ c, s.kernel.conns n.connfd = some c →
    (v.calls.filter fun x => x.conn = some c.cid).map Call.bytes
      = if Addressed v.frame.ids n then [v.frame.relayed.bytes] else []
  payload : v.frame.relayed.body = v.frame.payload

/-- **A visit stays relayed**: no connection goes away, and a node that was
addressed is not attached anew. -/
theorem Relayed.step {s s' : Broker} {e : Event} {v : Visit} (hatt : s.Attached)
    (hok : s.NothingFails e) (hc : s.Change e s')
    (hlt : ∀ x ∈ v.calls, ∀ cid, x.conn = some cid → cid < s.kernel.nextCid)
    (h : s.Relayed v) : s'.Relayed v := by
  cases hc with
  | same hnodes hsame =>
      refine ⟨?_, ?_, h.payload⟩
      · rw [hnodes]
        exact h.reached
      · rw [hnodes]
        intro n hn c' hc'
        obtain ⟨c, hc, hcid⟩ := Ledger.conn_of_same hsame hc'
        rw [← hcid]
        exact h.delivered n hn c hc
  | closed hclose => exact absurd hclose (hok.not_closes _)
  | @accepted a hpc ha =>
      -- a node that is attached now has not been addressed before
      have hfresh : ∀ m ∈ s.nodes, a.Taken → isPeer m.name a.un = true →
          ¬ Addressed v.frame.ids { m with connfd := a.fd } := by
        intro m hm ht hpeer haddr
        have hpos := h.reached m hm haddr
        have hle := hok.connects a rfl ht m hm hpeer
        omega
      refine ⟨fun n hn haddr => ?_, fun n hn c hc => ?_, h.payload⟩
      · rcases mem_acceptBranch hn with hold | ⟨ht, m, hm, hpeer, rfl⟩
        · exact h.reached n hold haddr
        · exact absurd haddr (hfresh m hm ht hpeer)
      · rcases mem_acceptBranch hn with hold | ⟨ht, m, hm, hpeer, rfl⟩
        · rw [hatt.conns_acceptBranch ha hold] at hc
          exact h.delivered n hold c hc
        · rw [conns_acceptBranch_self ht] at hc
          obtain rfl := Option.some.inj hc
          have hnone : (v.calls.filter fun x => x.conn = some (a.conn s.kernel.nextCid).cid)
              = [] := by
            apply List.filter_eq_nil_iff.mpr
            intro x hx
            simp only [decide_eq_true_eq]
            intro heq
            exact absurd (hlt x hx _ heq) (Nat.lt_irrefl _)
          rw [hnone, if_neg (hfresh m hm ht hpeer)]
          rfl

/-- The calls of a frame when nothing fails: one full call for each addressed
node. -/
theorem NothingFails.calls {s : Broker} {e : Event} (hok : s.NothingFails e) {i : Nat}
    {rset : Int → Bool} (hpc : s.pc = .handle i rset) {rbuf : Bytes} {f : Frame}
    (hbuf : s.rbuf = storeFrame rbuf f.head f.body) (cur : PubSubNode) :
    (s.outgoing i cur).calls
      = (s.nodes.zipIdx.filter fun cur => Addressed f.ids cur.1).map
          (fullCall s.kernel f.relayed.bytes) := by
  have hframe : frameIn s.rbuf = f := by rw [hbuf, frameIn_storeFrame]
  have hids : frameIds s.rbuf = f.ids := by rw [hbuf, frameIds_storeFrame]
  have hlen := rbuf_length_of_store hbuf
  have hwf := hok.wellFormed i rset hpc
  have hconn := hok.connected i rset hpc
  have hattempts := hok.sends i rset hpc
  rw [hframe] at hwf hconn
  rw [outgoing_relay (relays_of_store hbuf hwf.relays), ← hids, ← relayFrame_storeFrame rbuf f,
    ← hbuf]
  apply broadcastCmd_calls_of_complete _ _ hlen
  · intro c hc
    rw [broadcastCmd_calls _ _ hlen, upToFailure_eq_self hattempts] at hc
    obtain ⟨a, ha, hca⟩ := List.mem_flatMap.mp hc
    exact (mem_relayAttempts _ _ hlen ha).2.2.1.mp (hattempts a ha) c hca
  · rw [hids]
    exact hwf.nodup
  · rw [hids]
    intro n hn haddr
    exact Int.le_of_lt (hconn n hn haddr).1

/-- With distinct names, a full call is on a node's connection when it is for
that node. -/
theorem fullCall_conn_iff {cfg : Config} {s : Broker} (hinv : Inv cfg s) (hatt : s.Attached)
    (hnames : (s.nodes.map PubSubNode.name).Nodup) {j : Nat} {n : PubSubNode}
    (hj : s.nodes[j]? = some n) {c : Conn} (hc : s.kernel.conns n.connfd = some c) (frame : Bytes)
    {p : PubSubNode × Nat} (hp : p ∈ s.nodes.zipIdx) :
    (fullCall s.kernel frame p).conn = some c.cid ↔ p.2 = j := by
  have hpnode := List.mem_zipIdx_iff_getElem?.mp hp
  constructor
  · intro heq
    obtain ⟨c', hc', hcid⟩ := Option.map_eq_some_iff.mp heq
    have hfd := hinv.ledger.cid_inj hc' hc hcid
    exact hatt.alone hnames j p.2 n p.1 hj hpnode (hinv.ledger.conns_pos hc) hfd
  · intro heq
    rw [heq, hj] at hpnode
    show (s.kernel.conns p.1.connfd).map Conn.cid = some c.cid
    rw [← Option.some.inj hpnode, hc]
    rfl

/-- **What is handled is relayed**: one full call on each addressed node's
connection, and none on another. -/
theorem visit_relayed {cfg : Config} {s : Broker} {e : Event} (hinv : Inv cfg s)
    (hatt : s.Attached) (hnames : (s.nodes.map PubSubNode.name).Nodup) (hok : s.NothingFails e)
    {i : Nat} {rset : Int → Bool} (hpc : s.pc = .handle i rset) (cur : PubSubNode) :
    s.Relayed (s.visitOf i cur (s.outgoing i cur).calls) := by
  obtain ⟨-, -, rbuf, f, -, -, -, hbuf⟩ := hinv.holding i rset hpc
  have hframe : frameIn s.rbuf = f := by rw [hbuf, frameIn_storeFrame]
  have hvframe : (s.visitOf i cur (s.outgoing i cur).calls).frame = f := hframe
  have hvcalls : (s.visitOf i cur (s.outgoing i cur).calls).calls = (s.outgoing i cur).calls := rfl
  have hwf := hok.wellFormed i rset hpc
  have hconn := hok.connected i rset hpc
  rw [hframe] at hwf hconn
  constructor
  case reached =>
    rw [hvframe]
    exact fun n hn haddr => (hconn n hn haddr).1
  case delivered =>
    rw [hvframe, hvcalls, hok.calls hpc hbuf cur]
    intro n hn c hc
    obtain ⟨j, hj⟩ := List.mem_iff_getElem?.mp hn
    have hself := filter_zipIdx s.nodes 0 hj
    rw [Nat.zero_add] at hself
    -- among the recipients only this node has this connection
    have hfilter : (s.nodes.zipIdx.filter fun cur => Addressed f.ids cur.1).filter
          (fun p => (fullCall s.kernel f.relayed.bytes p).conn = some c.cid)
        = (s.nodes.zipIdx.filter fun p => p.2 = j).filter fun cur => Addressed f.ids cur.1 := by
      rw [List.filter_filter, List.filter_filter]
      apply List.filter_congr
      intro p hp
      simp only [fullCall_conn_iff hinv hatt hnames hj hc _ hp, Bool.and_comm]
    rw [List.filter_map]
    simp only [Function.comp_def]
    rw [hfilter, hself, List.filter_singleton]
    by_cases haddr : Addressed f.ids n
    · simp [haddr, fullCall]
    · simp [haddr]
  case payload =>
    rw [hvframe]
    exact Frame.relayed_body hwf.ids_le

/-! ## Every run -/

/-- What has been handled has been relayed. -/
structure Fifo (s : Broker) : Prop where
  attached : s.Attached
  relayed : ∀ v ∈ s.log, s.Relayed v

theorem Fifo.step {cfg : Config} {s s' : Broker} {e : Event}
    (hnames : (cfg.nodes.map PubSubNode.name).Nodup) (hinv : Inv cfg s) (h : s.Fifo)
    (hok : s.NothingFails e) (hs : Icehydra.step s e = some s') : s'.Fifo := by
  have hchange := step_change hinv hs
  have hkeeps : ∀ v ∈ s.log, s'.Relayed v := fun v hv =>
    (h.relayed v hv).step h.attached hok hchange (hinv.ledger.calls_lt v hv)
  refine ⟨h.attached.step (fun j hj => absurd hj (hok.not_closes j)) hchange, ?_⟩
  rcases step_log hinv hs with hlog | ⟨i, rset, cur, hpc, hcur, hlog⟩
  · rw [hlog]
    exact hkeeps
  · rw [hlog]
    intro v hv
    rcases List.mem_append.mp hv with hold | hnew
    · exact hkeeps v hold
    · obtain rfl := List.mem_singleton.mp hnew
      have hnow := visit_relayed hinv h.attached (names_nodup hinv hnames) hok hpc cur
      refine hnow.step h.attached hok hchange fun x hx cid hcid => ?_
      obtain ⟨c, hc, rfl⟩ := (hinv.wrote hpc cur).conn_of_mem hx hcid
      exact hinv.ledger.cid_lt hc

/-- What an attached node has been sent: the frames for it, in the order in
which they were handled. -/
theorem Fifo.deliveries {s : Broker} (h : s.Fifo) {n : PubSubNode} (hn : n ∈ s.nodes) {c : Conn}
    (hc : s.kernel.conns n.connfd = some c) :
    Icehydra.deliveries s.log c.cid
      = (s.log.filter fun v => Addressed v.frame.ids n).map fun v =>
          (v.conn, v.frame.relayed.bytes) := by
  have hvisit : ∀ v ∈ s.log,
      (v.calls.filter fun x => x.conn = some c.cid).map (fun x => (v.conn, x.bytes))
        = if Addressed v.frame.ids n then [(v.conn, v.frame.relayed.bytes)] else [] := by
    intro v hv
    have hbytes := (h.relayed v hv).delivered n hn c hc
    have hpair : (fun x : Call => (v.conn, x.bytes)) = (fun b => (v.conn, b)) ∘ Call.bytes := rfl
    rw [hpair, ← List.map_map, hbytes]
    split <;> rfl
  rw [Icehydra.deliveries]
  generalize s.log = log at hvisit
  induction log with
  | nil => rfl
  | cons v log ih =>
      rw [List.flatMap_cons, hvisit v List.mem_cons_self,
        ih fun w hw => hvisit w (List.mem_cons_of_mem _ hw), List.filter_cons]
      simp only [decide_eq_true_eq]
      split <;> rfl

/-- **Exact FIFO delivery.** With distinct names, in a run in which nothing
fails, the output of an attached client `R` is a row of frames of which those
read from an attached client `S` carry, in order and each of them once, the
payloads of the frames of `S` that have been read so far and are for `R`. -/
theorem fifo_delivery (cfg : Config) (hnames : (cfg.nodes.map PubSubNode.name).Nodup) (s : Broker)
    (h : Reachable cfg NothingFails s) (nR : PubSubNode) (hR : nR ∈ s.nodes) (cR : Conn)
    (hcR : s.kernel.conns nR.connfd = some cR) :
    ∃ ds : List (Option Nat × Frame),
      deliveries s.log cR.cid = ds.map (fun d => (d.1, d.2.bytes)) ∧
      cR.sock.output = ds.flatMap (fun d => d.2.bytes) ∧
      ∀ nS ∈ s.nodes, ∀ cS, s.kernel.conns nS.connfd = some cS →
        cS.sock.consumed = (framesFrom s.log cS.cid ++ s.held cS.cid).flatMap Frame.bytes ∧
          (ds.filter fun d => d.1 = some cS.cid).map (fun d => d.2.body)
            = ((framesFrom s.log cS.cid).filter fun f => Addressed f.ids nR).map
                Frame.payload := by
  have hinv := inv_of_reachable h
  have hfifo : s.Fifo := by
    refine Runs.Reaches.invariant_of (J := Inv cfg) (I := Fifo) h
      (fun t ht => inv_of_reachable ht) ⟨attached_init cfg, ?_⟩ ?_
    · intro v hv
      cases hv
    · exact fun s e s' hinv hfifo hok hstep => hfifo.step hnames hinv hok hstep
  have hds := hfifo.deliveries hR hcR
  refine ⟨(s.log.filter fun v => Addressed v.frame.ids nR).map fun v => (v.conn, v.frame.relayed),
    ?_, ?_, fun nS _ cS hcS => ⟨hinv.ledger.consumed hcS, ?_⟩⟩
  · rw [hds, List.map_map]
    rfl
  · rw [hinv.ledger.output hcR, ← deliveries_bytes, hds, List.flatMap_map, List.flatMap_map]
  · -- both sides are the visits from `S` to `R`, in the order of the log
    simp only [framesFrom, List.filter_map, List.map_map, List.filter_filter, Function.comp_def]
    have hcomm : s.log.filter (fun v => decide (v.conn = some cS.cid) &&
          decide (Addressed v.frame.ids nR))
        = s.log.filter fun v => decide (Addressed v.frame.ids nR) &&
          decide (v.conn = some cS.cid) := by
      apply List.filter_congr
      intro v _
      rw [Bool.and_comm]
    rw [hcomm]
    apply List.map_congr_left
    intro v hv
    exact (hfifo.relayed v (List.mem_of_mem_filter hv)).payload

/-- A check that is enough for `NothingFails`. -/
def checkNothingFails (s : Broker) (e : Event) : Bool :=
  (match e with
    | .accept a => s.nodes.all fun n => !isPeer n.name a.un || decide (n.connfd ≤ 0)
    | _ => true) &&
  match s.pc with
  | .scan i rset => s.nodes[i]?.all fun cur => !rset cur.connfd ||
      decide (Through (s.kernel.sock cur.connfd).recvs maxTimes
        [protocolCmdHeadLen, nextLen (s.kernel.sock cur.connfd)])
  | .handle _ _ =>
      decide (∀ a ∈ relayAttempts s.kernel s.nodes s.rbuf, a.Ok) &&
        decide (getProtocolCmdType (frameIn s.rbuf).head = ihCmdTypeSendParallel) &&
        decide (getProtocolBroadcastLen (frameIn s.rbuf).head ≤ (frameIn s.rbuf).body.length) &&
        decide ((frameIn s.rbuf).body.length ≤ maxCmdLen - protocolCmdHeadLen) &&
        decide (frameIn s.rbuf).ids.Nodup &&
        decide (∀ n ∈ s.nodes, Addressed (frameIn s.rbuf).ids n →
          0 < n.connfd ∧ (s.kernel.conns n.connfd).isSome)
  | _ => true

theorem nothingFails_of_check (s : Broker) (e : Event) (h : s.checkNothingFails e = true) :
    s.NothingFails e := by
  simp only [checkNothingFails, Bool.and_eq_true] at h
  obtain ⟨haccept, hpc⟩ := h
  constructor
  · rintro a rfl - n hn hpeer
    simp only [List.all_eq_true, Bool.or_eq_true, Bool.not_eq_true', decide_eq_true_eq] at haccept
    rcases haccept n hn with hnot | hle
    · rw [hpeer] at hnot
      cases hnot
    · exact hle
  · rintro i rset cur ⟨hscan, hcur, -, hset⟩
    simp only [hscan, hcur, Option.all_some, hset, Bool.not_true, Bool.false_or,
      decide_eq_true_eq] at hpc
    exact hpc
  all_goals
    intro i rset hhandle
    simp only [hhandle, Bool.and_eq_true, decide_eq_true_eq] at hpc
    obtain ⟨⟨⟨⟨⟨hok, htype⟩, hids⟩, hbody⟩, hnodup⟩, hconn⟩ := hpc
  · exact hok
  · exact ⟨htype, hids, hbody, hnodup⟩
  · intro n hn haddr
    obtain ⟨hpos, hsome⟩ := hconn n hn haddr
    exact ⟨hpos, Option.isSome_iff_exists.mp hsome⟩

/-- `c` sends twice to `b`, and `b` once to itself in between. -/
theorem fifo_delivery_two :
    ∃ s nR cR nS cS, Reachable trio NothingFails s ∧ nR ∈ s.nodes ∧ nS ∈ s.nodes ∧
      s.kernel.conns nR.connfd = some cR ∧ s.kernel.conns nS.connfd = some cS ∧
      ∃ ds : List (Option Nat × Frame),
        cR.sock.output = ds.flatMap (fun d => d.2.bytes) ∧ ds.length = 3 ∧
          (ds.filter fun d => d.1 = some cS.cid).map (fun d => d.2.body) = [[104], [105]] := by
  let f := fun x : UInt8 => Frame.ofFields 1 188 1 0 [2, 0, 0, 0, x] (show 5 < 65536 by decide)
  let P : Broker → Bool := fun s =>
    s.nodes[1]?.any fun nR => s.nodes[2]?.any fun nS =>
      (s.kernel.conns nR.connfd).any fun cR => (s.kernel.conns nS.connfd).any fun cS =>
        decide ((deliveries s.log cR.cid).length = 3) &&
          decide (((framesFrom s.log cS.cid).filter fun f => Addressed f.ids nR).map
            Frame.payload = [[104], [105]])
  have hrun : (Runs.run step checkNothingFails trio.init
      [.accept (.client 5 [98] (.eager (f 106).bytes)),
        .accept (.client 6 [99] (.eager ((f 104).bytes ++ (f 105).bytes))),
        .readyOf [6, 5], .next, .next, .next, .next, .next, .next,
        .readyOf [6], .next, .next, .next, .next]).any P = true := by decide +kernel
  obtain ⟨s, hs, hP⟩ := Runs.Reaches.of_run nothingFails_of_check hrun
  simp only [P, Option.any_eq_true, Bool.and_eq_true, decide_eq_true_eq] at hP
  obtain ⟨nR, hnR, nS, hnS, cR, hcR, cS, hcS, hthree, hpayloads⟩ := hP
  have hR := List.mem_of_getElem? hnR
  have hS := List.mem_of_getElem? hnS
  obtain ⟨ds, hds, hout, hpairs⟩ := fifo_delivery trio (by decide) s hs nR hR cR hcR
  have hlen : ds.length = 3 := by rw [← hthree, hds, List.length_map]
  have hpay := (hpairs nS hS cS hcS).2
  exact ⟨s, nR, cR, nS, cS, hs, hR, hS, hcR, hcS, ds, hout, hlen, hpay.trans hpayloads⟩

end Broker

end Icehydra
