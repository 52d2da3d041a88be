import Icehydra.Steps
import Icehydra.Writing

/-!
# Broadcast — one frame through the broker

What becomes of a single frame: how a broadcast of one client arrives at the
others, which of its recipients are reached when some of the sends fail, and
what is relayed when the two lengths in its header contradict each other.
-/

namespace Icehydra

open Block NonBlock

/-- Attached to an open connection. -/
def Connected (k : Kernel) (n : PubSubNode) : Prop :=
  0 < n.connfd ∧ ∃ c, k.conns n.connfd = some c

/-! ## From client to client -/

namespace IhBroadcastCmd

/-- A broadcast the library and the broker have room for: at most 56 ids, which
are distinct, and a body that fits behind the header in `rbuf`. -/
structure Fits (cmd : IhBroadcastCmd) : Prop where
  num_nonneg : 0 ≤ cmd.brNum
  num_le : cmd.brNum ≤ 56
  datalen_nonneg : 0 ≤ cmd.datalen
  total_le : cmd.datalen + round4 cmd.brNum ≤ maxCmdLen - protocolCmdHeadLen
  ids_nodup : cmd.ids.Nodup
  -- the pointers are good for what is announced
  ids_given : cmd.brIds = none → cmd.brNum = 0
  data_given : cmd.data = none → cmd.datalen = 0

theorem behind_length {data : Option Bytes} {n : Int} (h : data = none → n = 0) :
    (behind data n.toNat).length = n.toNat := by
  cases data with
  | none =>
      rw [h rfl]
      rfl
  | some data => exact peek_length data 0 _

variable {cmd : IhBroadcastCmd} (h : cmd.Fits)

include h

theorem Fits.sized : cmd.Sized where
  num_nonneg := h.num_nonneg
  num_le := h.num_le
  datalen_nonneg := h.datalen_nonneg
  datalen_int := by
    have htotal := h.total_le
    have hr4 := round4_nonneg h.num_nonneg
    simp only [maxCmdLen, protocolCmdHeadLen] at htotal
    omega

theorem Fits.ids_length : (cmd.ids.length : Int) = cmd.brNum := by
  rw [ids, behind_length h.ids_given]
  exact Int.toNat_of_nonneg h.num_nonneg

theorem Fits.payload_length : (cmd.payload.length : Int) = cmd.datalen := by
  rw [payload, behind_length h.data_given]
  exact Int.toNat_of_nonneg h.datalen_nonneg

theorem Fits.body_length :
    ((cmd.idField ++ cmd.payload).length : Int) = cmd.datalen + round4 cmd.brNum := by
  have hr4 := round4_nonneg h.num_nonneg
  have hpay := h.payload_length
  rw [List.length_append, idField, peek_length]
  omega

theorem Fits.body_length_lt : (cmd.idField ++ cmd.payload).length < 65536 := by
  have hbody := h.body_length
  have htotal := h.total_le
  simp only [maxCmdLen, protocolCmdHeadLen] at htotal
  omega

/-- The frame a broadcast is. -/
def Fits.frame : Frame :=
  Frame.ofFields ihCmdTypeSendParallel ihCmdIdDefault (toU8 cmd.brNum) 0
    (cmd.idField ++ cmd.payload) h.body_length_lt

theorem Fits.wire_eq : cmd.wire = h.frame.bytes := by
  have htotal : cmd.total = (cmd.idField ++ cmd.payload).length := by
    have hbody := h.body_length
    have hlt := h.body_length_lt
    rw [total, ← hbody, toInt32_eq (by omega) (by omega), Int.toNat_natCast]
  rw [wire, head, htotal]
  rfl

theorem Fits.broadcastNum : ((getProtocolCmdBroadcastNum h.frame.head).toNat : Int) = cmd.brNum :=
  toU8_of_nonneg h.num_nonneg (by have := h.num_le; omega)

theorem Fits.broadcastLen : (getProtocolBroadcastLen h.frame.head : Int) = round4 cmd.brNum := by
  have hnum := h.broadcastNum
  simp only [getProtocolBroadcastLen, round4]
  split <;> split <;> omega

theorem Fits.idField_length : cmd.idField.length = getProtocolBroadcastLen h.frame.head := by
  have hlen := h.broadcastLen
  rw [idField, peek_length]
  omega

/-- The reader of the frame sees the sender's ids. -/
theorem Fits.frame_ids : h.frame.ids = cmd.ids := by
  have hnum := h.broadcastNum
  have hids := h.ids_length
  have hr4 := le_round4 cmd.brNum
  have hle : cmd.ids.length ≤ (round4 cmd.brNum).toNat := by omega
  have htake : cmd.idField.take cmd.ids.length = cmd.ids := by
    rw [idField, peek_take _ _ _ _ hle, peek_eq _ _ _ (by omega), List.drop_zero, List.take_length]
  show peek (cmd.idField ++ cmd.payload) 0 (getProtocolCmdBroadcastNum h.frame.head).toNat = _
  rw [show (getProtocolCmdBroadcastNum h.frame.head).toNat = cmd.ids.length by omega,
    peek_eq _ _ _ (by rw [List.length_append, idField, peek_length]; omega), List.drop_zero,
    List.take_append_of_le_length (by rw [idField, peek_length]; omega), htake]

/-- Behind the ids and their padding stands exactly the data. -/
theorem Fits.frame_payload : h.frame.payload = cmd.payload := by
  rw [Frame.payload, ← h.idField_length]
  exact List.drop_left

theorem Fits.broadcastLen_le : getProtocolBroadcastLen h.frame.head ≤ h.frame.body.length := by
  rw [← h.idField_length]
  show _ ≤ (cmd.idField ++ cmd.payload).length
  rw [List.length_append]
  exact Nat.le_add_right _ _

end IhBroadcastCmd

/-- What a client reads of a frame that comes in whole. -/
theorem ihRecvData_ok {c : Client} {f : Frame} {rest : Stream' UInt8} (hfd : 0 ≤ c.connfd)
    (hin : c.sock.input = f.bytes ++ₛ rest) (hw : c.sock.Whole) :
    (ihRecvData c true).data = f.body ∧ (ihRecvData c true).datalen = some f.body.length ∧
      (ihRecvData c true).client.sock.input = rest ∧
      (getProtocolCmdId f.head ≠ ihReserveCmdIdGetShmInfo → (ihRecvData c true).ret = 0) := by
  rw [ihRecvData_whole hw hfd, nextFrame_eq hin]
  refine ⟨rfl, rfl, ?_, fun hid => if_pos hid⟩
  show c.sock.input.drop (nextFrame c.sock).bytes.length = rest
  rw [nextFrame_eq hin, hin, Stream'.drop_append_stream]

/-- **A broadcast from client to client.** When every send and every receive on
the way completes, the broker makes one call for each addressed node and no
other, each with the same frame, and a client that reads that frame gets the
sender's data and nothing else. -/
theorem broadcast_end_to_end (cmd : IhBroadcastCmd) (h : cmd.Fits) (sender : Client)
    (hsender : 0 ≤ sender.connfd) (hhead : (headWrite sender.sock.sends cmd).moved = cmd.headLen)
    (hdata : (dataWrite sender.sock.sends cmd).moved = cmd.payload.length)
    (b : Sock) (bfd : Int) (hbfd : 0 ≤ bfd) (more : Stream' UInt8)
    (hwire : b.input = (ihSendBroadcastData sender cmd).1.sock.output.drop
      sender.sock.output.length ++ₛ more)
    (hrecv : b.Whole) (k : Kernel) (nodes : List PubSubNode) (rbuf : Bytes)
    (hconn : ∀ n ∈ nodes, Addressed cmd.ids n → Connected k n)
    (hcomplete : ∀ c ∈ (broadcastCmd k nodes (storeFrame rbuf
      (tcpRecvProtocolCmd b bfd true).head (tcpRecvProtocolCmd b bfd true).body)).2.calls,
        c.Complete) :
    let r := tcpRecvProtocolCmd b bfd true
    let o := (broadcastCmd k nodes (storeFrame rbuf r.head r.body)).2
    ∃ f : Frame,
      o.calls = (nodes.zipIdx.filter fun cur => Addressed cmd.ids cur.1).map
          (fullCall k f.bytes) ∧
        (∀ fd, (o.kernel.sock fd).output = (k.sock fd).output ++ Kernel.bytesOn o.calls fd) ∧
        ∀ (c : Client) (rest : Stream' UInt8), 0 ≤ c.connfd →
          c.sock.input = f.bytes ++ₛ rest → c.sock.Whole →
            (ihRecvData c true).ret = 0 ∧
              (ihRecvData c true).datalen = some cmd.datalen.toNat ∧
              (ihRecvData c true).data = cmd.payload ∧
              (ihRecvData c true).client.sock.input = rest := by
  have hsent := (ihSendBroadcastData_ret h.sized hsender).mpr ⟨hhead, hdata⟩
  rw [ihSendBroadcastData_wire h.sized hsender hsent, List.drop_left, h.wire_eq] at hwire
  rw [Sock.recv_whole hrecv hbfd, nextFrame_eq hwire] at hcomplete ⊢
  simp only at hcomplete ⊢
  have hlen := le_storeFrame_length rbuf h.frame
  have hids : frameIds (storeFrame rbuf h.frame.head h.frame.body) = cmd.ids := by
    rw [frameIds_storeFrame, h.frame_ids]
  refine ⟨h.frame.relayed, ?_, (broadcastCmd_wrote k nodes hlen).output, ?_⟩
  · rw [broadcastCmd_calls_of_complete k nodes hlen hcomplete (by rw [hids]; exact h.ids_nodup),
      relayFrame_storeFrame, hids]
    rw [hids]
    exact fun n hn haddr => Int.le_of_lt (hconn n hn haddr).1
  · intro c rest hfd hin hw
    obtain ⟨hdata, hdatalen, hrest, hzero⟩ := ihRecvData_ok hfd hin hw
    have hbody : h.frame.relayed.body = cmd.payload := by
      rw [Frame.relayed_body h.broadcastLen_le, h.frame_payload]
    have hpay : cmd.payload.length = cmd.datalen.toNat := by
      have := h.payload_length
      omega
    rw [hbody] at hdata hdatalen
    rw [hpay] at hdatalen
    have hid : getProtocolCmdId h.frame.relayed.head ≠ ihReserveCmdIdGetShmInfo := by
      show ihCmdIdDefault ≠ ihReserveCmdIdGetShmInfo
      decide
    exact ⟨hzero hid, hdatalen, hdata, hrest⟩

/-- The table with these connections, numbered in their order. -/
def Kernel.ofSocks (socks : List (Int × Bytes × Sock)) : Kernel where
  conns fd :=
    (socks.zipIdx.find? fun p => p.1.1 = fd).map fun p => ⟨p.2, p.1.2.1, p.1.2.2⟩
  nextCid := socks.length

/-- Two bytes for the first and the third of three connected nodes; a client
reads what the broker has written to the first. -/
theorem broadcast_end_to_end_two :
    let cmd : IhBroadcastCmd := ⟨some [104, 105], some [1, 3], 2, 2⟩
    let sender : Client := ⟨3, Sock.eager []⟩
    let b := Sock.eager (ihSendBroadcastData sender cmd).1.sock.output
    let k := Kernel.ofSocks [(5, [], Sock.eager []), (6, [], Sock.eager []), (7, [], Sock.eager [])]
    let nodes : List PubSubNode :=
      [{ name := [97], id := 1, connfd := 5 }, { name := [98], id := 2, connfd := 6 },
        { name := [99], id := 3, connfd := 7 }]
    let r := tcpRecvProtocolCmd b 8 true
    let o := (broadcastCmd k nodes (storeFrame [] r.head r.body)).2
    let c : Client := ⟨3, Sock.eager (o.kernel.sock 5).output⟩
    ∃ f : Frame,
      o.calls = (nodes.zipIdx.filter fun cur => Addressed cmd.ids cur.1).map
          (fullCall k f.bytes) ∧
        (∀ fd, (o.kernel.sock fd).output = (k.sock fd).output ++ Kernel.bytesOn o.calls fd) ∧
        (ihRecvData c true).ret = 0 ∧ (ihRecvData c true).datalen = some 2 ∧
          (ihRecvData c true).data = [104, 105] ∧
          (ihRecvData c true).client.sock.input = Stream'.const 0 := by
  intro cmd sender b k nodes r o c
  have h : cmd.Fits :=
    ⟨by decide, by decide, by decide, by decide, by decide, by simp [cmd], by simp [cmd]⟩
  have hconn : ∀ n ∈ nodes, Addressed cmd.ids n → Connected k n := by
    intro n hn _
    simp only [nodes, List.mem_cons, List.not_mem_nil, or_false] at hn
    rcases hn with rfl | rfl | rfl <;> exact ⟨by decide, _, rfl⟩
  obtain ⟨f, hcalls, houtput, hread⟩ := broadcast_end_to_end cmd h sender (by decide)
    (by decide +kernel) (by decide +kernel) b 8 (by decide) (Stream'.const 0) rfl
    (by decide +kernel) k nodes [] hconn (by decide +kernel)
  have hframe : o.calls.head?.map Call.frame = some (o.kernel.sock 5).output := by decide +kernel
  have hbytes : f.bytes = (o.kernel.sock 5).output := by
    rw [hcalls] at hframe
    exact Option.some.inj hframe
  have hin : c.sock.input = f.bytes ++ₛ Stream'.const 0 := by
    rw [hbytes]
    rfl
  exact ⟨f, hcalls, houtput, hread c _ (by decide) hin (by decide +kernel)⟩

/-! ## Recipients behind a failure -/

namespace Broker

/-- The frame in `rbuf` is for the node at this position, which is connected,
and none of the sends to it would fail. -/
structure Deliverable (s : Broker) (cur : PubSubNode × Nat) : Prop where
  node : s.nodes[cur.2]? = some cur.1
  addressed : Addressed (frameIds s.rbuf) cur.1
  connected : Connected s.kernel cur.1
  ok : ∀ a ∈ relayAttempts s.kernel s.nodes s.rbuf, a.target = cur → a.Ok

/-- One of the calls brought the node the whole frame. -/
def Delivered (f : Frame) (calls : List Call) (cur : PubSubNode × Nat) : Prop :=
  ∃ c ∈ calls, c.node = cur.2 ∧ c.frame = f.bytes ∧ c.Complete

section Isolation

variable {s : Broker} (h : protocolCmdHeadLen ≤ s.rbuf.length)

include h

/-- A deliverable node is reached exactly when it stands before every
recipient whose send fails. -/
theorem Deliverable.delivered_iff {cur : PubSubNode × Nat} (hd : s.Deliverable cur) :
    Delivered (relayFrame s.rbuf) (broadcastCmd s.kernel s.nodes s.rbuf).2.calls cur ↔
      ∀ a ∈ relayAttempts s.kernel s.nodes s.rbuf, ¬ a.Ok → cur.2 < a.target.2 := by
  have hsorted := relayAttempts_sorted s.kernel s.nodes s.rbuf
  rw [broadcastCmd_calls _ _ h]
  constructor
  · rintro ⟨c, hc, hnode, -, -⟩ a ha hfail
    obtain ⟨b, hb, hcb⟩ := List.mem_flatMap.mp hc
    obtain ⟨hbnode, -, -, -, hcalls⟩ := mem_relayAttempts _ _ h (mem_of_mem_upToFailure hb)
    -- the call belongs to an attempt for the same node, which is one of its own
    have hbidx : b.target.2 = cur.2 := (hcalls c hcb).2.1.symm.trans hnode
    have hbcur : b.target = cur := by
      rw [hbidx, hd.node] at hbnode
      exact Prod.ext (Option.some.inj hbnode).symm hbidx
    have hbok : b.Ok := hd.ok b (mem_of_mem_upToFailure hb) hbcur
    have hle := le_of_mem_upToFailure hsorted hb hbok ha hfail
    have hne : cur.2 ≠ a.target.2 := by
      intro heq
      have hanode := (mem_relayAttempts _ _ h ha).1
      rw [← heq, hd.node] at hanode
      exact hfail (hd.ok a ha (Prod.ext (Option.some.inj hanode).symm heq.symm))
    omega
  · intro hlt
    obtain ⟨a, ha, hacur⟩ : ∃ a ∈ relayAttempts s.kernel s.nodes s.rbuf, a.target = cur :=
      exists_relayAttempt s.kernel s.nodes hd.node hd.addressed
    obtain ⟨-, -, hok, -⟩ := mem_relayAttempts _ _ h ha
    have hup : a ∈ upToFailure (relayAttempts s.kernel s.nodes s.rbuf) := by
      apply mem_upToFailure_of_lt hsorted ha
      intro x hx hfail
      rw [hacur]
      exact hlt x hx hfail
    have hopen : 0 ≤ a.target.1.connfd := by
      rw [hacur]
      exact Int.le_of_lt hd.connected.1
    obtain ⟨c, hc, hnode, hframe⟩ := exists_attempt_call _ _ h ha hopen
    exact ⟨c, List.mem_flatMap.mpr ⟨a, hup, hc⟩, by rw [hnode, hacur], hframe,
      hok.mp (hd.ok a ha hacur) c hc⟩

end Isolation

section HandledFrame

variable {s : Broker} {rbuf : Bytes} {f : Frame}
  (hbuf : s.rbuf = storeFrame rbuf f.head f.body)

include hbuf

theorem rbuf_length_of_store : protocolCmdHeadLen ≤ s.rbuf.length := by
  rw [hbuf]
  exact le_storeFrame_length rbuf f

theorem relays_of_store (hrel : Relays f.head) : Relays s.rbuf := by
  rw [hbuf]
  simpa only [Relays, getProtocolCmdType_storeFrame] using hrel

/-- The record of a relayed frame. -/
theorem handleFrame_relay {i : Nat} {cur : PubSubNode} (hcur : s.nodes[i]? = some cur)
    (rset : Int → Bool) (hrel : Relays f.head) :
    ∃ v, (s.handleFrame i rset).log = s.log ++ [v] ∧ v.frame = f ∧
      v.calls = (broadcastCmd s.kernel s.nodes s.rbuf).2.calls := by
  refine ⟨_, handleFrame_log hcur rset, ?_, ?_⟩
  · show frameIn s.rbuf = f
    rw [hbuf, frameIn_storeFrame]
  · show (s.outgoing i cur).calls = _
    rw [outgoing_relay (relays_of_store hbuf hrel)]

end HandledFrame

/-- **Which failures a broadcast survives.** Every deliverable node gets the
whole frame exactly when no recipient whose send fails stands before one. -/
theorem handleFrame_delivers_iff (s : Broker) (i : Nat) (cur : PubSubNode) (rset : Int → Bool)
    (rbuf : Bytes) (f : Frame) (hcur : s.nodes[i]? = some cur)
    (hbuf : s.rbuf = storeFrame rbuf f.head f.body) (hrel : Relays f.head) :
    ∃ v, (s.handleFrame i rset).log = s.log ++ [v] ∧ v.frame = f ∧
      ((∀ cur, s.Deliverable cur → Delivered f.relayed v.calls cur) ↔
        ∀ cur, s.Deliverable cur →
          ∀ a ∈ relayAttempts s.kernel s.nodes s.rbuf, ¬ a.Ok → cur.2 < a.target.2) := by
  obtain ⟨v, hlog, hframe, hcalls⟩ := handleFrame_relay hbuf hcur rset hrel
  have hrelayed : relayFrame s.rbuf = f.relayed := by rw [hbuf, relayFrame_storeFrame]
  refine ⟨v, hlog, hframe, ?_⟩
  rw [hcalls, ← hrelayed]
  exact forall₂_congr fun cur hd => hd.delivered_iff (rbuf_length_of_store hbuf)

/-- A failure behind the last connected node: `b` is reached, `a` was never
connected and is asked in vain, after it. -/
theorem handleFrame_delivers_last :
    let f := Frame.ofFields 1 188 2 0 [1, 2, 0, 0, 104] (by decide)
    let s : Broker := { trio.init with
      nodes := [{ name := [98], id := 2, connfd := 5 }, { name := [99], id := 3, connfd := 6 },
        { name := [97], id := 1 }]
      kernel := Kernel.ofSocks [(5, [], Sock.eager []), (6, [], Sock.eager [])]
      rbuf := storeFrame [] f.head f.body }
    ∃ v, (s.handleFrame 1 fun _ => true).log = [v] ∧ v.frame = f ∧
      ∀ cur, s.Deliverable cur → Delivered f.relayed v.calls cur := by
  intro f s
  obtain ⟨v, hlog, hframe, hiff⟩ := handleFrame_delivers_iff s 1
    { name := [99], id := 3, connfd := 6 } (fun _ => true) [] f rfl rfl (by decide)
  refine ⟨v, hlog, hframe, hiff.mpr fun cur hd a ha hfail => ?_⟩
  have hlast : a.target.2 = 2 := by
    have hall : ∀ a ∈ relayAttempts s.kernel s.nodes s.rbuf, ¬ a.Ok → a.target.2 = 2 := by
      decide +kernel
    exact hall a ha hfail
  have hcur : cur.2 < 3 := (List.getElem?_eq_some_iff.mp hd.node).1
  have hne : cur.2 ≠ 2 := by
    intro heq
    have hnode := hd.node
    rw [heq] at hnode
    have hpos := hd.connected.1
    rw [← Option.some.inj hnode] at hpos
    exact absurd hpos (by decide)
  omega

/-- **A node that never connected cuts off those behind it.** `a` has not
connected yet, `b` and `c` have; `c` sends to `a` and `b`. The send to `a` goes
to descriptor 0 and fails, and `b`, whose own connection would take everything,
gets nothing. -/
theorem unconnected_node_cuts_off :
    ∃ s i rset, Reachable trio Runs.anyStep s ∧ s.pc = .handle i rset ∧
      ∃ cur, s.Deliverable cur ∧
        ∀ v ∈ (s.handleFrame i rset).log, ¬ ∃ f, Delivered f v.calls cur := by
  let f := Frame.ofFields 1 188 2 0 [1, 2, 0, 0, 104] (by decide)
  let P : Broker → Bool := fun s =>
    s.pc.handled.any fun p : Nat × (Int → Bool) => s.nodes[1]?.any fun n =>
      decide (0 < n.connfd) && (s.kernel.conns n.connfd).isSome &&
        decide (Addressed (frameIds s.rbuf) n) &&
        decide (∀ a ∈ relayAttempts s.kernel s.nodes s.rbuf, a.target.2 = 1 → a.Ok) &&
        decide (∀ v ∈ (s.handleFrame p.1 p.2).log, ∀ c ∈ v.calls, c.node ≠ 1)
  have hrun : (Runs.run step Runs.unchecked trio.init
      [.accept (.client 5 [98] (.eager [])), .accept (.client 6 [99] (.eager f.bytes)),
        .readyOf [6], .next, .next, .next]).any P = true := by decide +kernel
  obtain ⟨s, hs, hP⟩ := Runs.Reaches.of_run_unchecked hrun
  simp only [P, Option.any_eq_true, Bool.and_eq_true, decide_eq_true_eq] at hP
  obtain ⟨p, hpc, n, hn, ⟨⟨⟨hpos, hconn⟩, haddr⟩, hok⟩, hnone⟩ := hP
  refine ⟨s, p.1, p.2, hs, Pc.eq_handle hpc, (n, 1), ⟨hn, haddr,
    ⟨hpos, Option.isSome_iff_exists.mp hconn⟩, fun a ha htarget => hok a ha (by rw [htarget])⟩, ?_⟩
  rintro v hv ⟨g, c, hc, hnode, -, -⟩
  exact hnone v hv c hc hnode

/-! ## Frames whose lengths contradict each other -/

/-- What the calls for a frame hand on is what its sender sent: the body behind
the id list, to addressed nodes and, when no call falls short, to all of them
that are not closed; and nothing where the body ends inside the id list. -/
structure Faithful (nodes : List PubSubNode) (f : Frame) (calls : List Call) : Prop where
  exact : getProtocolBroadcastLen f.head ≤ f.body.length →
    ∀ c ∈ calls, c.bytes <+: c.frame ∧ (∃ g : Frame, c.frame = g.bytes ∧ g.body = f.payload) ∧
      ∃ n, nodes[c.node]? = some n ∧ Addressed f.ids n
  reached : getProtocolBroadcastLen f.head ≤ f.body.length → (∀ c ∈ calls, c.Complete) →
    ∀ (j : Nat) (n : PubSubNode), nodes[j]? = some n → Addressed f.ids n → 0 ≤ n.connfd →
      ∃ c ∈ calls, c.node = j
  silent : f.body.length < getProtocolBroadcastLen f.head → ∀ c ∈ calls, c.bytes = []

/-- Of a frame with a body of this length no byte is taken: the first addressed
node that is not closed, if there is one, takes none. -/
def TakesNothing (s : Broker) (bodylen : Nat) : Prop :=
  ∀ cur, ((recipients (frameIds s.rbuf) s.nodes.zipIdx).find? fun cur => 0 ≤ cur.1.connfd)
      = some cur →
    (transferSeq (s.kernel.sock cur.1.connfd).sends maxTimes [protocolCmdHeadLen, bodylen]).moved = 0

/-- **What is relayed of a frame** is what the sender sent exactly when the id
list does not reach past the body, or nothing gets out at all: a negative
length makes the relay keep the old one. -/
theorem handleFrame_faithful_iff (s : Broker) (i : Nat) (cur : PubSubNode) (rset : Int → Bool)
    (rbuf : Bytes) (f : Frame) (hcur : s.nodes[i]? = some cur)
    (hbuf : s.rbuf = storeFrame rbuf f.head f.body) (hrel : Relays f.head) :
    ∃ v, (s.handleFrame i rset).log = s.log ++ [v] ∧ v.frame = f ∧
      (Faithful s.nodes f v.calls ↔
        getProtocolBroadcastLen f.head ≤ f.body.length ∨ s.TakesNothing f.body.length) := by
  obtain ⟨v, hlog, hframe, hcalls⟩ := handleFrame_relay hbuf hcur rset hrel
  have hlen := rbuf_length_of_store hbuf
  have hrelayed : relayFrame s.rbuf = f.relayed := by rw [hbuf, relayFrame_storeFrame]
  have hids : frameIds s.rbuf = f.ids := by rw [hbuf, frameIds_storeFrame]
  refine ⟨v, hlog, hframe, ?_⟩
  rw [hcalls]
  by_cases hle : getProtocolBroadcastLen f.head ≤ f.body.length
  · refine iff_of_true ⟨fun _ c hc => ?_, fun _ hall j n hn haddr hfd => ?_, fun hlt => ?_⟩ (.inl hle)
    · obtain ⟨n, hn, haddr, -, -, hcframe, hpre⟩ := mem_broadcastCmd_calls _ _ hlen hc
      refine ⟨hpre, ⟨f.relayed, ?_, Frame.relayed_body hle⟩, n, hn, ?_⟩
      · rw [hcframe, hrelayed]
      · rw [← hids]
        exact haddr
    · have hok := relayAttempts_ok_of_complete _ _ hlen hall
      rw [← hids] at haddr
      obtain ⟨a, ha, htarget⟩ := exists_relayAttempt s.kernel s.nodes hn haddr
      obtain ⟨c, hc, hnode, -⟩ := exists_attempt_call _ _ hlen ha (by rwa [htarget])
      rw [broadcastCmd_calls _ _ hlen, upToFailure_eq_self hok]
      exact ⟨c, List.mem_flatMap.mpr ⟨a, ha, hc⟩, by rw [hnode, htarget]⟩
    · omega
  · rw [or_iff_right hle]
    have hsilent : (∀ c ∈ (broadcastCmd s.kernel s.nodes s.rbuf).2.calls, c.bytes = []) ↔
        s.TakesNothing f.body.length := by
      have hrl : relayLen s.rbuf = f.body.length := by
        rw [hbuf, relayLen_storeFrame, Frame.relayLen, if_neg hle]
      rw [broadcastCmd_eq _ _ hlen]
      simp only [relayUntil_silent_iff, TakesNothing, Kernel.sendTransfer,
        getProtocolBodyLen_broadcastHead hlen, hrl]
    rw [← hsilent]
    exact ⟨fun h => h.silent (Nat.not_le.mp hle),
      fun h => ⟨fun hge => absurd hge hle, fun hge => absurd hge hle, fun _ => h⟩⟩

/-- A consistent frame for a connected node and one that never connected. -/
theorem handleFrame_faithful_consistent :
    let f := Frame.ofFields 1 188 2 0 [2, 1, 0, 0, 104] (by decide)
    let s : Broker := { trio.init with
      nodes := [{ name := [98], id := 2, connfd := 5 }, { name := [97], id := 1 }]
      kernel := Kernel.ofSocks [(5, [], Sock.eager [])]
      rbuf := storeFrame [] f.head f.body }
    ∃ v, (s.handleFrame 0 fun _ => true).log = [v] ∧ v.frame = f ∧
      Faithful s.nodes f v.calls := by
  intro f s
  obtain ⟨v, hlog, hframe, hiff⟩ := handleFrame_faithful_iff s 0
    { name := [98], id := 2, connfd := 5 } (fun _ => true) [] f rfl rfl (by decide)
  exact ⟨v, hlog, hframe, hiff.mpr (.inl (by decide))⟩

/-- **A fabricated payload.** `c` announces eight ids in a body of four bytes.
`a` is sent a frame of four bytes, as long as what came in and none of them
from it. -/
theorem short_body_fabricates :
    ∃ s i rset, Reachable trio Runs.anyStep s ∧ s.pc = .handle i rset ∧
      (frameIn s.rbuf).body = [1, 9, 9, 9] ∧ Relays (frameIn s.rbuf).head ∧
      ∃ v, (s.handleFrame i rset).log = [v] ∧ ¬ Faithful s.nodes (frameIn s.rbuf) v.calls ∧
        v.calls.map (fun c => c.bytes.drop protocolCmdHeadLen) = [[0, 0, 0, 0]] := by
  let f := Frame.ofFields 1 188 8 0 [1, 9, 9, 9] (by decide)
  let P : Broker → Bool := fun s =>
    s.pc.handled.any fun p : Nat × (Int → Bool) =>
      decide ((frameIn s.rbuf).body = [1, 9, 9, 9]) && decide (Relays (frameIn s.rbuf).head) &&
        decide ((frameIn s.rbuf).body.length < getProtocolBroadcastLen (frameIn s.rbuf).head) &&
        decide (((s.handleFrame p.1 p.2).log.map fun v =>
          v.calls.map fun c => c.bytes.drop protocolCmdHeadLen) = [[[0, 0, 0, 0]]])
  have hrun : (Runs.run step Runs.unchecked trio.init
      [.accept (.client 5 [97] (.eager [])), .accept (.client 6 [99] (.eager f.bytes)),
        .readyOf [6], .next, .next, .next]).any P = true := by decide +kernel
  obtain ⟨s, hs, hP⟩ := Runs.Reaches.of_run_unchecked hrun
  simp only [P, Option.any_eq_true, Bool.and_eq_true, decide_eq_true_eq] at hP
  obtain ⟨p, hpc, ⟨⟨hbody, hrel⟩, hshort⟩, hlog⟩ := hP
  obtain ⟨v, hv, hcalls⟩ := List.map_eq_singleton_iff.mp hlog
  refine ⟨s, p.1, p.2, hs, Pc.eq_handle hpc, hbody, hrel, v, hv, fun hfaithful => ?_, hcalls⟩
  obtain ⟨c, hc, hbytes⟩ := List.map_eq_singleton_iff.mp hcalls
  have hnil := hfaithful.silent hshort c (by simp [hc])
  rw [hnil] at hbytes
  cases hbytes

end Broker

end Icehydra
