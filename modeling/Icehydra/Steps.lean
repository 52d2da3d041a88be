import Icehydra.Main

/-!
# Steps — what one step of the main loop can do

One constructor for each way a step goes, with its guard and its effect; the
invariants are proved over these and never unfold the loop. A handled frame is
described by the sends it leads to (`outgoing`) and by the node that is closed
after them (`errnode`).
-/

namespace Icehydra

open Block NonBlock

/-! ## The table after an accept -/

/-- The new connection. -/
def Accepted.conn (a : Accepted) (cid : Nat) : Conn :=
  ⟨cid, a.sunPath.takeWhile (· ≠ 0), ⟨a.input, a.recvs, a.sends, [], []⟩⟩

theorem Kernel.conns_accept_self (k : Kernel) (a : Accepted) :
    (k.accept a).conns a.fd = some (a.conn k.nextCid) :=
  Function.update_self ..

theorem Kernel.conns_accept_of_ne (k : Kernel) {a : Accepted} {fd : Int} (h : fd ≠ a.fd) :
    (k.accept a).conns fd = k.conns fd :=
  Function.update_of_ne h ..

/-- The path of the peer. -/
def Accepted.un (a : Accepted) : Bytes := a.sunPath.takeWhile (· ≠ 0)

/-- `accept_unix_tcp` hands the descriptor on. -/
def Accepted.Taken (a : Accepted) : Prop := 0 ≤ a.fd ∧ a.statOk = true ∧ a.isSock = true

instance (a : Accepted) : Decidable a.Taken := inferInstanceAs (Decidable (_ ∧ _))

theorem Broker.acceptBranch_eq (s : Broker) (a : Accepted) :
    s.acceptBranch a = { s with
      kernel := if 0 ≤ a.fd then s.kernel.accept a else s.kernel
      nodes := if a.Taken then attach s.nodes a.un a.fd else s.nodes } := by
  by_cases ht : a.Taken
  · obtain ⟨hfd, hs, hk⟩ := ht
    have hr : acceptUnixTcp a = (a.fd, a.un) := by simp [acceptUnixTcp, hs, hk, Accepted.un]
    simp only [Broker.acceptBranch, hr, if_pos hfd, if_neg (Int.not_lt.mpr hfd),
      if_pos (show a.Taken from ⟨hfd, hs, hk⟩)]
  · have hr : (acceptUnixTcp a).1 < 0 := by
      unfold acceptUnixTcp
      unfold Accepted.Taken at ht
      grind
    simp only [Broker.acceptBranch, if_pos hr, if_neg ht]
    split <;> rfl

/-- A descriptor that is handed out is new. -/
theorem Accepted.Valid.free {a : Accepted} {s : Broker} (h : a.Valid s) (hfd : 0 ≤ a.fd) :
    0 < a.fd ∧ s.kernel.conns a.fd = none := by
  rcases h with hneg | ⟨hpos, -, hfree⟩
  · exact absurd hfd (Int.not_le.mpr hneg)
  · exact ⟨hpos, hfree⟩

/-- After an accept a node is as it was, or attached to the new connection. -/
theorem Broker.mem_acceptBranch {s : Broker} {a : Accepted} {n : PubSubNode}
    (h : n ∈ (s.acceptBranch a).nodes) :
    n ∈ s.nodes ∨ a.Taken ∧ ∃ m ∈ s.nodes, isPeer m.name a.un = true ∧
      n = { m with connfd := a.fd } := by
  rw [s.acceptBranch_eq] at h
  simp only at h
  split at h
  · rename_i ht
    obtain ⟨m, hm, rfl⟩ := List.mem_map.mp h
    split
    · rename_i hpeer
      exact .inr ⟨ht, m, hm, hpeer, rfl⟩
    · exact .inl hm
  · exact .inl h

theorem Broker.conns_acceptBranch_self {s : Broker} {a : Accepted} (h : a.Taken) :
    (s.acceptBranch a).kernel.conns a.fd = some (a.conn s.kernel.nextCid) := by
  rw [s.acceptBranch_eq]
  simp only [if_pos h.1]
  exact s.kernel.conns_accept_self a

theorem Broker.conns_acceptBranch_of_ne {s : Broker} {a : Accepted} {fd : Int} (h : fd ≠ a.fd) :
    (s.acceptBranch a).kernel.conns fd = s.kernel.conns fd := by
  rw [s.acceptBranch_eq]
  simp only
  split
  · exact s.kernel.conns_accept_of_ne h
  · rfl

/-- Names and ids of the nodes, which nothing in the loop changes. -/
def staticOf (nodes : List PubSubNode) : List (Bytes × Int) := nodes.map fun n => (n.name, n.id)

theorem staticOf_attach (nodes : List PubSubNode) (un : Bytes) (connfd : Int) :
    staticOf (attach nodes un connfd) = staticOf nodes := by
  simp only [staticOf, attach, List.map_map]
  apply List.map_congr_left
  intro n _
  simp only [Function.comp_apply]
  split <;> rfl

theorem staticOf_set {nodes : List PubSubNode} {i : Nat} {n : PubSubNode} (connfd : Int)
    (h : nodes[i]? = some n) :
    staticOf (nodes.set i { n with connfd := connfd }) = staticOf nodes := by
  obtain ⟨hi, rfl⟩ := List.getElem?_eq_some_iff.mp h
  have hmap : i < (staticOf nodes).length := by rwa [staticOf, List.length_map]
  have hget : (staticOf nodes)[i] = (nodes[i].name, nodes[i].id) := List.getElem_map _
  rw [staticOf, List.map_set, ← staticOf, ← hget]
  exact List.set_getElem_self hmap

/-- Names and ids are where they were. -/
theorem exists_of_staticOf {nodes now : List PubSubNode} (h : staticOf now = staticOf nodes)
    {i : Nat} {n : PubSubNode} (hn : now[i]? = some n) : ∃ m, nodes[i]? = some m ∧ m.id = n.id := by
  have hi : (staticOf now)[i]? = some (n.name, n.id) := by
    rw [staticOf, List.getElem?_map, hn]
    rfl
  rw [h, staticOf, List.getElem?_map] at hi
  obtain ⟨m, hm, heq⟩ := Option.map_eq_some_iff.mp hi
  exact ⟨m, hm, congrArg Prod.snd heq⟩

theorem id_ne_zero_of_staticOf {nodes now : List PubSubNode} (h : staticOf now = staticOf nodes)
    (hid : ∀ n ∈ nodes, n.id ≠ 0) : ∀ n ∈ now, n.id ≠ 0 := by
  intro n hn
  obtain ⟨i, hi⟩ := List.getElem?_of_mem hn
  obtain ⟨m, hm, hsame⟩ := exists_of_staticOf h hi
  rw [← hsame]
  exact hid m (List.mem_of_getElem? hm)

/-! ## The replies -/

/-- The header and the data of the reply to a RESERVE command, if there is
one; the data is null where there is no table. -/
def replyBuf (nodeStart : PubSubNode) (cmd : Bytes) : Option (Bytes × Option Bytes) :=
  let buf : Bytes := List.replicate 2000 0
  if getProtocolCmdId cmd = ihReserveCmdIdGetShmInfo then
    some (setPureProtocolHead buf (toInt32 (sizeofShmNode * nodeStart.shmNodeNum)) 0
      ihReserveCmdIdGetShmInfo.toNat,
      nodeStart.shmNodePtr.map fun table => table.flatMap ShmNode.bytes)
  else if getProtocolCmdId cmd = ihReserveCmdIdGetShmNum then
    let buf := store (setPureProtocolHead buf 1 0 ihReserveCmdIdGetShmNum.toNat)
      protocolCmdHeadLen [toU8 nodeStart.shmNodeNum]
    some (buf, some (buf.drop protocolCmdHeadLen))
  else none

theorem parserReserveCmd_eq (k : Kernel) (nodeStart : PubSubNode) (cur : PubSubNode × Nat)
    (cmd : Bytes) :
    parserReserveCmd k nodeStart cur cmd =
      match replyBuf nodeStart cmd with
      | none => ⟨k, .val 0, []⟩
      | some (buf, data) => k.send cur.2 cur.1.connfd buf data := by
  unfold parserReserveCmd replyBuf
  split
  · rfl
  · split <;> rfl

theorem parserReserveCmd_wrote (k : Kernel) (nodeStart : PubSubNode) (cur : PubSubNode × Nat)
    (cmd : Bytes) :
    Kernel.Wrote k (parserReserveCmd k nodeStart cur cmd).kernel
      (parserReserveCmd k nodeStart cur cmd).calls := by
  rw [parserReserveCmd_eq]
  cases replyBuf nodeStart cmd with
  | none => exact Kernel.Wrote.refl k
  | some r => exact k.send_wrote _ _ _ _

namespace Broker

/-! ## close_s -/

/-- What `close_s` leaves of the table. -/
def closeFd (k : Kernel) (fd : Int) : Kernel := if 0 < fd then k.close fd else k

theorem closeS_eq {s : Broker} {i : Nat} {n : PubSubNode} (h : s.nodes[i]? = some n) :
    s.closeS i =
      { s with kernel := closeFd s.kernel n.connfd, nodes := s.nodes.set i { n with connfd := -1 } } := by
  rw [closeS, h]
  rfl

section CloseS

variable (s : Broker) (i : Nat)

@[simp] theorem closeS_log : (s.closeS i).log = s.log := by
  unfold closeS
  split <;> rfl

@[simp] theorem closeS_rbuf : (s.closeS i).rbuf = s.rbuf := by
  unfold closeS
  split <;> rfl

end CloseS

/-! ## A handled frame -/

/-- The frame goes to `broadcast_cmd`: neither RESERVE nor SERIAL. -/
def Relays (rbuf : Bytes) : Prop :=
  getProtocolCmdType rbuf ≠ ihCmdTypeSendReserve ∧ getProtocolCmdType rbuf ≠ ihCmdTypeSendSerial

instance (rbuf : Bytes) : Decidable (Relays rbuf) := inferInstanceAs (Decidable (_ ∧ _))

/-- The sends that the frame in `rbuf`, read from node `i`, leads to. -/
def outgoing (s : Broker) (i : Nat) (cur : PubSubNode) : Outgoing :=
  if getProtocolCmdType s.rbuf = ihCmdTypeSendReserve then
    parserReserveCmd s.kernel s.nodeStart (cur, i) s.rbuf
  else if getProtocolCmdType s.rbuf = ihCmdTypeSendSerial then ⟨s.kernel, .val 0, []⟩
  else (broadcastCmd s.kernel s.nodes s.rbuf).2

/-- The node that is closed after the sends: only a relay closes one. -/
def errnode (s : Broker) : Option Nat :=
  if Relays s.rbuf then
    match (broadcastCmd s.kernel s.nodes s.rbuf).2.ret with
    | .killed => none
    | .val ret => if ret < 0 then findNodeById s.nodes (-ret) else none
  else none

/-- The state with the sends made and recorded. -/
def sent (s : Broker) (i : Nat) (cur : PubSubNode) : Broker :=
  { s with
    kernel := (s.outgoing i cur).kernel
    rbuf := if Relays s.rbuf then broadcastHead s.rbuf else s.rbuf
    log := s.log ++ [s.visitOf i cur (s.outgoing i cur).calls] }

theorem outgoing_relay {s : Broker} (h : Relays s.rbuf) (i : Nat) (cur : PubSubNode) :
    s.outgoing i cur = (broadcastCmd s.kernel s.nodes s.rbuf).2 := by
  rw [outgoing, if_neg h.1, if_neg h.2]

/-- `rbuf` holds a RESERVE command that is answered with this header and these
data. -/
def Replies (s : Broker) (buf data : Bytes) : Prop :=
  getProtocolCmdType s.rbuf = ihCmdTypeSendReserve ∧
    replyBuf s.nodeStart s.rbuf = some (buf, some data)

/-- Without a relay, a call is part of a reply. -/
theorem outgoing_reply {s : Broker} {i : Nat} {cur : PubSubNode} (hrel : ¬ Relays s.rbuf)
    {c : Call} (hc : c ∈ (s.outgoing i cur).calls) :
    ∃ buf data, s.Replies buf data ∧ s.outgoing i cur = s.kernel.send i cur.connfd buf (some data) := by
  unfold outgoing at hc ⊢
  split at hc
  · rename_i hr
    rw [if_pos hr]
    rw [parserReserveCmd_eq] at hc ⊢
    split at hc
    · cases hc
    · rename_i buf data hreply
      obtain ⟨d, rfl, -⟩ := Kernel.send_calls hc
      exact ⟨buf, d, ⟨hr, hreply⟩, rfl⟩
  · rename_i hr
    split at hc
    · cases hc
    · rename_i hs
      exact absurd ⟨hr, hs⟩ hrel

theorem outgoing_wrote {s : Broker} (h : protocolCmdHeadLen ≤ s.rbuf.length) (i : Nat)
    (cur : PubSubNode) :
    Kernel.Wrote s.kernel (s.outgoing i cur).kernel (s.outgoing i cur).calls := by
  unfold outgoing
  split
  · exact parserReserveCmd_wrote _ _ _ _
  · split
    · exact Kernel.Wrote.refl _
    · exact broadcastCmd_wrote _ _ h

/-- **One handled frame**: the sends, and then at most one node closed. -/
theorem handleFrame_eq {s : Broker} {i : Nat} {cur : PubSubNode} (hcur : s.nodes[i]? = some cur)
    (rset : Int → Bool) :
    s.handleFrame i rset =
      if (s.outgoing i cur).ret = .killed then { s.sent i cur with pc := .exited .sigpipe }
      else
        match s.errnode with
        | none => { s.sent i cur with pc := .scan (i + 1) rset }
        | some j => { (s.sent i cur).closeS j with pc := .scan (i + 1) rset } := by
  unfold handleFrame
  rw [hcur]
  simp only
  by_cases hr : getProtocolCmdType s.rbuf = ihCmdTypeSendReserve
  · have hnot : ¬ Relays s.rbuf := fun h => h.1 hr
    have hout : s.outgoing i cur = parserReserveCmd s.kernel s.nodeStart (cur, i) s.rbuf :=
      if_pos hr
    rw [if_pos hr, errnode, if_neg hnot, sent, if_neg hnot, ← hout]
    cases h : (s.outgoing i cur).ret with
    | killed => simp
    | val ret => simp
  · by_cases hs : getProtocolCmdType s.rbuf = ihCmdTypeSendSerial
    · have hnot : ¬ Relays s.rbuf := fun h => h.2 hs
      have hout : s.outgoing i cur = ⟨s.kernel, .val 0, []⟩ := by
        rw [outgoing, if_neg hr, if_pos hs]
      rw [if_neg hr, if_pos hs, errnode, if_neg hnot, sent, if_neg hnot, hout]
      simp
    · have hrel : Relays s.rbuf := ⟨hr, hs⟩
      have hbuf : (broadcastCmd s.kernel s.nodes s.rbuf).1 = broadcastHead s.rbuf := rfl
      rw [if_neg hr, if_neg hs, errnode, if_pos hrel, sent, if_pos hrel, hbuf,
        outgoing_relay hrel]
      cases h : (broadcastCmd s.kernel s.nodes s.rbuf).2.ret with
      | killed => simp
      | val ret =>
          simp only [closeErrnode, reduceCtorEq, if_false]
          split
          · cases findNodeById s.nodes (-ret) <;> rfl
          · rfl

/-- The record of a handled frame. -/
theorem handleFrame_log {s : Broker} {i : Nat} {cur : PubSubNode} (hcur : s.nodes[i]? = some cur)
    (rset : Int → Bool) :
    (s.handleFrame i rset).log = s.log ++ [s.visitOf i cur (s.outgoing i cur).calls] := by
  rw [handleFrame_eq hcur]
  split
  · rfl
  · split
    · rfl
    · exact closeS_log _ _

end Broker

theorem findNodeById_eq_some {nodes : List PubSubNode} {id : Int} {j : Nat}
    (h : findNodeById nodes id = some j) :
    ∃ n, nodes[j]? = some n ∧ n.id = id ∧
      ∀ (k : Nat) (m : PubSubNode), k < j → nodes[k]? = some m → m.id ≠ id := by
  obtain ⟨hj, hid, hbefore⟩ := List.findIdx?_eq_some_iff_getElem.mp h
  refine ⟨nodes[j], List.getElem?_eq_getElem hj, by simpa using hid, ?_⟩
  intro k m hk hm
  obtain ⟨hlen, rfl⟩ := List.getElem?_eq_some_iff.mp hm
  simpa using hbefore k hk

theorem Broker.errnode_some {s : Broker} {j : Nat} (h : s.errnode = some j) :
    ∃ n, s.nodes[j]? = some n := by
  unfold errnode at h
  split at h
  · split at h
    · cases h
    · split at h
      · obtain ⟨n, hn, -⟩ := findNodeById_eq_some h
        exact ⟨n, hn⟩
      · cases h
  · cases h

/-! ## The first failure of a relay -/

namespace Broker

/-- The first recipient whose send fails. -/
def firstFailure (s : Broker) : Option Attempt :=
  (relayAttempts s.kernel s.nodes s.rbuf).find? fun a => ¬ a.Ok

theorem firstFailure_mem {s : Broker} {a : Attempt} (h : s.firstFailure = some a) :
    a ∈ relayAttempts s.kernel s.nodes s.rbuf ∧ ¬ a.Ok :=
  ⟨List.mem_of_find?_eq_some h, by simpa using List.find?_some h⟩

section Relay

variable {s : Broker} (hrel : Relays s.rbuf) (hlen : protocolCmdHeadLen ≤ s.rbuf.length)

include hrel hlen

theorem outgoing_ret (i : Nat) (cur : PubSubNode) :
    (s.outgoing i cur).ret = (s.firstFailure.map Attempt.exit).getD (.val 0) := by
  rw [outgoing_relay hrel, broadcastCmd_ret _ _ hlen]
  rfl

theorem outgoing_calls (i : Nat) (cur : PubSubNode) :
    (s.outgoing i cur).calls
      = (upToFailure (relayAttempts s.kernel s.nodes s.rbuf)).flatMap Attempt.calls := by
  rw [outgoing_relay hrel, broadcastCmd_calls _ _ hlen]

/-- **The node that is closed** is the first one with the id of the recipient
whose send failed. -/
theorem errnode_eq (hid : ∀ n ∈ s.nodes, n.id ≠ 0) :
    s.errnode =
      match s.firstFailure with
      | none => none
      | some a => if a.ret = .killed then none else findNodeById s.nodes a.target.1.id := by
  have hret : (broadcastCmd s.kernel s.nodes s.rbuf).2.ret
      = (s.firstFailure.map Attempt.exit).getD (.val 0) := broadcastCmd_ret _ _ hlen
  rw [errnode, if_pos hrel, hret]
  cases hf : s.firstFailure with
  | none => rfl
  | some a =>
      obtain ⟨hmem, -⟩ := firstFailure_mem hf
      obtain ⟨hnode, ⟨b, -, hb⟩, -⟩ := mem_relayAttempts _ _ hlen hmem
      have hne := hid _ (List.mem_of_getElem? hnode)
      simp only [Option.map_some, Option.getD_some, Attempt.exit]
      by_cases hk : a.ret = .killed
      · simp [hk]
      · rw [if_neg hk, if_neg hk]
        simp only [Int.neg_neg]
        rw [if_pos (by omega)]

end Relay

end Broker

/-! ## One node of the scan -/

namespace Broker

/-- The state after the receive from `cur`, as far as the memory and the
socket go. -/
def received (s : Broker) (cur : PubSubNode) : Broker :=
  let r := tcpRecvProtocolCmd (s.kernel.sock cur.connfd) cur.connfd true
  { s with
    kernel := s.kernel.setSock cur.connfd r.sock
    rbuf := storeFrame s.rbuf r.head r.body }

theorem closeS_received {s : Broker} {i : Nat} {cur : PubSubNode} (h : s.nodes[i]? = some cur) :
    (s.received cur).closeS i =
      { s.received cur with
        kernel := closeFd (s.received cur).kernel cur.connfd
        nodes := s.nodes.set i { cur with connfd := -1 } } :=
  closeS_eq (s := s.received cur) h

/-- The ways a scan step goes. -/
inductive Scanned (s : Broker) (i : Nat) (rset : Int → Bool) : Broker → Prop
  | done : s.nodes[i]? = none → Scanned s i rset { s with pc := .select }
  | skip {cur} : s.nodes[i]? = some cur → (cur.connfd < 0 ∨ rset cur.connfd = false) →
      Scanned s i rset { s with pc := .scan (i + 1) rset }
  | failed {cur} : s.nodes[i]? = some cur → 0 ≤ cur.connfd → rset cur.connfd = true →
      (tcpRecvProtocolCmd (s.kernel.sock cur.connfd) cur.connfd true).ret = -1 →
      Scanned s i rset { (s.received cur).closeS i with pc := .scan (i + 1) rset }
  | got {cur} : s.nodes[i]? = some cur → 0 ≤ cur.connfd → rset cur.connfd = true →
      (tcpRecvProtocolCmd (s.kernel.sock cur.connfd) cur.connfd true).ret = 0 →
      Scanned s i rset { s.received cur with pc := .handle i rset }

theorem scanned (s : Broker) (i : Nat) (rset : Int → Bool) :
    Scanned s i rset (s.scanNode i rset) := by
  unfold scanNode
  split
  · exact .done ‹_›
  · rename_i cur hcur
    simp only
    split
    · exact .skip hcur (.inl ‹_›)
    · rename_i hfd
      split
      · exact .skip hcur (.inr ‹_›)
      · rename_i hset
        have hret := tcpRecvProtocolCmd_eq (s.kernel.sock cur.connfd) (Int.not_lt.mp hfd)
        have hset' : rset cur.connfd = true := by simpa using hset
        split
        · rename_i hneg
          refine .failed hcur (Int.not_lt.mp hfd) hset' ?_
          rw [hret] at hneg ⊢
          grind
        · rename_i hneg
          refine .got hcur (Int.not_lt.mp hfd) hset' ?_
          rw [hret] at hneg ⊢
          grind

end Broker

/-! ## Any step -/

/-- The ways a step goes. -/
inductive Stepped (s : Broker) : Event → Broker → Prop
  | dangling {e} : s.pc = .select → s.dangling = true →
      Stepped s e { s with pc := .exited .badDescriptor }
  | selectError : s.pc = .select → s.dangling = false →
      Stepped s .selectError { s with pc := .exited .selectError }
  | timeout : s.pc = .select → s.dangling = false → Stepped s .timeout s
  | accept {a} : s.pc = .select → s.dangling = false → a.Valid s →
      Stepped s (.accept a) (s.acceptBranch a)
  | ready {set} : s.pc = .select → s.dangling = false →
      Stepped s (.ready set) { s with pc := .scan 0 fun fd => set fd && s.fdSet fd }
  | scan {i rset} : s.pc = .scan i rset → Stepped s .next (s.scanNode i rset)
  | handle {i rset} : s.pc = .handle i rset → Stepped s .next (s.handleFrame i rset)

theorem step_cases {s s' : Broker} {e : Event} (h : step s e = some s') : Stepped s e s' := by
  cases hpc : s.pc with
  | select =>
      cases hd : s.dangling with
      | true =>
          have hs : e ≠ .next → s' = { s with pc := .exited .badDescriptor } := by
            intro he
            cases e <;> simp_all [step]
          cases e with
          | next => simp [step, hpc] at h
          | timeout | selectError | accept a | ready set =>
              rw [hs (by simp)]
              exact .dangling hpc hd
      | false =>
          simp only [step, hpc, hd, Bool.false_eq_true, if_false] at h
          cases e with
          | next => cases h
          | timeout =>
              cases h
              exact .timeout hpc hd
          | selectError =>
              cases h
              exact .selectError hpc hd
          | accept a =>
              simp only at h
              split at h
              · cases h
                exact .accept hpc hd ‹_›
              · cases h
          | ready set =>
              cases h
              exact .ready hpc hd
  | scan i rset =>
      cases e with
      | next =>
          simp only [step, hpc] at h
          cases h
          exact .scan hpc
      | timeout | selectError | accept a | ready set => simp [step, hpc] at h
  | handle i rset =>
      cases e with
      | next =>
          simp only [step, hpc] at h
          cases h
          exact .handle hpc
      | timeout | selectError | accept a | ready set => simp [step, hpc] at h
  | exited why => simp [step, hpc] at h

/-- A frame is handled in one way. -/
theorem step_handle {s s' : Broker} {e : Event} (h : step s e = some s') {i : Nat}
    {rset : Int → Bool} (hpc : s.pc = .handle i rset) : s' = s.handleFrame i rset := by
  cases step_cases h with
  | handle hpc' =>
      rw [hpc] at hpc'
      cases hpc'
      rfl
  | dangling hpc' | selectError hpc' | timeout hpc' | accept hpc' | ready hpc' | scan hpc' =>
      rw [hpc] at hpc'
      cases hpc'

end Icehydra
