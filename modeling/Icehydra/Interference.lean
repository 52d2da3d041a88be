import Icehydra.Delivery
import Icehydra.Streams

/-!
# Interference — what a node is sent depends on its own events only

All clients share one receive buffer and one list of nodes. `Seen` is what
concerns one node: that its client connects or is dropped, its own RESERVE
commands, and the relayed frames with its id in their list. A `Session` goes
through these events alone; as long as no send fails, what the broker writes
for the node is what the session says.
-/

namespace Icehydra

open Block NonBlock

/-! ## Sessions -/

deriving instance DecidableEq for Frame

/-- What concerns one node. -/
inductive Seen where
  | connected
  | dropped
  | asked (f : Frame)
  | relayed (f : Frame)
  deriving DecidableEq

/-- What a node has been sent on its present connection, if it has one, and on
all of them. -/
structure Session where
  attached : Bool
  out : Bytes
  whole : Bytes

/-- The reply to a RESERVE command. -/
def replyBytes (nodeStart : PubSubNode) (f : Frame) : Bytes :=
  match replyBuf nodeStart f.head with
  | some (buf, some data) => frameOf buf data
  | _ => []

/-- The relayed frame, once for each time the id is listed. -/
def copies (id : Int) (f : Frame) : Bytes :=
  (f.ids.filter fun b => (b.toNat : Int) = id).flatMap fun _ => f.relayed.bytes

namespace Session

def start : Session := ⟨false, [], []⟩

def write (t : Session) (bs : Bytes) : Session :=
  { t with out := t.out ++ bs, whole := t.whole ++ bs }

def next (nodeStart : PubSubNode) (id : Int) (t : Session) : Seen → Session
  | .connected => { t with attached := true, out := [] }
  | .dropped => { t with attached := false, out := [] }
  | .asked f => t.write (replyBytes nodeStart f)
  | .relayed f => if t.attached then t.write (copies id f) else t

/-- What the present connection has been sent. -/
def present (t : Session) : Option Bytes := if t.attached then some t.out else none

end Session

namespace Broker

/-- What the step shows to the node at `j`. -/
def seen (j : Nat) (s : Broker) (e : Event) : List Seen :=
  match s.nodes[j]? with
  | none => []
  | some n =>
      match s.pc, e with
      | .select, .accept a =>
          if s.dangling = false ∧ a.Taken ∧ isPeer n.name a.un = true then [.connected] else []
      | .scan i rset, _ =>
          if i = j ∧ 0 ≤ n.connfd ∧ rset n.connfd = true ∧
              (tcpRecvProtocolCmd (s.kernel.sock n.connfd) n.connfd true).ret < 0 then [.dropped]
          else []
      | .handle i _, _ =>
          if getProtocolCmdType s.rbuf = ihCmdTypeSendReserve then
            if i = j then [.asked (frameIn s.rbuf)] else []
          else if Relays s.rbuf ∧ Addressed (frameIn s.rbuf).ids n then
            [.relayed (frameIn s.rbuf)]
          else []
      | _, _ => []

/-- The bytes written for the node at `j`. -/
def written (log : List Visit) (j : Nat) : Bytes :=
  ((log.flatMap Visit.calls).filter fun c => c.node = j).flatMap Call.bytes

theorem written_concat (log : List Visit) (v : Visit) (j : Nat) :
    written (log ++ [v]) j
      = written log j ++ (v.calls.filter fun c => c.node = j).flatMap Call.bytes := by
  simp [written]

/-- The bytes written on the present connection of the node at `j`. -/
def outputOf (s : Broker) (j : Nat) : Option Bytes :=
  s.nodes[j]?.bind fun n => (s.kernel.conns n.connfd).map fun c => c.sock.output

/-- Bodies fit into the receive buffer, and every send takes its whole frame. -/
structure Quiet (s : Broker) (_ : Event) : Prop where
  bodies : ∀ i rset cur, s.Receives i rset cur →
    nextLen (s.kernel.sock cur.connfd) ≤ maxCmdLen - protocolCmdHeadLen
  sends : ∀ i rset cur, s.pc = .handle i rset → s.nodes[i]? = some cur →
    ∀ c ∈ (s.outgoing i cur).calls, c.Complete

/-! ## The calls for one node -/

section Calls

variable {cfg : Config} {s : Broker} {e : Event} (hinv : Inv cfg s) {i : Nat} {rset : Int → Bool}
  (hpc : s.pc = .handle i rset) {cur : PubSubNode} (hcur : s.nodes[i]? = some cur)

include hinv hpc

/-- A complete call is on an open connection. -/
theorem open_of_complete {c : Call} (hc : c ∈ (s.outgoing i cur).calls) (hall : c.Complete) :
    s.kernel.conns c.fd ≠ none := by
  intro hnone
  have hw := hinv.wrote hpc cur
  have hclosed : (s.outgoing i cur).kernel.conns c.fd = none := by
    have hid := hw.sameConns.2 c.fd
    rw [Kernel.ident, Kernel.ident, hnone] at hid
    exact Option.map_eq_none_iff.mp hid
  -- a descriptor that is closed takes no byte
  have hout := hw.output c.fd
  simp only [Kernel.sock, hnone, hclosed, Sock.dead, List.nil_append, Kernel.bytesOn] at hout
  have hbytes : c.bytes = [] :=
    List.flatMap_eq_nil_iff.mp hout.symm c (List.mem_filter.mpr ⟨hc, by simp⟩)
  obtain ⟨⟨f, hf⟩, -⟩ := outgoing_ofFrame (hinv.holding i rset hpc).rbuf_length hc
  have hlen := f.bytes_length
  rw [← hf, ← hall, hbytes] at hlen
  simp only [List.length_nil] at hlen
  have := protocolCmdHeadLen_pos
  omega

include hcur

/-- With distinct names, the calls on a node's connection are the calls for the
node. -/
theorem filter_conn_eq (hatt : s.Attached) (hnames : (s.nodes.map PubSubNode.name).Nodup) {j : Nat}
    {n : PubSubNode} (hj : s.nodes[j]? = some n) {conn : Conn}
    (hconn : s.kernel.conns n.connfd = some conn) :
    ((s.outgoing i cur).calls.filter fun c => c.conn = some conn.cid)
      = (s.outgoing i cur).calls.filter fun c => c.node = j := by
  apply List.filter_congr
  intro c hc
  obtain ⟨m, hm, hfd⟩ := outgoing_node (hinv.holding i rset hpc).rbuf_length hcur hc
  have hcc := (hinv.wrote hpc cur).conn c hc
  rw [decide_eq_decide]
  constructor
  · intro heq
    obtain ⟨conn', hconn', hcid⟩ := (hinv.wrote hpc cur).conn_of_mem hc heq
    have hsame := hinv.ledger.cid_inj hconn' hconn hcid
    exact hatt.alone hnames j c.node n m hj hm (hinv.ledger.conns_pos hconn)
      (hfd.symm.trans hsame)
  · intro heq
    rw [heq, hj] at hm
    obtain rfl := Option.some.inj hm
    rw [hcc, hfd, hconn]
    rfl

/-- A node that is not attached is written nothing. -/
theorem filter_node_eq_nil (hok : s.Quiet e) {j : Nat} {n : PubSubNode}
    (hj : s.nodes[j]? = some n) (hneg : n.connfd ≤ 0) :
    ((s.outgoing i cur).calls.filter fun c => c.node = j) = [] := by
  apply List.filter_eq_nil_iff.mpr
  intro c hc
  rw [decide_eq_true_eq]
  intro heq
  obtain ⟨m, hm, hfd⟩ := outgoing_node (hinv.holding i rset hpc).rbuf_length hcur hc
  rw [heq, hj] at hm
  obtain rfl := Option.some.inj hm
  obtain ⟨conn, hconn⟩ := Option.ne_none_iff_exists'.mp
    (open_of_complete hinv hpc hc (hok.sends i rset cur hpc hcur c hc))
  have hpos := hinv.ledger.conns_pos hconn
  omega

end Calls

/-! ## What a handled frame brings the node -/

theorem replyBytes_frameIn {nodeStart : PubSubNode} {rbuf buf data : Bytes}
    (h : replyBuf nodeStart rbuf = some (buf, some data)) :
    replyBytes nodeStart (frameIn rbuf) = frameOf buf data := by
  have hid : getProtocolCmdId (frameIn rbuf).head = getProtocolCmdId rbuf :=
    byteAt_peek rbuf (by decide)
  simp only [replyBytes, replyBuf, hid] at h ⊢
  rw [h]

theorem replyBytes_eq_nil {nodeStart : PubSubNode} {rbuf : Bytes}
    (h : ∀ buf data, replyBuf nodeStart rbuf ≠ some (buf, some data)) :
    replyBytes nodeStart (frameIn rbuf) = [] := by
  have hid : getProtocolCmdId (frameIn rbuf).head = getProtocolCmdId rbuf :=
    byteAt_peek rbuf (by decide)
  have hsame : replyBuf nodeStart (frameIn rbuf).head = replyBuf nodeStart rbuf := by
    simp only [replyBuf, hid]
  rw [replyBytes, hsame]
  split
  · rename_i buf data heq
    exact absurd heq (h buf data)
  · rfl

section Handled

variable {cfg : Config} {s : Broker} {e : Event} (hinv : Inv cfg s) (hok : s.Quiet e) {i : Nat}
  {rset : Int → Bool} (hpc : s.pc = .handle i rset) {cur : PubSubNode}
  (hcur : s.nodes[i]? = some cur) {j : Nat} {n : PubSubNode} (hj : s.nodes[j]? = some n)
  (hpos : 0 < n.connfd)

include hinv hok hpc hcur hj hpos

/-- The reply goes to the node that asked. -/
theorem reply_bytes (hr : getProtocolCmdType s.rbuf = ihCmdTypeSendReserve) :
    ((s.outgoing i cur).calls.filter fun c => c.node = j).flatMap Call.bytes
      = if i = j then replyBytes cfg.nodeStart (frameIn s.rbuf) else [] := by
  have hrel : ¬ Relays s.rbuf := fun h => h.1 hr
  have hcomplete := hok.sends i rset cur hpc hcur
  rw [← hinv.nodeStart]
  by_cases hreply : ∃ buf data, replyBuf s.nodeStart s.rbuf = some (buf, some data)
  · obtain ⟨buf, data, hreply⟩ := hreply
    rw [replyBytes_frameIn hreply]
    have hout : s.outgoing i cur = s.kernel.send i cur.connfd buf (some data) := by
      rw [outgoing, if_pos hr, parserReserveCmd_eq, hreply]
    rw [hout] at hcomplete ⊢
    by_cases hij : i = j
    · subst hij
      obtain rfl := Option.some.inj (hcur.symm.trans hj)
      rw [if_pos rfl]
      rw [s.kernel.send_eq i buf data (Int.le_of_lt hpos)] at hcomplete ⊢
      have hbytes := hcomplete _ (List.mem_singleton_self _)
      simp only [Call.Complete] at hbytes
      simp [hbytes]
    · rw [if_neg hij]
      have hnone : ((s.kernel.send i cur.connfd buf (some data)).calls.filter
          fun c => c.node = j) = [] := by
        apply List.filter_eq_nil_iff.mpr
        intro c hc
        obtain ⟨-, -, -, hnode, -⟩ := Kernel.send_calls hc
        simpa [hnode] using hij
      rw [hnone]
      rfl
  · have hnil : (s.outgoing i cur).calls = [] := by
      apply List.eq_nil_iff_forall_not_mem.mpr
      intro c hc
      obtain ⟨buf, data, hr, -⟩ := outgoing_reply hrel hc
      exact hreply ⟨buf, data, hr.2⟩
    rw [hnil, replyBytes_eq_nil fun buf data h => hreply ⟨buf, data, h⟩, ite_self]
    rfl

omit hinv hok hpc hcur hj hpos in
theorem recipients_filter (ids : List UInt8) (nodes : List (PubSubNode × Nat)) (j : Nat) :
    ((recipients ids nodes).filter fun p => p.2 = j)
      = recipients ids (nodes.filter fun p => p.2 = j) := by
  induction nodes with
  | nil => rfl
  | cons p nodes ih =>
      have hocc : ∀ q ∈ occurrences ids p, q = p := by
        intro q hq
        obtain ⟨-, -, rfl⟩ := List.mem_map.mp hq
        rfl
      rw [recipients, List.flatMap_cons, List.filter_append, ← recipients, ih, List.filter_cons]
      by_cases hp : p.2 = j
      · rw [if_pos (by simpa using hp), recipients, recipients, List.flatMap_cons,
          List.filter_eq_self.mpr fun q hq => by simpa [hocc q hq] using hp]
      · rw [if_neg (by simpa using hp),
          List.filter_eq_nil_iff.mpr fun q hq => by simpa [hocc q hq] using hp, List.nil_append]

omit hinv hok hpc hcur hj hpos in
/-- **A relay that goes through** brings a node the frame once for each time it
is listed, unless it is closed. -/
theorem broadcastCmd_bytes {k : Kernel} {nodes : List PubSubNode} {rbuf : Bytes} {f : Frame}
    (hcomplete : ∀ c ∈ (broadcastCmd k nodes (storeFrame rbuf f.head f.body)).2.calls, c.Complete)
    {j : Nat} {n : PubSubNode} (hj : nodes[j]? = some n) :
    ((broadcastCmd k nodes (storeFrame rbuf f.head f.body)).2.calls.filter fun c =>
        c.node = j).flatMap Call.bytes
      = if 0 ≤ n.connfd then copies n.id f else [] := by
  have hlen := le_storeFrame_length rbuf f
  rw [broadcastCmd_calls_of_ok _ _ hlen (relayAttempts_ok_of_complete _ _ hlen hcomplete),
    frameIds_storeFrame, relayFrame_storeFrame]
  have hself := filter_zipIdx nodes 0 hj
  rw [Nat.zero_add] at hself
  -- only the recipients at `j` are left, and they are there if `j` is not closed
  have hplan : (((recipients f.ids nodes.zipIdx).filter fun p => 0 ≤ p.1.connfd).filter
        ((fun c => decide (c.node = j)) ∘ fullCall k f.relayed.bytes))
      = (occurrences f.ids (n, j)).filter fun p => 0 ≤ p.1.connfd := by
    have hcomm : (((recipients f.ids nodes.zipIdx).filter fun p => 0 ≤ p.1.connfd).filter
          ((fun c => decide (c.node = j)) ∘ fullCall k f.relayed.bytes))
        = ((recipients f.ids nodes.zipIdx).filter fun p => p.2 = j).filter
            fun p => 0 ≤ p.1.connfd := by
      rw [List.filter_filter, List.filter_filter]
      apply List.filter_congr
      intro p _
      rw [Bool.and_comm]
      rfl
    rw [hcomm, recipients_filter, hself, recipients, List.flatMap_singleton]
  have hsame : ∀ p ∈ occurrences f.ids (n, j), p = (n, j) := by
    intro p hp
    obtain ⟨-, -, rfl⟩ := List.mem_map.mp hp
    rfl
  rw [List.filter_map, hplan, List.flatMap_map]
  split
  · rename_i hopen
    rw [List.filter_eq_self.mpr fun p hp => by rw [hsame p hp]; exact decide_eq_true hopen,
      occurrences, List.flatMap_map]
    rfl
  · rename_i hclosed
    rw [List.filter_eq_nil_iff.mpr fun p hp => by rw [hsame p hp]; simpa using hclosed]
    rfl

/-- A relay goes to the nodes that are listed, once for each time. -/
theorem relay_bytes (hrel : Relays s.rbuf) :
    ((s.outgoing i cur).calls.filter fun c => c.node = j).flatMap Call.bytes
      = copies n.id (frameIn s.rbuf) := by
  obtain ⟨-, -, rbuf, f, -, -, -, hbuf⟩ := hinv.holding i rset hpc
  have hcomplete := hok.sends i rset cur hpc hcur
  rw [outgoing_relay hrel, hbuf] at hcomplete ⊢
  rw [broadcastCmd_bytes hcomplete hj, if_pos (Int.le_of_lt hpos), frameIn_storeFrame]

end Handled

/-- The session of the node at `j` agrees with the broker. -/
structure Mirrors (s : Broker) (j : Nat) (id : Int) (n : PubSubNode) (t : Session) : Prop where
  node : s.nodes[j]? = some n
  id_eq : n.id = id
  attached : t.attached = true ↔ 0 < n.connfd
  out : ∀ cid un, s.kernel.ident n.connfd = some (cid, un) →
    (callsOn s.log cid).flatMap Call.bytes = t.out
  whole : written s.log j = t.whole

/-- The step leaves what concerns the node as it is. -/
theorem Mirrors.keep {s s' : Broker} {j : Nat} {id : Int} {n : PubSubNode} {t : Session}
    (h : s.Mirrors j id n t) (hn : s'.nodes[j]? = some n)
    (hident : s'.kernel.ident n.connfd = s.kernel.ident n.connfd) (hlog : s'.log = s.log) :
    s'.Mirrors j id n t where
  node := hn
  id_eq := h.id_eq
  attached := h.attached
  out := by
    rw [hident, hlog]
    exact h.out
  whole := by
    rw [hlog]
    exact h.whole

theorem seen_of_handle {s : Broker} {e : Event} {i : Nat} {rset : Int → Bool}
    (hpc : s.pc = .handle i rset) {j : Nat} {n : PubSubNode} (hj : s.nodes[j]? = some n) :
    s.seen j e =
      if getProtocolCmdType s.rbuf = ihCmdTypeSendReserve then
        if i = j then [.asked (frameIn s.rbuf)] else []
      else if Relays s.rbuf ∧ Addressed (frameIn s.rbuf).ids n then [.relayed (frameIn s.rbuf)]
      else [] := by
  simp only [seen, hj, hpc]

theorem copies_eq_nil {f : Frame} {n : PubSubNode} (h : ¬ Addressed f.ids n) :
    copies n.id f = [] := by
  have hnone : (f.ids.filter fun b => (b.toNat : Int) = n.id) = [] := by
    rw [List.filter_eq_nil_iff]
    intro b hb
    rw [decide_eq_true_eq]
    exact fun heq => h ⟨b, hb, heq⟩
  rw [copies, hnone]
  rfl

section Seen

variable {cfg : Config} {s : Broker} {e : Event} (hinv : Inv cfg s) (hok : s.Quiet e) {i : Nat}
  {rset : Int → Bool} (hpc : s.pc = .handle i rset) {cur : PubSubNode}
  (hcur : s.nodes[i]? = some cur) {j : Nat} {id : Int} {n : PubSubNode} {t : Session}
  (h : s.Mirrors j id n t)

include hinv hok hpc hcur h

/-- An attached node. -/
theorem seen_attached (hpos : 0 < n.connfd) :
    (s.seen j e).foldl (Session.next cfg.nodeStart id) t
      = t.write (((s.outgoing i cur).calls.filter fun c => c.node = j).flatMap Call.bytes) := by
  have hnil : t.write [] = t := by simp [Session.write]
  rw [seen_of_handle hpc h.node]
  by_cases hr : getProtocolCmdType s.rbuf = ihCmdTypeSendReserve
  · rw [if_pos hr, reply_bytes hinv hok hpc hcur h.node hpos hr]
    split
    · rfl
    · exact hnil.symm
  · rw [if_neg hr]
    by_cases hrel : Relays s.rbuf
    · rw [relay_bytes hinv hok hpc hcur h.node hpos hrel]
      by_cases haddr : Addressed (frameIn s.rbuf).ids n
      · rw [if_pos ⟨hrel, haddr⟩, h.id_eq]
        simp only [List.foldl_cons, List.foldl_nil, Session.next, h.attached.mpr hpos, if_true]
      · rw [if_neg fun hboth => haddr hboth.2, copies_eq_nil haddr]
        exact hnil.symm
    · have hcalls : (s.outgoing i cur).calls = [] := by
        apply List.eq_nil_iff_forall_not_mem.mpr
        intro c hc
        obtain ⟨buf, data, hreply, -⟩ := outgoing_reply hrel hc
        exact hr hreply.1
      rw [if_neg fun hboth => hrel hboth.1, hcalls]
      exact hnil.symm

/-- A node that is not attached: nothing is written, and the session notices
nothing. -/
theorem seen_detached (hneg : n.connfd ≤ 0) :
    (s.seen j e).foldl (Session.next cfg.nodeStart id) t
      = t.write (((s.outgoing i cur).calls.filter fun c => c.node = j).flatMap Call.bytes) := by
  have hnil : t.write [] = t := by simp [Session.write]
  have hdetached : t.attached = false := by
    rw [Bool.eq_false_iff]
    exact fun hatt => Int.not_lt.mpr hneg (h.attached.mp hatt)
  rw [filter_node_eq_nil hinv hpc hcur hok h.node hneg, List.flatMap_nil, hnil,
    seen_of_handle hpc h.node]
  split
  · split
    · -- a node whose frame is handled is attached
      rename_i hij
      subst hij
      obtain ⟨cur', -, -, -, hcur', hcpos, -⟩ := hinv.holding i rset hpc
      obtain rfl := Option.some.inj (hcur'.symm.trans h.node)
      exact absurd hcpos (Int.not_lt.mpr hneg)
    · rfl
  · split
    · simp only [List.foldl_cons, List.foldl_nil, Session.next, hdetached, Bool.false_eq_true,
        if_false]
    · rfl

/-- What the node sees of a handled frame makes the session write what the
broker writes for it. -/
theorem seen_handle :
    (s.seen j e).foldl (Session.next cfg.nodeStart id) t
      = t.write (((s.outgoing i cur).calls.filter fun c => c.node = j).flatMap Call.bytes) := by
  rcases Int.lt_or_le 0 n.connfd with hpos | hneg
  · exact seen_attached hinv hok hpc hcur h hpos
  · exact seen_detached hinv hok hpc hcur h hneg

end Seen

/-- A handled frame. -/
theorem Mirrors.handle {cfg : Config} {s : Broker} {e : Event}
    (hnames : (cfg.nodes.map PubSubNode.name).Nodup) (hinv : Inv cfg s) (hatt : s.Attached)
    (hok : s.Quiet e) {i : Nat} {rset : Int → Bool} (hpc : s.pc = .handle i rset) {j : Nat}
    {id : Int} {n : PubSubNode} {t : Session} (h : s.Mirrors j id n t) :
    (s.handleFrame i rset).Mirrors j id n
      ((s.seen j e).foldl (Session.next cfg.nodeStart id) t) := by
  have hhold := hinv.holding i rset hpc
  obtain ⟨cur, hcur⟩ := hhold.node
  have hlen := hhold.rbuf_length
  -- nothing fails, so no node is closed
  have herr : s.errnode = none := by
    by_cases hrel : Relays s.rbuf
    · have hcomplete := hok.sends i rset cur hpc hcur
      rw [outgoing_relay hrel] at hcomplete
      have hall := relayAttempts_ok_of_complete _ _ hlen hcomplete
      have hfirst : s.firstFailure = none := by
        rw [firstFailure, List.find?_eq_none]
        intro a ha
        simpa using hall a ha
      rw [errnode_eq hrel hlen (id_ne_zero hinv), hfirst]
    · rw [errnode, if_neg hrel]
  have hafter : (s.handleFrame i rset).nodes = s.nodes ∧
      (s.handleFrame i rset).kernel = (s.outgoing i cur).kernel := by
    rw [handleFrame_eq hcur, herr]
    split <;> exact ⟨rfl, rfl⟩
  rw [seen_handle hinv hok hpc hcur h]
  refine ⟨by rw [hafter.1, h.node], h.id_eq, h.attached, fun cid un hid => ?_, ?_⟩
  · rw [hafter.2, (hinv.wrote hpc cur).sameConns.2] at hid
    obtain ⟨conn, hconn, rfl, -⟩ := Kernel.conns_of_ident hid
    rw [handleFrame_log hcur, callsOn_concat, List.flatMap_append, h.out _ un hid]
    show t.out ++ ((s.outgoing i cur).calls.filter _).flatMap Call.bytes = _
    rw [filter_conn_eq hinv hpc hcur hatt (names_nodup hinv hnames) h.node hconn]
    rfl
  · rw [handleFrame_log hcur, written_concat, h.whole]
    rfl

/-- The client of the node is accepted, or another one is. -/
theorem Mirrors.accept {cfg : Config} {s : Broker} (hinv : Inv cfg s) (hatt : s.Attached)
    (hpc : s.pc = .select) {a : Accepted} (ha : a.Valid s) {j : Nat} {id : Int} {n : PubSubNode}
    {t : Session} (h : s.Mirrors j id n t) :
    ∃ n', (s.acceptBranch a).Mirrors j id n'
      ((s.seen j (.accept a)).foldl (Session.next cfg.nodeStart id) t) := by
  have hlog : (s.acceptBranch a).log = s.log := by rw [s.acceptBranch_eq]
  have hseen : s.seen j (.accept a)
      = if a.Taken ∧ isPeer n.name a.un = true then [.connected] else [] := by
    simp only [seen, h.node, hpc, hatt.not_dangling, true_and]
  have hnode : (s.acceptBranch a).nodes[j]?
      = some (if a.Taken ∧ isPeer n.name a.un = true then { n with connfd := a.fd } else n) := by
    rw [s.acceptBranch_eq]
    by_cases ht : a.Taken
    · simp only [ht, if_true, attach, List.getElem?_map, h.node, Option.map_some, true_and]
    · simp only [ht, if_false, h.node, false_and]
  rw [hseen]
  by_cases hmine : a.Taken ∧ isPeer n.name a.un = true
  · rw [if_pos hmine] at hnode ⊢
    obtain ⟨hpos, -⟩ := ha.free hmine.1.1
    refine ⟨_, hnode, h.id_eq, iff_of_true rfl hpos, fun cid un hid => ?_, ?_⟩
    · -- a connection that is new has carried nothing
      rw [Kernel.ident_eq (conns_acceptBranch_self hmine.1)] at hid
      obtain ⟨rfl, -⟩ := Prod.mk.inj (Option.some.inj hid)
      have hfresh := (hinv.ledger_of_pc (by simp [hpc])).callsOn_fresh
      rw [hlog]
      show (callsOn s.log s.kernel.nextCid).flatMap Call.bytes = []
      rw [hfresh]
      rfl
    · rw [hlog]
      exact h.whole
  · rw [if_neg hmine] at hnode ⊢
    refine ⟨n, h.keep hnode ?_ hlog⟩
    rw [Kernel.ident, hatt.conns_acceptBranch ha (List.mem_of_getElem? h.node), Kernel.ident]

/-- The node's receive fails, and its connection is closed. -/
theorem Mirrors.dropped {cfg : Config} {s : Broker} (hinv : Inv cfg s) {j : Nat} {id : Int}
    {n : PubSubNode} {t : Session} (h : s.Mirrors j id n t) (pc : Pc) :
    Mirrors { (s.received n).closeS j with pc := pc } j id { n with connfd := -1 }
      (Session.next cfg.nodeStart id t .dropped) := by
  rw [closeS_received h.node]
  refine ⟨?_, h.id_eq, iff_of_false (by simp [Session.next]) (show ¬ (0 : Int) < -1 by decide),
    fun cid un hid => ?_, h.whole⟩
  · exact List.getElem?_set_self (List.getElem?_eq_some_iff.mp h.node).1
  · -- no connection has the descriptor -1
    have hid' : (closeFd (s.received n).kernel n.connfd).ident (-1) = some (cid, un) := hid
    rw [ident_closeFd] at hid'
    split at hid'
    · cases hid'
    · rw [ident_received] at hid'
      obtain ⟨c, hc, -⟩ := Kernel.conns_of_ident hid'
      exact absurd (hinv.ledger.conns_pos hc) (by decide)

/-- Another node's does. -/
theorem Mirrors.otherDropped {s : Broker} {j : Nat} {id : Int} {n : PubSubNode} {t : Session}
    (h : s.Mirrors j id n t) {i : Nat} {cur : PubSubNode} (hcur : s.nodes[i]? = some cur)
    (hij : i ≠ j) (hother : ¬ (0 < cur.connfd ∧ n.connfd = cur.connfd)) (pc : Pc) :
    Mirrors { (s.received cur).closeS i with pc := pc } j id n t := by
  rw [closeS_received hcur]
  refine h.keep ((List.getElem?_set_ne hij).trans h.node) ?_ rfl
  show (closeFd (s.received cur).kernel cur.connfd).ident n.connfd = _
  rw [ident_closeFd, if_neg hother, ident_received]

/-- One node of the scan. -/
theorem Mirrors.scan {cfg : Config} {s : Broker} (hnames : (cfg.nodes.map PubSubNode.name).Nodup)
    (hinv : Inv cfg s) (hatt : s.Attached) {i : Nat} {rset : Int → Bool}
    (hpc : s.pc = .scan i rset) {j : Nat} {id : Int} {n : PubSubNode} {t : Session}
    (h : s.Mirrors j id n t) :
    ∃ n', (s.scanNode i rset).Mirrors j id n'
      ((s.seen j .next).foldl (Session.next cfg.nodeStart id) t) := by
  have hseen : s.seen j .next
      = if i = j ∧ 0 ≤ n.connfd ∧ rset n.connfd = true ∧
          (tcpRecvProtocolCmd (s.kernel.sock n.connfd) n.connfd true).ret < 0 then [.dropped]
        else [] := by
    simp only [seen, h.node, hpc]
  have hscan := s.scanned i rset
  rw [hseen]
  generalize s.scanNode i rset = u at hscan ⊢
  cases hscan with
  | done hnone =>
      have hij : i ≠ j := by
        rintro rfl
        rw [h.node] at hnone
        cases hnone
      rw [if_neg fun hall => hij hall.1]
      exact ⟨n, h.keep h.node rfl rfl⟩
  | @skip cur hcur hskip =>
      rw [if_neg]
      · exact ⟨n, h.keep h.node rfl rfl⟩
      · rintro ⟨rfl, hfd, hset, -⟩
        obtain rfl := Option.some.inj (hcur.symm.trans h.node)
        rcases hskip with hneg | hunset
        · omega
        · rw [hset] at hunset
          cases hunset
  | @got cur hcur _ _ hret =>
      rw [if_neg]
      · exact ⟨n, h.keep h.node (s.ident_received cur _) rfl⟩
      · rintro ⟨rfl, -, -, hneg⟩
        obtain rfl := Option.some.inj (hcur.symm.trans h.node)
        omega
  | @failed cur hcur hfd hset hret =>
      by_cases hij : i = j
      · subst hij
        obtain rfl := Option.some.inj (hcur.symm.trans h.node)
        rw [if_pos ⟨rfl, hfd, hset, by omega⟩]
        exact ⟨_, h.dropped hinv _⟩
      · rw [if_neg fun hall => hij hall.1]
        have hother : ¬ (0 < cur.connfd ∧ n.connfd = cur.connfd) := by
          rintro ⟨hpos, heq⟩
          exact hij (hatt.alone (names_nodup hinv hnames) i j cur n hcur h.node hpos heq).symm
        exact ⟨n, h.otherDropped hcur hij hother _⟩

/-- **Every step is mirrored.** -/
theorem Mirrors.step {cfg : Config} {s s' : Broker} {e : Event}
    (hnames : (cfg.nodes.map PubSubNode.name).Nodup) (hinv : Inv cfg s) (hatt : s.Attached)
    (hok : s.Quiet e) (hs : Icehydra.step s e = some s') {j : Nat} {id : Int} {n : PubSubNode}
    {t : Session} (h : s.Mirrors j id n t) :
    ∃ n', s'.Mirrors j id n' ((s.seen j e).foldl (Session.next cfg.nodeStart id) t) := by
  cases step_cases hs with
  | dangling _ hd =>
      rw [hatt.not_dangling] at hd
      cases hd
  | selectError hpc | timeout hpc | ready hpc =>
      simp only [seen, h.node, hpc]
      exact ⟨n, h.keep h.node rfl rfl⟩
  | accept hpc _ ha => exact h.accept hinv hatt hpc ha
  | scan hpc => exact h.scan hnames hinv hatt hpc
  | handle hpc => exact ⟨n, h.handle hnames hinv hatt hok hpc⟩

/-- **What a node is sent is its session**, in every run in which no send
fails. -/
theorem mirrors_of_noted {cfg : Config} (hnames : (cfg.nodes.map PubSubNode.name).Nodup)
    {j : Nat} {m : PubSubNode} (hm : cfg.nodes[j]? = some m) {s : Broker} {ns : List Seen}
    (h : Runs.Noted Icehydra.step Quiet (seen j) cfg.init s ns) :
    written s.log j = (ns.foldl (Session.next cfg.nodeStart m.id) Session.start).whole ∧
      s.outputOf j = (ns.foldl (Session.next cfg.nodeStart m.id) Session.start).present := by
  have hzero := cfg.connfd_zero m (List.mem_of_getElem? hm)
  have hstart : cfg.init.Mirrors j m.id m Session.start := by
    refine ⟨hm, rfl, iff_of_false (by simp [Session.start]) (by omega), ?_, rfl⟩
    intro cid un hid
    cases hid
  have hkeeps : ∀ t ns e t', Inv cfg t →
      (t.Attached ∧ ∃ n, t.Mirrors j m.id n
        (ns.foldl (Session.next cfg.nodeStart m.id) Session.start)) →
      t.Quiet e → Icehydra.step t e = some t' →
      t'.Attached ∧ ∃ n, t'.Mirrors j m.id n
        ((ns ++ t.seen j e).foldl (Session.next cfg.nodeStart m.id) Session.start) := by
    rintro t ns e t' hinv ⟨hatt, n, hmir⟩ hok hs
    refine ⟨hatt.step (fun k _ => hatt.alone (names_nodup hinv hnames) k) (step_change hinv hs), ?_⟩
    rw [List.foldl_append]
    exact hmir.step hnames hinv hatt hok hs
  obtain ⟨hrun, hatt, n, hmir⟩ := h.invariant_of (fun t ht => inv_of_reachable ht)
    ⟨attached_init cfg, m, hstart⟩ hkeeps
  have hinv := inv_of_reachable hrun
  refine ⟨hmir.whole, ?_⟩
  rw [outputOf, hmir.node, Option.bind_some, Session.present]
  by_cases hpos : 0 < n.connfd
  · obtain ⟨cid, un, hid, -⟩ := hatt j n hmir.node hpos
    obtain ⟨c, hc, rfl, -⟩ := Kernel.conns_of_ident hid
    rw [if_pos (hmir.attached.mpr hpos), hc, Option.map_some, hinv.ledger.output hc,
      hmir.out _ un hid]
  · rw [if_neg fun ht => hpos (hmir.attached.mp ht)]
    cases hc : s.kernel.conns n.connfd with
    | none => rfl
    | some c => exact absurd (hinv.ledger.conns_pos hc) hpos

/-- **Noninterference.** In two runs in which no send fails and that show the
node the same events, the node is written the same bytes, altogether and on its
present connection. -/
theorem noninterference (cfg : Config) (hnames : (cfg.nodes.map PubSubNode.name).Nodup) (j : Nat)
    (hj : j < cfg.nodes.length) (s s' : Broker) (ns : List Seen)
    (h : Runs.Noted Icehydra.step Quiet (seen j) cfg.init s ns)
    (h' : Runs.Noted Icehydra.step Quiet (seen j) cfg.init s' ns) :
    written s.log j = written s'.log j ∧ s.outputOf j = s'.outputOf j := by
  have hm := List.getElem?_eq_getElem hj
  obtain ⟨hwhole, hpresent⟩ := mirrors_of_noted hnames hm h
  obtain ⟨hwhole', hpresent'⟩ := mirrors_of_noted hnames hm h'
  exact ⟨hwhole.trans hwhole'.symm, hpresent.trans hpresent'.symm⟩

/-- A check that is enough for `Quiet`. -/
def checkQuiet (s : Broker) (_ : Event) : Bool :=
  match s.pc with
  | .scan i _ => s.nodes[i]?.all fun cur =>
      decide (nextLen (s.kernel.sock cur.connfd) ≤ maxCmdLen - protocolCmdHeadLen)
  | .handle i _ => s.nodes[i]?.all fun cur =>
      (s.outgoing i cur).calls.all fun c => decide c.Complete
  | _ => true

theorem quiet_of_check (s : Broker) (e : Event) (h : s.checkQuiet e = true) : s.Quiet e := by
  constructor
  · rintro i rset cur ⟨hpc, hcur, -⟩
    simpa [checkQuiet, hpc, hcur] using h
  · intro i rset cur hpc hcur c hc
    simp only [checkQuiet, hpc, hcur, Option.all_some, List.all_eq_true, decide_eq_true_eq] at h
    exact h c hc

/-- `c` sends to `b`, alone and after a longer frame from `a` to `c`. -/
theorem noninterference_b :
    ∃ s s' ns, Runs.Noted Icehydra.step Quiet (seen 1) trio.init s ns ∧
      Runs.Noted Icehydra.step Quiet (seen 1) trio.init s' ns ∧ s.log.length = 1 ∧
      s'.log.length = 2 ∧ written s.log 1 ≠ [] ∧ written s.log 1 = written s'.log 1 ∧
      s.outputOf 1 = s'.outputOf 1 := by
  let f := Frame.ofFields 1 188 1 0 [2, 0, 0, 0, 104] (by decide)
  let g := Frame.ofFields 1 188 1 0 [3, 0, 0, 0, 73, 72, 73, 72] (by decide)
  have hrun : (Runs.run (Runs.noting Icehydra.step (seen 1)) (fun p => p.1.checkQuiet) (trio.init, [])
      [.accept (.client 5 [98] (.eager [])), .accept (.client 6 [99] (.eager f.bytes)),
        .readyOf [6], .next, .next, .next, .next]).any
      (fun p => decide (p.2 = [.connected, .relayed f]) && decide (p.1.log.length = 1) &&
        decide (written p.1.log 1 ≠ [])) = true := by decide +kernel
  have hrun' : (Runs.run (Runs.noting Icehydra.step (seen 1)) (fun p => p.1.checkQuiet) (trio.init, [])
      [.accept (.client 5 [97] (.eager g.bytes)), .accept (.client 6 [99] (.eager f.bytes)),
        .readyOf [5], .next, .next, .next, .next, .next, .accept (.client 7 [98] (.eager [])),
        .readyOf [6], .next, .next, .next, .next]).any
      (fun p => decide (p.2 = [.connected, .relayed f]) && decide (p.1.log.length = 2)) = true := by
    decide +kernel
  have hcheck : ∀ (p : Broker × List Seen) e, p.1.checkQuiet e = true → p.1.Quiet e :=
    fun p e => quiet_of_check p.1 e
  obtain ⟨⟨s, ns⟩, hs, hP⟩ := Runs.Reaches.of_run hcheck hrun
  obtain ⟨⟨s', ns'⟩, hs', hP'⟩ := Runs.Reaches.of_run hcheck hrun'
  simp only [Bool.and_eq_true, decide_eq_true_eq] at hP hP'
  obtain ⟨⟨hns, hlog⟩, hwritten⟩ := hP
  obtain ⟨hns', hlog'⟩ := hP'
  subst hns hns'
  exact ⟨s, s', _, hs, hs', hlog, hlog', hwritten,
    noninterference trio (by decide) 1 (by decide) s s' _ hs hs'⟩

end Broker

end Icehydra
