import Icehydra.Answers
import Icehydra.Names
import Icehydra.Process
import Icehydra.Replies

/-!
# Network — the broker and its processes

The broker's main loop and any number of processes that use the library, each at
the other end of one connection, taking their steps in any order. The kernel is
between them: a connection brings what was put on it and nothing else, and it
shows the path the process has bound. Everything else may go wrong at any time.

What a process is told is then what others have sent to it: nothing is made up,
nothing comes twice, and what comes from one sender comes in its order.
-/

namespace Icehydra

open Block NonBlock PrefixCode Runs
open scoped List

/-! ## The network -/

/-- The process at the other end of the connection `cid`, for each `cid` that
there will be. -/
structure Network where
  broker : Broker
  procs : Nat → Process

inductive Action where
  | broker (e : Event)
  | process (cid : Nat) (op : Op)

namespace Network

def step (n : Network) : Action → Option Network
  | .broker e => (Icehydra.step n.broker e).map fun b => { n with broker := b }
  | .process cid op =>
      ((n.procs cid).run op).map fun p => { n with procs := Function.update n.procs cid p }

end Network

/-- What the broker has read of a connection, the frame in its hands included. -/
def Broker.read (s : Broker) (cid : Nat) : List Frame := framesFrom s.log cid ++ s.held cid

/-- The broker's replies go out whole or not at all, unless SIGPIPE ends it. -/
def Broker.RepliesWhole (s : Broker) : Prop :=
  ∀ i rset cur buf data, s.pc = .handle i rset → s.nodes[i]? = some cur → s.Replies buf data →
    let t := s.kernel.sendTransfer cur.connfd buf
    t.moved = 0 ∨ t.moved = protocolCmdHeadLen + getProtocolBodyLen buf ∨ t.why = some .sigpipe

namespace Network

/-- What the kernel does: a new connection shows its process's path, and a
receive brings bytes that have been put on the connection. -/
def Brings (n : Network) : Event → Prop
  | .accept a => 0 ≤ a.fd → a.un = nameFix (n.procs n.broker.kernel.nextCid).name
  | _ => ∀ i rset cur c, n.broker.Receives i rset cur →
      n.broker.kernel.conns cur.connfd = some c →
      (tcpRecvProtocolCmd c.sock cur.connfd true).sock.consumed
        <+: (n.procs c.cid).client.sock.output

/-- The steps a run may take. -/
def Permits (n : Network) : Action → Prop
  | .broker e => n.broker.RepliesWhole ∧ n.Brings e
  | .process cid op => (n.procs cid).Orderly op ∧
      ∀ p, (n.procs cid).run op = some p →
        p.client.sock.consumed <+: (callsOn n.broker.log cid).flatMap Call.bytes

end Network

/-- The process has not done anything yet. -/
structure Process.Fresh (p : Process) : Prop where
  posts : p.posts = []
  got : p.got = []
  tables : p.tables = []
  asking : p.asking = none
  output : p.client.sock.output = []
  consumed : p.client.sock.consumed = []

/-- A call of `ih_get_shm_infos` has come back with -1, or with this table. -/
def TableOf (table : List ShmNode) (r : Int × Bytes) : Prop :=
  r.1 = -1 ∨ r.1 = table.length ∧ tableBytes table <+: r.2

/-! ## What the broker has read -/

namespace Broker

theorem read_of_pc {s : Broker} (h : ∀ i rset, s.pc ≠ .handle i rset) (cid : Nat) :
    s.read cid = framesFrom s.log cid := by
  rw [read, Inv.held_of_pc h]
  exact List.append_nil _

/-- Handling a frame puts it into the log. -/
theorem read_handle {cfg : Config} {s : Broker} (hinv : Inv cfg s) {i : Nat} {rset : Int → Bool}
    (hpc : s.pc = .handle i rset) (cid : Nat) : (s.handleFrame i rset).read cid = s.read cid := by
  obtain ⟨cur, hcur⟩ := (hinv.holding i rset hpc).node
  have hpc' : ∀ j r, (s.handleFrame i rset).pc ≠ .handle j r := by
    intro j r
    rw [handleFrame_eq hcur]
    split
    · simp
    · split <;> simp
  have hheld : s.held cid
      = if (s.kernel.conns cur.connfd).map Conn.cid = some cid then [frameIn s.rbuf] else [] := by
    simp only [held, hpc, hcur]
  rw [read_of_pc hpc', read, handleFrame_log hcur, framesFrom_concat, hheld]
  rfl

/-- A receive that gets through holds its frame; the others change nothing. -/
theorem read_scan {cfg : Config} {s : Broker} (hinv : Inv cfg s) {i : Nat} {rset : Int → Bool}
    (hpc : s.pc = .scan i rset) (cid : Nat) :
    (s.scanNode i rset).read cid = s.read cid ∨
      ∃ cur c, s.Receives i rset cur ∧ s.kernel.conns cur.connfd = some c ∧ c.cid = cid ∧
        ((s.scanNode i rset).read cid).flatMap Frame.bytes
          = (tcpRecvProtocolCmd c.sock cur.connfd true).sock.consumed := by
  have hinv' := hinv.scan hpc
  have hstill : ∀ {t : Broker}, (∀ j r, t.pc ≠ .handle j r) → t.log = s.log →
      t.read cid = s.read cid := by
    intro t ht hlog
    rw [read_of_pc ht, read_of_pc (by simp [hpc]), hlog]
  have hcases := scanned s i rset
  generalize s.scanNode i rset = t at hcases hinv' ⊢
  cases hcases with
  | done | skip => exact .inl (hstill (by simp) rfl)
  | failed => exact .inl (hstill (by simp) (by simp [received]))
  | @got cur hcur hfd hset hret =>
      obtain ⟨c, hc⟩ := Inv.conn_of_recv hfd hret
      have hconn : (s.received cur).kernel.conns cur.connfd
          = some { c with sock := (tcpRecvProtocolCmd c.sock cur.connfd true).sock } := by
        simp only [received, Kernel.sock_eq hc]
        exact Kernel.conns_setSock_self _ hc
      by_cases hcid : c.cid = cid
      · refine .inr ⟨cur, c, ⟨hpc, hcur, hfd, hset⟩, hc, hcid, ?_⟩
        rw [← hcid]
        exact (hinv'.ledger.consumed hconn).symm
      · left
        rw [read, read_of_pc (by simp [hpc])]
        have hheld : held { s.received cur with pc := .handle i rset } cid = [] := by
          have hnodes : (s.received cur).nodes[i]? = some cur := hcur
          simp only [held, hnodes, hconn, Option.map_some, Option.some.injEq, hcid, if_false]
        rw [hheld]
        exact List.append_nil _

/-- One step: the same frames, or what a receive has just completed. -/
theorem read_step {cfg : Config} {s s' : Broker} {e : Event} (hinv : Inv cfg s)
    (hs : Icehydra.step s e = some s') (cid : Nat) :
    s'.read cid = s.read cid ∨
      ∃ i rset cur c, s.Receives i rset cur ∧ s.kernel.conns cur.connfd = some c ∧ c.cid = cid ∧
        (s'.read cid).flatMap Frame.bytes
          = (tcpRecvProtocolCmd c.sock cur.connfd true).sock.consumed := by
  have hstill : ∀ {t : Broker}, s.pc = .select → (∀ i rset, t.pc ≠ .handle i rset) →
      t.log = s.log → t.read cid = s.read cid := by
    intro t hpc ht hlog
    rw [read_of_pc ht, read_of_pc (by simp [hpc]), hlog]
  cases step_cases hs with
  | dangling hpc | selectError hpc | ready hpc => exact .inl (hstill hpc (by simp) rfl)
  | timeout => exact .inl rfl
  | accept hpc =>
      left
      rw [acceptBranch_eq]
      exact hstill hpc (by simp [hpc]) rfl
  | @scan i rset hpc =>
      rcases read_scan hinv hpc cid with hsame | ⟨cur, c, hrest⟩
      · exact .inl hsame
      · exact .inr ⟨i, rset, cur, c, hrest⟩
  | handle hpc => exact .inl (read_handle hinv hpc cid)

/-! ## Distinct ids -/

theorem ids_nodup {cfg : Config} {s : Broker} (hinv : Inv cfg s)
    (hids : (cfg.nodes.map PubSubNode.id).Nodup) : (s.nodes.map PubSubNode.id).Nodup := by
  have hmap : ∀ nodes : List PubSubNode,
      nodes.map PubSubNode.id = (staticOf nodes).map Prod.snd := by
    intro nodes
    rw [staticOf, List.map_map]
    rfl
  rw [hmap, hinv.static, ← hmap]
  exact hids

theorem findNodeById_self {nodes : List PubSubNode} (hids : (nodes.map PubSubNode.id).Nodup)
    {j : Nat} {n : PubSubNode} (hj : nodes[j]? = some n) : findNodeById nodes n.id = some j := by
  cases hfind : findNodeById nodes n.id with
  | none =>
      have hnot := List.findIdx?_eq_none_iff.mp hfind n (List.mem_of_getElem? hj)
      simp at hnot
  | some k =>
      obtain ⟨m, hm, hid, -⟩ := findNodeById_eq_some hfind
      have hget : ∀ {l : Nat} {x : PubSubNode}, nodes[l]? = some x →
          (nodes.map PubSubNode.id)[l]? = some x.id := by
        intro l x hx
        rw [List.getElem?_map, hx]
        rfl
      have hlt : k < (nodes.map PubSubNode.id).length := by
        rw [List.length_map]
        exact (List.getElem?_eq_some_iff.mp hm).1
      exact congrArg some ((List.getElem?_inj hlt hids).mp ((hget hm).trans (hid ▸ (hget hj).symm)))

/-- The node that a relay has failed on is the one that gets closed. -/
theorem keepsFraming_of_replies {cfg : Config} {s : Broker} (hinv : Inv cfg s)
    (hids : (cfg.nodes.map PubSubNode.id).Nodup) (hreply : s.RepliesWhole) (e : Event) :
    s.KeepsFraming e where
  reply := hreply
  relay := by
    intro i rset a hpc hrel hfail _ _
    have hlen := (hinv.holding i rset hpc).rbuf_length
    obtain ⟨ha, -⟩ := firstFailure_mem hfail
    obtain ⟨hnode, -⟩ := mem_relayAttempts s.kernel s.nodes hlen ha
    exact ⟨_, _, findNodeById_self (ids_nodup hinv hids) hnode, hnode, rfl⟩

end Broker

/-! ## What a message means -/

namespace Post

variable {m : Post}

theorem frame_broadcast {cmd : IhBroadcastCmd} (h : cmd.Fits) :
    (Post.broadcast cmd).frame = h.frame := by
  have hwire : (Post.broadcast cmd).wire = h.frame.bytes := h.wire_eq
  rw [frame, hwire, frameIn_bytes]

theorem frame_request (cmdid : UInt8) : (Post.request cmdid).frame = requestFrame cmdid :=
  frameIn_bytes _

/-- What is relayed has distinct recipients. -/
theorem Legal.ids_nodup (h : m.Legal) (hrel : Broker.Relays m.frame.head) : m.frame.ids.Nodup := by
  cases m with
  | broadcast cmd =>
      have hfits : cmd.Fits := h
      rw [frame_broadcast hfits, hfits.frame_ids]
      exact hfits.ids_nodup
  | request cmdid =>
      rw [frame_request] at hrel
      exact absurd rfl hrel.1

end Post

/-- An answer has the command id of what it answers. -/
theorem Frame.answer_cmdid {cfg : Config} {name : Bytes} {own : Bool} {f g : Frame}
    (h : f.answer cfg name own = some g) : getProtocolCmdId g.head = getProtocolCmdId f.head := by
  unfold answer at h
  split at h
  · split at h
    · unfold reply at h
      split at h
      · rename_i buf data hreply
        obtain rfl := Option.some.inj h
        have hpeek : getProtocolCmdId (frameGiven buf data).head = getProtocolCmdId buf :=
          byteAt_peek buf (by decide)
        rw [hpeek, replyBuf_cmdid hreply]
      · cases h
    · cases h
  · split at h
    · obtain rfl := Option.some.inj h
      rfl
    · cases h

/-- The library numbers its broadcasts alike. -/
theorem Post.Legal.cmdid {m : Post} (h : m.Legal) :
    getProtocolCmdId m.frame.head = ihCmdIdDefault ∨
      ∃ cmdid, m = .request cmdid ∧ getProtocolCmdId m.frame.head = cmdid ∧
        (cmdid = ihReserveCmdIdGetShmInfo ∨ cmdid = ihReserveCmdIdGetShmNum) := by
  cases m with
  | broadcast cmd =>
      rw [Post.frame_broadcast h]
      exact .inl rfl
  | request cmdid =>
      rw [Post.frame_request]
      exact .inr ⟨cmdid, rfl, rfl, h⟩

/-- What the two requests are answered with. -/
theorem Frame.reply_num {nodeStart : PubSubNode} {table : List ShmNode}
    (h : nodeStart.HasTable table) {g : Frame}
    (hg : (requestFrame ihReserveCmdIdGetShmNum).reply nodeStart = some g) :
    g = numReply table.length := by
  obtain ⟨buf, data, hreply, hframe⟩ :=
    replyBuf_num (show getProtocolCmdId (requestFrame ihReserveCmdIdGetShmNum).head = _ from rfl)
      h.num
  rw [reply, hreply] at hg
  obtain rfl := Option.some.inj hg
  exact Frame.prefixCode.injective hframe

theorem Frame.reply_info {nodeStart : PubSubNode} {table : List ShmNode}
    (h : nodeStart.HasTable table) {g : Frame}
    (hg : (requestFrame ihReserveCmdIdGetShmInfo).reply nodeStart = some g) :
    g = infoReply table h.le := by
  have hid : getProtocolCmdId (requestFrame ihReserveCmdIdGetShmInfo).head
      = ihReserveCmdIdGetShmInfo := rfl
  cases hptr : nodeStart.shmNodePtr with
  | none =>
      -- without a table there is nothing to send
      rw [reply, replyBuf, if_pos hid, hptr] at hg
      cases hg
  | some t =>
      have ht : t = table := by rw [← h.ptr, hptr, Option.getD_some]
      obtain ⟨buf, data, hreply, hframe⟩ := replyBuf_info hid (ht ▸ hptr) h.num h.le
      rw [reply, hreply] at hg
      obtain rfl := Option.some.inj hg
      exact Frame.prefixCode.injective hframe

/-! ## The invariant -/

namespace Network

/-- Both sides by themselves; and between them: the connections belong to the
processes, the broker reads their messages, they read what the broker has
written, and every frame has had its answer. -/
structure Good (cfg : Config) (n : Network) : Prop where
  inv : Inv cfg n.broker
  attached : n.broker.Attached
  streaming : ∀ cid, n.broker.Streaming cid
  kept : ∀ cid, (n.procs cid).Kept
  path : ∀ cid, (nameFix (n.procs cid).name).length ≤ sizeofSunPath
  peer : ∀ fd cid un, n.broker.kernel.ident fd = some (cid, un) → un = nameFix (n.procs cid).name
  read : ∀ cid, n.broker.read cid <+: (n.procs cid).posts.map Post.frame
  written : ∀ cid, (n.procs cid).client.sock.consumed
    <+: (callsOn n.broker.log cid).flatMap Call.bytes
  answered : ∀ v ∈ n.broker.log, ∀ cid, v.Answered cfg (n.procs cid).name cid

variable {cfg : Config} {n n' : Network}

namespace Good

/-- A node has a connection because it bears the name of the process behind it. -/
theorem name_of_peer (h : n.Good cfg) {fd : Int} {cid : Nat} {un : Bytes}
    (hid : n.broker.kernel.ident fd = some (cid, un)) {m : PubSubNode}
    (hpeer : isPeer m.name un = true) : m.name = (n.procs cid).name := by
  have hlen := h.path cid
  rw [h.peer fd cid un hid] at hpeer
  apply (isPeer_nameFix _).mp hpeer
  have : sizeofSunPath = 108 := rfl
  omega

/-- A frame that is to be relayed names each recipient once. -/
theorem ids_nodup (h : n.Good cfg) {i : Nat} {rset : Int → Bool}
    (hpc : n.broker.pc = .handle i rset) (hrel : Broker.Relays n.broker.rbuf) :
    (frameIds n.broker.rbuf).Nodup := by
  obtain ⟨cur, c, rbuf, f, hcur, -, hc, hbuf⟩ := h.inv.holding i rset hpc
  have hheld : n.broker.held c.cid = [f] := by
    simp only [Broker.held, hpc, hcur, hc, Option.map_some, if_true, hbuf, frameIn_storeFrame]
  have hmem : f ∈ (n.procs c.cid).posts.map Post.frame := by
    apply (h.read c.cid).subset
    rw [Broker.read, hheld]
    simp
  obtain ⟨m, hm, rfl⟩ := List.mem_map.mp hmem
  rw [hbuf] at hrel ⊢
  rw [frameIds_storeFrame]
  apply ((h.kept c.cid).legal m hm).ids_nodup
  rwa [Broker.Relays, getProtocolCmdType_storeFrame] at hrel

/-! ### The processes' steps -/

theorem process (h : n.Good cfg) {cid : Nat} {op : Op} {p : Process}
    (hok : n.Permits (.process cid op)) (hrun : (n.procs cid).run op = some p) :
    Good cfg { n with procs := Function.update n.procs cid p } := by
  obtain ⟨horderly, hwritten⟩ := hok
  -- what is the same for all processes, and what has changed for this one
  have hupdate : ∀ {P : Nat → Process → Prop}, (∀ c, P c (n.procs c)) → P cid p →
      ∀ c, P c (Function.update n.procs cid p c) := fun {P} hall hp =>
    (Function.forall_update_iff n.procs P).mpr ⟨hp, fun c _ => hall c⟩
  have hname : ∀ c, (Function.update n.procs cid p c).name = (n.procs c).name :=
    hupdate (P := fun c q => q.name = (n.procs c).name) (fun _ => rfl) (Process.run_name hrun)
  refine ⟨h.inv, h.attached, h.streaming, ?_, ?_, ?_, ?_, ?_, ?_⟩
  · exact hupdate (P := fun _ q => q.Kept) h.kept ((h.kept cid).run horderly hrun)
  · intro c
    rw [hname]
    exact h.path c
  · intro fd c un hid
    rw [hname]
    exact h.peer fd c un hid
  · apply hupdate (P := fun c q => n.broker.read c <+: q.posts.map Post.frame) h.read
    exact (h.read cid).trans ((Process.run_posts hrun).map Post.frame)
  · exact hupdate (P := fun c q => q.client.sock.consumed
      <+: (callsOn n.broker.log c).flatMap Call.bytes) h.written (hwritten p hrun)
  · intro v hv c
    rw [hname]
    exact h.answered v hv c

/-! ### The broker's steps -/

theorem broker (h : n.Good cfg) (hnames : (cfg.nodes.map PubSubNode.name).Nodup)
    (hids : (cfg.nodes.map PubSubNode.id).Nodup) {e : Event} {b : Broker}
    (hok : n.Permits (.broker e)) (hs : Icehydra.step n.broker e = some b) :
    Good cfg { n with broker := b } := by
  obtain ⟨hreply, hbrings⟩ := hok
  have hinv' := h.inv.step hs
  have hchange := Broker.step_change h.inv hs
  have hnodup := Broker.names_nodup h.inv hnames
  have hlog := step_log h.inv hs
  refine ⟨hinv', ?_, ?_, h.kept, h.path, ?_, ?_, ?_, ?_⟩
  · exact h.attached.step (fun j _ => h.attached.alone hnodup j) hchange
  · intro cid
    have hframing := Broker.keepsFraming_of_replies h.inv hids hreply e
    exact (h.streaming cid).step h.inv hframing hs
  · -- a connection is an old one, or the one just accepted
    intro fd cid un hid
    cases hchange with
    | same _ hsame =>
        rw [hsame.2 fd] at hid
        exact h.peer fd cid un hid
    | closed _ _ _ hident =>
        rw [hident fd] at hid
        split at hid
        · cases hid
        · exact h.peer fd cid un hid
    | @accepted a hpc ha =>
        rw [Broker.acceptBranch_eq] at hid
        simp only at hid
        split at hid
        · rename_i hfd
          rw [Kernel.ident_accept] at hid
          split at hid
          · obtain ⟨rfl, rfl⟩ := Prod.mk.inj (Option.some.inj hid)
            exact hbrings hfd
          · exact h.peer fd cid un hid
        · exact h.peer fd cid un hid
  · -- what a receive has brought is at the front of what the process has written
    intro cid
    rcases Broker.read_step h.inv hs cid with hsame | ⟨i, rset, cur, c, hrecv, hc, hcid, hbytes⟩
    · show b.read cid <+: _
      rw [hsame]
      exact h.read cid
    · apply (h.kept cid).frames_of_output
      show (b.read cid).flatMap Frame.bytes <+: _
      rw [hbytes, ← hcid]
      cases e with
      | accept a =>
          simp only [Icehydra.step, hrecv.1] at hs
          cases hs
      | timeout | selectError | ready | next => exact hbrings i rset cur c hrecv hc
  · intro cid
    apply (h.written cid).trans
    show (callsOn n.broker.log cid).flatMap Call.bytes <+: (callsOn b.log cid).flatMap Call.bytes
    rcases hlog with hsame | ⟨i, rset, cur, -, -, hnew⟩
    · rw [hsame]
    · rw [hnew, callsOn_concat, List.flatMap_append]
      exact List.prefix_append _ _
  · intro v hv cid
    rcases hlog with hsame | ⟨i, rset, cur, hpc, hcur, hnew⟩
    · apply h.answered v
      rw [← hsame]
      exact hv
    · have hv' : v ∈ n.broker.log ++ [_] := hnew ▸ hv
      rcases List.mem_append.mp hv' with hold | hlast
      · exact h.answered v hold cid
      · rw [List.mem_singleton.mp hlast]
        apply Broker.visit_answered h.inv hpc hcur h.attached hnodup (h.ids_nodup hpc)
        intro fd un hid m hm hpeer
        exact h.name_of_peer hid hpeer

end Good

end Network

/-! ## Runs of given steps -/

instance (cmd : IhBroadcastCmd) : Decidable cmd.Fits :=
  decidable_of_iff (0 ≤ cmd.brNum ∧ cmd.brNum ≤ 56 ∧ 0 ≤ cmd.datalen ∧
      cmd.datalen + round4 cmd.brNum ≤ maxCmdLen - protocolCmdHeadLen ∧ cmd.ids.Nodup ∧
      (cmd.brIds = none → cmd.brNum = 0) ∧ (cmd.data = none → cmd.datalen = 0))
    ⟨fun ⟨h0, hn, hd, ht, hi, hb, hp⟩ => ⟨h0, hn, hd, ht, hi, hb, hp⟩,
      fun ⟨h0, hn, hd, ht, hi, hb, hp⟩ => ⟨h0, hn, hd, ht, hi, hb, hp⟩⟩

instance (sends : Stream' (Outcome Stop)) (cmd : IhBroadcastCmd) :
    Decidable (HeaderWhole sends cmd) :=
  inferInstanceAs (Decidable (_ ∨ _ ∨ _))

instance (sends : Stream' (Outcome Stop)) : Decidable (RequestWhole sends) :=
  inferInstanceAs (Decidable (_ ∨ _ ∨ _))

instance (q : Query) (ready : Bool) : Decidable (q.Orderly ready) :=
  inferInstanceAs (Decidable ((_ → _ ∧ _ ∧ _) ∧ (_ → _ → _)))

instance (p : Process) : (op : Op) → Decidable (p.Orderly op)
  | .sendBroadcastData cmd => inferInstanceAs (Decidable (cmd.Fits ∧ _))
  | .sendGetShmIDsCmd | .getShmInfos _ _ => inferInstanceAs (Decidable (_ ∨ _))
  | .round ready => inferInstanceAs (Decidable (∀ q ∈ p.asking, q.Orderly ready))
  | .recvData | .waitOtherProcess => .isTrue trivial

/-- A check that is enough for `RepliesWhole`. -/
def Broker.checkReplies (s : Broker) : Bool :=
  match s.pc with
  | .handle i _ => s.nodes[i]?.all fun cur =>
      decide (getProtocolCmdType s.rbuf ≠ ihCmdTypeSendReserve) ||
        (replyBuf s.nodeStart s.rbuf).all fun r =>
          let t := s.kernel.sendTransfer cur.connfd r.1
          decide (t.moved = 0 ∨ t.moved = protocolCmdHeadLen + getProtocolBodyLen r.1 ∨
            t.why = some .sigpipe)
  | _ => true

namespace Network

variable {cfg : Config} {n n' : Network}

def checkBrings (n : Network) : Event → Bool
  | .accept a => decide (0 ≤ a.fd → a.un = nameFix (n.procs n.broker.kernel.nextCid).name)
  | _ =>
      match n.broker.pc with
      | .scan i rset => n.broker.nodes[i]?.all fun cur => !rset cur.connfd ||
          (n.broker.kernel.conns cur.connfd).all fun c =>
            decide ((tcpRecvProtocolCmd c.sock cur.connfd true).sock.consumed
              <+: (n.procs c.cid).client.sock.output)
      | _ => true

/-- A check that is enough for `Permits`. -/
def check (n : Network) : Action → Bool
  | .broker e => n.broker.checkReplies && n.checkBrings e
  | .process cid op => decide ((n.procs cid).Orderly op) &&
      ((n.procs cid).run op).all fun p =>
        decide (p.client.sock.consumed <+: (callsOn n.broker.log cid).flatMap Call.bytes)

/-- The broker, and processes before their first calls: their names, and what
will come in on their connections. -/
def start (cfg : Config) (procs : Nat → Bytes × Bytes) : Network where
  broker := cfg.init
  procs cid := ⟨(procs cid).1, .eager (procs cid).2, none, false, [], [], []⟩

/-- The first process is this one, every other is that one. -/
def pair (x y : Bytes × Bytes) : Nat → Bytes × Bytes := fun cid => if cid = 0 then x else y

/-- The frames the broker has put whole on a connection, by the connection they
came from, and a piece of another behind them. -/
theorem Good.delivered (h : n.Good cfg) (cid : Nat) :
    ∃ (ds : List (Nat × Frame)) (rest : Bytes),
      (callsOn n.broker.log cid).flatMap Call.bytes
        = (ds.map Prod.snd).flatMap Frame.bytes ++ rest ∧ Unfinished Frame.bytes rest ∧
      ∀ src, (ds.filter fun d => d.1 = src).map Prod.snd
        <+ ((n.procs src).posts.map Post.frame).filterMap
          (Frame.answer cfg (n.procs cid).name (src = cid)) := by
  obtain ⟨ds, hds, hsub⟩ := answered_log fun v hv => h.answered v hv cid
  have hstream := h.streaming cid
  obtain ⟨fs, rest, hbytes, hfs, hrest⟩ := hstream.cutLast.framed hstream.ofFrame
  have hall : fs = ds.map Prod.snd := by
    have hnil := Frame.prefixCode.unfinished_nil
    apply Frame.prefixCode.eq_of_flatMap hnil hnil
    rw [List.append_nil, List.append_nil, List.flatMap_def, List.flatMap_def, hfs, hds,
      List.map_map]
    rfl
  refine ⟨ds, rest, hall ▸ hbytes, ?_, fun src => (hsub src).trans ?_⟩
  · rcases hrest with rfl | ⟨c, hlast, hcut, rfl⟩
    · exact Frame.prefixCode.unfinished_nil
    · obtain ⟨⟨f, hf⟩, hpre⟩ := hstream.ofFrame c (List.mem_of_getLast? hlast)
      rw [hf] at hpre
      exact Frame.prefixCode.unfinished_of_prefix hpre (hf ▸ hcut.2)
  · have hread : framesFrom n.broker.log src <+: (n.procs src).posts.map Post.frame :=
      (List.prefix_append _ _).trans (h.read src)
    exact hread.sublist.filterMap _

/-- What a process reads next is the answer to a message. -/
theorem Good.next_answer (h : n.Good cfg) {cid : Nat} (hopen : ¬ (n.procs cid).Done) {g : Frame}
    (hle : (n.procs cid).client.sock.consumed ++ g.bytes
      <+: (callsOn n.broker.log cid).flatMap Call.bytes) :
    ∃ src, ∃ m ∈ (n.procs src).posts, m.Legal ∧
      m.frame.answer cfg (n.procs cid).name (src = cid) = some g := by
  obtain ⟨ds, rest, hbytes, hrest, hsub⟩ := h.delivered cid
  obtain ⟨d, hd, rfl⟩ := List.mem_map.mp ((h.kept cid).next_mem hopen hrest (hbytes ▸ hle))
  have hmem : d.2 ∈ (ds.filter fun e => e.1 = d.1).map Prod.snd :=
    List.mem_map_of_mem (List.mem_filter.mpr ⟨hd, by simp⟩)
  obtain ⟨f, hf, hans⟩ := List.mem_filterMap.mp ((hsub d.1).subset hmem)
  obtain ⟨m, hm, rfl⟩ := List.mem_map.mp hf
  exact ⟨d.1, m, hm, (h.kept d.1).legal m hm, hans⟩

/-- The table is asked for by its own request only. -/
theorem Good.next_request (h : n.Good cfg) {cid : Nat} (hopen : ¬ (n.procs cid).Done) {g : Frame}
    (hle : (n.procs cid).client.sock.consumed ++ g.bytes
      <+: (callsOn n.broker.log cid).flatMap Call.bytes)
    (hid : getProtocolCmdId g.head ≠ ihCmdIdDefault) :
    (requestFrame (getProtocolCmdId g.head)).reply cfg.nodeStart = some g := by
  obtain ⟨src, m, -, hm, hans⟩ := h.next_answer hopen hle
  have hsame := Frame.answer_cmdid hans
  rcases hm.cmdid with hdefault | ⟨cmdid, rfl, hcmdid, -⟩
  · exact absurd (hsame.trans hdefault) hid
  · rw [hsame, hcmdid]
    have htype : getProtocolCmdType (requestFrame cmdid).head = ihCmdTypeSendReserve := rfl
    rw [Post.frame_request, Frame.answer, if_pos htype] at hans
    split at hans
    · exact hans
    · cases hans

/-- What a call has just come back with. -/
theorem Good.table (h : n.Good cfg) {table : List ShmNode} (ht : cfg.nodeStart.HasTable table)
    {cid : Nat} {op : Op} {p : Process} (hok : n.Permits (.process cid op))
    (hrun : (n.procs cid).run op = some p)
    (hold : ∀ r ∈ (n.procs cid).tables, TableOf table r) : ∀ r ∈ p.tables, TableOf table r := by
  intro r hr
  rcases (h.kept cid).table_read hrun hr with hmem | hneg | ⟨hopen, f, hcons, hread⟩
  · exact hold r hmem
  · exact .inl hneg
  · have hle := hok.2 p hrun
    rw [hcons] at hle
    right
    rcases hread with ⟨hid, hzero, hret⟩ | ⟨hid, hret, b, hbuf⟩
    · -- no entries
      have hans := h.next_request hopen hle (by rw [hid]; decide)
      rw [hid] at hans
      rw [Frame.reply_num ht hans] at hzero
      have hnone : table.length = 0 := by
        have hle := ht.le
        have hbyte : (UInt8.ofNat table.length).toNat = 0 := hzero
        rw [UInt8.toNat_ofNat'] at hbyte
        omega
      obtain rfl := List.length_eq_zero_iff.mp hnone
      exact ⟨hret, List.nil_prefix⟩
    · have hans := h.next_request hopen hle (by rw [hid]; decide)
      rw [hid] at hans
      have hbody : f.body = tableBytes table := by
        rw [Frame.reply_info ht hans]
        rfl
      rw [hbody] at hret hbuf
      constructor
      · rw [hret, tableBytes_length, Nat.mul_div_cancel_left _ (by decide)]
      · rw [hbuf]
        exact List.prefix_append _ _

end Network

end Icehydra
