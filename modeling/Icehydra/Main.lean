import Icehydra.Lib.Runs
import Icehydra.Relay

/-!
# Main — the broker's main loop

`main` of `main.c` from the `while(1)` on, as a state machine. One step is
one `select` together with the accept branch, or one node of the scan that
follows: its receive, and then the handling of the frame it received. The
environment chooses what `select` reports, what `accept` brings, and, with
each accepted connection, what every later call on it will meet.

`link_count`, which nothing reads, and the scan limit `maxfd`, which is at
least every descriptor in the set, are left out.
-/

namespace Icehydra

open Block NonBlock

/-! ## State -/

/-- Why the loop is left. -/
inductive Exit where
  | sigpipe
  | badDescriptor
  | selectError
  deriving DecidableEq

/-- Where the loop stands: at `select`, at the node of position `i` in the
scan of the ready set `rset`, or with a whole frame from that node in `rbuf`. -/
inductive Pc where
  | select
  | scan (i : Nat) (rset : Int → Bool)
  | handle (i : Nat) (rset : Int → Bool)
  | exited (why : Exit)

/-- The record of one handled frame: whose it was, the frame, and the sends it
led to. -/
structure Visit where
  src : Nat
  conn : Option Nat
  frame : Frame
  calls : List Call

structure Broker where
  nodeStart : PubSubNode
  nodes : List PubSubNode
  sockfd : Int
  rbuf : Bytes
  kernel : Kernel
  pc : Pc
  log : List Visit

/-- What `get_node_start` hands over: the first node, and the list of the
others. A value with id 0 becomes the head, so no list element has it; no
node is connected yet. -/
structure Config where
  nodeStart : PubSubNode
  nodes : List PubSubNode
  id_ne_zero : ∀ n ∈ nodes, n.id ≠ 0
  connfd_zero : ∀ n ∈ nodes, n.connfd = 0
  sockfd : Int
  sockfd_pos : 0 < sockfd

/-- The state in front of the loop. -/
def Config.init (cfg : Config) : Broker where
  nodeStart := cfg.nodeStart
  nodes := cfg.nodes
  sockfd := cfg.sockfd
  rbuf := List.replicate maxCmdLen 0
  kernel := ⟨fun _ => none, 0⟩
  pc := .select
  log := []

/-! ## accept_unix_tcp and the accept branch -/

def namePrefix : Bytes := [47, 114, 117, 110, 47, 115, 104, 109, 47]
def sockNameSuffix : Bytes := [45, 115, 111, 99, 107]
def namePrefixLen : Nat := namePrefix.length
def sockNameSuffixLen : Nat := sockNameSuffix.length

/-- The path a client of this name binds its socket to. -/
def nameFix (name : Bytes) : Bytes := namePrefix ++ name ++ sockNameSuffix

/-- What `accept` and the calls on the peer's path come back with, and what
the connection will bring: the bytes of its peer and the outcomes of the
broker's calls. -/
structure Accepted where
  fd : Int
  sunPath : Bytes
  statOk : Bool
  isSock : Bool
  input : Stream' UInt8
  recvs : Stream' (Outcome Stop)
  sends : Stream' (Outcome Stop)

/-- The descriptor or -1, and the peer's path. -/
def acceptUnixTcp (a : Accepted) : Int × Bytes :=
  if a.statOk = false then (-1, [])
  else if a.isSock = false then (-1, [])
  else (a.fd, a.sunPath.takeWhile (· ≠ 0))

/-- `isStrSameN(name,un+NAME_PREFIX_LEN,strLen(name))` and the comparison of
the lengths, in `size_t`. A path shorter than the prefix continues with the
zeros of `un`. -/
def isPeer (name un : Bytes) : Bool :=
  (un.drop namePrefixLen).take name.length == name &&
    name.length == (un.length + 2 ^ 64 - namePrefixLen - sockNameSuffixLen) % 2 ^ 64

/-- The loop of the accept branch: every node whose name matches. -/
def attach (nodes : List PubSubNode) (un : Bytes) (connfd : Int) : List PubSubNode :=
  nodes.map fun n => if isPeer n.name un then { n with connfd := connfd } else n

def Kernel.accept (k : Kernel) (a : Accepted) : Kernel where
  conns := Function.update k.conns a.fd
    (some ⟨k.nextCid, a.sunPath.takeWhile (· ≠ 0), ⟨a.input, a.recvs, a.sends, [], []⟩⟩)
  nextCid := k.nextCid + 1

namespace Broker

def acceptBranch (s : Broker) (a : Accepted) : Broker :=
  let s := if 0 ≤ a.fd then { s with kernel := s.kernel.accept a } else s
  let r := acceptUnixTcp a
  if r.1 < 0 then s else { s with nodes := attach s.nodes r.2 r.1 }

/-! ## The scan -/

/-- `close_s(node->connfd)`. -/
def closeS (s : Broker) (i : Nat) : Broker :=
  match s.nodes[i]? with
  | none => s
  | some n =>
      { s with
        kernel := if 0 < n.connfd then s.kernel.close n.connfd else s.kernel
        nodes := s.nodes.set i { n with connfd := -1 } }

/-- The descriptors `FD_SET` puts into the set, the listening one apart. -/
def fdSet (s : Broker) (fd : Int) : Bool :=
  s.nodes.any fun n => decide (0 < n.connfd) && n.connfd == fd

/-- Some descriptor of the set is not open: `select` fails with EBADF. -/
def dangling (s : Broker) : Bool :=
  s.nodes.any fun n => decide (0 < n.connfd) && (s.kernel.conns n.connfd).isNone

/-- The scan at node `i`: whether it is ready, and the receive. -/
def scanNode (s : Broker) (i : Nat) (rset : Int → Bool) : Broker :=
  match s.nodes[i]? with
  | none => { s with pc := .select }
  | some cur =>
      let next := { s with pc := .scan (i + 1) rset }
      if cur.connfd < 0 then next
      else if rset cur.connfd = false then next
      else
        let r := tcpRecvProtocolCmd (s.kernel.sock cur.connfd) cur.connfd true
        let got :=
          { s with
            kernel := s.kernel.setSock cur.connfd r.sock
            rbuf := storeFrame s.rbuf r.head r.body }
        if r.ret < 0 then { got.closeS i with pc := .scan (i + 1) rset }
        else { got with pc := .handle i rset }

/-- The record of the frame in `rbuf`, read from node `i`. -/
def visitOf (s : Broker) (i : Nat) (cur : PubSubNode) (calls : List Call) : Visit where
  src := i
  conn := (s.kernel.conns cur.connfd).map Conn.cid
  frame := frameIn s.rbuf
  calls := calls

/-- What `main` does with the result of `broadcast_cmd`. -/
def closeErrnode (s : Broker) (ret : Int) : Broker :=
  if ret < 0 then
    match findNodeById s.nodes (-ret) with
    | some j => s.closeS j
    | none => s
  else s

/-- The frame in `rbuf`, by its `cmdSendType`. -/
def handleFrame (s : Broker) (i : Nat) (rset : Int → Bool) : Broker :=
  match s.nodes[i]? with
  | none => { s with pc := .select }
  | some cur =>
      let next := Pc.scan (i + 1) rset
      if getProtocolCmdType s.rbuf = ihCmdTypeSendReserve then
        let r := parserReserveCmd s.kernel s.nodeStart (cur, i) s.rbuf
        let log := s.log ++ [s.visitOf i cur r.calls]
        match r.ret with
        | .killed => { s with kernel := r.kernel, log := log, pc := .exited .sigpipe }
        | .val _ => { s with kernel := r.kernel, log := log, pc := next }
      else if getProtocolCmdType s.rbuf = ihCmdTypeSendSerial then
        { s with log := s.log ++ [s.visitOf i cur []], pc := next }
      else
        let (rbuf, r) := broadcastCmd s.kernel s.nodes s.rbuf
        let sent :=
          { s with kernel := r.kernel, rbuf := rbuf, log := s.log ++ [s.visitOf i cur r.calls] }
        match r.ret with
        | .killed => { sent with pc := .exited .sigpipe }
        | .val ret => { sent.closeErrnode ret with pc := next }

end Broker

/-! ## Steps -/

inductive Event where
  | timeout
  | selectError
  | accept (a : Accepted)
  | ready (set : Int → Bool)
  | next

/-- `accept` fails, or hands out a descriptor that is positive and not open. -/
def Accepted.Valid (a : Accepted) (s : Broker) : Prop :=
  a.fd < 0 ∨ (0 < a.fd ∧ a.fd ≠ s.sockfd ∧ s.kernel.conns a.fd = none)

instance (a : Accepted) (s : Broker) : Decidable (a.Valid s) := by
  unfold Accepted.Valid
  have : Decidable (s.kernel.conns a.fd = none) := decidable_of_iff _ Option.isNone_iff_eq_none
  infer_instance

/-- One step; `none` where the event is not one the state waits for. -/
def step (s : Broker) (e : Event) : Option Broker :=
  match s.pc, e with
  | .select, .next => none
  | .select, e =>
      if s.dangling then some { s with pc := .exited .badDescriptor }
      else
        match e with
        | .selectError => some { s with pc := .exited .selectError }
        | .accept a => if a.Valid s then some (s.acceptBranch a) else none
        | .ready set => some { s with pc := .scan 0 fun fd => set fd && s.fdSet fd }
        | _ => some s
  | .scan i rset, .next => some (s.scanNode i rset)
  | .handle i rset, .next => some (s.handleFrame i rset)
  | _, _ => none

/-- The states of the runs from `cfg` whose steps all meet `ok`. -/
def Reachable (cfg : Config) (ok : Broker → Event → Prop) (s : Broker) : Prop :=
  Runs.Reaches step ok cfg.init s

/-! ## Where a run stands -/

/-- The scan is at this node. -/
def Pc.scanned : Pc → Option (Nat × (Int → Bool))
  | .scan i rset => some (i, rset)
  | _ => none

/-- A frame from this node is to be handled. -/
def Pc.handled : Pc → Option (Nat × (Int → Bool))
  | .handle i rset => some (i, rset)
  | _ => none

/-- The loop has been left. -/
def Pc.exit : Pc → Option Exit
  | .exited why => some why
  | _ => none

theorem Pc.eq_scan {pc : Pc} {p : Nat × (Int → Bool)} (h : pc.scanned = some p) :
    pc = .scan p.1 p.2 := by
  cases pc <;> cases h
  rfl

theorem Pc.eq_handle {pc : Pc} {p : Nat × (Int → Bool)} (h : pc.handled = some p) :
    pc = .handle p.1 p.2 := by
  cases pc <;> cases h
  rfl

theorem Pc.eq_exited {pc : Pc} {why : Exit} (h : pc.exit = some why) : pc = .exited why := by
  cases pc <;> cases h
  rfl

theorem Pc.eq_select {pc : Pc} (hs : pc.scanned = none) (hh : pc.handled = none)
    (he : pc.exit = none) : pc = .select := by
  cases pc with
  | select => rfl
  | scan i rset => cases hs
  | handle i rset => cases hh
  | exited why => cases he

/-! ## A small configuration

Three nodes `a`, `b`, `c` with the ids 1, 2, 3, for the runs that are followed
step by step. -/

def trio : Config where
  nodeStart := { name := [104], id := 0 }
  nodes := [{ name := [97], id := 1 }, { name := [98], id := 2 }, { name := [99], id := 3 }]
  id_ne_zero := by decide
  connfd_zero := by decide
  sockfd := 4
  sockfd_pos := by decide

/-- An end of a connection whose peer sends these bytes, and on which every call
takes all that it is offered. -/
def Sock.eager (input : Bytes) : Sock where
  input := input ++ₛ Stream'.const 0
  recvs := Stream'.const (.moved 4095)
  sends := Stream'.const (.moved 4095)
  consumed := []
  output := []

/-- The client of this name connects. -/
def Accepted.client (fd : Int) (name : Bytes) (sock : Sock) : Accepted :=
  ⟨fd, nameFix name, true, true, sock.input, sock.recvs, sock.sends⟩

/-- `select` reports these descriptors. -/
def Event.readyOf (fds : List Int) : Event := .ready fun fd => decide (fd ∈ fds)

end Icehydra
