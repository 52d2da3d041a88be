import Icehydra.Kernel

/-!
# Conf — nodes, the relay and the replies

`broadcast_cmd`, `parser_reserve_cmd` and `find_node_by_id` of `src/conf.c`,
over the node list of the broker and the table of its open connections.
-/

namespace Icehydra

open Block NonBlock

/-! ## Nodes -/

/-- `SHM_NODE_T`. -/
structure ShmNode where
  shmName : Bytes
  shmId : Int
  shmSize : Int

def sizeofShmNode : Nat := 40

/-- A 32-bit `int` in memory. -/
def intBytes (x : Int) : Bytes :=
  [toU8 x, toU8 (x / 256), toU8 (x / 65536), toU8 (x / 16777216)]

/-- A table entry in memory: `char shm_name[32]` and two ints. -/
def ShmNode.bytes (n : ShmNode) : Bytes :=
  peek n.shmName 0 32 ++ intBytes n.shmId ++ intBytes n.shmSize

/-- `pub_sub_node_t`. A fresh node comes from `calloc`: its `connfd` is 0. -/
structure PubSubNode where
  name : Bytes
  id : Int
  connfd : Int := 0
  shmNodePtr : Option (List ShmNode) := none
  shmNodeNum : Int := 0

/-! ## broadcast_cmd -/

/-- Where a loop with a `return` in its body stands: `exit = none` when it ran
to its end. -/
structure LoopEnd where
  kernel : Kernel
  calls : List Call
  exit : Option Ret

/-- What follows a finished loop. -/
def LoopEnd.andThen (r : LoopEnd) (next : Kernel → LoopEnd) : LoopEnd :=
  match r.exit with
  | some _ => r
  | none =>
      let r' := next r.kernel
      { r' with calls := r.calls ++ r'.calls }

/-- The send in the loop body and the `return -current_node->id` after it. -/
def relayTo (k : Kernel) (cmdHead data : Bytes) (cur : PubSubNode × Nat) : LoopEnd :=
  let r := k.send cur.2 cur.1.connfd cmdHead (some data)
  { kernel := r.kernel
    calls := r.calls
    exit :=
      match r.ret with
      | .killed => some .killed
      | .val ret => if ret < 0 then some (.val (-cur.1.id)) else none }

/-- `for(int i=0;i<broadcast_num;i++)`, for one node. -/
def broadcastIds (k : Kernel) (cmdHead data : Bytes) (cur : PubSubNode × Nat) :
    List UInt8 → LoopEnd
  | [] => ⟨k, [], none⟩
  | id :: ids =>
      if (id.toNat : Int) = cur.1.id then
        (relayTo k cmdHead data cur).andThen fun k => broadcastIds k cmdHead data cur ids
      else broadcastIds k cmdHead data cur ids

/-- `list_for_each(current_node_list,head)`. -/
def broadcastNodes (k : Kernel) (cmdHead data : Bytes) (ids : List UInt8) :
    List (PubSubNode × Nat) → LoopEnd
  | [] => ⟨k, [], none⟩
  | cur :: rest =>
      (broadcastIds k cmdHead data cur ids).andThen fun k =>
        broadcastNodes k cmdHead data ids rest

/-- The header rewritten in place: the id list is cut off the length, a
negative length keeps the field as it is, and `cmdid` is kept. -/
def broadcastHead (cmdHead : Bytes) : Bytes :=
  let bodylen : Int := (getProtocolBodyLen cmdHead : Int) - getProtocolBroadcastLen cmdHead
  setPureBroadcastField (setBroadcastCmdHead cmdHead bodylen (-1) 0) 0 none

/-- Called with `cmd_head = rbuf` and `data = rbuf + PROTOCOL_CMD_HEAD_LEN`.
The result holds the buffer as the call leaves it. -/
def broadcastCmd (k : Kernel) (nodes : List PubSubNode) (rbuf : Bytes) : Bytes × Outgoing :=
  let broadcastNum := (getProtocolCmdBroadcastNum rbuf).toNat
  let broadcastLen := getProtocolBroadcastLen rbuf
  let rbuf := broadcastHead rbuf
  let data := rbuf.drop (protocolCmdHeadLen + broadcastLen)
  let broadcastIds := peek rbuf protocolCmdHeadLen broadcastNum
  let r := broadcastNodes k rbuf data broadcastIds nodes.zipIdx
  (rbuf, ⟨r.kernel, r.exit.getD (.val 0), r.calls⟩)

/-! ## parser_reserve_cmd -/

def parserReserveCmd (k : Kernel) (nodeStart : PubSubNode) (cur : PubSubNode × Nat)
    (cmd : Bytes) : Outgoing :=
  let buf : Bytes := List.replicate 2000 0
  if getProtocolCmdId cmd = ihReserveCmdIdGetShmInfo then
    let bodylen := toInt32 (sizeofShmNode * nodeStart.shmNodeNum)
    let buf := setPureProtocolHead buf bodylen 0 ihReserveCmdIdGetShmInfo.toNat
    k.send cur.2 cur.1.connfd buf
      (nodeStart.shmNodePtr.map fun table => table.flatMap ShmNode.bytes)
  else if getProtocolCmdId cmd = ihReserveCmdIdGetShmNum then
    let buf := setPureProtocolHead buf 1 0 ihReserveCmdIdGetShmNum.toNat
    let buf := store buf protocolCmdHeadLen [toU8 nodeStart.shmNodeNum]
    k.send cur.2 cur.1.connfd buf (some (buf.drop protocolCmdHeadLen))
  else ⟨k, .val 0, []⟩

/-! ## Lookups -/

/-- The position of the first node with this id. -/
def findNodeById (nodes : List PubSubNode) (id : Int) : Option Nat :=
  nodes.findIdx? fun n => n.id = id

end Icehydra
