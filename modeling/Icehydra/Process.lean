import Icehydra.Broadcast
import Icehydra.Discovery
import Icehydra.Inbound
import Icehydra.Lib.PrefixCode
import Icehydra.Writing

/-!
# Process — a process that uses the library

A process calls the functions of `icehydra.c` one after the other, in any order
and with any arguments. Beside the library's own state it keeps what its program
has seen of it: the messages that went out whole, and what its receives have
reported. `ih_get_shm_infos`, which waits for the broker in the middle, goes on
one round at a time.

Whatever the calls come back with, the bytes of a process are those of its
messages, with at most one of them broken off at the end, and what it has been
told is in the frames it has read.
-/

namespace Icehydra

open Block NonBlock PrefixCode
open scoped List

/-! ## Waiting for the other processes -/

/-- `CMD_ALL_CONNECT_OK`. -/
def cmdAllConnectOk : Bytes := [73, 72, 0, 0, 1, 1, 0, 0]

def cmdAllConnectOkLen : Nat := cmdAllConnectOk.length

/-- One `recv()` with `MSG_WAITALL`: it blocks, and brings less than was asked
for only where a signal, an error or the end of the stream comes in between. -/
def waitAllUnixConnet (s : Sock) (sockfd : Int) : Sock × Int :=
  if sockfd < 0 then (s, -1)
  else
    match s.recvs.head with
    | .moved k =>
        let n := min (k + 1) cmdAllConnectOkLen
        let s' := { s with
          recvs := s.recvs.tail
          input := s.input.drop n
          consumed := s.consumed ++ s.input.take n }
        if n ≠ cmdAllConnectOkLen then (s', -1)
        else if s.input.take n = cmdAllConnectOk then (s', 0)
        else (s', -1)
    | _ => ({ s with recvs := s.recvs.tail }, -1)

/-- The client, and whether `exit(-1)` has been called. -/
def ihWaitOtherProcess (c : Client) : Client × Bool :=
  let r := waitAllUnixConnet c.sock c.connfd
  ({ c with sock := r.1 }, decide (r.2 < 0))

/-! ## Messages -/

/-- What a process hands to the library: a broadcast, or one of the two requests
to the broker. -/
inductive Post where
  | broadcast (cmd : IhBroadcastCmd)
  | request (cmdid : UInt8)

namespace Post

def wire : Post → Bytes
  | .broadcast cmd => cmd.wire
  | .request cmdid => (requestFrame cmdid).bytes

def Legal : Post → Prop
  | .broadcast cmd => cmd.Fits
  | .request cmdid => cmdid = ihReserveCmdIdGetShmInfo ∨ cmdid = ihReserveCmdIdGetShmNum

def frame (m : Post) : Frame := frameIn m.wire

end Post

/-- What `ih_recv_data` reports: its result, and the bytes it has stored. -/
structure Reading where
  ret : Int
  data : Bytes
  deriving DecidableEq

def Frame.reading (f : Frame) : Reading where
  ret :=
    if getProtocolCmdId f.head ≠ ihReserveCmdIdGetShmInfo then 0
    else ihReserveCmdIdGetShmInfo.toNat
  data := f.body

/-! ## The process -/

/-- `asking` is the call of `ih_get_shm_infos` the process is in; `tables` are
the results of those that have come back, each with the caller's buffer. -/
structure Process where
  name : Bytes
  client : Client
  asking : Option Query
  ended : Bool
  posts : List Post
  got : List Reading
  tables : List (Int × Bytes)

/-- What a call that has come back has brought. -/
def Query.table (q : Query) : List (Int × Bytes) :=
  match q.pc with
  | .returned ret => [(ret, q.buffer)]
  | _ => []

/-- What a process does next: a call, or a round of the call it is in. -/
inductive Op where
  | sendBroadcastData (cmd : IhBroadcastCmd)
  | sendGetShmIDsCmd
  | recvData
  | getShmInfos (buffer : Bytes) (buffersize : Int)
  | round (ready : Bool)
  | waitOtherProcess

namespace Process

/-- The message, if this is where all its bytes have gone out. -/
def sent (p : Process) (c : Client) (m : Post) : List Post :=
  if c.sock.output = p.client.sock.output ++ m.wire then [m] else []

/-- The process behind a send that left the client like this. -/
def wrote (p : Process) (m : Post) (r : Client × Ret) : Process :=
  { p with client := r.1, posts := p.posts ++ p.sent r.1 m, ended := decide (r.2 = .killed) }

/-- The process where `ih_get_shm_infos` stands at `q`. -/
def follow (p : Process) (m : Post) (q : Query) : Process :=
  { p with
    client := q.client
    posts := p.posts ++ p.sent q.client m
    asking := if q.pc = .recvNum ∨ q.pc = .recvInfo then some q else none
    ended := decide (q.pc = .killed)
    tables := p.tables ++ q.table }

/-- The process behind a receive. -/
def heard (p : Process) (r : IhRecvd) : Process :=
  { p with client := r.client, got := p.got ++ if r.ret < 0 then [] else [⟨r.ret, r.data⟩] }

/-- The process behind its wait. -/
def waited (p : Process) (r : Client × Bool) : Process := { p with client := r.1, ended := r.2 }

/-- `none` where the process is not at this point. -/
def run (p : Process) (op : Op) : Option Process :=
  if p.ended then none
  else
    match p.asking, op with
    | some q, .round ready => (q.step ready).map (p.follow (.request ihReserveCmdIdGetShmInfo))
    | none, .sendBroadcastData cmd =>
        some (p.wrote (.broadcast cmd) (ihSendBroadcastData p.client cmd))
    | none, .sendGetShmIDsCmd =>
        some (p.wrote (.request ihReserveCmdIdGetShmInfo) (ihSendGetShmIDsCmd p.client))
    | none, .recvData => some (p.heard (ihRecvData p.client true))
    | none, .getShmInfos buffer buffersize =>
        some (p.follow (.request ihReserveCmdIdGetShmNum)
          (ihGetShmInfos p.client buffer buffersize))
    | none, .waitOtherProcess => some (p.waited (ihWaitOtherProcess p.client))
    | _, _ => none

end Process

/-! ## Messages and frames -/

theorem Frame.prefixCode : PrefixCode Frame.bytes := ⟨Frame.bytes_ne_nil, Frame.bytes_append_inj⟩

theorem Frame.reading_ret (f : Frame) : ¬ f.reading.ret < 0 := by
  simp only [reading]
  split <;> decide

theorem frameIn_bytes (f : Frame) : frameIn f.bytes = f := by
  have hblen := f.bytes_length
  have hhead : peek f.bytes 0 protocolCmdHeadLen = f.head := by
    rw [peek_eq _ _ _ (by omega), List.drop_zero, Frame.bytes, ← f.head_length, List.take_left]
  have hlen : getProtocolBodyLen f.bytes = f.body.length := by
    rw [Frame.bytes, getProtocolBodyLen_append f.head_length, f.body_length]
  apply Frame.ext
  · exact hhead
  · show peek f.bytes protocolCmdHeadLen (getProtocolBodyLen f.bytes) = f.body
    rw [hlen, peek_eq _ _ _ (by omega), Frame.bytes, ← f.head_length, List.drop_left,
      List.take_length]

namespace Post

theorem Legal.bytes {m : Post} (h : m.Legal) : m.frame.bytes = m.wire := by
  cases m with
  | broadcast cmd =>
      have heq : (Post.broadcast cmd).wire = (IhBroadcastCmd.Fits.frame h).bytes :=
        IhBroadcastCmd.Fits.wire_eq h
      rw [frame, heq, frameIn_bytes]
  | request cmdid => exact congrArg Frame.bytes (frameIn_bytes _)

theorem wire_ne_nil (m : Post) : m.wire ≠ [] := by
  cases m with
  | broadcast cmd =>
      intro hnil
      have hlen := cmd.length_wire
      rw [show cmd.wire = [] from hnil, List.length_nil, IhBroadcastCmd.headLen] at hlen
      have := protocolCmdHeadLen_pos
      omega
  | request cmdid => exact Frame.bytes_ne_nil _

theorem flatMap_wire {ms : List Post} (h : ∀ m ∈ ms, m.Legal) :
    ms.flatMap wire = (ms.map frame).flatMap Frame.bytes := by
  rw [List.flatMap_map]
  apply List.flatMap_congr
  intro m hm
  exact (h m hm).bytes.symm

end Post

/-! ## What one call moves -/

/-- From `c` to `c'`, at most the message `m` goes out, and frames come in of
which `rs` is reported. A piece of a message or of a frame moves only where it
is the `last` thing to do so. -/
structure Moves (m : Post) (rs : List Reading) (last : Prop) (c c' : Client) : Prop where
  output : ∃ w, c'.sock.output = c.sock.output ++ w ∧ w <+: m.wire ∧ (w = [] ∨ w = m.wire ∨ last)
  consumed : ∃ (fs : List Frame) (part : Bytes),
    c'.sock.consumed = c.sock.consumed ++ (fs.flatMap Frame.bytes ++ part) ∧
      rs <+ fs.map Frame.reading ∧ (part = [] ∨ last)

/-- The header of a broadcast goes out whole, or no byte of the data follows it. -/
def HeaderWhole (sends : Stream' (Outcome Stop)) (cmd : IhBroadcastCmd) : Prop :=
  (headWrite sends cmd).moved = cmd.headLen ∨ (headWrite sends cmd).why = some .sigpipe ∨
    (dataWrite sends cmd).moved = 0

/-- All of a request goes out or nothing, unless SIGPIPE ends the process. -/
def RequestWhole (sends : Stream' (Outcome Stop)) : Prop :=
  (asked sends).moved = 0 ∨ (asked sends).moved = protocolCmdHeadLen ∨
    (asked sends).why = some .sigpipe

namespace Moves

variable {m : Post} {rs : List Reading} {last : Prop} {c c' : Client}

/-- Only what goes out. -/
theorem of_output {w : Bytes} (hout : c'.sock.output = c.sock.output ++ w) (hpre : w <+: m.wire)
    (hw : w = [] ∨ w = m.wire ∨ last) (hcons : c'.sock.consumed = c.sock.consumed) :
    Moves m [] last c c' where
  output := ⟨w, hout, hpre, hw⟩
  consumed := ⟨[], [], by simp [hcons], List.Sublist.slnil, .inl rfl⟩

/-- Only what comes in. -/
theorem of_consumed (hout : c'.sock.output = c.sock.output) (fs : List Frame) (part : Bytes)
    (hcons : c'.sock.consumed = c.sock.consumed ++ (fs.flatMap Frame.bytes ++ part))
    (hrs : rs <+ fs.map Frame.reading) (hpart : part = [] ∨ last) : Moves m rs last c c' where
  output := ⟨[], by simp [hout], List.nil_prefix, .inl rfl⟩
  consumed := ⟨fs, part, hcons, hrs, hpart⟩

theorem of_same (hout : c'.sock.output = c.sock.output)
    (hcons : c'.sock.consumed = c.sock.consumed) : Moves m [] last c c' :=
  of_consumed hout [] [] (by simp [hcons]) List.Sublist.slnil (.inl rfl)

theorem imp {last' : Prop} (h : Moves m rs last c c') (himp : last → last') :
    Moves m rs last' c c' where
  output := by
    obtain ⟨w, hout, hpre, hw⟩ := h.output
    exact ⟨w, hout, hpre, hw.imp_right (Or.imp_right himp)⟩
  consumed := by
    obtain ⟨fs, part, hcons, hrs, hpart⟩ := h.consumed
    exact ⟨fs, part, hcons, hrs, hpart.imp_right himp⟩

theorem forget (h : Moves m rs last c c') : Moves m [] last c c' where
  output := h.output
  consumed := by
    obtain ⟨fs, part, hcons, -, hpart⟩ := h.consumed
    exact ⟨fs, part, hcons, List.nil_sublist _, hpart⟩

/-- A frame has come in before. -/
theorem behind {b : Client} (h : Moves m [] last b c') {f : Frame}
    (hout : b.sock.output = c.sock.output)
    (hcons : b.sock.consumed = c.sock.consumed ++ f.bytes) : Moves m [] last c c' where
  output := by
    rw [← hout]
    exact h.output
  consumed := by
    obtain ⟨fs, part, hcons', -, hpart⟩ := h.consumed
    refine ⟨f :: fs, part, ?_, List.nil_sublist _, hpart⟩
    rw [hcons', hcons, List.flatMap_cons, List.append_assoc, List.append_assoc]

end Moves

/-! ## What the functions move -/

/-- A request that is sent as `tcp_send_protocol_cmd` sends it. -/
theorem moves_request {c c' : Client} (cmdid : UInt8) {last : Prop}
    (hsock : c'.sock = c.sock.sending (asked c.sock.sends).rest
      (c.sock.output ++ (requestFrame cmdid).bytes.take (asked c.sock.sends).moved))
    (hwhole : RequestWhole c.sock.sends)
    (hlast : sendRet (asked c.sock.sends) protocolCmdHeadLen = .killed → last) :
    Moves (.request cmdid) [] last c c' := by
  have hlen : (requestFrame cmdid).bytes.length = protocolCmdHeadLen := by
    rw [Frame.bytes_length]
    rfl
  apply Moves.of_output (w := (requestFrame cmdid).bytes.take (asked c.sock.sends).moved)
  · rw [hsock]
    rfl
  · exact List.take_prefix _ _
  · rcases hwhole with hnone | hall | hpipe
    · exact .inl (by rw [hnone, List.take_zero])
    · exact .inr (.inl (List.take_of_length_le (by omega)))
    · exact .inr (.inr (hlast (if_pos hpipe)))
  · rw [hsock]
    rfl

theorem waitOtherProcess_output (c : Client) :
    (ihWaitOtherProcess c).1.sock.output = c.sock.output := by
  simp only [ihWaitOtherProcess, waitAllUnixConnet]
  split
  · rfl
  · split
    · split
      · rfl
      · split <;> rfl
    · rfl

theorem frameIn_cmdAllConnectOk : (frameIn cmdAllConnectOk).bytes = cmdAllConnectOk := by
  decide +kernel

/-- Success is a frame as well. -/
theorem waitOtherProcess_ok {c : Client} (h : (ihWaitOtherProcess c).2 = false) :
    0 ≤ c.connfd ∧ (ihWaitOtherProcess c).1.sock.consumed
      = c.sock.consumed ++ (frameIn cmdAllConnectOk).bytes := by
  have hfd : 0 ≤ c.connfd := by
    by_contra hneg
    rw [ihWaitOtherProcess, waitAllUnixConnet, if_pos (Int.not_le.mp hneg)] at h
    cases h
  refine ⟨hfd, ?_⟩
  rw [frameIn_cmdAllConnectOk]
  simp only [ihWaitOtherProcess, waitAllUnixConnet, if_neg (Int.not_lt.mpr hfd)] at h ⊢
  cases hrecv : c.sock.recvs.head with
  | moved k =>
      simp only [hrecv] at h ⊢
      split at h
      · cases h
      · split at h
        · rename_i hn heq
          rw [if_neg hn, if_pos heq]
          exact congrArg (c.sock.consumed ++ ·) heq
        · cases h
  | again | stop =>
      rw [hrecv] at h
      cases h

section Open

variable {c : Client} (hfd : 0 ≤ c.connfd)

include hfd

theorem sendBroadcastData_consumed {cmd : IhBroadcastCmd} (h : cmd.Sized) :
    (ihSendBroadcastData c cmd).1.sock.consumed = c.sock.consumed := by
  have hwrites := ihSendBroadcastData_writes h hfd
  generalize ihSendBroadcastData c cmd = out at hwrites
  cases hwrites <;> rfl

theorem moves_sendBroadcastData {cmd : IhBroadcastCmd} (h : cmd.Sized)
    (hhead : HeaderWhole c.sock.sends cmd) :
    let r := ihSendBroadcastData c cmd
    Moves (.broadcast cmd) [] (r.2 = .killed ∨ r.1.connfd < 0) c r.1 := by
  intro r
  have hwrites := ihSendBroadcastData_writes h hfd
  have hpre : broadcastOut c.sock.sends cmd <+: cmd.wire := by
    rw [broadcastOut_prefix_iff]
    rcases hhead with hwhole | hpipe | hnone
    · exact .inl hwhole
    · exact .inr (.inl hpipe)
    · refine .inr (.inr ?_)
      rw [hnone, List.take_zero]
      exact List.nil_prefix
  refine .of_output (ihSendBroadcastData_output h hfd) hpre ?_ (sendBroadcastData_consumed hfd h)
  have hret : r.2 = .val 0 → broadcastOut c.sock.sends cmd = cmd.wire := fun hz =>
    (broadcastOut_whole_iff _ _ hpre).mpr ((ihSendBroadcastData_ret h hfd).mp hz)
  simp only [r] at hret ⊢
  generalize ihSendBroadcastData c cmd = out at hwrites hret
  cases hwrites with
  | headKilled | dataKilled => exact .inr (.inr (.inl rfl))
  | sent => exact .inr (.inl (hret rfl))
  | failed => exact .inr (.inr (.inr (show (-1 : Int) < 0 by decide)))

theorem moves_sendGetShmIDsCmd (hwhole : RequestWhole c.sock.sends) :
    let r := ihSendGetShmIDsCmd c
    Moves (.request ihReserveCmdIdGetShmInfo) [] (r.2 = .killed) c r.1 := by
  intro r
  have hr : r = _ := ihSendGetShmIDsCmd_eq hfd
  rw [hr]
  exact moves_request ihReserveCmdIdGetShmInfo rfl hwhole id

theorem moves_recvData (m : Post) :
    let r := ihRecvData c true
    Moves m (if r.ret < 0 then [] else [⟨r.ret, r.data⟩]) (r.client.connfd < 0) c r.client := by
  intro r
  by_cases hw : c.sock.Whole
  · have hr : r = _ := ihRecvData_whole hw hfd
    have hret : ¬ r.ret < 0 := by
      rw [hr]
      exact (nextFrame c.sock).reading_ret
    rw [if_neg hret, hr]
    exact .of_consumed rfl [nextFrame c.sock] [] (by simp [Sock.past]) (List.Sublist.refl _)
      (.inl rfl)
  · obtain ⟨hret, hclient⟩ := ihRecvData_short hw hfd
    have hneg : r.ret < 0 := by
      rw [hret]
      decide
    rw [if_pos hneg, hclient]
    exact .of_consumed rfl [] _ rfl List.Sublist.slnil (.inr (show (-1 : Int) < 0 by decide))

theorem recvData_output : (ihRecvData c true).client.sock.output = c.sock.output := by
  by_cases hw : c.sock.Whole
  · rw [ihRecvData_whole hw hfd]
    rfl
  · rw [(ihRecvData_short hw hfd).2]
    rfl

theorem moves_waitOtherProcess (m : Post) :
    let r := ihWaitOtherProcess c
    Moves m [] (r.2 = true) c r.1 := by
  intro r
  cases hr : r.2 with
  | false =>
      obtain ⟨-, hcons⟩ := waitOtherProcess_ok hr
      exact .of_consumed (waitOtherProcess_output c) [frameIn cmdAllConnectOk] [] (by simp [r, hcons])
        (List.nil_sublist _) (.inl rfl)
  | true =>
      have hprefix : ∃ part, r.1.sock.consumed = c.sock.consumed ++ part := by
        simp only [r, ihWaitOtherProcess, waitAllUnixConnet, if_neg (Int.not_lt.mpr hfd)]
        cases c.sock.recvs.head with
        | moved k =>
            simp only
            split
            · exact ⟨_, rfl⟩
            · split <;> exact ⟨_, rfl⟩
        | again | stop => exact ⟨[], (List.append_nil _).symm⟩
      obtain ⟨part, hpart⟩ := hprefix
      exact .of_consumed (waitOtherProcess_output c) [] part hpart List.Sublist.slnil (.inr rfl)

end Open

/-! ## What a round of ih_get_shm_infos moves -/

namespace Query

variable {q : Query}

@[simp] theorem loopInfo_client (q : Query) : q.loopInfo.client = q.client := by
  unfold loopInfo
  split <;> rfl

/-- The number is looked at, and the table is asked for or not. -/
theorem askInfo_client (q : Query) :
    q.askInfo.client = q.client ∨
      q.askInfo.client = (ihSendGetShmIDsCmd q.client).1 ∧
        ((ihSendGetShmIDsCmd q.client).2 = .killed → q.askInfo.pc = .killed) := by
  unfold askInfo
  simp only
  split
  · exact .inl rfl
  · split
    · exact .inl rfl
    · right
      cases hret : (ihSendGetShmIDsCmd q.client).2 with
      | killed => exact ⟨rfl, fun _ => rfl⟩
      | val ret =>
          simp only
          split
          · exact ⟨rfl, nofun⟩
          · exact ⟨rfl, nofun⟩

theorem askInfo_connfd (q : Query) : q.askInfo.client.connfd = q.client.connfd := by
  rcases q.askInfo_client with heq | ⟨heq, -⟩
  · rw [heq]
  · rw [heq, ihSendGetShmIDsCmd]
    split <;> rfl

theorem ihSendGetShmIDsCmd_ret {c : Client} {ret : Int} (h : (ihSendGetShmIDsCmd c).2 = .val ret) :
    ret = 0 ∨ ret = -1 := by
  rcases Int.lt_or_le c.connfd 0 with hclosed | hfd
  · rw [ihSendGetShmIDsCmd, if_pos hclosed] at h
    exact .inr (Ret.val.inj h).symm
  · rw [ihSendGetShmIDsCmd_eq hfd] at h
    rcases sendRet_cases (t := asked c.sock.sends) (n := protocolCmdHeadLen) with hr | hr | hr
    · rw [hr] at h
      cases h
    · rw [hr] at h
      exact .inl (Ret.val.inj h).symm
    · rw [hr] at h
      exact .inr (Ret.val.inj h).symm

/-- Where the call is then: back without a table, or in its second loop. -/
theorem askInfo_pc (q : Query) :
    (q.askInfo.pc = .recvInfo → ihRecvIsShmIDs q.askInfo.ret = false) ∧
      ∀ ret, q.askInfo.pc = .returned ret → ret = -1 ∨
        (ret = 0 ∧ (byteAt q.wbuf protocolCmdHeadLen).toNat = 0 ∧ q.askInfo.client = q.client) := by
  unfold askInfo
  simp only
  split
  · exact ⟨nofun, fun ret h => .inl (Phase.returned.inj h).symm⟩
  · split
    · rename_i hzero
      exact ⟨nofun, fun ret h => .inr ⟨(Phase.returned.inj h).symm, hzero, rfl⟩⟩
    · cases hret : (ihSendGetShmIDsCmd q.client).2 with
      | killed => exact ⟨nofun, nofun⟩
      | val ret =>
          rcases ihSendGetShmIDsCmd_ret hret with rfl | rfl
          · exact ⟨fun _ => rfl, nofun⟩
          · exact ⟨nofun, fun ret h => .inl (Phase.returned.inj h).symm⟩

/-- The first loop's receive. -/
theorem numStep_eq (q : Query) :
    let r := tcpRecvProtocolCmd q.client.sock q.client.connfd true
    let q' := { q with
      client := { q.client with sock := r.sock }
      wbuf := store (store (memzero q.wbuf 64) 0 r.head) protocolCmdHeadLen r.body }
    q.numStep =
      if r.ret < 0 then { q' with pc := .returned (-1) }
      else if getProtocolCmdId q'.wbuf ≠ ihReserveCmdIdGetShmNum then q'
      else q'.askInfo :=
  rfl

theorem numStep_connfd (q : Query) : q.numStep.client.connfd = q.client.connfd := by
  rw [numStep_eq]
  simp only
  split
  · rfl
  · split
    · rfl
    · rw [askInfo_connfd]

theorem numStep_recvInfo (hpc : q.pc = .recvNum) (h : q.numStep.pc = .recvInfo) :
    ihRecvIsShmIDs q.numStep.ret = false := by
  rw [numStep_eq] at h ⊢
  simp only at h ⊢
  split at h
  · cases h
  · rename_i hret
    rw [if_neg hret]
    split at h
    · rw [hpc] at h
      cases h
    · rename_i hid
      rw [if_neg hid]
      exact (askInfo_pc _).1 h

/-- The first loop ends the call with -1, or with a number that is 0. -/
theorem numStep_returned (hpc : q.pc = .recvNum) (hfd : 0 ≤ q.client.connfd) {ret : Int}
    (h : q.numStep.pc = .returned ret) :
    let f := nextFrame q.client.sock
    ret = -1 ∨ (ret = 0 ∧ getProtocolCmdId f.head = ihReserveCmdIdGetShmNum ∧
      (byteAt f.body 0).toNat = 0 ∧
      q.numStep.client.sock.consumed = q.client.sock.consumed ++ f.bytes) := by
  intro f
  rw [numStep_eq] at h ⊢
  by_cases hw : q.client.sock.Whole
  · obtain ⟨hid, hbyte⟩ := wbuf_byteAt q.wbuf f
    rw [Sock.recv_whole hw hfd] at h ⊢
    simp only [Int.lt_irrefl, if_false] at h ⊢
    split at h
    · rw [hpc] at h
      cases h
    · rename_i hnum
      rw [if_neg hnum]
      rcases (askInfo_pc _).2 ret h with hneg | ⟨hzero, hnone, hclient⟩
      · exact .inl hneg
      · rw [hclient]
        exact .inr ⟨hzero, hid.symm.trans (not_not.mp hnum), by rwa [← hbyte], rfl⟩
  · simp only [(Sock.recv_short hw hfd).1, show (-1 : Int) < 0 by decide, if_true] at h
    exact .inl (Phase.returned.inj h).symm

theorem moves_numStep (hfd : 0 ≤ q.client.connfd)
    (hin : q.client.sock.Whole ∨ (recvTransfer q.client.sock).moved = 0)
    (hwhole : RequestWhole q.client.sock.sends) :
    Moves (.request ihReserveCmdIdGetShmInfo) [] (q.numStep.pc = .killed) q.client
      q.numStep.client := by
  have heq := q.numStep_eq
  by_cases hw : q.client.sock.Whole
  · rw [Sock.recv_whole hw hfd] at heq
    simp only [Int.lt_irrefl, if_false] at heq
    split at heq
    · rw [heq]
      exact .of_consumed rfl [nextFrame q.client.sock] [] (by simp [Sock.past])
        (List.nil_sublist _) (.inl rfl)
    · -- the table is asked for where the receive has left the connection
      rw [heq]
      generalize hq' : ({ q with client := _, wbuf := _ } : Query) = q'
      have hclient : q'.client = { q.client with sock := q.client.sock.past } := by rw [← hq']
      have hsends : q'.client.sock.sends = q.client.sock.sends := by rw [hclient]; rfl
      apply Moves.behind (b := q'.client) (f := nextFrame q.client.sock)
      · rcases q'.askInfo_client with hsame | ⟨hsend, hkilled⟩
        · exact .of_same (by rw [hsame]) (by rw [hsame])
        · rw [hsend]
          have hmoves := moves_sendGetShmIDsCmd (c := q'.client) (by rw [hclient]; exact hfd)
            (by rw [hsends]; exact hwhole)
          exact hmoves.imp hkilled
      · rw [hclient]; rfl
      · rw [hclient]; rfl
  · -- the receive falls short, and has brought nothing
    obtain ⟨hret, hsock⟩ := Sock.recv_short hw hfd
    have hnone := hin.resolve_left hw
    simp only [hret, hsock, show (-1 : Int) < 0 by decide, if_true] at heq
    rw [heq]
    exact .of_same rfl (by simp [Sock.cut, hnone])

theorem loopInfo_recvInfo (h : q.loopInfo.pc = .recvInfo) :
    ihRecvIsShmIDs q.loopInfo.ret = false := by
  unfold loopInfo at h ⊢
  split at h
  · cases h
  · rename_i hret
    rw [if_neg hret]
    exact Bool.eq_false_iff.mpr hret

theorem infoStep_recvInfo {ready : Bool} (h : (q.infoStep ready).pc = .recvInfo) :
    ihRecvIsShmIDs (q.infoStep ready).ret = false := by
  unfold infoStep at h ⊢
  split at h
  · rename_i hready
    rw [if_pos hready]
    exact loopInfo_recvInfo h
  · rename_i hready
    rw [if_neg hready]
    exact loopInfo_recvInfo h

theorem moves_infoStep (ready : Bool) (m : Post) :
    Moves m [] ((q.infoStep ready).client.connfd < 0) q.client (q.infoStep ready).client := by
  unfold infoStep
  split
  · rw [loopInfo_client]
    exact .of_same rfl rfl
  · rename_i hready
    have hfd : 0 ≤ q.client.connfd := by
      by_contra hneg
      exact hready (if_pos (Int.not_le.mp hneg))
    rw [loopInfo_client]
    exact (moves_recvData hfd m).forget

/-- The table comes with the frame that ends the second loop. -/
theorem infoStep_returned (hpc : q.pc = .recvInfo) (hret : ihRecvIsShmIDs q.ret = false)
    {ready : Bool} {ret : Int} (h : (q.infoStep ready).pc = .returned ret) :
    let f := nextFrame q.client.sock
    0 ≤ q.client.connfd ∧ getProtocolCmdId f.head = ihReserveCmdIdGetShmInfo ∧
      ret = (f.body.length / sizeofShmNode : Nat) ∧
      (q.infoStep ready).buffer = store q.buffer 0 f.body ∧
      (q.infoStep ready).client.sock.consumed = q.client.sock.consumed ++ f.bytes := by
  intro f
  have hgoOn : ∀ {q' : Query}, q'.pc = .recvInfo → ihRecvIsShmIDs q'.ret = false →
      q'.loopInfo.pc ≠ .returned ret := by
    intro q' hpc' hret' hback
    rw [loopInfo_goOn hret', hpc'] at hback
    cases hback
  unfold infoStep at h ⊢
  split at h
  · exact absurd h (hgoOn hpc hret)
  · rename_i hready
    have hfd : 0 ≤ q.client.connfd := by
      by_contra hneg
      exact hready (if_pos (Int.not_le.mp hneg))
    rw [if_neg hready]
    by_cases hw : q.client.sock.Whole
    · rw [ihRecvData_whole hw hfd] at h ⊢
      by_cases hid : getProtocolCmdId (nextFrame q.client.sock).head = ihReserveCmdIdGetShmInfo
      · simp only [hid, ne_eq, not_true_eq_false, if_false] at h ⊢
        rw [loopInfo_exit rfl] at h ⊢
        exact ⟨hfd, hid, (Phase.returned.inj h).symm, rfl, rfl⟩
      · simp only [hid, ne_eq, not_false_eq_true, if_true] at h
        exact absurd h (hgoOn hpc rfl)
    · have hshort := (ihRecvData_short hw hfd).1
      exact absurd h (hgoOn hpc (by rw [hshort]; rfl))

theorem start_pc (c : Client) (buffer : Bytes) (buffersize : Int) :
    let q := ihGetShmInfos c buffer buffersize
    (q.pc = .recvNum → 0 ≤ q.client.connfd) ∧ q.pc ≠ .recvInfo := by
  intro q
  rcases Int.lt_or_le c.connfd 0 with hclosed | hfd
  · have hq : q = _ := if_pos hclosed
    rw [hq]
    exact ⟨nofun, nofun⟩
  · have hq : q = _ := start_eq hfd buffer buffersize
    rw [hq]
    refine ⟨fun _ => hfd, ?_⟩
    split <;> nofun

theorem start_returned (c : Client) (buffer : Bytes) (buffersize : Int) {ret : Int}
    (h : (ihGetShmInfos c buffer buffersize).pc = .returned ret) : ret = -1 := by
  rcases Int.lt_or_le c.connfd 0 with hclosed | hfd
  · rw [ihGetShmInfos, if_pos hclosed] at h
    exact (Phase.returned.inj h).symm
  · rw [start_eq hfd] at h
    simp only at h
    split at h <;> cases h

theorem moves_getShmInfos {c : Client} (hfd : 0 ≤ c.connfd) (buffer : Bytes) (buffersize : Int)
    (hwhole : RequestWhole c.sock.sends) :
    let q := ihGetShmInfos c buffer buffersize
    Moves (.request ihReserveCmdIdGetShmNum) [] (q.pc = .killed) c q.client := by
  intro q
  have hq : q = _ := start_eq hfd buffer buffersize
  rw [hq]
  apply moves_request ihReserveCmdIdGetShmNum rfl hwhole
  intro hkilled
  exact if_pos hkilled

/-- What a round receives fits into `wbuf`, or into the caller's buffer; and in
the first loop nothing follows where the socket stops in the middle. -/
def Orderly (q : Query) (ready : Bool) : Prop :=
  (q.pc = .recvNum → q.client.sock.Room 56 ∧
    (q.client.sock.Whole ∨ (recvTransfer q.client.sock).moved = 0) ∧
      RequestWhole q.client.sock.sends) ∧
  (q.pc = .recvInfo → ready = true → q.client.sock.Room q.buffersize.toNat)

end Query

/-! ## What a process keeps -/

namespace Process

variable {p p' : Process} {op : Op}

/-- Nothing goes in or out any more. -/
def Done (p : Process) : Prop := p.ended = true ∨ p.client.connfd < 0

/-- The process stands where the library leaves it: a broadcast fits into a frame
and names its recipients once, and nothing follows where the socket stops in the
middle of a message. -/
def Orderly (p : Process) : Op → Prop
  | .sendBroadcastData cmd =>
      cmd.Fits ∧ (p.client.connfd < 0 ∨ HeaderWhole p.client.sock.sends cmd)
  | .sendGetShmIDsCmd | .getShmInfos _ _ =>
      p.client.connfd < 0 ∨ RequestWhole p.client.sock.sends
  | .round ready => ∀ q, p.asking = some q → q.Orderly ready
  | .recvData | .waitOtherProcess => True

/-- The call the process is in, between two rounds. -/
structure Asks (p : Process) (q : Query) : Prop where
  client : q.client = p.client
  recvNum : q.pc = .recvNum → 0 ≤ p.client.connfd
  recvInfo : q.pc = .recvInfo → ihRecvIsShmIDs q.ret = false

/-- The invariant: what has gone out are the messages, what has come in are
frames, and a piece at the end of either is the last. -/
structure Kept (p : Process) : Prop where
  legal : ∀ m ∈ p.posts, m.Legal
  output : ∃ part, p.client.sock.output = p.posts.flatMap Post.wire ++ part ∧
    Unfinished Frame.bytes part ∧ (part = [] ∨ p.Done)
  consumed : ∃ (fs : List Frame) (part : Bytes),
    p.client.sock.consumed = fs.flatMap Frame.bytes ++ part ∧ p.got <+ fs.map Frame.reading ∧
      (part = [] ∨ p.Done)
  asking : ∀ q, p.asking = some q → p.Asks q

/-- One operation. -/
inductive Ran (p : Process) : Op → Process → Prop
  | broadcast {cmd} : p.asking = none →
      Ran p (.sendBroadcastData cmd) (p.wrote (.broadcast cmd) (ihSendBroadcastData p.client cmd))
  | request : p.asking = none →
      Ran p .sendGetShmIDsCmd
        (p.wrote (.request ihReserveCmdIdGetShmInfo) (ihSendGetShmIDsCmd p.client))
  | recv : p.asking = none → Ran p .recvData (p.heard (ihRecvData p.client true))
  | infos {buffer buffersize} : p.asking = none →
      Ran p (.getShmInfos buffer buffersize)
        (p.follow (.request ihReserveCmdIdGetShmNum) (ihGetShmInfos p.client buffer buffersize))
  | num {q ready} : p.asking = some q → q.pc = .recvNum →
      Ran p (.round ready) (p.follow (.request ihReserveCmdIdGetShmInfo) q.numStep)
  | info {q ready} : p.asking = some q → q.pc = .recvInfo →
      Ran p (.round ready) (p.follow (.request ihReserveCmdIdGetShmInfo) (q.infoStep ready))
  | wait : p.asking = none → Ran p .waitOtherProcess (p.waited (ihWaitOtherProcess p.client))

theorem run_cases (h : p.run op = some p') : p.ended = false ∧ Ran p op p' := by
  unfold run at h
  split at h
  · cases h
  · rename_i hended
    refine ⟨Bool.eq_false_iff.mpr hended, ?_⟩
    cases hask : p.asking with
    | none =>
        rw [hask] at h
        cases op with
        | round => cases h
        | sendBroadcastData =>
            obtain rfl := Option.some.inj h
            exact .broadcast hask
        | sendGetShmIDsCmd =>
            obtain rfl := Option.some.inj h
            exact .request hask
        | recvData =>
            obtain rfl := Option.some.inj h
            exact .recv hask
        | getShmInfos =>
            obtain rfl := Option.some.inj h
            exact .infos hask
        | waitOtherProcess =>
            obtain rfl := Option.some.inj h
            exact .wait hask
    | some q =>
        rw [hask] at h
        cases op with
        | round ready =>
            cases hpc : q.pc with
            | recvNum =>
                simp only [Query.step, hpc, Option.map_some, Option.some.injEq] at h
                obtain rfl := h
                exact .num hask hpc
            | recvInfo =>
                simp only [Query.step, hpc, Option.map_some, Option.some.injEq] at h
                obtain rfl := h
                exact .info hask hpc
            | returned | killed =>
                simp only [Query.step, hpc, Option.map_none] at h
                cases h
        | sendBroadcastData | sendGetShmIDsCmd | recvData | getShmInfos | waitOtherProcess =>
            cases h

/-! ### Messages handed over -/

theorem sent_eq {c : Client} {m : Post} {w : Bytes}
    (h : c.sock.output = p.client.sock.output ++ w) :
    p.sent c m = if w = m.wire then [m] else [] := by
  simp only [sent, h, List.append_cancel_left_eq]

theorem sent_of_same {c : Client} (m : Post) (h : c.sock.output = p.client.sock.output) :
    p.sent c m = [] := by
  rw [sent_eq (h.trans (List.append_nil _).symm), if_neg (Post.wire_ne_nil m).symm]

theorem Kept.of_moves (h : p.Kept) (hopen : ¬ p.Done) {m : Post} (hm : m.Legal)
    {rs : List Reading} (hmove : Moves m rs p'.Done p.client p'.client)
    (hposts : p'.posts = p.posts ++ p.sent p'.client m) (hgot : p'.got = p.got ++ rs)
    (hask : ∀ q, p'.asking = some q → p'.Asks q) : p'.Kept where
  legal := by
    intro m' hm'
    rw [hposts, sent] at hm'
    split at hm'
    · rcases List.mem_append.mp hm' with hold | hnew
      · exact h.legal m' hold
      · rw [List.mem_singleton.mp hnew]
        exact hm
    · rw [List.append_nil] at hm'
      exact h.legal m' hm'
  output := by
    obtain ⟨part, hout, -, hlast⟩ := h.output
    obtain ⟨w, hw, hpre, hcases⟩ := hmove.output
    have hpart := hlast.resolve_right hopen
    rw [hpart, List.append_nil] at hout
    rw [hposts, sent_eq hw, hw, hout]
    by_cases hall : w = m.wire
    · rw [if_pos hall, hall]
      exact ⟨[], by simp, Frame.prefixCode.unfinished_nil, .inl rfl⟩
    · rw [if_neg hall, List.append_nil]
      refine ⟨w, rfl, ?_, hcases.imp_right fun hc => hc.resolve_left hall⟩
      rw [← hm.bytes] at hpre hall
      exact Frame.prefixCode.unfinished_of_prefix hpre hall
  consumed := by
    obtain ⟨fs, part, hcons, hsub, hlast⟩ := h.consumed
    obtain ⟨gs, rest, hnew, hrs, hcases⟩ := hmove.consumed
    have hpart := hlast.resolve_right hopen
    rw [hpart, List.append_nil] at hcons
    refine ⟨fs ++ gs, rest, ?_, ?_, hcases⟩
    · rw [hnew, hcons, List.flatMap_append, List.append_assoc]
    · rw [hgot, List.map_append]
      exact hsub.append hrs
  asking := hask

/-! ### The operations keep it -/

theorem done_iff (hended : p.ended = false) : p.Done ↔ p.client.connfd < 0 := by
  simp [Done, hended]

/-- What the operation moves on an open connection. -/
theorem Ran.moves (h : Ran p op p') (hk : p.Kept) (hfd : 0 ≤ p.client.connfd)
    (hok : p.Orderly op) :
    ∃ m rs, m.Legal ∧ Moves m rs p'.Done p.client p'.client ∧
      p'.posts = p.posts ++ p.sent p'.client m ∧ p'.got = p.got ++ rs := by
  have hopen : ¬ p.client.connfd < 0 := Int.not_lt.mpr hfd
  have hinfo : (Post.request ihReserveCmdIdGetShmInfo).Legal := .inl rfl
  have hnil : p.got = p.got ++ [] := (List.append_nil _).symm
  cases h with
  | broadcast =>
      obtain ⟨hfits, hhead⟩ := hok
      refine ⟨.broadcast _, [], hfits, ?_, rfl, hnil⟩
      apply (moves_sendBroadcastData hfd hfits.sized (hhead.resolve_left hopen)).imp
      exact Or.imp_left decide_eq_true
  | request =>
      refine ⟨_, [], hinfo, ?_, rfl, hnil⟩
      apply (moves_sendGetShmIDsCmd hfd (hok.resolve_left hopen)).imp
      exact fun hkilled => .inl (decide_eq_true hkilled)
  | recv =>
      have hmove := moves_recvData hfd (.request ihReserveCmdIdGetShmInfo)
      refine ⟨_, _, hinfo, hmove.imp .inr, ?_, rfl⟩
      show p.posts = p.posts ++ p.sent (ihRecvData p.client true).client _
      rw [sent_of_same _ (recvData_output hfd), List.append_nil]
  | @infos buffer buffersize =>
      refine ⟨.request ihReserveCmdIdGetShmNum, [], .inr rfl, ?_, rfl, hnil⟩
      apply (Query.moves_getShmInfos hfd buffer buffersize (hok.resolve_left hopen)).imp
      exact fun hkilled => .inl (decide_eq_true hkilled)
  | @num q ready hask hpc =>
      have hclient := (hk.asking q hask).client
      obtain ⟨-, hin, hwhole⟩ := (hok q hask).1 hpc
      refine ⟨_, [], hinfo, ?_, rfl, hnil⟩
      rw [← hclient] at hfd ⊢
      apply (Query.moves_numStep hfd hin hwhole).imp
      exact fun hkilled => .inl (decide_eq_true hkilled)
  | @info q ready hask hpc =>
      have hclient := (hk.asking q hask).client
      refine ⟨_, [], hinfo, ?_, rfl, hnil⟩
      rw [← hclient]
      exact (Query.moves_infoStep ready _).imp .inr
  | wait =>
      refine ⟨.request ihReserveCmdIdGetShmInfo, [], hinfo,
        (moves_waitOtherProcess hfd _).imp .inl, ?_, hnil⟩
      show p.posts = p.posts ++ p.sent (ihWaitOtherProcess p.client).1 _
      rw [sent_of_same _ (waitOtherProcess_output _), List.append_nil]

theorem Ran.closed (h : Ran p op p') (hk : p.Kept) (hfd : p.client.connfd < 0) :
    p'.client = p.client ∧ p'.posts = p.posts ∧ p'.got = p.got := by
  -- each function looks at `client_connfd` first
  have hsent : ∀ {c m}, c = p.client → p.posts ++ p.sent c m = p.posts := by
    intro c m hc
    rw [sent_of_same m (by rw [hc]), List.append_nil]
  cases h with
  | @broadcast cmd =>
      have hsame : (ihSendBroadcastData p.client cmd).1 = p.client := by
        rw [ihSendBroadcastData, if_pos hfd]
      exact ⟨hsame, hsent hsame, rfl⟩
  | request =>
      have hsame : (ihSendGetShmIDsCmd p.client).1 = p.client := by
        rw [ihSendGetShmIDsCmd, if_pos hfd]
      exact ⟨hsame, hsent hsame, rfl⟩
  | recv =>
      have hnone : ihRecvData p.client true = ⟨p.client, [], none, -1⟩ := if_pos hfd
      rw [hnone]
      exact ⟨rfl, rfl, List.append_nil _⟩
  | @infos buffer buffersize =>
      have hsame : (ihGetShmInfos p.client buffer buffersize).client = p.client := by
        rw [ihGetShmInfos, if_pos hfd]
      exact ⟨hsame, hsent hsame, rfl⟩
  | num hask hpc => exact absurd hfd (Int.not_lt.mpr ((hk.asking _ hask).recvNum hpc))
  | @info q ready hask hpc =>
      have hclient := (hk.asking q hask).client
      have hready : ihSelectRecvReady q.client ready = false := by
        rw [hclient]
        exact if_pos hfd
      have hsame : (q.infoStep ready).client = p.client := by
        rw [Query.infoStep, if_pos hready, Query.loopInfo_client, hclient]
      exact ⟨hsame, hsent hsame, rfl⟩
  | wait =>
      have hsame : (ihWaitOtherProcess p.client).1 = p.client := by
        rw [ihWaitOtherProcess, waitAllUnixConnet, if_pos hfd]
      exact ⟨hsame, rfl, rfl⟩

/-- The second loop does not go back to the first. -/
theorem infoStep_pc {q : Query} (hpc : q.pc = .recvInfo) (ready : Bool) :
    (q.infoStep ready).pc ≠ .recvNum := by
  simp only [Query.infoStep, Query.loopInfo]
  split <;> split <;> simp [hpc]

theorem follow_asking {m : Post} {q q' : Query} (h : (p.follow m q).asking = some q') :
    q' = q := by
  simp only [follow] at h
  split at h
  · exact (Option.some.inj h).symm
  · cases h

theorem Ran.asking (h : Ran p op p') (hk : p.Kept) : ∀ q, p'.asking = some q → p'.Asks q := by
  intro q' hq'
  cases h with
  | broadcast hask | request hask | recv hask | wait hask =>
      have hnone : p.asking = some q' := hq'
      rw [hask] at hnone
      cases hnone
  | @infos buffer buffersize =>
      obtain rfl := follow_asking hq'
      obtain ⟨hnum, hinfo⟩ := Query.start_pc p.client buffer buffersize
      exact ⟨rfl, hnum, fun hpc => absurd hpc hinfo⟩
  | @num q ready hask hpc =>
      obtain rfl := follow_asking hq'
      obtain ⟨hclient, hopen, -⟩ := hk.asking q hask
      refine ⟨rfl, fun _ => ?_, Query.numStep_recvInfo hpc⟩
      show 0 ≤ q.numStep.client.connfd
      rw [Query.numStep_connfd, hclient]
      exact hopen hpc
  | @info q ready hask hpc =>
      obtain rfl := follow_asking hq'
      exact ⟨rfl, fun hback => absurd hback (infoStep_pc hpc ready), Query.infoStep_recvInfo⟩

/-- **One operation keeps the invariant.** -/
theorem Kept.run (h : p.Kept) (hok : p.Orderly op) (hrun : p.run op = some p') : p'.Kept := by
  obtain ⟨hended, hran⟩ := run_cases hrun
  rcases Int.lt_or_le p.client.connfd 0 with hclosed | hfd
  · obtain ⟨hclient, hposts, hgot⟩ := hran.closed h hclosed
    have hdone : p'.Done := .inr (by rwa [hclient])
    refine ⟨by rw [hposts]; exact h.legal, ?_, ?_, hran.asking h⟩
    · obtain ⟨part, hout, hun, -⟩ := h.output
      exact ⟨part, by rw [hclient, hposts, hout], hun, .inr hdone⟩
    · obtain ⟨fs, part, hcons, hsub, -⟩ := h.consumed
      exact ⟨fs, part, by rw [hclient, hcons], by rw [hgot]; exact hsub, .inr hdone⟩
  · obtain ⟨m, rs, hm, hmove, hposts, hgot⟩ := hran.moves h hfd hok
    have hopen : ¬ p.Done := by
      rw [done_iff hended]
      exact Int.not_lt.mpr hfd
    exact h.of_moves hopen hm hmove hposts hgot (hran.asking h)

theorem run_name (h : p.run op = some p') : p'.name = p.name := by
  obtain ⟨-, hran⟩ := run_cases h
  cases hran <;> rfl

/-- A message that has gone out stays so. -/
theorem run_posts (h : p.run op = some p') : p.posts <+: p'.posts := by
  obtain ⟨-, hran⟩ := run_cases h
  cases hran with
  | broadcast | request | infos | num | info => exact List.prefix_append _ _
  | recv | wait => exact List.prefix_refl _

/-! ### What others can tell from it -/

/-- The frames a reader finds in the output are those of the messages. -/
theorem Kept.frames_of_output (h : p.Kept) {fs : List Frame}
    (hle : fs.flatMap Frame.bytes <+: p.client.sock.output) : fs <+: p.posts.map Post.frame := by
  obtain ⟨part, hout, hun, -⟩ := h.output
  rw [hout, Post.flatMap_wire h.legal] at hle
  exact Frame.prefixCode.prefix_of_flatMap hun hle

theorem mem_tables_follow {q : Query} {m : Post} {r : Int × Bytes}
    (h : r ∈ (p.follow m q).tables) : r ∈ p.tables ∨ q.pc = .returned r.1 ∧ r.2 = q.buffer := by
  rcases List.mem_append.mp h with hold | hnew
  · exact .inl hold
  · unfold Query.table at hnew
    split at hnew
    · rename_i ret hpc
      rw [List.mem_singleton.mp hnew]
      exact .inr ⟨hpc, rfl⟩
    · cases hnew

/-- A call of `ih_get_shm_infos` that comes back with more than -1 has just read
the frame that says so: the number 0, or the table. -/
theorem Kept.table_read (h : p.Kept) (hrun : p.run op = some p') {r : Int × Bytes}
    (hr : r ∈ p'.tables) :
    r ∈ p.tables ∨ r.1 = -1 ∨ ¬ p.Done ∧ ∃ f : Frame,
      p'.client.sock.consumed = p.client.sock.consumed ++ f.bytes ∧
      (getProtocolCmdId f.head = ihReserveCmdIdGetShmNum ∧ (byteAt f.body 0).toNat = 0 ∧ r.1 = 0 ∨
        getProtocolCmdId f.head = ihReserveCmdIdGetShmInfo ∧
          r.1 = (f.body.length / sizeofShmNode : Nat) ∧ ∃ b, r.2 = store b 0 f.body) := by
  obtain ⟨hended, hran⟩ := run_cases hrun
  have hopen : 0 ≤ p.client.connfd → ¬ p.Done := by
    intro hfd
    rw [done_iff hended]
    exact Int.not_lt.mpr hfd
  cases hran with
  | broadcast | request | recv | wait => exact .inl hr
  | infos =>
      rcases mem_tables_follow hr with hold | ⟨hback, -⟩
      · exact .inl hold
      · exact .inr (.inl (Query.start_returned _ _ _ hback))
  | @num q ready hask hpc =>
      obtain ⟨hclient, hnum, -⟩ := h.asking q hask
      rcases mem_tables_follow hr with hold | ⟨hback, -⟩
      · exact .inl hold
      · have hfd := hnum hpc
        rw [← hclient] at hfd hopen ⊢
        rcases Query.numStep_returned hpc hfd hback with hneg | ⟨hzero, hid, hbyte, hcons⟩
        · exact .inr (.inl hneg)
        · exact .inr (.inr ⟨hopen hfd, _, hcons, .inl ⟨hid, hbyte, hzero⟩⟩)
  | @info q ready hask hpc =>
      obtain ⟨hclient, -, hinfo⟩ := h.asking q hask
      rcases mem_tables_follow hr with hold | ⟨hback, hbuf⟩
      · exact .inl hold
      · rw [← hclient] at hopen ⊢
        obtain ⟨hfd, hid, hret, hstore, hcons⟩ := Query.infoStep_returned hpc (hinfo hpc) hback
        exact .inr (.inr ⟨hopen hfd, _, hcons, .inr ⟨hid, hret, q.buffer, hbuf.trans hstore⟩⟩)

/-- The frame it reads next is one of those it was sent. -/
theorem Kept.next_mem (h : p.Kept) (hopen : ¬ p.Done) {g : Frame} {gs : List Frame} {rest : Bytes}
    (hrest : Unfinished Frame.bytes rest)
    (hle : p.client.sock.consumed ++ g.bytes <+: gs.flatMap Frame.bytes ++ rest) : g ∈ gs := by
  obtain ⟨fs, part, hcons, -, hlast⟩ := h.consumed
  rw [hcons, hlast.resolve_right hopen, List.append_nil] at hle
  have hfs : fs ++ [g] <+: gs := by
    apply Frame.prefixCode.prefix_of_flatMap hrest
    rwa [List.flatMap_append, List.flatMap_singleton]
  exact hfs.subset (by simp)

end Process

end Icehydra
