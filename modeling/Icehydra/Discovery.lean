import Icehydra.Client
import Icehydra.Lib.Runs

/-!
# Discovery — ih_get_shm_infos

The two requests of `ih_get_shm_infos` and the two loops that wait for their
replies, as a state machine: one step is one round of a loop, and the event of
a step is what `select` would say. `Stage` lists where a run can stand, in
terms of what the client was given: the frames that come in one after another,
and what becomes of the two requests.

`buffer` is not a null pointer.
-/

namespace Icehydra

open Block NonBlock Runs

/-! ## The functions -/

/-- An `int` turned into a `size_t`, which is modulo 2^64. -/
def toSizeT (x : Int) : Nat := (x % 18446744073709551616).toNat

/-- `wbuf[64]` with a RESERVE command. -/
def reserveCmd (cmdid : UInt8) : Bytes :=
  setPureProtocolHead (List.replicate 64 0) 0 ihCmdTypeSendReserve.toNat cmdid.toNat

def ihSendGetShmIDsCmd (c : Client) : Client × Ret :=
  if c.connfd < 0 then (c, .val (-1))
  else
    let wbuf := reserveCmd ihReserveCmdIdGetShmInfo
    let r := tcpSendProtocolCmd c.sock c.connfd wbuf (some (wbuf.drop protocolCmdHeadLen))
    ({ c with sock := r.sock }, r.ret)

/-- `ready` is what `select` says of the descriptor. -/
def ihSelectRecvReady (c : Client) (ready : Bool) : Bool :=
  if c.connfd < 0 then false else ready

def ihRecvIsShmIDs (ret : Int) : Bool := ret = ihReserveCmdIdGetShmInfo.toNat

/-- Where `ih_get_shm_infos` stands: in the loop that waits for the number, in
the one that waits for the table, or behind its end. -/
inductive Phase where
  | recvNum
  | recvInfo
  | returned (ret : Int)
  | killed
  deriving DecidableEq

structure Query where
  client : Client
  wbuf : Bytes
  buffer : Bytes
  buffersize : Int
  ret : Int
  datalen : Nat
  pc : Phase

namespace Query

/-- Between the loops: the size check and the second request. -/
def askInfo (q : Query) : Query :=
  let shmNum := (byteAt q.wbuf protocolCmdHeadLen).toNat
  -- `sizeof(SHM_NODE_T)*shm_num > buffersize` compares in `size_t`
  if toSizeT q.buffersize < sizeofShmNode * shmNum then { q with pc := .returned (-1) }
  else if shmNum = 0 then { q with pc := .returned 0 }
  else
    let r := ihSendGetShmIDsCmd q.client
    match r.2 with
    | .killed => { q with client := r.1, pc := .killed }
    | .val ret =>
        if ret < 0 then { q with client := r.1, pc := .returned ret }
        else { q with client := r.1, ret := ret, datalen := 0, pc := .recvInfo }

/-- One round of the first loop. -/
def numStep (q : Query) : Query :=
  let wbuf := memzero q.wbuf 64
  let r := tcpRecvProtocolCmd q.client.sock q.client.connfd true
  let q := { q with
    client := { q.client with sock := r.sock }
    wbuf := store (store wbuf 0 r.head) protocolCmdHeadLen r.body }
  if r.ret < 0 then { q with pc := .returned (-1) }
  else if getProtocolCmdId q.wbuf ≠ ihReserveCmdIdGetShmNum then q
  else q.askInfo

/-- `while(!ih_recvIsShmIDs(ret))`, and what follows the loop. -/
def loopInfo (q : Query) : Query :=
  if ihRecvIsShmIDs q.ret then { q with pc := .returned (q.datalen / sizeofShmNode : Nat) } else q

/-- One round of the second loop; its `continue` goes to the condition. -/
def infoStep (q : Query) (ready : Bool) : Query :=
  if ihSelectRecvReady q.client ready = false then q.loopInfo
  else
    let r := ihRecvData q.client true
    { q with
      client := r.client
      buffer := store q.buffer 0 r.data
      datalen := r.datalen.getD q.datalen
      ret := r.ret }.loopInfo

/-- One round; `none` behind the end. -/
def step (q : Query) (ready : Bool) : Option Query :=
  match q.pc with
  | .recvNum => some q.numStep
  | .recvInfo => some (q.infoStep ready)
  | _ => none

end Query

/-- `ih_get_shm_infos` up to its first loop. -/
def ihGetShmInfos (c : Client) (buffer : Bytes) (buffersize : Int) : Query :=
  let q : Query := ⟨c, List.replicate 64 0, buffer, buffersize, 0, 0, .returned (-1)⟩
  if c.connfd < 0 then q
  else
    let wbuf := reserveCmd ihReserveCmdIdGetShmNum
    let r := tcpSendProtocolCmd c.sock c.connfd wbuf (some (wbuf.drop protocolCmdHeadLen))
    let q := { q with client := { c with sock := r.sock }, wbuf := wbuf }
    -- nothing looks at the result; only a SIGPIPE is noticed
    match r.ret with
    | .killed => { q with pc := .killed }
    | .val _ => { q with pc := .recvNum }

/-! ## The requests -/

/-- A request as a frame. -/
def requestFrame (cmdid : UInt8) : Frame :=
  Frame.ofFields ihCmdTypeSendReserve cmdid 0 0 [] (by decide)

/-- What becomes of a request on a socket with these outcomes. -/
def asked (sends : Stream' (Outcome Stop)) : Transfer Stop :=
  transferSeq sends maxTimes [protocolCmdHeadLen, 0]

theorem reserveCmd_eq (cmdid : UInt8) :
    reserveCmd cmdid = headBytes 0 ihCmdTypeSendReserve cmdid 0 0 ++ List.replicate 56 0 := by
  have hlen : protocolCmdHeadLen ≤ (List.replicate 64 (0 : UInt8)).length := by decide
  exact setPureProtocolHead_fresh hlen 0 ihCmdTypeSendReserve cmdid

theorem getProtocolBodyLen_reserveCmd (cmdid : UInt8) : getProtocolBodyLen (reserveCmd cmdid) = 0 := by
  rw [reserveCmd_eq, getProtocolBodyLen_headBytes]

theorem frameOf_reserveCmd (cmdid : UInt8) :
    frameOf (reserveCmd cmdid) ((reserveCmd cmdid).drop protocolCmdHeadLen)
      = (requestFrame cmdid).bytes := by
  rw [frameOf, getProtocolBodyLen_reserveCmd, reserveCmd_eq, peek_zero, List.append_nil]
  rfl

/-- **A request** puts a prefix of its frame on the stream. -/
theorem send_request (s : Sock) {sockfd : Int} (hfd : 0 ≤ sockfd) (cmdid : UInt8) :
    tcpSendProtocolCmd s sockfd (reserveCmd cmdid)
        (some ((reserveCmd cmdid).drop protocolCmdHeadLen))
      = ⟨s.sending (asked s.sends).rest
          (s.output ++ (requestFrame cmdid).bytes.take (asked s.sends).moved),
        sendRet (asked s.sends) protocolCmdHeadLen⟩ := by
  rw [tcpSendProtocolCmd_eq s _ _ hfd]
  simp only [getProtocolBodyLen_reserveCmd, frameOf_reserveCmd, Nat.add_zero]
  rfl

theorem ihSendGetShmIDsCmd_eq {c : Client} (hfd : 0 ≤ c.connfd) :
    ihSendGetShmIDsCmd c
      = ({ c with
            sock := c.sock.sending (asked c.sock.sends).rest
              (c.sock.output ++ (requestFrame ihReserveCmdIdGetShmInfo).bytes.take
                (asked c.sock.sends).moved) },
          sendRet (asked c.sock.sends) protocolCmdHeadLen) := by
  rw [ihSendGetShmIDsCmd, if_neg (Int.not_lt.mpr hfd)]
  simp only [send_request c.sock hfd]

/-! ## Where a run can stand -/

/-- What becomes of the first request, and of the second. -/
def firstAsk (c : Client) : Transfer Stop := asked c.sock.sends

def secondAsk (c : Client) : Transfer Stop := asked (firstAsk c).rest

/-- What has been sent when the first request is over, and the second. -/
def firstOutput (c : Client) : Bytes :=
  c.sock.output ++ (requestFrame ihReserveCmdIdGetShmNum).bytes.take (firstAsk c).moved

def secondOutput (c : Client) : Bytes :=
  firstOutput c ++ (requestFrame ihReserveCmdIdGetShmInfo).bytes.take (secondAsk c).moved

/-- The client in the first loop, behind `k` frames, and in the second. -/
def afterNum (c : Client) (k : Nat) : Client :=
  { c with sock := (c.sock.nth k).sending (firstAsk c).rest (firstOutput c) }

def afterInfo (c : Client) (k : Nat) : Client :=
  { c with sock := (c.sock.nth k).sending (secondAsk c).rest (secondOutput c) }

/-- The number that the frame `k` announces: its first body byte, or the zero
that `wbuf` has there. -/
def shmNumAt (c : Client) (k : Nat) : Nat := (byteAt (c.sock.frameAt k).body 0).toNat

/-- The number is small enough, and not 0: the table is asked for. -/
def Wanted (c : Client) (buffersize : Int) (k : Nat) : Prop :=
  shmNumAt c k ≠ 0 ∧ sizeofShmNode * shmNumAt c k ≤ toSizeT buffersize

instance (c : Client) (buffersize : Int) (k : Nat) : Decidable (Wanted c buffersize k) :=
  inferInstanceAs (Decidable (_ ∧ _))

/-- The first loop ends with the frame `k`. -/
def NumAt (c : Client) (k : Nat) : Prop := c.sock.FirstAt ihReserveCmdIdGetShmNum 0 k

/-- It does, the table is asked for, and all of the request goes out: the
second loop begins. -/
structure Asks (c : Client) (buffersize : Int) (k : Nat) : Prop where
  num : NumAt c k
  wanted : Wanted c buffersize k
  sent : sendRet (secondAsk c) protocolCmdHeadLen = .val 0

namespace Query

/-- In the first loop, behind `k` frames. -/
structure InNum (c : Client) (buffersize : Int) (k : Nat) (q : Query) : Prop where
  pc : q.pc = .recvNum
  client : q.client = afterNum c k
  buffersize : q.buffersize = buffersize

/-- In the second loop, behind `m` frames. -/
structure InInfo (c : Client) (m : Nat) (q : Query) : Prop where
  pc : q.pc = .recvInfo
  client : q.client = afterInfo c m
  ret : q.ret = 0

/-- The ways `ih_get_shm_infos` goes on a connection. -/
inductive Stage (c : Client) (buffersize : Int) (q : Query) : Prop
  | killed : q.pc = .killed → Stage c buffersize q
  | num {k} : c.sock.Passes ihReserveCmdIdGetShmNum 0 k → InNum c buffersize k q →
      Stage c buffersize q
  | cutOff {k} : c.sock.Passes ihReserveCmdIdGetShmNum 0 k → ¬ (c.sock.nth k).Whole →
      q.pc = .returned (-1) →
      q.client = { c with sock := (afterNum c k).sock.cut } → Stage c buffersize q
  | tooSmall {k} : NumAt c k → toSizeT buffersize < sizeofShmNode * shmNumAt c k →
      q.pc = .returned (-1) → q.client = afterNum c (k + 1) → Stage c buffersize q
  | empty {k} : NumAt c k → shmNumAt c k = 0 → q.pc = .returned 0 →
      q.client = afterNum c (k + 1) → Stage c buffersize q
  | unsent {k} : NumAt c k → Wanted c buffersize k →
      sendRet (secondAsk c) protocolCmdHeadLen = .val (-1) → q.pc = .returned (-1) →
      q.client = afterInfo c (k + 1) → Stage c buffersize q
  | info {k m} : Asks c buffersize k → k < m →
      c.sock.Passes ihReserveCmdIdGetShmInfo (k + 1) m → InInfo c m q → Stage c buffersize q
  | lost {k m} : Asks c buffersize k → k < m → c.sock.Passes ihReserveCmdIdGetShmInfo (k + 1) m →
      ¬ (c.sock.nth m).Whole → q.pc = .recvInfo → q.ret = -1 →
      q.client = ⟨-1, (afterInfo c m).sock.cut⟩ → Stage c buffersize q
  | done {k m b} : Asks c buffersize k → c.sock.FirstAt ihReserveCmdIdGetShmInfo (k + 1) m →
      q.pc = .returned ((c.sock.frameAt m).body.length / sizeofShmNode : Nat) →
      q.client = afterInfo c (m + 1) → q.buffer = store b 0 (c.sock.frameAt m).body →
      Stage c buffersize q

end Query

/-! ## One round at a time -/

/-- The bytes of `wbuf` that the first loop looks at. -/
theorem wbuf_byteAt (wbuf : Bytes) (f : Frame) :
    let w := store (store (memzero wbuf 64) 0 f.head) protocolCmdHeadLen f.body
    getProtocolCmdId w = getProtocolCmdId f.head ∧ byteAt w protocolCmdHeadLen = byteAt f.body 0 := by
  have hz := memzero_length wbuf 64
  have hhead : protocolCmdHeadLen = 8 := rfl
  have hb := store_length (memzero wbuf 64) 0 f.head (Nat.zero_le _)
  have hlen := f.head_length
  constructor
  · rw [getProtocolCmdId, byteAt, getD_store _ _ _ _ (by omega), if_neg (by omega),
      getD_store _ _ _ _ (Nat.zero_le _), if_pos (by omega)]
    rfl
  · rw [byteAt, getD_store _ _ _ _ (by omega), Nat.sub_self]
    by_cases hbody : 0 < f.body.length
    · rw [if_pos (by omega)]
      rfl
    · have hnil : f.body = [] := List.length_eq_zero_iff.mp (by omega)
      rw [if_neg (by omega), getD_store _ _ _ _ (Nat.zero_le _), if_neg (by omega),
        getD_memzero _ (by omega), hnil]
      rfl

namespace Query

variable {c : Client} {buffersize : Int} {q : Query} {k : Nat}

/-- A round of the first loop that brings a whole frame. -/
theorem InNum.numStep_whole (h : InNum c buffersize k q) (hfd : 0 ≤ c.connfd)
    (hw : (c.sock.nth k).Whole) :
    ∃ q', InNum c buffersize (k + 1) q' ∧
      (byteAt q'.wbuf protocolCmdHeadLen).toNat = shmNumAt c k ∧
      q.numStep = if c.sock.idAt k ≠ ihReserveCmdIdGetShmNum then q' else q'.askInfo := by
  obtain ⟨hpc, hclient, hsize⟩ := h
  have hrecv : tcpRecvProtocolCmd q.client.sock q.client.connfd true
      = ⟨(afterNum c k).sock.past, (c.sock.frameAt k).head, (c.sock.frameAt k).body, 0⟩ := by
    rw [hclient]
    exact Sock.recv_whole (s := (afterNum c k).sock) hw hfd
  obtain ⟨hid, hnum⟩ := wbuf_byteAt q.wbuf (c.sock.frameAt k)
  refine ⟨{ q with
    client := { q.client with sock := (afterNum c k).sock.past }
    wbuf := store (store (memzero q.wbuf 64) 0 (c.sock.frameAt k).head) protocolCmdHeadLen
      (c.sock.frameAt k).body }, ⟨hpc, ?_, hsize⟩, ?_, ?_⟩
  · rw [hclient]
    rfl
  · exact congrArg UInt8.toNat hnum
  · simp only [numStep, hrecv, Int.lt_irrefl, if_false, hid]
    rfl

theorem InNum.numStep_short (h : InNum c buffersize k q) (hfd : 0 ≤ c.connfd)
    (hw : ¬ (c.sock.nth k).Whole) :
    q.numStep.pc = .returned (-1) ∧
      q.numStep.client = { c with sock := (afterNum c k).sock.cut } := by
  obtain ⟨-, hclient, -⟩ := h
  obtain ⟨hret, hsock⟩ := Sock.recv_short (s := (afterNum c k).sock) hw hfd
  have hconn : q.client.connfd = c.connfd := by rw [hclient]; rfl
  have hs : q.client.sock = (afterNum c k).sock := by rw [hclient]
  simp only [numStep, hconn, hs, hret, hsock, show (-1 : Int) < 0 by decide, if_true, and_self]

/-- The second request, behind the first loop. -/
theorem ihSendGetShmIDsCmd_afterNum (hfd : 0 ≤ c.connfd) :
    ihSendGetShmIDsCmd (afterNum c k)
      = (afterInfo c k, sendRet (secondAsk c) protocolCmdHeadLen) :=
  ihSendGetShmIDsCmd_eq (c := afterNum c k) hfd

namespace InNum

variable (h : InNum c buffersize (k + 1) q)
  (hnum : (byteAt q.wbuf protocolCmdHeadLen).toNat = shmNumAt c k)

include h hnum

theorem askInfo_tooSmall (hsmall : toSizeT buffersize < sizeofShmNode * shmNumAt c k) :
    q.askInfo = { q with pc := .returned (-1) } := by
  rw [askInfo, hnum, h.buffersize, if_pos hsmall]

omit h in
theorem askInfo_empty (hzero : shmNumAt c k = 0) : q.askInfo = { q with pc := .returned 0 } := by
  rw [askInfo, hnum, hzero, Nat.mul_zero, if_neg (Nat.not_lt_zero _), if_pos rfl]

theorem askInfo_wanted (hfd : 0 ≤ c.connfd) (hw : Wanted c buffersize k) :
    q.askInfo =
      match sendRet (secondAsk c) protocolCmdHeadLen with
      | .killed => { q with client := afterInfo c (k + 1), pc := .killed }
      | .val ret =>
          if ret < 0 then { q with client := afterInfo c (k + 1), pc := .returned ret }
          else
            { q with client := afterInfo c (k + 1), ret := ret, datalen := 0, pc := .recvInfo } := by
  rw [askInfo, hnum, h.buffersize, if_neg (Nat.not_lt.mpr hw.2), if_neg hw.1, h.client,
    ihSendGetShmIDsCmd_afterNum hfd]

theorem askInfo_sent (hfd : 0 ≤ c.connfd) (hw : Wanted c buffersize k)
    (hsent : sendRet (secondAsk c) protocolCmdHeadLen = .val 0) :
    InInfo c (k + 1) q.askInfo := by
  rw [h.askInfo_wanted hnum hfd hw, hsent]
  exact ⟨rfl, rfl, rfl⟩

end InNum

/-! ### The second loop -/

theorem loopInfo_goOn (hret : ihRecvIsShmIDs q.ret = false) : q.loopInfo = q := by
  rw [loopInfo, hret]
  rfl

theorem loopInfo_exit (hret : ihRecvIsShmIDs q.ret = true) :
    q.loopInfo = { q with pc := .returned (q.datalen / sizeofShmNode : Nat) } := by
  rw [loopInfo, if_pos hret]

/-- **Without a connection** nothing leaves the loop. -/
theorem infoStep_gone {ready : Bool} (hret : q.ret = -1) (hfd : q.client.connfd < 0) :
    q.infoStep ready = q := by
  have hgone : ihSelectRecvReady q.client ready = false := if_pos hfd
  rw [infoStep, if_pos hgone, loopInfo_goOn (by rw [hret]; rfl)]

theorem ihRecvData_afterInfo {m : Nat} (hfd : 0 ≤ c.connfd) (hw : (c.sock.nth m).Whole) :
    ihRecvData (afterInfo c m) true
      = ⟨afterInfo c (m + 1), (c.sock.frameAt m).body, some (c.sock.frameAt m).body.length,
          if c.sock.idAt m ≠ ihReserveCmdIdGetShmInfo then 0 else ihReserveCmdIdGetShmInfo.toNat⟩ :=
  ihRecvData_whole (c := afterInfo c m) hw hfd

namespace InInfo

variable {m : Nat} (h : InInfo c m q)

include h

/-- The code that the last receive left is 0, so the loop goes on. -/
theorem infoStep_idle : q.infoStep false = q := by
  have hidle : ihSelectRecvReady q.client false = false := by
    rw [ihSelectRecvReady, ite_self]
  rw [infoStep, if_pos hidle, loopInfo_goOn (by rw [h.ret]; rfl)]

theorem infoStep_ready (hfd : 0 ≤ c.connfd) :
    q.infoStep true
      = { q with
          client := (ihRecvData (afterInfo c m) true).client
          buffer := store q.buffer 0 (ihRecvData (afterInfo c m) true).data
          datalen := (ihRecvData (afterInfo c m) true).datalen.getD q.datalen
          ret := (ihRecvData (afterInfo c m) true).ret }.loopInfo := by
  have hready : ihSelectRecvReady q.client true ≠ false := by
    have hpos : ¬ (afterInfo c m).connfd < 0 := Int.not_lt.mpr hfd
    rw [h.client, ihSelectRecvReady, if_neg hpos]
    decide
  rw [infoStep, if_neg hready, h.client]

theorem infoStep_other (hfd : 0 ≤ c.connfd) (hw : (c.sock.nth m).Whole)
    (hid : c.sock.idAt m ≠ ihReserveCmdIdGetShmInfo) : InInfo c (m + 1) (q.infoStep true) := by
  rw [h.infoStep_ready hfd, ihRecvData_afterInfo hfd hw, if_pos hid, loopInfo_goOn rfl]
  exact ⟨h.pc, rfl, rfl⟩

theorem infoStep_info (hfd : 0 ≤ c.connfd) (hw : (c.sock.nth m).Whole)
    (hid : c.sock.idAt m = ihReserveCmdIdGetShmInfo) :
    q.infoStep true
      = { q with
          client := afterInfo c (m + 1)
          buffer := store q.buffer 0 (c.sock.frameAt m).body
          datalen := (c.sock.frameAt m).body.length
          ret := ihReserveCmdIdGetShmInfo.toNat
          pc := .returned ((c.sock.frameAt m).body.length / sizeofShmNode : Nat) } := by
  rw [h.infoStep_ready hfd, ihRecvData_afterInfo hfd hw, if_neg (not_not_intro hid),
    loopInfo_exit rfl]
  rfl

theorem infoStep_short (hfd : 0 ≤ c.connfd) (hw : ¬ (c.sock.nth m).Whole) :
    (q.infoStep true).pc = .recvInfo ∧ (q.infoStep true).ret = -1 ∧
      (q.infoStep true).client = ⟨-1, (afterInfo c m).sock.cut⟩ := by
  obtain ⟨hret, hclient⟩ := ihRecvData_short (c := afterInfo c m) hw hfd
  rw [h.infoStep_ready hfd, hret, hclient, loopInfo_goOn rfl]
  exact ⟨h.pc, rfl, rfl⟩

end InInfo

/-! ## All rounds -/

/-- In front of the first loop. -/
theorem start_eq (hfd : 0 ≤ c.connfd) (buffer : Bytes) (buffersize : Int) :
    ihGetShmInfos c buffer buffersize =
      ⟨afterNum c 0, reserveCmd ihReserveCmdIdGetShmNum, buffer, buffersize, 0, 0,
        if sendRet (firstAsk c) protocolCmdHeadLen = .killed then .killed else .recvNum⟩ := by
  have hsend : _ = (⟨(afterNum c 0).sock, sendRet (firstAsk c) protocolCmdHeadLen⟩ : Sent) :=
    send_request c.sock hfd ihReserveCmdIdGetShmNum
  rw [ihGetShmInfos, if_neg (Int.not_lt.mpr hfd)]
  simp only [hsend]
  by_cases hkilled : sendRet (firstAsk c) protocolCmdHeadLen = .killed
  · rw [if_pos hkilled]
    simp only [hkilled]
    rfl
  · rw [if_neg hkilled]
    split
    · exact absurd ‹_› hkilled
    · rfl

theorem start_killed (hfd : 0 ≤ c.connfd) (buffer : Bytes) (buffersize : Int)
    (hkilled : sendRet (firstAsk c) protocolCmdHeadLen = .killed) :
    (ihGetShmInfos c buffer buffersize).pc = .killed := by
  rw [start_eq hfd]
  exact if_pos hkilled

/-- Nothing follows a SIGPIPE. -/
theorem reaches_killed (hfd : 0 ≤ c.connfd) {buffer : Bytes}
    (hkilled : sendRet (firstAsk c) protocolCmdHeadLen = .killed)
    (h : Reaches Query.step anyStep (ihGetShmInfos c buffer buffersize) q) : q.pc = .killed := by
  have hstart := start_killed hfd buffer buffersize hkilled
  have hfix : q = ihGetShmInfos c buffer buffersize := h.eq_of_fixed fun e t hstep => by
    rw [Query.step, hstart] at hstep
    cases hstep
  rw [hfix, hstart]

theorem start_inNum (hfd : 0 ≤ c.connfd) (buffer : Bytes) (buffersize : Int)
    (hkilled : sendRet (firstAsk c) protocolCmdHeadLen ≠ .killed) :
    InNum c buffersize 0 (ihGetShmInfos c buffer buffersize) := by
  rw [start_eq hfd]
  exact ⟨if_neg hkilled, rfl, rfl⟩

/-- What follows the frame that the first loop waits for. -/
theorem InNum.askInfo_stage (h : InNum c buffersize (k + 1) q)
    (hnum : (byteAt q.wbuf protocolCmdHeadLen).toNat = shmNumAt c k) (hfd : 0 ≤ c.connfd)
    (hk : NumAt c k) : Stage c buffersize q.askInfo := by
  by_cases hsmall : toSizeT buffersize < sizeofShmNode * shmNumAt c k
  · rw [h.askInfo_tooSmall hnum hsmall]
    exact .tooSmall hk hsmall rfl h.client
  by_cases hzero : shmNumAt c k = 0
  · rw [askInfo_empty hnum hzero]
    exact .empty hk hzero rfl h.client
  have hw : Wanted c buffersize k := ⟨hzero, Nat.le_of_not_lt hsmall⟩
  rcases sendRet_cases (t := secondAsk c) (n := protocolCmdHeadLen) with hret | hret | hret
  · rw [h.askInfo_wanted hnum hfd hw, hret]
    exact .killed rfl
  · exact .info ⟨hk, hw, hret⟩ (Nat.lt_succ_self k) (Sock.Passes.refl _ _ _)
      (h.askInfo_sent hnum hfd hw hret)
  · rw [h.askInfo_wanted hnum hfd hw, hret]
    exact .unsent hk hw hret rfl rfl

/-- **One round** goes from stage to stage. -/
theorem Stage.step {q' : Query} {ready : Bool} (h : Stage c buffersize q) (hfd : 0 ≤ c.connfd)
    (hstep : q.step ready = some q') : Stage c buffersize q' := by
  cases h with
  | killed hpc | cutOff _ _ hpc | tooSmall _ _ hpc | empty _ _ hpc | unsent _ _ _ hpc
  | done _ _ hpc =>
      rw [Query.step, hpc] at hstep
      cases hstep
  | @num k hpass hq =>
      rw [Query.step, hq.pc] at hstep
      obtain rfl := Option.some.inj hstep
      by_cases hw : (c.sock.nth k).Whole
      · obtain ⟨q', hq', hnum, hround⟩ := hq.numStep_whole hfd hw
        rw [hround]
        by_cases hid : c.sock.idAt k = ihReserveCmdIdGetShmNum
        · rw [if_neg (not_not_intro hid)]
          exact hq'.askInfo_stage hnum hfd ⟨Nat.zero_le k, hpass, hw, hid⟩
        · rw [if_pos hid]
          exact .num (hpass.succ hw hid) hq'
      · obtain ⟨hpc, hclient⟩ := hq.numStep_short hfd hw
        exact .cutOff hpass hw hpc hclient
  | @info k m hask hlt hpass hq =>
      rw [Query.step, hq.pc] at hstep
      obtain rfl := Option.some.inj hstep
      cases ready with
      | false =>
          rw [hq.infoStep_idle]
          exact .info hask hlt hpass hq
      | true =>
          by_cases hw : (c.sock.nth m).Whole
          · by_cases hid : c.sock.idAt m = ihReserveCmdIdGetShmInfo
            · rw [hq.infoStep_info hfd hw hid]
              exact .done hask ⟨hlt, hpass, hw, hid⟩ rfl rfl rfl
            · exact .info hask (Nat.lt_succ_of_lt hlt) (hpass.succ hw hid)
                (hq.infoStep_other hfd hw hid)
          · obtain ⟨hpc, hret, hclient⟩ := hq.infoStep_short hfd hw
            exact .lost hask hlt hpass hw hpc hret hclient
  | lost hask hlt hpass hw hpc hret hclient =>
      rw [Query.step, hpc] at hstep
      obtain rfl := Option.some.inj hstep
      rw [infoStep_gone hret (by rw [hclient]; exact Int.negSucc_lt_zero 0)]
      exact .lost hask hlt hpass hw hpc hret hclient

/-- **Every round.** -/
theorem stage_of_reaches (hfd : 0 ≤ c.connfd) {buffer : Bytes}
    (h : Reaches Query.step anyStep (ihGetShmInfos c buffer buffersize) q) :
    Stage c buffersize q := by
  refine h.invariant (I := Stage c buffersize) ?_ fun _ _ _ hstage _ hs => hstage.step hfd hs
  by_cases hkilled : sendRet (firstAsk c) protocolCmdHeadLen = .killed
  · exact .killed (start_killed hfd buffer buffersize hkilled)
  · exact .num (Sock.Passes.refl _ _ _) (start_inNum hfd buffer buffersize hkilled)

/-! ## Getting there -/

/-- The first loop gets past the frames it does not want. -/
theorem InNum.leads {j : Nat} (h : InNum c buffersize k q) (hfd : 0 ≤ c.connfd) (hle : k ≤ j)
    (hpass : c.sock.Passes ihReserveCmdIdGetShmNum k j) (es : Stream' Bool) :
    ∃ q' es', InNum c buffersize j q' ∧ Leads Query.step (q, es) (q', es') := by
  induction j, hle using Nat.le_induction with
  | base => exact ⟨q, es, h, Leads.refl _⟩
  | succ j hle ih =>
      obtain ⟨q₁, es', hq₁, hlead⟩ := ih (hpass.mono (Nat.le_succ j))
      obtain ⟨hw, hid⟩ := hpass j hle (Nat.lt_succ_self j)
      obtain ⟨q₂, hq₂, -, hround⟩ := hq₁.numStep_whole hfd hw
      refine ⟨q₂, es'.tail, hq₂, hlead.tail ?_⟩
      rw [Query.step, hq₁.pc, hround, if_pos hid]

/-- It ends with the frame it wants. -/
theorem InNum.leads_askInfo (h : InNum c buffersize 0 q) (hfd : 0 ≤ c.connfd)
    (hk : NumAt c k) (es : Stream' Bool) :
    ∃ q' es', InNum c buffersize (k + 1) q' ∧
      (byteAt q'.wbuf protocolCmdHeadLen).toNat = shmNumAt c k ∧
      Leads Query.step (q, es) (q'.askInfo, es') := by
  obtain ⟨q₁, es', hq₁, hlead⟩ := h.leads hfd hk.le hk.passes es
  obtain ⟨q₂, hq₂, hnum, hround⟩ := hq₁.numStep_whole hfd hk.whole
  refine ⟨q₂, es'.tail, hq₂, hnum, hlead.tail ?_⟩
  rw [Query.step, hq₁.pc, hround, if_neg (not_not_intro hk.id_eq)]

/-- The second loop takes the next frame as soon as `select` says so. -/
theorem InInfo.leads_ready {m : Nat} (h : InInfo c m q) {es : Stream' Bool}
    (hes : Recurs true es) : ∃ es', Leads Query.step (q, es) (q.infoStep true, es') := by
  have hidle : ∀ ready, ready ≠ true → q.step ready = some q := by
    intro ready hready
    rw [Query.step, h.pc, Bool.eq_false_iff.mpr hready, h.infoStep_idle]
  obtain ⟨es', hlead, hhead⟩ := hes.wait hidle
  refine ⟨es'.tail, hlead.tail ?_⟩
  rw [Query.step, h.pc, hhead]

theorem InInfo.leads {m j : Nat} (h : InInfo c m q) (hfd : 0 ≤ c.connfd) (hle : m ≤ j)
    (hpass : c.sock.Passes ihReserveCmdIdGetShmInfo m j) {es : Stream' Bool}
    (hes : Recurs true es) :
    ∃ q' es', InInfo c j q' ∧ Leads Query.step (q, es) (q', es') := by
  induction j, hle using Nat.le_induction with
  | base => exact ⟨q, es, h, Leads.refl _⟩
  | succ j hle ih =>
      obtain ⟨q₁, es₁, hq₁, hlead⟩ := ih (hpass.mono (Nat.le_succ j))
      obtain ⟨hw, hid⟩ := hpass j hle (Nat.lt_succ_self j)
      obtain ⟨es₂, hlead'⟩ := hq₁.leads_ready (hes.leads hlead)
      exact ⟨q₁.infoStep true, es₂, hq₁.infoStep_other hfd hw hid, hlead.trans hlead'⟩

/-- **From the start into the second loop**, and there up to the frame `m`. -/
theorem leads_inInfo {m : Nat} (hfd : 0 ≤ c.connfd) (buffer : Bytes)
    (hkilled : sendRet (firstAsk c) protocolCmdHeadLen ≠ .killed) (hask : Asks c buffersize k)
    (hlt : k < m) (hpass : c.sock.Passes ihReserveCmdIdGetShmInfo (k + 1) m)
    {es : Stream' Bool} (hes : Recurs true es) :
    ∃ q' es', InInfo c m q' ∧
      Leads Query.step (ihGetShmInfos c buffer buffersize, es) (q', es') := by
  obtain ⟨q₁, es₁, hq₁, hnum, hlead⟩ :=
    (start_inNum hfd buffer buffersize hkilled).leads_askInfo hfd hask.num es
  have hsent := hq₁.askInfo_sent hnum hfd hask.wanted hask.sent
  obtain ⟨q₂, es₂, hq₂, hlead'⟩ := hsent.leads hfd hlt hpass (hes.leads hlead)
  exact ⟨q₂, es₂, hq₂, hlead.trans hlead'⟩

/-! ### The ends

Each of the stages in which the call has returned is reached. -/

section Ends

variable (hfd : 0 ≤ c.connfd) (buffer : Bytes)
  (hkilled : sendRet (firstAsk c) protocolCmdHeadLen ≠ .killed)

include hfd hkilled

theorem leads_cutOff (buffersize : Int) (hpass : c.sock.Passes ihReserveCmdIdGetShmNum 0 k)
    (hshort : ¬ (c.sock.nth k).Whole) (es : Stream' Bool) :
    ∃ q es', Leads Query.step (ihGetShmInfos c buffer buffersize, es) (q, es') ∧
      q.pc = .returned (-1) ∧ q.client = { c with sock := (afterNum c k).sock.cut } := by
  obtain ⟨q, es', hq, hlead⟩ :=
    (start_inNum hfd buffer buffersize hkilled).leads hfd (Nat.zero_le k) hpass es
  have hstep : q.step es'.head = some q.numStep := by rw [Query.step, hq.pc]
  exact ⟨q.numStep, es'.tail, hlead.tail hstep, hq.numStep_short hfd hshort⟩

theorem leads_tooSmall (hk : NumAt c k)
    (hsmall : toSizeT buffersize < sizeofShmNode * shmNumAt c k) (es : Stream' Bool) :
    ∃ q es', Leads Query.step (ihGetShmInfos c buffer buffersize, es) (q, es') ∧
      q.pc = .returned (-1) ∧ q.client = afterNum c (k + 1) := by
  obtain ⟨q, es', hq, hnum, hlead⟩ :=
    (start_inNum hfd buffer buffersize hkilled).leads_askInfo hfd hk es
  rw [hq.askInfo_tooSmall hnum hsmall] at hlead
  exact ⟨_, es', hlead, rfl, hq.client⟩

theorem leads_empty (buffersize : Int) (hk : NumAt c k) (hzero : shmNumAt c k = 0)
    (es : Stream' Bool) :
    ∃ q es', Leads Query.step (ihGetShmInfos c buffer buffersize, es) (q, es') ∧
      q.pc = .returned 0 ∧ q.client = afterNum c (k + 1) := by
  obtain ⟨q, es', hq, hnum, hlead⟩ :=
    (start_inNum hfd buffer buffersize hkilled).leads_askInfo hfd hk es
  rw [InNum.askInfo_empty hnum hzero] at hlead
  exact ⟨_, es', hlead, rfl, hq.client⟩

theorem leads_unsent (hk : NumAt c k) (hw : Wanted c buffersize k)
    (hret : sendRet (secondAsk c) protocolCmdHeadLen = .val (-1)) (es : Stream' Bool) :
    ∃ q es', Leads Query.step (ihGetShmInfos c buffer buffersize, es) (q, es') ∧
      q.pc = .returned (-1) ∧ q.client = afterInfo c (k + 1) := by
  obtain ⟨q, es', hq, hnum, hlead⟩ :=
    (start_inNum hfd buffer buffersize hkilled).leads_askInfo hfd hk es
  rw [hq.askInfo_wanted hnum hfd hw, hret] at hlead
  exact ⟨_, es', hlead, rfl, rfl⟩

theorem leads_done {m : Nat} (hask : Asks c buffersize k)
    (hm : c.sock.FirstAt ihReserveCmdIdGetShmInfo (k + 1) m) {es : Stream' Bool}
    (hes : Recurs true es) :
    ∃ q es', Leads Query.step (ihGetShmInfos c buffer buffersize, es) (q, es') ∧
      q.pc = .returned ((c.sock.frameAt m).body.length / sizeofShmNode : Nat) ∧
      q.client = afterInfo c (m + 1) ∧ ∃ b, q.buffer = store b 0 (c.sock.frameAt m).body := by
  obtain ⟨q, es₁, hq, hlead⟩ := leads_inInfo hfd buffer hkilled hask hm.le hm.passes hes
  obtain ⟨es₂, hlead₂⟩ := hq.leads_ready (hes.leads hlead)
  rw [hq.infoStep_info hfd hm.whole hm.id_eq] at hlead₂
  exact ⟨_, es₂, hlead.trans hlead₂, rfl, rfl, q.buffer, rfl⟩

end Ends

end Query

end Icehydra
