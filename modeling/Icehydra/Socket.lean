import Icehydra.Lib.Transfer
import Icehydra.Protocol

/-!
# Socket — the non-blocking send and receive loops

`tcp_send_noblock` of `src/icehydra_util.c` and `tcp_send_protocol_cmd`,
`tcp_recv_protocol_cmd` of `src/unix_socket.c`, over one end of a stream
connection. What the kernel will answer to the successive `send()` and
`recv()` calls is part of the socket: two streams of outcomes that the
functions consume. Each loop is then shown to be a `NonBlock.transfer`.
-/

namespace Icehydra

open Block NonBlock

/-- Why a call moves nothing and a loop gives up at once: a result of 0, an
errno other than EAGAIN, EWOULDBLOCK and EINTR, or an EPIPE together with the
SIGPIPE that ends the process (no `send()` here passes `MSG_NOSIGNAL`). -/
inductive Stop where
  | zero
  | error
  | sigpipe
  deriving DecidableEq

/-- One end of a stream connection. `input` is what the peer puts on the
stream, from the next unread byte on; `consumed` and `output` are the bytes
read from it and written to it so far. -/
@[ext] structure Sock where
  input : Stream' UInt8
  recvs : Stream' (Outcome Stop)
  sends : Stream' (Outcome Stop)
  consumed : Bytes
  output : Bytes

/-- A descriptor that is no open connection: every call on it fails (EBADF,
ENOTSOCK). -/
def Sock.dead : Sock where
  input := Stream'.const 0
  recvs := Stream'.const (.stop .error)
  sends := Stream'.const (.stop .error)
  consumed := []
  output := []

/-- What a C function of the model returns: an `int`, or nothing because
SIGPIPE has ended the process inside it. -/
inductive Ret where
  | val (r : Int)
  | killed
  deriving DecidableEq

/-- The two frame loops and `tcp_send_noblock` start with this budget. -/
def maxTimes : Nat := 2000

/-! ## The loops -/

structure SendEnd where
  sock : Sock
  totallen : Nat
  times : Nat
  sigpipe : Bool

/-- `for (; totallen < len; ) { sendlen = send(sockfd, data + totallen, …) … }` -/
def sendLoop (s : Sock) (data : Bytes) (len totallen times : Nat) : SendEnd :=
  if totallen < len then
    match s.sends.head with
    | .moved k =>
        let sendlen := min (k + 1) (len - totallen)
        sendLoop
          { s with sends := s.sends.tail, output := s.output ++ peek data totallen sendlen }
          data len (totallen + sendlen) times
    | .again =>
        -- `if(!(times--)) break;` comes before the errno test
        match times with
        | 0 => ⟨{ s with sends := s.sends.tail }, totallen, 0, false⟩
        | times + 1 => sendLoop { s with sends := s.sends.tail } data len totallen times
    -- a `break`: nothing reads `times` after it
    | .stop e => ⟨{ s with sends := s.sends.tail }, totallen, times, decide (e = .sigpipe)⟩
  else ⟨s, totallen, times, false⟩
termination_by (len - totallen) + times

structure RecvEnd where
  sock : Sock
  got : Bytes
  times : Nat

/-- `for (; totallen < len; ) { readlen = recv(sockfd, data + totallen, …) … }`.
`got` are the bytes stored from `data` on, `totallen` of them. -/
def recvLoop (s : Sock) (len : Nat) (got : Bytes) (times : Nat) : RecvEnd :=
  if got.length < len then
    match s.recvs.head with
    | .moved k =>
        let readlen := min (k + 1) (len - got.length)
        recvLoop
          { s with
            recvs := s.recvs.tail
            input := s.input.drop readlen
            consumed := s.consumed ++ s.input.take readlen }
          len (got ++ s.input.take readlen) times
    | .again =>
        match times with
        | 0 => ⟨{ s with recvs := s.recvs.tail }, got, 0⟩
        | times + 1 => recvLoop { s with recvs := s.recvs.tail } len got times
    | .stop _ => ⟨{ s with recvs := s.recvs.tail }, got, times⟩
  else ⟨s, got, times⟩
termination_by (len - got.length) + times
decreasing_by
  · simp only [List.length_append, Stream'.length_take]
    omega
  · omega

/-! ## The functions -/

structure Sent where
  sock : Sock
  ret : Ret

/-- `data = none` is the null pointer. -/
def tcpSendNoblock (s : Sock) (sockfd : Int) (data : Option Bytes) (len : Int) : Sent :=
  match data with
  | none => ⟨s, .val 0⟩
  | some data =>
      if len ≤ 0 ∨ sockfd < 0 then ⟨s, .val 0⟩
      else
        let r := sendLoop s data len.toNat 0 maxTimes
        if r.sigpipe then ⟨r.sock, .killed⟩
        else if (r.totallen : Int) ≠ len then ⟨r.sock, .val (-1)⟩
        else ⟨r.sock, .val 0⟩

/-- No caller passes a null `cmd_head`. -/
def tcpSendProtocolCmd (s : Sock) (sockfd : Int) (cmdHead : Bytes) (data : Option Bytes) :
    Sent :=
  match data with
  | none => ⟨s, .val 0⟩
  | some data =>
      if sockfd < 0 then ⟨s, .val 0⟩
      else
        let h := sendLoop s cmdHead protocolCmdHeadLen 0 maxTimes
        if h.sigpipe then ⟨h.sock, .killed⟩
        else if h.totallen ≠ protocolCmdHeadLen then ⟨h.sock, .val (-1)⟩
        else
          let bodylen := getProtocolBodyLen cmdHead
          let b := sendLoop h.sock data bodylen 0 h.times
          if b.sigpipe then ⟨b.sock, .killed⟩
          else if b.totallen ≠ bodylen then ⟨b.sock, .val (-1)⟩
          else ⟨b.sock, .val 0⟩

/-- `head` are the bytes stored from `cmd_head` on, `body` those stored from
`data` on; the caller owns the memory they go to. -/
structure Recvd where
  sock : Sock
  head : Bytes
  body : Bytes
  ret : Int

/-- `data` says whether the pointer is non-null. -/
def tcpRecvProtocolCmd (s : Sock) (sockfd : Int) (data : Bool) : Recvd :=
  if data = false ∨ sockfd < 0 then ⟨s, [], [], 0⟩
  else
    let h := recvLoop s protocolCmdHeadLen [] maxTimes
    if h.got.length ≠ protocolCmdHeadLen then ⟨h.sock, h.got, [], -1⟩
    else
      let bodylen := getProtocolBodyLen h.got
      let b := recvLoop h.sock bodylen [] h.times
      if b.got.length ≠ bodylen then ⟨b.sock, h.got, b.got, -1⟩
      else ⟨b.sock, h.got, b.got, 0⟩

/-! ## Each loop is a transfer -/

/-- **The send loop** puts on the wire exactly the bytes the transfer moves,
from `data + totallen` on. -/
theorem sendLoop_eq (s : Sock) (data : Bytes) (len totallen times : Nat)
    (h : totallen ≤ len) :
    sendLoop s data len totallen times =
      let t := transfer s.sends (len - totallen) times
      ⟨{ s with sends := t.rest, output := s.output ++ peek data totallen t.moved },
        totallen + t.moved, t.times, decide (t.why = some .sigpipe)⟩ := by
  induction s, totallen, times using sendLoop.induct data len with
  | case1 s totallen times hlt k hk sendlen ih =>
      have hne : len - totallen ≠ 0 := by omega
      have hsub : len - (totallen + sendlen) = len - totallen - min (k + 1) (len - totallen) := by
        omega
      rw [sendLoop.eq_def, if_pos hlt, hk]
      simp only
      rw [ih (by omega), transfer_moved times hne hk, hsub]
      simp only [List.append_assoc, ← peek_add, Nat.add_assoc, sendlen]
  | case2 s totallen hlt hk =>
      rw [sendLoop.eq_def, if_pos hlt, hk, transfer_spent (by omega) hk]
      simp
  | case3 s totallen hlt hk times ih =>
      rw [sendLoop.eq_def, if_pos hlt, hk, transfer_again times (by omega) hk]
      exact ih h
  | case4 s totallen times hlt e hk =>
      rw [sendLoop.eq_def, if_pos hlt, hk, transfer_stop times (by omega) hk]
      simp
  | case5 s totallen times hge =>
      obtain rfl : totallen = len := by omega
      rw [sendLoop.eq_def, if_neg hge]
      simp

/-- **The receive loop** stores exactly the bytes the transfer moves, in the
order they arrive. -/
theorem recvLoop_eq (s : Sock) (len : Nat) (got : Bytes) (times : Nat)
    (h : got.length ≤ len) :
    recvLoop s len got times =
      let t := transfer s.recvs (len - got.length) times
      ⟨{ s with
          recvs := t.rest
          input := s.input.drop t.moved
          consumed := s.consumed ++ s.input.take t.moved },
        got ++ s.input.take t.moved, t.times⟩ := by
  induction s, got, times using recvLoop.induct len with
  | case1 s got times hlt k hk readlen ih =>
      have hne : len - got.length ≠ 0 := by omega
      have hlen : (got ++ s.input.take readlen).length = got.length + readlen := by simp
      have hsub : len - (got.length + readlen)
          = len - got.length - min (k + 1) (len - got.length) := by omega
      rw [recvLoop.eq_def, if_pos hlt, hk]
      simp only
      rw [ih (by omega), transfer_moved times hne hk, hlen, hsub]
      simp only [List.append_assoc, ← Stream'.take_add, Stream'.drop_drop, readlen]
  | case2 s got hlt hk =>
      rw [recvLoop.eq_def, if_pos hlt, hk, transfer_spent (by omega) hk]
      simp
  | case3 s got hlt hk times ih =>
      rw [recvLoop.eq_def, if_pos hlt, hk, transfer_again times (by omega) hk]
      exact ih h
  | case4 s got times hlt e hk =>
      rw [recvLoop.eq_def, if_pos hlt, hk, transfer_stop times (by omega) hk]
      simp
  | case5 s got times hge =>
      have hz : len - got.length = 0 := by omega
      rw [recvLoop.eq_def, if_neg hge, hz]
      simp

/-! ## Each function is a row of transfers -/

/-- The `int` a send function gives back for the transfers it came down to. -/
def sendRet (t : Transfer Stop) (n : Nat) : Ret :=
  if t.why = some .sigpipe then .killed
  else if t.moved = n then .val 0
  else .val (-1)

theorem sendRet_cases {t : Transfer Stop} {n : Nat} :
    sendRet t n = .killed ∨ sendRet t n = .val 0 ∨ sendRet t n = .val (-1) := by
  unfold sendRet
  split
  · exact .inl rfl
  · split
    · exact .inr (.inl rfl)
    · exact .inr (.inr rfl)

theorem moved_of_sendRet {t : Transfer Stop} {n : Nat} (h : sendRet t n = .val 0) :
    t.moved = n := by
  unfold sendRet at h
  split at h
  · cases h
  · split at h
    · assumption
    · cases h

theorem why_of_sendRet {t : Transfer Stop} {n : Nat} (h : sendRet t n = .killed) :
    t.why = some .sigpipe := by
  unfold sendRet at h
  split at h
  · assumption
  · split at h <;> cases h

/-- The bytes `tcp_send_protocol_cmd` is to write: the header at `cmdHead` and
the `bodylen` bytes at `data`. -/
def frameOf (cmdHead data : Bytes) : Bytes :=
  peek cmdHead 0 protocolCmdHeadLen ++ peek data 0 (getProtocolBodyLen cmdHead)

theorem frameOf_length (cmdHead data : Bytes) :
    (frameOf cmdHead data).length = protocolCmdHeadLen + getProtocolBodyLen cmdHead := by
  simp [frameOf]

theorem tcpSendNoblock_eq (s : Sock) {sockfd len : Int} (data : Bytes) (hfd : 0 ≤ sockfd)
    (hlen : 0 < len) :
    tcpSendNoblock s sockfd (some data) len =
      let t := transfer s.sends len.toNat maxTimes
      ⟨{ s with sends := t.rest, output := s.output ++ peek data 0 t.moved },
        sendRet t len.toNat⟩ := by
  obtain ⟨n, rfl⟩ := Int.eq_ofNat_of_zero_le (Int.le_of_lt hlen)
  have hg : ¬ ((n : Int) ≤ 0 ∨ sockfd < 0) := by omega
  simp only [tcpSendNoblock, if_neg hg, Int.toNat_natCast,
    sendLoop_eq s data n 0 maxTimes (Nat.zero_le _), Nat.sub_zero, Nat.zero_add, sendRet,
    decide_eq_true_eq, ne_eq, Int.natCast_inj, ite_not]
  split
  · rfl
  · split <;> rfl

theorem tcpSendNoblock_null (s : Sock) (sockfd len : Int) :
    tcpSendNoblock s sockfd none len = ⟨s, .val 0⟩ := rfl

theorem tcpSendNoblock_nonpos (s : Sock) (sockfd : Int) {len : Int} (data : Option Bytes)
    (hlen : len ≤ 0) : tcpSendNoblock s sockfd data len = ⟨s, .val 0⟩ := by
  cases data with
  | none => rfl
  | some data => simp [tcpSendNoblock, hlen]

/-- **`tcp_send_protocol_cmd`** writes a prefix of the frame, and returns 0
exactly when it is the whole of it. -/
theorem tcpSendProtocolCmd_eq (s : Sock) {sockfd : Int} (cmdHead data : Bytes)
    (hfd : 0 ≤ sockfd) :
    tcpSendProtocolCmd s sockfd cmdHead (some data) =
      let t := transferSeq s.sends maxTimes [protocolCmdHeadLen, getProtocolBodyLen cmdHead]
      ⟨{ s with
          sends := t.rest
          output := s.output ++ (frameOf cmdHead data).take t.moved },
        sendRet t (protocolCmdHeadLen + getProtocolBodyLen cmdHead)⟩ := by
  have hkill : ∀ h : Transfer Stop, h = transfer s.sends protocolCmdHeadLen maxTimes →
      h.moved = protocolCmdHeadLen → h.why ≠ some .sigpipe := by
    rintro h rfl hm hw
    exact absurd hm (Nat.ne_of_lt (transfer_moved_lt_of_why hw))
  simp only [tcpSendProtocolCmd, if_neg (Int.not_lt.mpr hfd), Nat.sub_zero, Nat.zero_add,
    sendLoop_eq _ _ _ 0 _ (Nat.zero_le _), decide_eq_true_eq, transferSeq_pair]
  have hle := transfer_moved_le s.sends protocolCmdHeadLen maxTimes
  generalize hh : transfer s.sends protocolCmdHeadLen maxTimes = h at hle ⊢
  by_cases hm : h.moved = protocolCmdHeadLen
  · -- the header is out: the body goes on with what is left of the budget
    have hleb := transfer_moved_le h.rest (getProtocolBodyLen cmdHead) h.times
    simp only [if_neg (hkill h hh.symm hm), ne_eq, hm, not_true_eq_false, if_false, if_true]
    generalize transfer h.rest (getProtocolBodyLen cmdHead) h.times = b at hleb ⊢
    have htake : (frameOf cmdHead data).take (protocolCmdHeadLen + b.moved)
        = peek cmdHead 0 protocolCmdHeadLen ++ peek data 0 b.moved := by
      rw [frameOf, List.take_append, peek_length, Nat.add_sub_cancel_left,
        List.take_of_length_le (by simp), peek_take _ _ _ _ hleb]
    simp only [htake, ← List.append_assoc, sendRet, Nat.add_left_cancel_iff, ite_not]
    split
    · rfl
    · split <;> rfl
  · -- the header fell short: nothing of the body is offered
    have htake : (frameOf cmdHead data).take h.moved = peek cmdHead 0 h.moved := by
      rw [frameOf, List.take_append_of_le_length (by simpa using hle), peek_take _ _ _ _ hle]
    have hne : h.moved ≠ protocolCmdHeadLen + getProtocolBodyLen cmdHead := by omega
    simp only [hm, htake, hne, sendRet, if_false, ne_eq, not_false_eq_true, if_true]
    split <;> rfl

theorem tcpSendProtocolCmd_null (s : Sock) (sockfd : Int) (cmdHead : Bytes) :
    tcpSendProtocolCmd s sockfd cmdHead none = ⟨s, .val 0⟩ := rfl

theorem tcpSendProtocolCmd_closed (s : Sock) {sockfd : Int} (cmdHead : Bytes)
    (data : Option Bytes) (hfd : sockfd < 0) :
    tcpSendProtocolCmd s sockfd cmdHead data = ⟨s, .val 0⟩ := by
  cases data with
  | none => rfl
  | some data => simp [tcpSendProtocolCmd, hfd]

/-- The `bodylen` field of the next header on the stream. -/
def nextLen (s : Sock) : Nat := getProtocolBodyLen (s.input.take protocolCmdHeadLen)

/-- The transfers one `tcp_recv_protocol_cmd` comes down to. -/
def recvTransfer (s : Sock) : Transfer Stop :=
  transferSeq s.recvs maxTimes [protocolCmdHeadLen, nextLen s]

/-- **`tcp_recv_protocol_cmd`** stores a prefix of the next header and body on
the stream, and returns 0 exactly when it is the whole of them. -/
theorem tcpRecvProtocolCmd_eq (s : Sock) {sockfd : Int} (hfd : 0 ≤ sockfd) :
    tcpRecvProtocolCmd s sockfd true =
      let t := recvTransfer s
      ⟨{ s with
          recvs := t.rest
          input := s.input.drop t.moved
          consumed := s.consumed ++ s.input.take t.moved },
        s.input.take (min t.moved protocolCmdHeadLen),
        (s.input.drop protocolCmdHeadLen).take (t.moved - protocolCmdHeadLen),
        if t.moved = protocolCmdHeadLen + nextLen s then 0 else -1⟩ := by
  have hg : ¬ (true = false ∨ sockfd < 0) := by simp [hfd]
  simp only [tcpRecvProtocolCmd, if_neg hg, recvTransfer, transferSeq_pair]
  rw [recvLoop_eq s protocolCmdHeadLen [] maxTimes (Nat.zero_le _)]
  simp only [List.length_nil, Nat.sub_zero, List.nil_append, Stream'.length_take]
  have hle := transfer_moved_le s.recvs protocolCmdHeadLen maxTimes
  generalize transfer s.recvs protocolCmdHeadLen maxTimes = h at hle ⊢
  by_cases hm : h.moved = protocolCmdHeadLen
  · simp only [hm, ne_eq, not_true_eq_false, if_false, if_true,
      show getProtocolBodyLen (s.input.take protocolCmdHeadLen) = nextLen s from rfl]
    rw [recvLoop_eq _ (nextLen s) [] _ (Nat.zero_le _)]
    have hleb := transfer_moved_le h.rest (nextLen s) h.times
    simp only [List.length_nil, Nat.sub_zero, List.nil_append, Stream'.length_take]
    generalize transfer h.rest (nextLen s) h.times = b at hleb ⊢
    simp only [Nat.add_left_cancel_iff, ite_not, Stream'.drop_drop, List.append_assoc,
      ← Stream'.take_add, Nat.min_eq_right (Nat.le_add_right protocolCmdHeadLen b.moved),
      Nat.add_sub_cancel_left]
    split <;> rfl
  · have hne : h.moved ≠ protocolCmdHeadLen + nextLen s := by omega
    have hz : h.moved - protocolCmdHeadLen = 0 := by omega
    simp only [hm, hne, hz, ne_eq, not_false_eq_true, if_true, if_false, Stream'.take_zero,
      Nat.min_eq_left hle]

end Icehydra
