import Icehydra.Client
import Icehydra.Main

/-!
# Status — send_errno_unix_domain and recv_fd_unix_domain

The pair of `src/unix_socket.c` that hands over a descriptor, or a message and
a status: what is written, and the scan for the zero byte in front of the
status. `recvmsg` is a list of what it comes back with.
-/

namespace Icehydra

open Block NonBlock

/-! ## The functions -/

/-- `passed` is the descriptor that goes along with the bytes. -/
structure MsgSent where
  sock : Sock
  ret : Ret
  passed : Option Int

/-- `sendmsg(sockfd, &msg, 0)` with `buf` as its only vector: one call, and the
next of the socket's outcomes. -/
def sendmsg (s : Sock) (buf : Bytes) : Sent :=
  let s' := { s with sends := s.sends.tail }
  match s.sends.head with
  | .moved k =>
      let n := min (k + 1) buf.length
      ⟨{ s' with output := s.output ++ buf.take n }, .val n⟩
  | .again => ⟨s', .val (-1)⟩
  | .stop .zero => ⟨s', .val 0⟩
  | .stop .error => ⟨s', .val (-1)⟩
  | .stop .sigpipe => ⟨s', .killed⟩

/-- `buf` in front of the `sendmsg`: a negative `fd_to_send` is a status, and
one that ends in a zero byte becomes 1. -/
def statusBuf (fdToSend : Int) : Bytes :=
  if fdToSend < 0 then [0, if toU8 (-fdToSend) = 0 then 1 else toU8 (-fdToSend)] else [0, 0]

def sendFdUnixDomain (s : Sock) (sockfd fdToSend : Int) : MsgSent :=
  if sockfd < 0 then ⟨s, .val (-1), none⟩
  else
    let r := sendmsg s (statusBuf fdToSend)
    match r.ret with
    | .killed => ⟨r.sock, .killed, none⟩
    | .val ret =>
        ⟨r.sock, .val (if ret ≠ 2 then -1 else 0),
          if 0 ≤ fdToSend ∧ 0 < ret then some fdToSend else none⟩

/-- The second half of `send_errno_unix_domain`, and what leads to it behind the
message: `tcp_send_noblock` gives 0 when all is sent, and is compared with `n`. -/
def sendErrcode (s : Sock) (sockfd errcode : Int) : Sent :=
  let r := sendFdUnixDomain s sockfd errcode
  match r.ret with
  | .killed => ⟨r.sock, .killed⟩
  | .val ret => ⟨r.sock, .val (if ret < 0 then -1 else 0)⟩

def afterMessage (r : Sent) (n sockfd errcode : Int) : Sent :=
  match r.ret with
  | .killed => r
  | .val ret => if ret ≠ n then ⟨r.sock, .val (-1)⟩ else sendErrcode r.sock sockfd errcode

def sendErrnoUnixDomain (s : Sock) (sockfd errcode : Int) (msg : Bytes) : Sent :=
  if 0 ≤ errcode then ⟨s, .val (-1)⟩
  else
    let n := toInt32 msg.length
    if 0 < n then afterMessage (tcpSendNoblock s sockfd (some msg) n) n sockfd errcode
    else sendErrcode s sockfd errcode

/-- What one `recvmsg` comes back with: bytes, none of them when the peer has
closed, and a descriptor that came along. -/
inductive RecvMsg where
  | data (bytes : Bytes) (fd : Option Int)
  | error

/-- `status` and `newfd`, and the positions of `buf` that have been read. -/
structure Scan where
  status : Int
  newfd : Int
  reads : List Nat

/-- `for(ptr=buf;ptr<&buf[nr];)`: the bound moves with `nr`. `cmsg` is the int at
`CMSG_DATA(cmsgptr)`. -/
def scanLoop (buf : Bytes) (cmsg : Int) (ptr : Nat) (nr : Int) (st : Scan) : Scan :=
  if (ptr : Int) < nr then
    if byteAt buf ptr = 0 then
      let status : Int := (byteAt buf (ptr + 1)).toNat
      scanLoop buf cmsg (ptr + 1) (nr - 2)
        ⟨status, if status = 0 then cmsg else -status, st.reads ++ [ptr, ptr + 1]⟩
    else scanLoop buf cmsg (ptr + 1) nr { st with reads := st.reads ++ [ptr] }
  else st
termination_by (nr - ptr).toNat

/-- `ret` is `none` as long as the call waits for more; a position that was read
stands with the `nr` of its `recvmsg`. -/
structure FdRecvd where
  ret : Option Int
  reads : List (Nat × Nat)

def sizeofBuf : Nat := 128

/-- `for(;;)`, with the `status` and `newfd` of the rounds before. -/
def recvFdLoop (buf : Bytes) (cmsg : Int) (st : Scan) : List RecvMsg → FdRecvd
  | [] => ⟨none, []⟩
  | .error :: _ => ⟨some (-1), []⟩
  | .data bytes fd :: rest =>
      let nr := min bytes.length sizeofBuf
      if nr = 0 then ⟨some (-1), []⟩
      else
        let buf := store buf 0 (bytes.take sizeofBuf)
        let cmsg := fd.getD cmsg
        let st := scanLoop buf cmsg 0 nr { st with reads := [] }
        let reads := st.reads.map fun i => (i, nr)
        if 0 ≤ st.status then ⟨some st.newfd, reads⟩
        else
          let r := recvFdLoop buf cmsg st rest
          { r with reads := reads ++ r.reads }

/-- `behind` is the byte of memory that follows `buf[128]`. Nothing has been
stored in `newfd`, which is read only after it has been set. -/
def recvFdUnixDomain (behind : UInt8) (msgs : List RecvMsg) : FdRecvd :=
  recvFdLoop (List.replicate sizeofBuf 0 ++ [behind]) 0 ⟨-1, 0, []⟩ msgs

/-! ## The message and its status -/

/-- The bytes that stand for a message with this status. -/
def errnoBytes (msg : Bytes) (status : UInt8) : Bytes := msg ++ [0, status]

theorem toU8_errcode {errcode : Int} (hlo : -255 ≤ errcode) (hhi : errcode ≤ -1) :
    ((toU8 (-errcode)).toNat : Int) = -errcode :=
  toU8_of_nonneg (by omega) (by omega)

theorem toU8_errcode_ne {errcode : Int} (hlo : -255 ≤ errcode) (hhi : errcode ≤ -1) :
    toU8 (-errcode) ≠ 0 := by
  intro hzero
  have hval := toU8_errcode hlo hhi
  rw [hzero, show ((0 : UInt8).toNat : Int) = 0 from rfl] at hval
  omega

@[simp] theorem statusBuf_length (fdToSend : Int) : (statusBuf fdToSend).length = 2 := by
  unfold statusBuf
  split <;> rfl

theorem statusBuf_errcode {errcode : Int} (hlo : -255 ≤ errcode) (hhi : errcode ≤ -1) :
    statusBuf errcode = errnoBytes [] (toU8 (-errcode)) := by
  rw [statusBuf, if_pos (by omega), if_neg (toU8_errcode_ne hlo hhi)]
  rfl

/-- The status goes out when `sendmsg` takes both bytes. -/
theorem sendErrcode_ok_iff (s : Sock) {sockfd : Int} (errcode : Int) (hfd : 0 ≤ sockfd) :
    (sendErrcode s sockfd errcode).ret = .val 0 ↔ ∃ k, s.sends.head = .moved (k + 1) := by
  simp only [sendErrcode, sendFdUnixDomain, if_neg (Int.not_lt.mpr hfd), sendmsg,
    statusBuf_length]
  cases s.sends.head with
  | again => simp
  | stop e => cases e <;> simp
  | moved k => cases k <;> simp

theorem sendErrcode_output {s : Sock} {sockfd errcode : Int} (hfd : 0 ≤ sockfd)
    (hlo : -255 ≤ errcode) (hhi : errcode ≤ -1)
    (hret : (sendErrcode s sockfd errcode).ret = .val 0) :
    (sendErrcode s sockfd errcode).sock.output
      = s.output ++ errnoBytes [] (toU8 (-errcode)) := by
  obtain ⟨k, hk⟩ := (sendErrcode_ok_iff s errcode hfd).mp hret
  simp [sendErrcode, sendFdUnixDomain, if_neg (Int.not_lt.mpr hfd), sendmsg, hk,
    statusBuf_errcode hlo hhi, errnoBytes]

/-- No more than two bytes go out behind the message. -/
theorem sendErrcode_output_le (s : Sock) {sockfd : Int} (errcode : Int) (hfd : 0 ≤ sockfd) :
    (sendErrcode s sockfd errcode).sock.output.length ≤ s.output.length + 2 := by
  simp only [sendErrcode, sendFdUnixDomain, if_neg (Int.not_lt.mpr hfd), sendmsg]
  cases s.sends.head with
  | again => simp
  | stop e => cases e <;> simp
  | moved k =>
      have hmin := Nat.min_le_right (k + 1) 2
      simp [hmin]

/-- `n` is not among the results of `tcp_send_noblock`. -/
theorem afterMessage_not_ok {r : Sent} {n : Int} (sockfd errcode : Int) (hn : 0 < n)
    (hr : r.ret = .val 0 ∨ r.ret = .val (-1) ∨ r.ret = .killed) :
    (afterMessage r n sockfd errcode).ret ≠ .val 0 := by
  rcases hr with hr | hr | hr
  · have hne : 0 ≠ n := Int.ne_of_lt hn
    simp [afterMessage, hr, hne]
  · have hne : -1 ≠ n := Int.ne_of_lt (Int.lt_trans (by decide) hn)
    simp [afterMessage, hr, hne]
  · simp [afterMessage, hr]

theorem sendErrnoUnixDomain_long (s : Sock) (sockfd : Int) {errcode : Int} {msg : Bytes}
    (hhi : errcode ≤ -1) (hn : 0 < toInt32 msg.length) :
    sendErrnoUnixDomain s sockfd errcode msg
      = afterMessage (tcpSendNoblock s sockfd (some msg) (toInt32 msg.length))
          (toInt32 msg.length) sockfd errcode := by
  rw [sendErrnoUnixDomain, if_neg (by omega), if_pos hn]

/-- A length that is not positive: none, or one that has gone past the `int`. -/
theorem sendErrnoUnixDomain_short (s : Sock) {sockfd errcode : Int} {msg : Bytes}
    (hhi : errcode ≤ -1) (hn : ¬ 0 < toInt32 msg.length) :
    sendErrnoUnixDomain s sockfd errcode msg = sendErrcode s sockfd errcode := by
  rw [sendErrnoUnixDomain, if_neg (by omega), if_neg hn]

/-- With a message, the two bytes behind it are not sent, or it is not sent
itself. -/
theorem sendErrnoUnixDomain_not_ok (s : Sock) {sockfd errcode : Int} {msg : Bytes}
    (hfd : 0 ≤ sockfd) (hhi : errcode ≤ -1) (hmsg : msg ≠ []) :
    ¬ ((sendErrnoUnixDomain s sockfd errcode msg).ret = .val 0 ∧
        (sendErrnoUnixDomain s sockfd errcode msg).sock.output
          = s.output ++ errnoBytes msg (toU8 (-errcode))) := by
  rintro ⟨hret, hout⟩
  by_cases hn : 0 < toInt32 msg.length
  · rw [sendErrnoUnixDomain_long s sockfd hhi hn] at hret
    exact afterMessage_not_ok sockfd errcode hn (tcpSendNoblock_ret_cases ..) hret
  · rw [sendErrnoUnixDomain_short s hhi hn] at hout
    have hle := sendErrcode_output_le s errcode hfd
    have hpos := List.length_pos_iff.mpr hmsg
    rw [hout] at hle
    simp only [errnoBytes, List.length_append, List.length_cons, List.length_nil] at hle
    omega

/-- **The encoding of an error**: it is put on the stream and 0 returned exactly
when there is no message, and `sendmsg` takes both bytes of the status. -/
theorem sendErrnoUnixDomain_encodes_iff (s : Sock) (sockfd errcode : Int) (msg : Bytes)
    (hfd : 0 ≤ sockfd) (hlo : -255 ≤ errcode) (hhi : errcode ≤ -1) :
    ((sendErrnoUnixDomain s sockfd errcode msg).ret = .val 0 ∧
        (sendErrnoUnixDomain s sockfd errcode msg).sock.output
          = s.output ++ errnoBytes msg (toU8 (-errcode))) ↔
      msg = [] ∧ ∃ k, s.sends.head = .moved (k + 1) := by
  by_cases hmsg : msg = []
  · subst hmsg
    rw [sendErrnoUnixDomain_short s hhi (by decide), ← sendErrcode_ok_iff s errcode hfd,
      and_iff_right rfl]
    exact and_iff_left_of_imp (sendErrcode_output hfd hlo hhi)
  · exact iff_of_false (sendErrnoUnixDomain_not_ok s hfd hhi hmsg) fun h => hmsg h.1

/-- A status alone. -/
theorem sendErrnoUnixDomain_encodes_alone :
    (sendErrnoUnixDomain (.eager []) 3 (-5) []).ret = .val 0 ∧
      (sendErrnoUnixDomain (.eager []) 3 (-5) []).sock.output
        = (Sock.eager []).output ++ errnoBytes [] (toU8 (-(-5))) :=
  (sendErrnoUnixDomain_encodes_iff (.eager []) 3 (-5) [] (by decide) (by decide) (by decide)).mpr
    ⟨rfl, 4094, rfl⟩

/-- **A message of two bytes**: it is sent whole, and the status is missing. -/
theorem sendErrnoUnixDomain_no_status :
    (sendErrnoUnixDomain (.eager []) 3 (-5) [104, 105]).ret = .val (-1) ∧
      (sendErrnoUnixDomain (.eager []) 3 (-5) [104, 105]).sock.output = [104, 105] := by
  decide +kernel

/-! ## The scan -/

section Scan

variable {buf : Bytes} {cmsg nr : Int} {ptr : Nat} {st : Scan}

theorem scanLoop_stop (h : nr ≤ ptr) : scanLoop buf cmsg ptr nr st = st := by
  rw [scanLoop, if_neg (Int.not_lt.mpr h)]

theorem scanLoop_step (h : (ptr : Int) < nr) (hb : byteAt buf ptr ≠ 0) :
    scanLoop buf cmsg ptr nr st
      = scanLoop buf cmsg (ptr + 1) nr { st with reads := st.reads ++ [ptr] } := by
  rw [scanLoop, if_pos h, if_neg hb]

/-- Bytes other than zero only move the pointer. -/
theorem scanLoop_skip (n : Nat) (hn : ((ptr + n : Nat) : Int) ≤ nr)
    (hb : ∀ i, i < n → byteAt buf (ptr + i) ≠ 0) :
    scanLoop buf cmsg ptr nr st
      = scanLoop buf cmsg (ptr + n) nr { st with reads := st.reads ++ List.range' ptr n } := by
  induction n generalizing ptr st with
  | zero => simp
  | succ n ih =>
      have hrest : ∀ i, i < n → byteAt buf (ptr + 1 + i) ≠ 0 := by
        intro i hi
        have hne := hb (i + 1) (Nat.succ_lt_succ hi)
        rwa [Nat.add_comm i 1, ← Nat.add_assoc] at hne
      have hfirst : byteAt buf ptr ≠ 0 := hb 0 (Nat.succ_pos n)
      rw [scanLoop_step (by omega) hfirst, ih (by omega) hrest, List.range'_succ,
        List.append_assoc, List.singleton_append, Nat.add_right_comm, Nat.add_assoc]

/-- A segment of the message. -/
theorem scanLoop_message (n : Nat) (hb : ∀ i, i < n → byteAt buf i ≠ 0) :
    scanLoop buf cmsg 0 n st = { st with reads := st.reads ++ List.range' 0 n } := by
  rw [scanLoop_skip n (by simp) (by simpa using hb), scanLoop_stop (by simp)]

/-- A segment with the marker at its end, or one byte in front of it: the two
that are taken off `nr` end the scan. -/
theorem scanLoop_marker (n k : Nat) (hk : k ≤ 1) (hb : ∀ i, i < n → byteAt buf i ≠ 0)
    (hz : byteAt buf n = 0) :
    scanLoop buf cmsg 0 ((n + 1 + k : Nat) : Int) st =
      let status : Int := (byteAt buf (n + 1)).toNat
      ⟨status, if status = 0 then cmsg else -status,
        st.reads ++ List.range' 0 n ++ [n, n + 1]⟩ := by
  rw [scanLoop_skip n (by omega) (by simpa using hb), Nat.zero_add, scanLoop, if_pos (by omega),
    if_pos hz]
  simp only
  rw [scanLoop_stop (by omega)]

end Scan

/-- What a receive leaves in the buffer. -/
theorem byteAt_store_zero (buf bytes : Bytes) (i : Nat) :
    byteAt (store buf 0 bytes) i = if i < bytes.length then byteAt bytes i else byteAt buf i := by
  rw [byteAt, getD_store _ _ _ _ (Nat.zero_le _)]
  simp [byteAt]

/-- One round on a segment. -/
theorem recvFdLoop_data {buf seg : Bytes} {cmsg : Int} {st : Scan} {rest : List RecvMsg}
    (hne : seg ≠ []) (hle : seg.length ≤ sizeofBuf) :
    recvFdLoop buf cmsg st (.data seg none :: rest) =
      let st' := scanLoop (store buf 0 seg) cmsg 0 seg.length { st with reads := [] }
      let reads := st'.reads.map fun i => (i, seg.length)
      if 0 ≤ st'.status then ⟨some st'.newfd, reads⟩
      else
        let r := recvFdLoop (store buf 0 seg) cmsg st' rest
        { r with reads := reads ++ r.reads } := by
  have hpos := List.length_pos_iff.mpr hne
  rw [recvFdLoop]
  simp only [Nat.min_eq_left hle, if_neg (Nat.ne_of_gt hpos), List.take_of_length_le hle]
  rfl

/-! ## Any segmentation -/

/-- The status comes back, and only bytes were read that had just been
received. -/
structure FdRecvd.Decodes (r : FdRecvd) (s : UInt8) : Prop where
  ret : r.ret = some (-s.toNat : Int)
  inside : ∀ p ∈ r.reads, p.1 < p.2

theorem byteAt_stored {buf pre post : Bytes} (h : 0 ∉ pre) :
    ∀ i, i < pre.length → byteAt (store buf 0 (pre ++ post)) i ≠ 0 := by
  intro i hi
  have hget : byteAt (store buf 0 (pre ++ post)) i = pre[i] := by
    rw [byteAt_store_zero, if_pos (by simp; omega), byteAt, List.getD_eq_getElem?_getD,
      List.getElem?_append_left hi, List.getElem?_eq_getElem hi]
    rfl
  rw [hget]
  exact fun hz => h (hz ▸ List.getElem_mem hi)

section Decode

variable {s : UInt8} {buf pre : Bytes} {cmsg : Int} {st : Scan} {rest : List RecvMsg}

/-- **A round on a segment of the message**: what has been read was received, and
the rest decides. -/
theorem recvFdLoop_message (hst : st.status = -1) (hpre : 0 ∉ pre) (hne : pre ≠ [])
    (hle : pre.length ≤ sizeofBuf) :
    ∃ buf' st', st'.status = -1 ∧
      ((recvFdLoop buf cmsg st (.data pre none :: rest)).Decodes s ↔
        (recvFdLoop buf' cmsg st' rest).Decodes s) := by
  have hscan : scanLoop (store buf 0 pre) cmsg 0 pre.length { st with reads := [] }
      = { st with reads := List.range' 0 pre.length } := by
    have hb := @byteAt_stored buf pre [] hpre
    rw [List.append_nil] at hb
    exact scanLoop_message _ hb
  refine ⟨store buf 0 pre, { st with reads := List.range' 0 pre.length }, hst, ?_⟩
  rw [recvFdLoop_data hne hle, hscan]
  simp only [hst, show ¬ (0 : Int) ≤ -1 by decide, if_false]
  constructor
  · rintro ⟨hret, hin⟩
    exact ⟨hret, fun p hp => hin p (List.mem_append_right _ hp)⟩
  · rintro ⟨hret, hin⟩
    refine ⟨hret, fun p hp => ?_⟩
    rcases List.mem_append.mp hp with hmap | hlater
    · obtain ⟨i, hi, rfl⟩ := List.mem_map.mp hmap
      have hlt := List.mem_range'_1.mp hi
      simp only
      omega
    · exact hin p hlater

/-- **The round that meets the zero byte** is the last. -/
theorem recvFdLoop_marker {post : Bytes} (hpre : 0 ∉ pre) (hpost : post.length ≤ 1)
    (hle : (pre ++ 0 :: post).length ≤ sizeofBuf) :
    ∃ ret, recvFdLoop buf cmsg st (.data (pre ++ 0 :: post) none :: rest) =
        ⟨some ret, (List.range' 0 pre.length ++ [pre.length, pre.length + 1]).map
          fun i => (i, pre.length + 1 + post.length)⟩ ∧
      (post = [s] → s ≠ 0 → ret = (-s.toNat : Int)) := by
  have hlen : (pre ++ 0 :: post).length = pre.length + 1 + post.length := by
    simp
    omega
  have hz : byteAt (store buf 0 (pre ++ 0 :: post)) pre.length = 0 := by
    rw [byteAt_store_zero, if_pos (by omega)]
    simp [byteAt]
  have hscan := @scanLoop_marker _ cmsg { st with reads := [] } pre.length post.length hpost
    (byteAt_stored hpre) hz
  rw [recvFdLoop_data (by simp) hle, hlen, hscan]
  simp only [Int.natCast_nonneg, if_true]
  refine ⟨_, rfl, ?_⟩
  rintro rfl hs
  have hstatus : byteAt (store buf 0 (pre ++ [0, s])) (pre.length + 1) = s := by
    rw [byteAt_store_zero, if_pos (by simp)]
    simp [byteAt]
  have hnat : ((s.toNat : Int)) ≠ 0 := by
    intro hzero
    exact hs (UInt8.toNat_inj.mp (Int.natCast_inj.mp hzero))
  rw [hstatus, if_neg hnat]

end Decode

/-- A stream cut into segments that `recvmsg` can bring. -/
def Segmented (segs : List Bytes) (stream : Bytes) : Prop :=
  segs.flatten = stream ∧ ∀ seg ∈ segs, 1 ≤ seg.length ∧ seg.length ≤ sizeofBuf

/-- `recvmsg` comes back with one segment after another. -/
def received (segs : List Bytes) : List RecvMsg := segs.map fun seg => .data seg none

theorem Segmented.eq_nil {segs : List Bytes} (h : Segmented segs []) : segs = [] := by
  cases segs with
  | nil => rfl
  | cons seg rest =>
      have hpos := (h.2 seg (List.mem_cons_self ..)).1
      have hnil := (List.append_eq_nil_iff.mp h.1).1
      rw [hnil] at hpos
      exact absurd hpos (by decide)

theorem Segmented.tail {seg : Bytes} {rest : List Bytes} {stream stream' : Bytes}
    (h : Segmented (seg :: rest) stream) (hrest : rest.flatten = stream') :
    Segmented rest stream' :=
  ⟨hrest, fun s hs => h.2 s (List.mem_cons_of_mem _ hs)⟩

/-- One byte comes in one segment. -/
theorem Segmented.eq_singleton {segs : List Bytes} {s : UInt8} (h : Segmented segs [s]) :
    segs = [[s]] := by
  cases segs with
  | nil => cases h.1
  | cons seg rest =>
      have hpos := (h.2 seg (List.mem_cons_self ..)).1
      rcases List.append_eq_singleton_iff.mp h.1 with ⟨hnil, -⟩ | ⟨hseg, hrest⟩
      · rw [hnil] at hpos
        exact absurd hpos (by decide)
      · rw [hseg, (h.tail hrest).eq_nil]

/-- Where the first segment ends: in the message or behind it, between the zero
byte and the status, or behind both. -/
theorem Segmented.cases {seg : Bytes} {rest : List Bytes} {msg : Bytes} {s : UInt8}
    (h : Segmented (seg :: rest) (errnoBytes msg s)) :
    (∃ msg', msg = seg ++ msg' ∧ Segmented rest (errnoBytes msg' s)) ∨
      (seg = msg ++ 0 :: [] ∧ rest = [[s]]) ∨ (seg = msg ++ 0 :: [s] ∧ rest = []) := by
  have hflat : seg ++ rest.flatten = msg ++ [0, s] := h.1
  rcases List.append_eq_append_iff.mp hflat with ⟨msg', hmsg, hrest⟩ | ⟨c, hseg, hrest⟩
  · exact .inl ⟨msg', hmsg, h.tail hrest⟩
  · rcases c with - | ⟨z, - | ⟨s', c⟩⟩
    · refine .inl ⟨[], ?_, h.tail hrest.symm⟩
      rw [hseg, List.append_nil, List.append_nil]
    · obtain ⟨rfl, hback⟩ := List.cons.inj hrest
      exact .inr (.inl ⟨hseg, (h.tail hback.symm).eq_singleton⟩)
    · obtain ⟨rfl, hback⟩ := List.cons.inj hrest
      obtain ⟨rfl, hnil⟩ := List.cons.inj hback
      obtain ⟨rfl, hdone⟩ := List.append_eq_nil_iff.mp hnil.symm
      exact .inr (.inr ⟨hseg, (h.tail hdone).eq_nil⟩)

theorem recvFdLoop_decodes_iff {s : UInt8} (hs : s ≠ 0) {segs : List Bytes} {msg buf : Bytes}
    {cmsg : Int} {st : Scan} (hst : st.status = -1) (hmsg : 0 ∉ msg)
    (hsegs : Segmented segs (errnoBytes msg s)) :
    (recvFdLoop buf cmsg st (received segs)).Decodes s ↔ segs.getLast? ≠ some [s] := by
  induction segs generalizing msg buf st with
  | nil => exact absurd hsegs.1.symm (by simp [errnoBytes])
  | cons seg rest ih =>
      obtain ⟨hpos, hle⟩ := hsegs.2 seg (List.mem_cons_self ..)
      rcases hsegs.cases with ⟨msg', rfl, hrest⟩ | ⟨rfl, rfl⟩ | ⟨rfl, rfl⟩
      · -- a segment of the message, and more to come
        have hne : rest ≠ [] := by
          rintro rfl
          exact absurd hrest.1.symm (by simp [errnoBytes])
        obtain ⟨buf', st', hst', hiff⟩ := @recvFdLoop_message s buf seg cmsg st (received rest) hst
          (fun h => hmsg (List.mem_append_left _ h)) (List.length_pos_iff.mp hpos) hle
        refine hiff.trans ((ih hst' (fun h => hmsg (List.mem_append_right _ h)) hrest).trans ?_)
        rw [List.getLast?_cons_of_ne_nil hne]
      · -- the status is looked for behind the bytes that came
        obtain ⟨ret, hloop, -⟩ := @recvFdLoop_marker s buf msg cmsg st (received [[s]]) [] hmsg
          (Nat.zero_le 1) hle
        refine iff_of_false (fun h => ?_) (by simp)
        have hin := h.inside (msg.length + 1, msg.length + 1)
        rw [received, List.map_cons, ← received, hloop] at hin
        exact absurd (hin (by simp)) (Nat.lt_irrefl _)
      · obtain ⟨ret, hloop, hret⟩ := @recvFdLoop_marker s buf msg cmsg st [] [s] hmsg
          (Nat.le_refl 1) hle
        refine iff_of_true ?_ ?_
        · rw [received, List.map_cons, List.map_nil, hloop]
          refine ⟨congrArg some (hret rfl hs), fun p hp => ?_⟩
          obtain ⟨i, hi, rfl⟩ := List.mem_map.mp hp
          simp only [List.length_singleton]
          rcases List.mem_append.mp hi with hfront | hback
          · have hlt := List.mem_range'_1.mp hfront
            omega
          · rcases List.mem_pair.mp hback with rfl | rfl <;> omega
        · rw [List.getLast?_singleton]
          intro heq
          have hlen := congrArg List.length (Option.some.inj heq)
          simp at hlen

/-- **The decoding of an error**, however the stream is cut up: it is right
exactly when the status does not come in on its own. -/
theorem recvFdUnixDomain_decodes_iff (behind : UInt8) (msg : Bytes) (s : UInt8)
    (segs : List Bytes) (hs : s ≠ 0) (hmsg : 0 ∉ msg)
    (hsegs : Segmented segs (errnoBytes msg s)) :
    (recvFdUnixDomain behind (received segs)).Decodes s ↔ segs.getLast? ≠ some [s] :=
  recvFdLoop_decodes_iff hs rfl hmsg hsegs

/-- A message of two bytes, cut up inside. -/
theorem recvFdUnixDomain_decodes_two :
    (recvFdUnixDomain 0 (received [[104], [105, 0, 5]])).Decodes 5 :=
  (recvFdUnixDomain_decodes_iff 0 [104, 105] 5 [[104], [105, 0, 5]] (by decide) (by decide)
    ⟨rfl, by decide⟩).mpr (by decide)

/-- **The status on its own**: it is looked for in a byte that has not been
received, where there is 0 and the call gives back descriptor 0; behind 127
bytes of message it is looked for behind the buffer. -/
theorem recvFdUnixDomain_straddles :
    let r := recvFdUnixDomain 7 (received [[104, 0], [5]])
    let long : List Bytes := [List.replicate 127 104 ++ [0], [5]]
    let r' := recvFdUnixDomain 7 (received long)
    (Segmented [[104, 0], [5]] (errnoBytes [104] 5) ∧ r.ret = some 0 ∧ (2, 2) ∈ r.reads) ∧
      (Segmented long (errnoBytes (List.replicate 127 104) 5) ∧ r'.ret = some (-7) ∧
        (sizeofBuf, sizeofBuf) ∈ r'.reads) := by
  refine ⟨⟨⟨rfl, by decide⟩, by decide +kernel, by decide +kernel⟩, ⟨rfl, by decide +kernel⟩,
    by decide +kernel, by decide +kernel⟩

/-- What a call that returns 0 has put on the stream. -/
theorem sendErrnoUnixDomain_output {s : Sock} {sockfd errcode : Int} {msg : Bytes}
    (hfd : 0 ≤ sockfd) (hlo : -255 ≤ errcode) (hhi : errcode ≤ -1)
    (hret : (sendErrnoUnixDomain s sockfd errcode msg).ret = .val 0) :
    (sendErrnoUnixDomain s sockfd errcode msg).sock.output
      = s.output ++ errnoBytes [] (toU8 (-errcode)) := by
  have hn : ¬ 0 < toInt32 msg.length := by
    intro hn
    rw [sendErrnoUnixDomain_long s sockfd hhi hn] at hret
    exact afterMessage_not_ok sockfd errcode hn (tcpSendNoblock_ret_cases ..) hret
  rw [sendErrnoUnixDomain_short s hhi hn] at hret ⊢
  exact sendErrcode_output hfd hlo hhi hret

/-- **There and back**: an error that was sent comes back as the same number,
when its two bytes come together. -/
theorem recvFdUnixDomain_sent {s : Sock} {sockfd errcode : Int} {msg : Bytes} (behind : UInt8)
    {segs : List Bytes} (hfd : 0 ≤ sockfd) (hlo : -255 ≤ errcode) (hhi : errcode ≤ -1)
    (hret : (sendErrnoUnixDomain s sockfd errcode msg).ret = .val 0)
    (hsegs : Segmented segs
      ((sendErrnoUnixDomain s sockfd errcode msg).sock.output.drop s.output.length))
    (hone : segs.length = 1) :
    (recvFdUnixDomain behind (received segs)).ret = some errcode := by
  rw [sendErrnoUnixDomain_output hfd hlo hhi hret, List.drop_left] at hsegs
  obtain ⟨seg, rfl⟩ := List.length_eq_one_iff.mp hone
  have hlast : [seg].getLast? ≠ some [toU8 (-errcode)] := by
    have hseg : seg = errnoBytes [] (toU8 (-errcode)) := by
      rw [← hsegs.1, List.flatten_singleton]
    rw [hseg, errnoBytes, List.getLast?_singleton]
    simp
  have hdec : (recvFdUnixDomain behind (received [seg])).Decodes (toU8 (-errcode)) :=
    (recvFdLoop_decodes_iff (toU8_errcode_ne hlo hhi) rfl List.not_mem_nil hsegs).mpr hlast
  exact hdec.ret.trans (by rw [toU8_errcode hlo hhi, Int.neg_neg])

end Icehydra
