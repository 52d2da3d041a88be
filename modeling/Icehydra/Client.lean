import Icehydra.Inbound
import Icehydra.Relay

/-!
# Client — ih_send_broadcast_data and ih_recv_data

The client half, `icehydra.c`. A broadcast is built in a buffer of 64 bytes and
written in two calls, each on a budget of its own: the header with the padded
id list, then the data. `wire` is what a broadcast that returns 0 has put on
the stream; whether that is one frame depends on the sizes.
-/

namespace Icehydra

open Block NonBlock

/-! ## The functions -/

/-- `IH_BROADCAST_CMD_T`; `none` is a null pointer. -/
structure IhBroadcastCmd where
  data : Option Bytes
  brIds : Option Bytes
  brNum : Int
  datalen : Int

/-- `client_connfd` and the client's end of the connection. -/
structure Client where
  connfd : Int
  sock : Sock

/-- `cmd_head` as `ih_send_broadcast_data` fills it. -/
def cmdHeadOf (cmd : IhBroadcastCmd) : Bytes :=
  let cmdHead : Bytes := List.replicate 64 0
  let cmdHead := setBroadcastCmdHead cmdHead cmd.datalen ihCmdIdDefault.toNat cmd.brNum
  setPureBroadcastField cmdHead cmd.brNum cmd.brIds

def ihSendBroadcastData (c : Client) (cmd : IhBroadcastCmd) : Client × Ret :=
  if c.connfd < 0 then (c, .val (-1))
  else
    let r := tcpSendNoblock c.sock c.connfd (some (cmdHeadOf cmd))
      (protocolCmdHeadLen + round4 cmd.brNum)
    match r.ret with
    | .killed => ({ c with sock := r.sock }, .killed)
    | .val ret =>
        -- the data is offered whatever became of the header
        let r' := tcpSendNoblock r.sock c.connfd cmd.data cmd.datalen
        match r'.ret with
        | .killed => ({ c with sock := r'.sock }, .killed)
        | .val ret' =>
            (⟨if ret + ret' < 0 then -1 else c.connfd, r'.sock⟩, .val (ret + ret'))

/-- `data` are the bytes stored from the caller's pointer on, `datalen` what
`*datalen` is left at, `none` where it is not written. -/
structure IhRecvd where
  client : Client
  data : Bytes
  datalen : Option Nat
  ret : Int

/-- `data` says whether the pointer is non-null. -/
def ihRecvData (c : Client) (data : Bool) : IhRecvd :=
  if c.connfd < 0 then ⟨c, [], none, -1⟩
  else
    let r := tcpRecvProtocolCmd c.sock c.connfd data
    if r.ret < 0 then ⟨⟨-1, r.sock⟩, r.body, some 0, -1⟩
    else
      let cmdHead := store (List.replicate protocolCmdHeadLen 0) 0 r.head
      let ret : Int :=
        if getProtocolCmdId cmdHead ≠ ihReserveCmdIdGetShmInfo then 0
        else ihReserveCmdIdGetShmInfo.toNat
      ⟨{ c with sock := r.sock }, r.body, some (getProtocolBodyLen cmdHead), ret⟩

/-! ## What a broadcast puts on the stream -/

/-- The `n` bytes behind a pointer; behind a null one there are none. -/
def behind (data : Option Bytes) (n : Nat) : Bytes :=
  match data with
  | none => []
  | some data => peek data 0 n

namespace IhBroadcastCmd

/-- The recipients' ids. -/
def ids (cmd : IhBroadcastCmd) : Bytes := behind cmd.brIds cmd.brNum.toNat

/-- The sender's data. -/
def payload (cmd : IhBroadcastCmd) : Bytes := behind cmd.data cmd.datalen.toNat

/-- The length that reaches the header: a sum that has gone negative leaves
the field at zero. -/
def total (cmd : IhBroadcastCmd) : Nat := (toInt32 (cmd.datalen + round4 cmd.brNum)).toNat

def head (cmd : IhBroadcastCmd) : Bytes :=
  headBytes cmd.total ihCmdTypeSendParallel ihCmdIdDefault (toU8 cmd.brNum) 0

/-- The id list, padded to a multiple of four. -/
def idField (cmd : IhBroadcastCmd) : Bytes := peek cmd.ids 0 (round4 cmd.brNum).toNat

/-- A whole broadcast on the stream. -/
def wire (cmd : IhBroadcastCmd) : Bytes := cmd.head ++ (cmd.idField ++ cmd.payload)

/-- The id list fits into `cmd_head[64]`, and the sizes are not negative. -/
structure Sized (cmd : IhBroadcastCmd) : Prop where
  num_nonneg : 0 ≤ cmd.brNum
  num_le : cmd.brNum ≤ 56
  datalen_nonneg : 0 ≤ cmd.datalen
  datalen_int : cmd.datalen < 2 ^ 31

end IhBroadcastCmd

theorem round4_nonneg {x : Int} (h : 0 ≤ x) : 0 ≤ round4 x := by
  unfold round4
  split <;> omega

theorem le_round4 (x : Int) : x ≤ round4 x := by
  unfold round4
  split <;> omega

theorem round4_le {x n : Int} (h : x ≤ 4 * n) : round4 x ≤ 4 * n := by
  unfold round4
  split <;> omega

theorem toU8_of_nonneg {x : Int} (h : 0 ≤ x) (hx : x < 256) : ((toU8 x).toNat : Int) = x := by
  obtain ⟨n, rfl⟩ := Int.eq_ofNat_of_zero_le h
  rw [toU8_natCast, UInt8.toNat_ofNat']
  omega

namespace IhBroadcastCmd

variable {cmd : IhBroadcastCmd}

theorem head_length (cmd : IhBroadcastCmd) : cmd.head.length = protocolCmdHeadLen := rfl

/-- The eight bytes of the header, and zeros behind them. -/
theorem setBroadcastCmdHead_eq (cmd : IhBroadcastCmd) :
    setBroadcastCmdHead (List.replicate 64 0) cmd.datalen ihCmdIdDefault.toNat cmd.brNum
      = cmd.head ++ List.replicate 56 0 := by
  by_cases hneg : 0 ≤ toInt32 (cmd.datalen + round4 cmd.brNum)
  · have hlen : protocolCmdHeadLen ≤ (List.replicate 64 (0 : UInt8)).length := by decide
    rw [setBroadcastCmdHead_fresh hlen ihCmdIdDefault cmd.brNum (Int.toNat_of_nonneg hneg).symm]
    rfl
  · -- the buffer was zero, so the length that is not written is zero as well
    have hz : cmd.total = 0 := Int.toNat_of_nonpos (by omega)
    simp only [setBroadcastCmdHead, setPureProtocolHead, hneg, false_and, if_false, head, hz]
    rfl

/-- The buffer as the two writes find it: the header, and the ids in front of
zeros. -/
theorem cmdHeadOf_eq (h : 0 ≤ cmd.brNum) :
    cmdHeadOf cmd = cmd.head ++ store (List.replicate 56 0) 0 cmd.ids := by
  have hnum : (if 0 < cmd.brNum then toU8 cmd.brNum else 0) = toU8 cmd.brNum := by
    split
    · rfl
    · rw [show cmd.brNum = 0 by omega]
      rfl
  have hset : store (cmd.head ++ List.replicate 56 0) 6 [toU8 cmd.brNum]
      = cmd.head ++ List.replicate 56 0 := rfl
  simp only [cmdHeadOf, setPureBroadcastField, cmd.setBroadcastCmdHead_eq, hnum, hset, ids]
  cases cmd.brIds with
  | none => rfl
  | some ids => exact store_append cmd.head _ _

theorem Sized.peek_cmdHeadOf (h : cmd.Sized) :
    peek (cmdHeadOf cmd) 0 (protocolCmdHeadLen + (round4 cmd.brNum).toNat)
      = cmd.head ++ cmd.idField := by
  have hnonneg := h.num_nonneg
  have h56 : round4 cmd.brNum ≤ 4 * 14 := round4_le h.num_le
  -- behind the ids the buffer is zero, which is how a short list reads as well
  have hfield : peek (store (List.replicate 56 0) 0 cmd.ids) 0 (round4 cmd.brNum).toNat
      = cmd.idField := by
    apply peek_congr
    intro i _ hi
    rw [getD_store _ _ _ _ (Nat.zero_le _), Nat.sub_zero]
    split
    · rfl
    · rw [List.getD_eq_getElem?_getD, List.getD_eq_getElem?_getD,
        List.getElem?_replicate_of_lt (by omega), List.getElem?_eq_none (by omega)]
      rfl
  rw [cmdHeadOf_eq hnonneg, ← hfield]
  exact peek_append cmd.head _ _

end IhBroadcastCmd

/-- A write of the bytes behind a pointer, of which there may be none. -/
theorem tcpSendNoblock_behind (s : Sock) {sockfd : Int} (data : Option Bytes) (len : Int)
    (hfd : 0 ≤ sockfd) :
    tcpSendNoblock s sockfd data len =
      let bytes := behind data len.toNat
      let t := transfer s.sends bytes.length maxTimes
      ⟨{ s with sends := t.rest, output := s.output ++ bytes.take t.moved },
        sendRet t bytes.length⟩ := by
  cases data with
  | none => simp [tcpSendNoblock_null, behind, sendRet]
  | some data =>
      by_cases hlen : len ≤ 0
      · rw [tcpSendNoblock_nonpos s sockfd (some data) hlen]
        simp [Int.toNat_of_nonpos hlen, behind, sendRet]
      · have hmoved := transfer_moved_le s.sends len.toNat maxTimes
        rw [tcpSendNoblock_eq s data hfd (by omega)]
        simp only [behind, peek_length, peek_take _ _ _ _ hmoved]

/-- A write that returns 0 has put all its bytes on the stream. -/
theorem tcpSendNoblock_output {s : Sock} {sockfd len : Int} {data : Option Bytes}
    (hfd : 0 ≤ sockfd) (h : (tcpSendNoblock s sockfd data len).ret = .val 0) :
    (tcpSendNoblock s sockfd data len).sock.output
      = s.output ++ behind data len.toNat := by
  rw [tcpSendNoblock_behind s data len hfd] at h ⊢
  simp only [moved_of_sendRet h, List.take_length]

theorem tcpSendNoblock_consumed {s : Sock} {sockfd : Int} (hfd : 0 ≤ sockfd) (len : Int)
    (data : Option Bytes) : (tcpSendNoblock s sockfd data len).sock.consumed = s.consumed := by
  rw [tcpSendNoblock_behind s data len hfd]

theorem tcpSendNoblock_ret_cases (s : Sock) (sockfd len : Int) (data : Option Bytes) :
    (tcpSendNoblock s sockfd data len).ret = .val 0 ∨
      (tcpSendNoblock s sockfd data len).ret = .val (-1) ∨
      (tcpSendNoblock s sockfd data len).ret = .killed := by
  unfold tcpSendNoblock
  grind

/-- The ways a broadcast goes when its two writes go as `r` and `r'`: the sum of
two results is 0 only when both are, and a negative one closes the connection. -/
inductive Broadcasted (c : Client) (r r' : Sent) : Client × Ret → Prop
  | headKilled (hr : r.ret = .killed) : Broadcasted c r r' ({ c with sock := r.sock }, .killed)
  | dataKilled (hr : r.ret ≠ .killed) (hr' : r'.ret = .killed) :
      Broadcasted c r r' ({ c with sock := r'.sock }, .killed)
  | sent (hr : r.ret = .val 0) (hr' : r'.ret = .val 0) :
      Broadcasted c r r' (⟨c.connfd, r'.sock⟩, .val 0)
  | failed {ret : Int} (hr : r.ret ≠ .killed) (hnot : ¬ (r.ret = .val 0 ∧ r'.ret = .val 0))
      (hneg : ret < 0) : Broadcasted c r r' (⟨-1, r'.sock⟩, .val ret)

theorem ihSendBroadcastData_cases {c : Client} (cmd : IhBroadcastCmd) (hfd : 0 ≤ c.connfd) :
    let r := tcpSendNoblock c.sock c.connfd (some (cmdHeadOf cmd))
      (protocolCmdHeadLen + round4 cmd.brNum)
    let r' := tcpSendNoblock r.sock c.connfd cmd.data cmd.datalen
    Broadcasted c r r' (ihSendBroadcastData c cmd) := by
  intro r r'
  have hcases : r.ret = .val 0 ∨ r.ret = .val (-1) ∨ r.ret = .killed :=
    tcpSendNoblock_ret_cases _ _ _ _
  have hcases' : r'.ret = .val 0 ∨ r'.ret = .val (-1) ∨ r'.ret = .killed :=
    tcpSendNoblock_ret_cases _ _ _ _
  have heq : ihSendBroadcastData c cmd =
      match r.ret with
      | .killed => ({ c with sock := r.sock }, .killed)
      | .val ret =>
          match r'.ret with
          | .killed => ({ c with sock := r'.sock }, .killed)
          | .val ret' =>
              (⟨if ret + ret' < 0 then -1 else c.connfd, r'.sock⟩, .val (ret + ret')) := by
    rw [ihSendBroadcastData, if_neg (Int.not_lt.mpr hfd)]
  rw [heq]
  rcases hcases with hr | hr | hr
  · rcases hcases' with hr' | hr' | hr' <;> simp only [hr, hr']
    · exact .sent hr hr'
    · exact .failed (by simp [hr]) (by simp [hr']) (by decide)
    · exact .dataKilled (by simp [hr]) hr'
  · rcases hcases' with hr' | hr' | hr' <;> simp only [hr, hr']
    · exact .failed (by simp [hr]) (by simp [hr]) (by decide)
    · exact .failed (by simp [hr]) (by simp [hr]) (by decide)
    · exact .dataKilled (by simp [hr]) hr'
  · simp only [hr]
    exact .headKilled hr

theorem ihSendBroadcastData_ok {c : Client} {cmd : IhBroadcastCmd} (hfd : 0 ≤ c.connfd)
    (hret : (ihSendBroadcastData c cmd).2 = .val 0) :
    let r := tcpSendNoblock c.sock c.connfd (some (cmdHeadOf cmd))
      (protocolCmdHeadLen + round4 cmd.brNum)
    let r' := tcpSendNoblock r.sock c.connfd cmd.data cmd.datalen
    r.ret = .val 0 ∧ r'.ret = .val 0 ∧ (ihSendBroadcastData c cmd).1 = ⟨c.connfd, r'.sock⟩ := by
  have hcases := ihSendBroadcastData_cases cmd hfd
  generalize ihSendBroadcastData c cmd = out at hcases hret
  cases hcases with
  | headKilled | dataKilled => cases hret
  | sent hr hr' => exact ⟨hr, hr', rfl⟩
  | failed _ _ hneg =>
      obtain rfl := Ret.val.inj hret
      exact absurd hneg (Int.lt_irrefl 0)

/-- **What a successful broadcast has written.** -/
theorem ihSendBroadcastData_wire {cmd : IhBroadcastCmd} (h : cmd.Sized) {c : Client}
    (hfd : 0 ≤ c.connfd) (hret : (ihSendBroadcastData c cmd).2 = .val 0) :
    (ihSendBroadcastData c cmd).1.sock.output = c.sock.output ++ cmd.wire := by
  have hr4 := round4_nonneg h.num_nonneg
  have hlen : (protocolCmdHeadLen + round4 cmd.brNum : Int).toNat
      = protocolCmdHeadLen + (round4 cmd.brNum).toNat := by omega
  obtain ⟨hr, hr', heq⟩ := ihSendBroadcastData_ok hfd hret
  rw [heq]
  show (tcpSendNoblock _ c.connfd cmd.data cmd.datalen).sock.output = _
  rw [tcpSendNoblock_output hfd hr', tcpSendNoblock_output hfd hr]
  simp only [behind, hlen, h.peek_cmdHeadOf, List.append_assoc]
  rfl

/-! ## What a receive brings -/

theorem getProtocolCmdId_stored (f : Frame) :
    getProtocolCmdId (store (List.replicate protocolCmdHeadLen 0) 0 f.head)
      = getProtocolCmdId f.head ∧
    getProtocolBodyLen (store (List.replicate protocolCmdHeadLen 0) 0 f.head) = f.body.length := by
  have hstore : store (List.replicate protocolCmdHeadLen 0) 0 f.head = f.head := by
    simp [store, f.head_length]
  rw [hstore, f.body_length]
  exact ⟨rfl, rfl⟩

theorem ihRecvData_whole {c : Client} (hw : c.sock.Whole) (hfd : 0 ≤ c.connfd) :
    ihRecvData c true
      = ⟨{ c with sock := c.sock.past }, (nextFrame c.sock).body,
          some (nextFrame c.sock).body.length,
          if getProtocolCmdId (nextFrame c.sock).head ≠ ihReserveCmdIdGetShmInfo then 0
          else ihReserveCmdIdGetShmInfo.toNat⟩ := by
  obtain ⟨hid, hlen⟩ := getProtocolCmdId_stored (nextFrame c.sock)
  rw [ihRecvData, if_neg (Int.not_lt.mpr hfd), Sock.recv_whole hw hfd]
  simp only [Int.lt_irrefl, if_false, hid, hlen]

theorem ihRecvData_short {c : Client} (hw : ¬ c.sock.Whole) (hfd : 0 ≤ c.connfd) :
    (ihRecvData c true).ret = -1 ∧ (ihRecvData c true).client = ⟨-1, c.sock.cut⟩ := by
  obtain ⟨hret, hsock⟩ := Sock.recv_short hw hfd
  rw [ihRecvData, if_neg (Int.not_lt.mpr hfd)]
  simp only [hret, hsock, show (-1 : Int) < 0 by decide, if_true, and_self]

theorem ihRecvData_data {c : Client} (hfd : 0 ≤ c.connfd) :
    (ihRecvData c true).data = (tcpRecvProtocolCmd c.sock c.connfd true).body := by
  rw [ihRecvData, if_neg (Int.not_lt.mpr hfd)]
  simp only
  split <;> rfl

/-! ## Whether a broadcast is one frame -/

/-- The bytes stand for themselves: as many follow the header as it says, so a
reader that gets through stops at their end. -/
structure SelfFramed (wire : Bytes) : Prop where
  length : wire.length = protocolCmdHeadLen + getProtocolBodyLen wire
  recv : ∀ (s : Sock) (sockfd : Int) (rest : Stream' UInt8), 0 ≤ sockfd →
    s.input = wire ++ₛ rest → (tcpRecvProtocolCmd s sockfd true).ret = 0 →
      (tcpRecvProtocolCmd s sockfd true).sock.consumed = s.consumed ++ wire ∧
        (tcpRecvProtocolCmd s sockfd true).sock.input = rest

/-- The length decides: what it announces is what a reader takes. -/
theorem selfFramed_iff {wire : Bytes} :
    SelfFramed wire ↔ wire.length = protocolCmdHeadLen + getProtocolBodyLen wire := by
  refine ⟨SelfFramed.length, fun hlen => ⟨hlen, ?_⟩⟩
  intro s sockfd rest hfd hin hret
  have h8 : protocolCmdHeadLen ≤ wire.length := by omega
  have htake : s.input.take wire.length = wire := by
    rw [hin, Stream'.take_append_of_le_length _ _ _ (Nat.le_refl _), List.take_length]
  have hnext : nextLen s = getProtocolBodyLen wire := by
    rw [nextLen, hin, Stream'.take_append_of_le_length _ _ _ h8]
    obtain ⟨b0, b1, b2, b3, b4, b5, b6, b7, tail, rfl⟩ := exists_head_bytes h8
    rfl
  have hbytes : (nextFrame s).bytes.length = wire.length := by
    rw [nextFrame_bytes_length, hnext, hlen]
  rw [tcpRecvProtocolCmd_ok hfd hret]
  simp only
  rw [nextFrame_bytes, hbytes, htake, hin, Stream'.drop_append_stream]
  exact ⟨rfl, rfl⟩

namespace IhBroadcastCmd

/-- The sizes for which a broadcast is one frame: a sum the 16-bit field can
hold, or, with no data behind the pointer, a `datalen` the field does not show. -/
def Framed (cmd : IhBroadcastCmd) : Prop :=
  (cmd.data ≠ none ∧ cmd.datalen + round4 cmd.brNum ≤ 65535) ∨
    (cmd.data = none ∧ cmd.datalen % 65536 = 0)

theorem wire_length (cmd : IhBroadcastCmd) :
    cmd.wire.length = protocolCmdHeadLen + ((round4 cmd.brNum).toNat + cmd.payload.length) := by
  simp [wire, head, headBytes_length, idField]

theorem getProtocolBodyLen_wire (cmd : IhBroadcastCmd) :
    getProtocolBodyLen cmd.wire = cmd.total % 65536 :=
  getProtocolBodyLen_headBytes _ _ _ _ _ _

theorem Sized.wire_selfFramed_iff {cmd : IhBroadcastCmd} (h : cmd.Sized) :
    SelfFramed cmd.wire ↔ cmd.Framed := by
  have hnum := h.num_nonneg
  have hlen := h.datalen_nonneg
  have hint := h.datalen_int
  have hr4 := round4_nonneg hnum
  have h56 : round4 cmd.brNum ≤ 4 * 14 := round4_le h.num_le
  rw [selfFramed_iff, wire_length, getProtocolBodyLen_wire]
  unfold Framed total
  have htotal : toInt32 (cmd.datalen + round4 cmd.brNum)
      = if cmd.datalen + round4 cmd.brNum < 2 ^ 31 then cmd.datalen + round4 cmd.brNum
        else cmd.datalen + round4 cmd.brNum - 2 ^ 32 := by
    rw [toInt32, Int.bmod_def]
    split <;> split <;> omega
  rw [htotal]
  cases hdata : cmd.data with
  | none =>
      have hpay : cmd.payload.length = 0 := by rw [payload, hdata]; rfl
      simp only [ne_eq, not_true_eq_false, false_and, true_and, false_or, hpay]
      split <;> omega
  | some data =>
      have hpay : cmd.payload.length = cmd.datalen.toNat := by
        rw [payload, hdata]
        exact peek_length _ _ _
      simp only [ne_eq, reduceCtorEq, not_false_eq_true, true_and, false_and, or_false, hpay]
      split <;> omega

end IhBroadcastCmd

/-- **Framing of a broadcast.** What a broadcast that returns 0 has written is
one frame exactly for the `Framed` sizes. -/
theorem ihSendBroadcastData_selfFramed_iff (cmd : IhBroadcastCmd) (h : cmd.Sized) (c : Client)
    (hfd : 0 ≤ c.connfd) (hret : (ihSendBroadcastData c cmd).2 = .val 0) :
    SelfFramed ((ihSendBroadcastData c cmd).1.sock.output.drop c.sock.output.length) ↔
      cmd.Framed := by
  rw [ihSendBroadcastData_wire h hfd hret, List.drop_left]
  exact h.wire_selfFramed_iff

/-- Two recipients and two bytes of data, written a few bytes at a time. -/
theorem ihSendBroadcastData_selfFramed_two :
    let cmd : IhBroadcastCmd := ⟨some [104, 105], some [3, 5], 2, 2⟩
    let c : Client := ⟨3, ⟨Stream'.const 0, Stream'.const .again, Stream'.const (.moved 2), [], []⟩⟩
    SelfFramed ((ihSendBroadcastData c cmd).1.sock.output.drop c.sock.output.length) := by
  intro cmd c
  have h : cmd.Sized := ⟨by decide, by decide, by decide, by decide⟩
  have hret : (ihSendBroadcastData c cmd).2 = .val 0 := by decide +kernel
  exact (ihSendBroadcastData_selfFramed_iff cmd h c (by decide) hret).mpr
    (.inl ⟨by simp [cmd], by decide⟩)

/-- 65536 bytes for nobody, and a null pointer with a length of 5: both calls
return 0. The first leaves a whole buffer behind a header that announces
nothing, the second announces five bytes and sends none. -/
theorem ihSendBroadcastData_drifts :
    let big : IhBroadcastCmd := ⟨some (List.replicate 65536 73), none, 0, 65536⟩
    let null : IhBroadcastCmd := ⟨none, none, 0, 5⟩
    let c : Client :=
      ⟨3, ⟨Stream'.const 0, Stream'.const .again, Stream'.const (.moved 65535), [], []⟩⟩
    ∀ cmd ∈ [big, null], cmd.Sized ∧ (ihSendBroadcastData c cmd).2 = .val 0 ∧
      ¬ SelfFramed ((ihSendBroadcastData c cmd).1.sock.output.drop c.sock.output.length) := by
  intro big null c cmd hmem
  have hsized : cmd.Sized := by
    rcases List.mem_pair.mp hmem with rfl | rfl <;>
      exact ⟨by decide, by decide, by decide, by decide⟩
  have hret : (ihSendBroadcastData c cmd).2 = .val 0 := by
    rcases List.mem_pair.mp hmem with rfl | rfl <;> decide +kernel
  have hframed : ¬ cmd.Framed := by
    rcases List.mem_pair.mp hmem with rfl | rfl
    · rintro (⟨-, hsum⟩ | ⟨hnull, -⟩)
      · exact absurd hsum (by decide)
      · cases hnull
    · rintro (⟨hdata, -⟩ | ⟨-, hmod⟩)
      · exact hdata rfl
      · exact absurd hmod (by decide)
  refine ⟨hsized, hret, ?_⟩
  rw [ihSendBroadcastData_wire hsized (by decide) hret, List.drop_left]
  exact fun h => hframed (hsized.wire_selfFramed_iff.mp h)

end Icehydra
