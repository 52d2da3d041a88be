import Icehydra.Lib.Block
import Mathlib.Algebra.Group.Nat.Defs

/-!
# Protocol — the PROTOCOL_CMD header

`include/conf.h` and the header functions of `src/conf.c`. A buffer is the
list of its bytes; the header is its first eight, read and written in place
as the C code does through `PROTOCOL_CMD *` (little-endian `bodylen`):

    szMagic[2]  bodylen(2)  cmdSendType  cmdid  broadcast_num  pad

`Frame` is a header together with a body of the length the header announces.
-/

namespace Icehydra

open Block

abbrev Bytes := List UInt8

/-! ## Constants -/

def protocolCmdHeadLen : Nat := 8
def maxCmdLen : Nat := 4 * 1024
def protocolMagic : Bytes := [73, 72]

def ihCmdTypeSendReserve : UInt8 := 0
def ihCmdTypeSendParallel : UInt8 := 1
def ihCmdTypeSendSerial : UInt8 := 2

def ihReserveCmdIdGetShmInfo : UInt8 := 2
def ihReserveCmdIdGetShmNum : UInt8 := 3
def ihCmdIdDefault : UInt8 := 188

/-! ## Integer conversions of the C code -/

/-- A C `int` stored in a byte. -/
def toU8 (x : Int) : UInt8 := UInt8.ofNat (x % 256).toNat

/-- What a C `int` computation leaves in its 32 bits. -/
def toInt32 (x : Int) : Int := x.bmod (2 ^ 32)

/-- `round4(x)`: `4*((x>>2)+!!(0b11&x))`. -/
def round4 (x : Int) : Int := 4 * (x / 4 + if x % 4 = 0 then 0 else 1)

/-! ## Reading a header -/

def byteAt (buf : Bytes) (i : Nat) : UInt8 := buf.getD i default

def getProtocolBodyLen (ptr : Bytes) : Nat := (byteAt ptr 2).toNat + 256 * (byteAt ptr 3).toNat
def getProtocolCmdType (ptr : Bytes) : UInt8 := byteAt ptr 4
def getProtocolCmdId (ptr : Bytes) : UInt8 := byteAt ptr 5
def getProtocolCmdBroadcastNum (ptr : Bytes) : UInt8 := byteAt ptr 6

/-- `4*(n/4+!!(0b11&n))` at the header's `broadcast_num`. -/
def getProtocolBroadcastLen (ptr : Bytes) : Nat :=
  let n := (getProtocolCmdBroadcastNum ptr).toNat
  4 * (n / 4 + if n % 4 = 0 then 0 else 1)

/-! ## Writing a header -/

def memzero (buf : Bytes) (n : Nat) : Bytes := store buf 0 (List.replicate n 0)

/-- A negative argument leaves its field as it is; only when none is negative
is the header cleared first. -/
def setPureProtocolHead (protocol : Bytes) (bodylen cmdSendType cmdid : Int) : Bytes :=
  let head :=
    if 0 ≤ bodylen ∧ 0 ≤ cmdSendType ∧ 0 ≤ cmdid then memzero protocol protocolCmdHeadLen
    else protocol
  let head := store head 0 protocolMagic
  -- `memcpy(&head->bodylen, &bodylen, sizeof(uint16_t))`: the low two bytes
  let head :=
    if 0 ≤ bodylen then store head 2 [toU8 bodylen, toU8 (bodylen / 256)] else head
  let head := if 0 ≤ cmdSendType then store head 4 [toU8 cmdSendType] else head
  if 0 ≤ cmdid then store head 5 [toU8 cmdid] else head

def setBroadcastCmdHead (cmdHead : Bytes) (bodylen cmdid brNum : Int) : Bytes :=
  let head := setPureProtocolHead cmdHead (toInt32 (bodylen + round4 brNum))
    ihCmdTypeSendParallel.toNat cmdid
  store head 6 [toU8 brNum]

/-- The branch every caller takes: a header and no separate `data`. `none` is
a null `broadcast_ids`; an array is read at the `broadcast_num` positions the
loop visits. -/
def setPureBroadcastField (cmdHead : Bytes) (broadcastNum : Int)
    (broadcastIds : Option Bytes) : Bytes :=
  let head := store cmdHead 6 [if 0 < broadcastNum then toU8 broadcastNum else 0]
  match broadcastIds with
  | none => head
  | some ids => store head protocolCmdHeadLen (peek ids 0 broadcastNum.toNat)

/-! ## The eight bytes as a whole -/

/-- The bytes of a header with these fields. -/
def headBytes (bodylen : Nat) (cmdSendType cmdid broadcastNum pad : UInt8) : Bytes :=
  protocolMagic ++ [UInt8.ofNat bodylen, UInt8.ofNat (bodylen / 256), cmdSendType, cmdid,
    broadcastNum, pad]

theorem protocolCmdHeadLen_pos : 0 < protocolCmdHeadLen := by decide

theorem protocolCmdHeadLen_le : protocolCmdHeadLen ≤ maxCmdLen := by decide

theorem headBytes_length (n : Nat) (t c b p : UInt8) :
    (headBytes n t c b p).length = protocolCmdHeadLen := rfl

theorem getProtocolBodyLen_headBytes (n : Nat) (t c b p : UInt8) (rest : Bytes) :
    getProtocolBodyLen (headBytes n t c b p ++ rest) = n % 65536 := by
  simp only [getProtocolBodyLen, byteAt, headBytes, protocolMagic, List.cons_append,
    List.nil_append, List.getD_cons_succ, List.getD_cons_zero, UInt8.toNat_ofNat']
  omega

/-- A buffer of at least a header's length, with the header's bytes named. -/
theorem exists_head_bytes {buf : Bytes} (h : protocolCmdHeadLen ≤ buf.length) :
    ∃ b0 b1 b2 b3 b4 b5 b6 b7 rest,
      buf = b0 :: b1 :: b2 :: b3 :: b4 :: b5 :: b6 :: b7 :: rest := by
  match buf, h with
  | b0 :: b1 :: b2 :: b3 :: b4 :: b5 :: b6 :: b7 :: rest, _ =>
    exact ⟨b0, b1, b2, b3, b4, b5, b6, b7, rest, rfl⟩

theorem toU8_natCast (n : Nat) : toU8 n = UInt8.ofNat n := by
  apply UInt8.toNat_inj.mp
  simp only [toU8, UInt8.toNat_ofNat']
  omega

theorem toU8_natCast_div (n : Nat) : toU8 ((n : Int) / 256) = UInt8.ofNat (n / 256) := by
  rw [show (n : Int) / 256 = ((n / 256 : Nat) : Int) by omega, toU8_natCast]

/-- **A cleared header**: with no negative argument the eight bytes are
exactly the given fields, whatever the buffer held. -/
theorem setPureProtocolHead_fresh {buf : Bytes} (h : protocolCmdHeadLen ≤ buf.length)
    (bodylen : Nat) (t c : UInt8) :
    setPureProtocolHead buf bodylen t.toNat c.toNat
      = headBytes bodylen t c 0 0 ++ buf.drop protocolCmdHeadLen := by
  obtain ⟨b0, b1, b2, b3, b4, b5, b6, b7, rest, rfl⟩ := exists_head_bytes h
  have hz : memzero (b0 :: b1 :: b2 :: b3 :: b4 :: b5 :: b6 :: b7 :: rest) protocolCmdHeadLen
      = 0 :: 0 :: 0 :: 0 :: 0 :: 0 :: 0 :: 0 :: rest := rfl
  have hd : (b0 :: b1 :: b2 :: b3 :: b4 :: b5 :: b6 :: b7 :: rest).drop protocolCmdHeadLen
      = rest := rfl
  simp only [setPureProtocolHead, hz, hd, Int.natCast_nonneg, and_self, if_true,
    toU8_natCast, toU8_natCast_div, UInt8.ofNat_toNat]
  rfl

/-- The sender's header: everything is set. -/
theorem setBroadcastCmdHead_fresh {buf : Bytes} (h : protocolCmdHeadLen ≤ buf.length)
    {bodylen : Int} {total : Nat} (c : UInt8) (brNum : Int)
    (ht : toInt32 (bodylen + round4 brNum) = total) :
    setBroadcastCmdHead buf bodylen c.toNat brNum
      = headBytes total ihCmdTypeSendParallel c (toU8 brNum) 0
        ++ buf.drop protocolCmdHeadLen := by
  rw [setBroadcastCmdHead, ht, setPureProtocolHead_fresh h]
  simp [store, headBytes, protocolMagic]

/-! ## Frames -/

/-- A frame: an 8-byte header and a body of the length its `bodylen` field
announces. -/
@[ext] structure Frame where
  head : Bytes
  body : Bytes
  head_length : head.length = protocolCmdHeadLen
  body_length : body.length = getProtocolBodyLen head

namespace Frame

/-- The bytes of a frame on the wire. -/
def bytes (f : Frame) : Bytes := f.head ++ f.body

/-- The frame with these fields over `body`. -/
def ofFields (t c b p : UInt8) (body : Bytes) (h : body.length < 65536) : Frame where
  head := headBytes body.length t c b p
  body := body
  head_length := rfl
  body_length := by
    have := getProtocolBodyLen_headBytes body.length t c b p []
    rw [List.append_nil] at this
    omega

/-- The recipients' ids, as a reader of `broadcast_num` bytes sees them. -/
def ids (f : Frame) : List UInt8 := peek f.body 0 (getProtocolCmdBroadcastNum f.head).toNat

/-- What follows the (padded) id list. -/
def payload (f : Frame) : Bytes := f.body.drop (getProtocolBroadcastLen f.head)

theorem bytes_length (f : Frame) : f.bytes.length = protocolCmdHeadLen + f.body.length := by
  simp [bytes, f.head_length]

end Frame

end Icehydra
