import Icehydra.Socket
import Mathlib.Logic.Function.Basic

/-!
# Kernel — the broker's open connections

The part of the descriptor table that holds accepted connections, and
`tcp_send_protocol_cmd` on a descriptor of it.

A call of `tcp_send_protocol_cmd` that gets past its guard leaves a `Call`
behind: which node it was for, which descriptor it used, what it was to write
and what the socket took. The calls are a record only; nothing reads them.
-/

namespace Icehydra

open Block NonBlock

/-! ## Open connections -/

/-- A connection accepted on the listening socket: the how-manieth it is, the
path its peer is bound to, and the broker's end of it. -/
structure Conn where
  cid : Nat
  un : Bytes
  sock : Sock

/-- The descriptor table, as far as accepted connections go. -/
structure Kernel where
  conns : Int → Option Conn
  nextCid : Nat

namespace Kernel

def sock (k : Kernel) (fd : Int) : Sock :=
  match k.conns fd with
  | some c => c.sock
  | none => Sock.dead

def setSock (k : Kernel) (fd : Int) (s : Sock) : Kernel :=
  match k.conns fd with
  | some c => { k with conns := Function.update k.conns fd (some { c with sock := s }) }
  | none => k

/-- `close(fd)`. -/
def close (k : Kernel) (fd : Int) : Kernel :=
  { k with conns := Function.update k.conns fd none }

end Kernel

structure Call where
  node : Nat
  fd : Int
  conn : Option Nat
  frame : Bytes
  bytes : Bytes
  deriving DecidableEq

structure Outgoing where
  kernel : Kernel
  ret : Ret
  calls : List Call

/-- `tcp_send_protocol_cmd` on a descriptor of the table, for the node at
position `node`. -/
def Kernel.send (k : Kernel) (node : Nat) (sockfd : Int) (cmdHead : Bytes)
    (data : Option Bytes) : Outgoing :=
  let r := tcpSendProtocolCmd (k.sock sockfd) sockfd cmdHead data
  { kernel := k.setSock sockfd r.sock
    ret := r.ret
    calls :=
      match data with
      | none => []
      | some data =>
          if sockfd < 0 then []
          else
            [{ node := node
               fd := sockfd
               conn := (k.conns sockfd).map Conn.cid
               frame := frameOf cmdHead data
               bytes := r.sock.output.drop (k.sock sockfd).output.length }] }

/-! ## Updates that keep the connections

Sends and receives change the state of a socket, never which connection a
descriptor stands for. -/

namespace Kernel

/-- What a descriptor stands for, apart from the state of its socket. -/
def ident (k : Kernel) (fd : Int) : Option (Nat × Bytes) :=
  (k.conns fd).map fun c => (c.cid, c.un)

/-- The same connections on the same descriptors. -/
def SameConns (k k' : Kernel) : Prop :=
  k'.nextCid = k.nextCid ∧ ∀ fd, k'.ident fd = k.ident fd

theorem SameConns.refl (k : Kernel) : SameConns k k := ⟨rfl, fun _ => rfl⟩

theorem SameConns.trans {k k' k'' : Kernel} (h : SameConns k k') (h' : SameConns k' k'') :
    SameConns k k'' :=
  ⟨h'.1.trans h.1, fun fd => (h'.2 fd).trans (h.2 fd)⟩

theorem setSock_sameConns (k : Kernel) (fd : Int) (s : Sock) : SameConns k (k.setSock fd s) := by
  unfold setSock
  cases hc : k.conns fd with
  | none => exact SameConns.refl k
  | some c =>
      refine ⟨rfl, fun fd' => ?_⟩
      by_cases h : fd' = fd
      · subst h
        simp [ident, hc]
      · simp [ident, h]

theorem send_sameConns (k : Kernel) (node : Nat) (fd : Int) (cmdHead : Bytes)
    (data : Option Bytes) : SameConns k (k.send node fd cmdHead data).kernel :=
  setSock_sameConns k fd _

theorem sock_setSock_of_ne (k : Kernel) {fd fd' : Int} (s : Sock) (h : fd' ≠ fd) :
    (k.setSock fd s).sock fd' = k.sock fd' := by
  unfold setSock
  cases k.conns fd with
  | none => rfl
  | some c => simp [sock, h]

theorem conns_setSock_of_ne (k : Kernel) {fd fd' : Int} (s : Sock) (h : fd' ≠ fd) :
    (k.setSock fd s).conns fd' = k.conns fd' := by
  unfold setSock
  cases k.conns fd with
  | none => rfl
  | some c => simp [h]

@[simp] theorem conns_close_self (k : Kernel) (fd : Int) : (k.close fd).conns fd = none :=
  Function.update_self ..

theorem conns_close_of_ne (k : Kernel) {fd fd' : Int} (h : fd' ≠ fd) :
    (k.close fd).conns fd' = k.conns fd' :=
  Function.update_of_ne h ..

theorem close_setSock (k : Kernel) (fd : Int) (s : Sock) : (k.setSock fd s).close fd = k.close fd := by
  unfold setSock
  cases k.conns fd with
  | none => rfl
  | some c => simp only [close, Function.update_idem]

theorem conns_setSock_self {k : Kernel} {fd : Int} {c : Conn} (s : Sock)
    (h : k.conns fd = some c) : (k.setSock fd s).conns fd = some { c with sock := s } := by
  simp [setSock, h]

theorem setSock_sock (k : Kernel) (fd : Int) : k.setSock fd (k.sock fd) = k := by
  unfold setSock sock
  cases hc : k.conns fd with
  | none => rfl
  | some c =>
      have hself : (some { c with sock := c.sock } : Option Conn) = k.conns fd := hc.symm
      simp only [hself, Function.update_eq_self]

theorem sock_eq {k : Kernel} {fd : Int} {c : Conn} (h : k.conns fd = some c) :
    k.sock fd = c.sock := by
  simp [sock, h]

/-! ## One send -/

/-- The transfers one send on `fd` comes down to. -/
def sendTransfer (k : Kernel) (fd : Int) (cmdHead : Bytes) : Transfer Stop :=
  transferSeq (k.sock fd).sends maxTimes [protocolCmdHeadLen, getProtocolBodyLen cmdHead]

/-- **One send**, on a descriptor that is not negative: one call, which puts a
prefix of the frame on the stream. -/
theorem send_eq (k : Kernel) (node : Nat) {fd : Int} (cmdHead data : Bytes) (hfd : 0 ≤ fd) :
    k.send node fd cmdHead (some data) =
      let t := k.sendTransfer fd cmdHead
      { kernel := k.setSock fd { k.sock fd with
          sends := t.rest
          output := (k.sock fd).output ++ (frameOf cmdHead data).take t.moved }
        ret := sendRet t (frameOf cmdHead data).length
        calls :=
          [{ node := node
             fd := fd
             conn := (k.conns fd).map Conn.cid
             frame := frameOf cmdHead data
             bytes := (frameOf cmdHead data).take t.moved }] } := by
  simp only [send, tcpSendProtocolCmd_eq _ cmdHead data hfd, if_neg (Int.not_lt.mpr hfd),
    List.drop_left, sendTransfer, frameOf_length]

/-- A closed node is passed over in silence. -/
theorem send_closed (k : Kernel) (node : Nat) {fd : Int} (cmdHead : Bytes) (data : Option Bytes)
    (hfd : fd < 0) : k.send node fd cmdHead data = ⟨k, .val 0, []⟩ := by
  simp only [send, tcpSendProtocolCmd_closed _ cmdHead data hfd, setSock_sock, if_pos hfd]
  cases data <;> rfl

theorem send_null (k : Kernel) (node : Nat) (fd : Int) (cmdHead : Bytes) :
    k.send node fd cmdHead none = ⟨k, .val 0, []⟩ := by
  simp only [send, tcpSendProtocolCmd_null, setSock_sock]

end Kernel

/-- All of the frame went out. -/
def Call.Complete (c : Call) : Prop := c.bytes = c.frame

/-- The frame was left with some but not all of its bytes out. -/
def Call.Cut (c : Call) : Prop := c.bytes ≠ [] ∧ c.bytes ≠ c.frame

instance (c : Call) : Decidable c.Complete := inferInstanceAs (Decidable (_ = _))
instance (c : Call) : Decidable c.Cut := inferInstanceAs (Decidable (_ ∧ _))

theorem sendRet_eq_zero_iff {t : Transfer Stop} {n : Nat} (h : t.why ≠ none → t.moved ≠ n) :
    sendRet t n = .val 0 ↔ t.moved = n := by
  unfold sendRet
  by_cases hw : t.why = some .sigpipe
  · simp [hw, h (by simp [hw])]
  · by_cases hm : t.moved = n <;> simp [hw, hm]

namespace Kernel

theorem sendTransfer_moved_ne {k : Kernel} {fd : Int} {cmdHead : Bytes} (data : Bytes)
    (h : (k.sendTransfer fd cmdHead).why ≠ none) :
    (k.sendTransfer fd cmdHead).moved ≠ (frameOf cmdHead data).length := by
  cases hw : (k.sendTransfer fd cmdHead).why with
  | none => exact absurd hw h
  | some e =>
      have := transferSeq_moved_lt_of_why hw
      simp only [List.sum_cons, List.sum_nil] at this
      rw [frameOf_length]
      exact Nat.ne_of_lt this

/-- A send returns 0 exactly when its call is complete. -/
theorem send_ret_eq_zero_iff (k : Kernel) (node : Nat) (fd : Int) (cmdHead data : Bytes) :
    (k.send node fd cmdHead (some data)).ret = .val 0 ↔
      ∀ c ∈ (k.send node fd cmdHead (some data)).calls, c.Complete := by
  by_cases hfd : fd < 0
  · simp [k.send_closed node cmdHead (some data) hfd]
  · rw [k.send_eq node cmdHead data (by omega)]
    have hle := transferSeq_moved_le (k.sock fd).sends maxTimes
      [protocolCmdHeadLen, getProtocolBodyLen cmdHead]
    simp only [List.mem_singleton, forall_eq, Call.Complete,
      sendRet_eq_zero_iff (sendTransfer_moved_ne data)]
    constructor
    · intro h
      rw [h, List.take_length]
    · intro h
      have := congrArg List.length h
      rw [List.length_take] at this
      simp only [sendTransfer, List.sum_cons, List.sum_nil, frameOf_length] at hle this ⊢
      omega

theorem send_ret_cases (k : Kernel) (node : Nat) (fd : Int) (cmdHead : Bytes)
    (data : Option Bytes) :
    (k.send node fd cmdHead data).ret = .val 0 ∨ (k.send node fd cmdHead data).ret = .val (-1) ∨
      (k.send node fd cmdHead data).ret = .killed := by
  cases data with
  | none => exact .inl rfl
  | some data =>
      by_cases hfd : fd < 0
      · exact .inl (by rw [k.send_closed node cmdHead (some data) hfd])
      · rw [k.send_eq node cmdHead data (by omega)]
        simp only [sendRet]
        split
        · exact .inr (.inr rfl)
        · split
          · exact .inl rfl
          · exact .inr (.inl rfl)

/-- A send inside which the process ended met EPIPE. -/
theorem send_killed {k : Kernel} {node : Nat} {fd : Int} {cmdHead : Bytes} {data : Option Bytes}
    (h : (k.send node fd cmdHead data).ret = .killed) :
    ∃ d, data = some d ∧ 0 ≤ fd ∧ (k.sendTransfer fd cmdHead).why = some .sigpipe := by
  cases data with
  | none =>
      rw [k.send_null] at h
      cases h
  | some d =>
      by_cases hfd : fd < 0
      · rw [k.send_closed node cmdHead (some d) hfd] at h
        cases h
      · rw [k.send_eq node cmdHead d (Int.not_lt.mp hfd)] at h
        exact ⟨d, rfl, Int.not_lt.mp hfd, why_of_sendRet h⟩

/-- What every call says: the frame it was given, a prefix of it written, on
the descriptor it was given. -/
theorem send_calls {k : Kernel} {node : Nat} {fd : Int} {cmdHead : Bytes} {data : Option Bytes}
    {c : Call} (h : c ∈ (k.send node fd cmdHead data).calls) :
    ∃ d, data = some d ∧ 0 ≤ fd ∧ c.node = node ∧ c.fd = fd ∧
      c.conn = (k.conns fd).map Conn.cid ∧ c.frame = frameOf cmdHead d ∧ c.bytes <+: c.frame := by
  cases data with
  | none => simp [send] at h
  | some d =>
      by_cases hfd : fd < 0
      · simp [k.send_closed node cmdHead (some d) hfd] at h
      · rw [k.send_eq node cmdHead d (by omega)] at h
        obtain rfl := List.mem_singleton.mp h
        exact ⟨d, rfl, by omega, rfl, rfl, rfl, rfl, List.take_prefix _ _⟩

/-! ## What calls put on the streams -/

/-- The bytes these calls wrote on a descriptor. -/
def bytesOn (calls : List Call) (fd : Int) : Bytes :=
  (calls.filter fun c => c.fd = fd).flatMap Call.bytes

theorem bytesOn_append (calls calls' : List Call) (fd : Int) :
    bytesOn (calls ++ calls') fd = bytesOn calls fd ++ bytesOn calls' fd := by
  simp [bytesOn]

/-- From `k` to `k'` exactly the bytes of `calls` went out, each on the stream
of its descriptor and in their order, and nothing was read. -/
structure Wrote (k k' : Kernel) (calls : List Call) : Prop where
  sameConns : SameConns k k'
  output : ∀ fd, (k'.sock fd).output = (k.sock fd).output ++ bytesOn calls fd
  consumed : ∀ fd, (k'.sock fd).consumed = (k.sock fd).consumed
  conn : ∀ c ∈ calls, c.conn = (k.conns c.fd).map Conn.cid

theorem Wrote.conn_of_mem {k k' : Kernel} {calls : List Call} (h : Wrote k k' calls) {x : Call}
    (hx : x ∈ calls) {cid : Nat} (hcid : x.conn = some cid) :
    ∃ c, k.conns x.fd = some c ∧ c.cid = cid := by
  rw [h.conn x hx] at hcid
  exact Option.map_eq_some_iff.mp hcid

theorem SameConns.cid {k k' : Kernel} (h : SameConns k k') (fd : Int) :
    (k'.conns fd).map Conn.cid = (k.conns fd).map Conn.cid := by
  have := congrArg (Option.map Prod.fst) (h.2 fd)
  simpa [ident, Function.comp_def] using this

theorem Wrote.refl (k : Kernel) : Wrote k k [] where
  sameConns := SameConns.refl k
  output fd := by simp [bytesOn]
  consumed fd := rfl
  conn c hc := by cases hc

theorem Wrote.trans {k k' k'' : Kernel} {calls calls' : List Call} (h : Wrote k k' calls)
    (h' : Wrote k' k'' calls') : Wrote k k'' (calls ++ calls') where
  sameConns := h.sameConns.trans h'.sameConns
  output fd := by rw [h'.output, h.output, bytesOn_append, List.append_assoc]
  consumed fd := (h'.consumed fd).trans (h.consumed fd)
  conn c hc := by
    rcases List.mem_append.mp hc with hc | hc
    · exact h.conn c hc
    · rw [h'.conn c hc, h.sameConns.cid]

/-- **One send writes what its call says.** -/
theorem send_wrote (k : Kernel) (node : Nat) (fd : Int) (cmdHead : Bytes) (data : Option Bytes) :
    Wrote k (k.send node fd cmdHead data).kernel (k.send node fd cmdHead data).calls := by
  have hsame := k.send_sameConns node fd cmdHead data
  cases data with
  | none =>
      rw [send_null]
      exact Wrote.refl k
  | some d =>
      by_cases hfd : fd < 0
      · rw [k.send_closed node cmdHead (some d) hfd]
        exact Wrote.refl k
      · rw [k.send_eq node cmdHead d (Int.not_lt.mp hfd)] at hsame ⊢
        refine ⟨hsame, fun fd' => ?_, fun fd' => ?_, fun c hc => ?_⟩
        · by_cases h : fd' = fd
          · subst h
            cases hc : k.conns fd' with
            | none =>
                -- no connection: the stream takes nothing
                have hdead : k.sock fd' = Sock.dead := by simp [sock, hc]
                have hzero : (k.sendTransfer fd' cmdHead).moved = 0 := by
                  rw [sendTransfer, hdead]
                  exact transferSeq_stop _ _ (Nat.ne_of_gt protocolCmdHeadLen_pos) rfl
                simp [setSock, hc, hzero, bytesOn]
            | some c =>
                rw [sock_eq (conns_setSock_self _ hc)]
                simp [bytesOn]
          · rw [k.sock_setSock_of_ne _ h]
            simp [bytesOn, Ne.symm h]
        · by_cases h : fd' = fd
          · subst h
            cases hc : k.conns fd' with
            | none => simp [setSock, hc]
            | some c => rw [sock_eq (conns_setSock_self _ hc)]
          · rw [k.sock_setSock_of_ne _ h]
        · obtain rfl := List.mem_singleton.mp hc
          rfl

end Kernel

end Icehydra
