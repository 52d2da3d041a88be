import Icehydra.Delivery
import Icehydra.Network
import Mathlib.Data.List.Nodup

/-!
# Settled — nothing is lost while nothing fails

`Network` says what a process may have been told. Here the broker's calls go
through, and the processes do nothing but send broadcasts and receive. Once the
broker has handled what was sent to it, and a process has read what was sent to
that process, it has been told everything that was meant for it, once.
-/

namespace Icehydra

open Block NonBlock PrefixCode Runs
open scoped List

/-! ## The processes -/

/-- A broadcast or a receive. -/
def Op.Plain : Op → Prop
  | .sendBroadcastData _ | .recvData => True
  | _ => False

instance : (op : Op) → Decidable op.Plain
  | .sendBroadcastData _ | .recvData => .isTrue trivial
  | .sendGetShmIDsCmd | .getShmInfos _ _ | .round _ | .waitOtherProcess => .isFalse id

/-- Every frame that has come in has been reported. -/
structure Process.Heard (p : Process) : Prop where
  asking : p.asking = none
  got : ∃ (fs : List Frame) (part : Bytes),
    p.client.sock.consumed = fs.flatMap Frame.bytes ++ part ∧ Unfinished Frame.bytes part ∧
      (part = [] ∨ p.client.connfd < 0) ∧ p.got = fs.map Frame.reading

/-- A receive that falls short has brought a piece of a frame. -/
theorem Sock.cut_unfinished {s : Sock} (h : ¬ s.Whole) :
    Unfinished Frame.bytes (s.input.take (recvTransfer s).moved) := by
  have hle := s.moved_le
  have hlt : (recvTransfer s).moved < (nextFrame s).bytes.length := by
    have hne := mt s.whole_iff.mpr h
    rw [nextFrame_bytes_length] at hle ⊢
    omega
  have htake : s.input.take (recvTransfer s).moved
      = (nextFrame s).bytes.take (recvTransfer s).moved := by
    rw [nextFrame_bytes, Stream'.take_take, Nat.min_eq_right hle]
  rw [htake]
  apply Frame.prefixCode.unfinished_of_prefix (List.take_prefix _ _)
  intro heq
  have hlen := congrArg List.length heq
  rw [List.length_take] at hlen
  omega

namespace Process

variable {p p' : Process}

theorem Fresh.heard (h : p.Fresh) : p.Heard where
  asking := h.asking
  got := by
    refine ⟨[], [], ?_, Frame.prefixCode.unfinished_nil, .inl rfl, ?_⟩
    · rw [h.consumed]
      rfl
    · rw [h.got]
      rfl

/-- A receive. -/
theorem Heard.recv (h : p.Heard) : (p.heard (ihRecvData p.client true)).Heard where
  asking := h.asking
  got := by
    obtain ⟨fs, part, hcons, hun, hlast, hgot⟩ := h.got
    rcases Int.lt_or_le p.client.connfd 0 with hclosed | hfd
    · have hnone : ihRecvData p.client true = ⟨p.client, [], none, -1⟩ := if_pos hclosed
      rw [hnone]
      exact ⟨fs, part, hcons, hun, hlast, by rw [← hgot]; exact List.append_nil _⟩
    · have hpart := hlast.resolve_right (Int.not_lt.mpr hfd)
      rw [hpart, List.append_nil] at hcons
      by_cases hw : p.client.sock.Whole
      · rw [ihRecvData_whole hw hfd]
        refine ⟨fs ++ [nextFrame p.client.sock], [], ?_, Frame.prefixCode.unfinished_nil, .inl rfl,
          ?_⟩
        · show p.client.sock.consumed ++ (nextFrame p.client.sock).bytes = _
          rw [hcons, List.flatMap_append, List.flatMap_singleton, List.append_nil]
        · have hret := (nextFrame p.client.sock).reading_ret
          show p.got ++ (if (nextFrame p.client.sock).reading.ret < 0 then []
            else [(nextFrame p.client.sock).reading]) = _
          rw [if_neg hret, hgot, List.map_append]
          rfl
      · obtain ⟨hret, hclient⟩ := ihRecvData_short hw hfd
        refine ⟨fs, p.client.sock.input.take (recvTransfer p.client.sock).moved, ?_,
          Sock.cut_unfinished hw, .inr ?_, ?_⟩
        · simp only [heard, hclient]
          show p.client.sock.consumed ++ _ = _
          rw [hcons]
        · simp only [heard, hclient]
          decide
        · simp only [heard, hret, hgot]
          exact List.append_nil _

/-- A broadcast. -/
theorem Heard.wrote (h : p.Heard) {cmd : IhBroadcastCmd} (hfits : cmd.Fits) (m : Post) :
    (p.wrote m (ihSendBroadcastData p.client cmd)).Heard where
  asking := h.asking
  got := by
    obtain ⟨fs, part, hcons, hun, hlast, hgot⟩ := h.got
    rcases Int.lt_or_le p.client.connfd 0 with hclosed | hfd
    · have hsame : (ihSendBroadcastData p.client cmd).1 = p.client := by
        rw [ihSendBroadcastData, if_pos hclosed]
      refine ⟨fs, part, ?_, hun, .inr ?_, hgot⟩
      · simp only [Process.wrote, hsame, hcons]
      · simpa only [Process.wrote, hsame] using hclosed
    · refine ⟨fs, part, ?_, hun, .inl (hlast.resolve_right (Int.not_lt.mpr hfd)), hgot⟩
      exact (sendBroadcastData_consumed hfd hfits.sized).trans hcons

theorem Heard.run (h : p.Heard) {op : Op} (hop : op.Plain) (hok : p.Orderly op)
    (hrun : p.run op = some p') : p'.Heard := by
  obtain ⟨-, hran⟩ := run_cases hrun
  cases hran with
  | broadcast => exact h.wrote hok.1 _
  | recv => exact h.recv
  | request | infos | num | info | wait => exact hop.elim

end Process

/-! ## The network -/

namespace Network

/-- The process is connected; the broker has handled all the frames it was sent,
and the process has read all that it was sent. -/
structure Settled (n : Network) (cid : Nat) : Prop where
  connected : ∃ m ∈ n.broker.nodes, ∃ c, n.broker.kernel.conns m.connfd = some c ∧ c.cid = cid
  handled : ∀ src, ∃ rest, (n.procs src).client.sock.output
    = (framesFrom n.broker.log src).flatMap Frame.bytes ++ rest ∧ Unfinished Frame.bytes rest
  read : (n.procs cid).client.sock.consumed = (callsOn n.broker.log cid).flatMap Call.bytes

/-- What such a run keeps beside the invariant of `Network`. -/
structure Well (n : Network) : Prop where
  fifo : n.broker.Fifo
  relays : ∀ v ∈ n.broker.log, Broker.Relays v.frame.head
  heard : ∀ cid, (n.procs cid).Heard

variable {cfg : Config} {n n' : Network}

theorem Well.broker (h : n.Well) (hinv : Inv cfg n.broker)
    (hnames : (cfg.nodes.map PubSubNode.name).Nodup) {e : Event} {b : Broker}
    (hok : n.broker.NothingFails e) (hs : Icehydra.step n.broker e = some b) :
    Well { n with broker := b } where
  fifo := h.fifo.step hnames hinv hok hs
  relays := by
    intro v hv
    rcases step_log hinv hs with hsame | ⟨i, rset, cur, hpc, -, hnew⟩
    · apply h.relays v
      rw [← hsame]
      exact hv
    · have hv' : v ∈ n.broker.log ++ [_] := hnew ▸ hv
      rcases List.mem_append.mp hv' with hold | hlast
      · exact h.relays v hold
      · rw [List.mem_singleton.mp hlast]
        exact (hok.wellFormed i rset hpc).relays
  heard := h.heard

theorem Well.process (h : n.Well) {cid : Nat} {op : Op} {p : Process} (hop : op.Plain)
    (hok : (n.procs cid).Orderly op) (hrun : (n.procs cid).run op = some p) :
    Well { n with procs := Function.update n.procs cid p } where
  fifo := h.fifo
  relays := h.relays
  heard := by
    apply (Function.forall_update_iff n.procs fun _ q => q.Heard).mpr
    exact ⟨(h.heard cid).run hop hok hrun, fun c _ => h.heard c⟩

end Network

end Icehydra
