import Icehydra.Disconnect

/-!
# Table — which node holds which descriptor

The node list is the broker's connection table. With distinct names every
positive `connfd` is an open descriptor of its own, the one that was accepted
last among those of the node's name. The other direction is weaker: a
descriptor that is open need not be in the table.
-/

namespace Icehydra

open Block NonBlock

namespace Broker

/-! ## Who has connected -/

/-- A connection that `accept_unix_tcp` has handed on; one that it turns down
after `stat` is offered to no node. -/
structure Arrival where
  cid : Nat
  fd : Int
  un : Bytes

/-- The connection that the step offers to the nodes. -/
def arrivals (s : Broker) (e : Event) : List Arrival :=
  match e with
  | .accept a => if s.dangling = false ∧ a.Taken then [⟨s.kernel.nextCid, a.fd, a.un⟩] else []
  | _ => []

/-- The last of these connections whose path matched the node. -/
def latest (as : List Arrival) (n : PubSubNode) : Option Arrival :=
  (as.filter fun a => isPeer n.name a.un).getLast?

theorem latest_concat (as : List Arrival) (a : Arrival) (n : PubSubNode) :
    latest (as ++ [a]) n = if isPeer n.name a.un = true then some a else latest as n := by
  unfold latest
  rw [List.filter_append, List.filter_cons]
  split
  · simp
  · simp

theorem isPeer_of_latest {as : List Arrival} {n : PubSubNode} {a : Arrival}
    (h : latest as n = some a) : isPeer n.name a.un = true :=
  (List.mem_filter.mp (List.mem_of_getLast? h)).2

theorem arrivals_accept {s : Broker} (hd : s.dangling = false) (a : Accepted) :
    s.arrivals (.accept a) = if a.Taken then [⟨s.kernel.nextCid, a.fd, a.un⟩] else [] := by
  simp only [arrivals, hd, true_and]

/-- The connection of an arrival. -/
def Holds (s : Broker) (n : PubSubNode) (a : Arrival) : Prop :=
  n.connfd = a.fd ∧ s.kernel.ident a.fd = some (a.cid, a.un)

/-- Every node with a positive descriptor holds the last connection that
matched it. -/
def UpToDate (s : Broker) (as : List Arrival) : Prop :=
  ∀ (j : Nat) (n : PubSubNode), s.nodes[j]? = some n → 0 < n.connfd →
    ∃ a, latest as n = some a ∧ s.Holds n a

theorem UpToDate.attached {s : Broker} {as : List Arrival} (h : s.UpToDate as) : s.Attached := by
  intro j n hn hpos
  obtain ⟨a, hlast, hfd, hid⟩ := h j n hn hpos
  exact ⟨a.cid, a.un, by rw [hfd, hid], isPeer_of_latest hlast⟩

theorem UpToDate.init (cfg : Config) : cfg.init.UpToDate [] := by
  intro j n hn hpos
  have hzero := cfg.connfd_zero n (List.mem_of_getElem? hn)
  omega

/-- The accept branch, with its arrival. -/
theorem UpToDate.accept {s : Broker} {as : List Arrival} (h : s.UpToDate as) {a : Accepted}
    (ha : a.Valid s) : (s.acceptBranch a).UpToDate (as ++ s.arrivals (.accept a)) := by
  rw [arrivals_accept h.attached.not_dangling]
  have hold : ∀ n ∈ s.nodes, 0 < n.connfd →
      ∃ b, latest as n = some b ∧ (s.acceptBranch a).Holds n b := by
    intro n hn hpos
    obtain ⟨j, hj⟩ := List.mem_iff_getElem?.mp hn
    obtain ⟨b, hlast, hfd, hid⟩ := h j n hj hpos
    refine ⟨b, hlast, hfd, ?_⟩
    rw [Kernel.ident, ← hfd, h.attached.conns_acceptBranch ha hn, hfd]
    exact hid
  by_cases ht : a.Taken
  · rw [if_pos ht]
    intro j n' hn' hpos
    rw [s.acceptBranch_eq] at hn'
    simp only [if_pos ht, attach, List.getElem?_map] at hn'
    obtain ⟨n, hn, heq⟩ := Option.map_eq_some_iff.mp hn'
    rw [latest_concat]
    split at heq
    · -- the node matches: the new connection is its last one
      rename_i hpeer
      subst heq
      rw [if_pos hpeer]
      exact ⟨_, rfl, rfl, Kernel.ident_eq (conns_acceptBranch_self ht)⟩
    · rename_i hpeer
      subst heq
      rw [if_neg hpeer]
      exact hold n (List.mem_of_getElem? hn) hpos
  · rw [if_neg ht, List.append_nil]
    intro j n hn hpos
    rw [s.acceptBranch_eq] at hn
    simp only [if_neg ht] at hn
    exact hold n (List.mem_of_getElem? hn) hpos

/-- A step that is no accept brings no arrival. -/
theorem step_arrivals {s s' : Broker} {e : Event} (hs : step s e = some s') :
    s.arrivals e = [] ∨ ∃ a, e = .accept a ∧ a.Valid s ∧ s' = s.acceptBranch a := by
  cases step_cases hs with
  | @dangling e _ hd =>
      left
      cases e <;> simp [arrivals, hd]
  | selectError | timeout | ready | scan | handle => exact .inl rfl
  | accept _ _ ha => exact .inr ⟨_, rfl, ha, rfl⟩

/-- **Every step keeps the table up to date.** -/
theorem UpToDate.step {cfg : Config} {s s' : Broker} {e : Event} {as : List Arrival}
    (hnames : (cfg.nodes.map PubSubNode.name).Nodup) (hinv : Inv cfg s) (h : s.UpToDate as)
    (hs : Icehydra.step s e = some s') : s'.UpToDate (as ++ s.arrivals e) := by
  rcases step_arrivals hs with hnone | ⟨a, rfl, ha, rfl⟩
  · rw [hnone, List.append_nil]
    cases step_change hinv hs with
    | same hnodes hsame =>
        intro j n hn hpos
        rw [hnodes] at hn
        obtain ⟨a, hlast, hfd, hid⟩ := h j n hn hpos
        exact ⟨a, hlast, hfd, (hsame.2 a.fd).trans hid⟩
    | @closed _ _ k m hclose hk hnodes hident =>
        intro j n hn hpos
        rw [hnodes] at hn
        obtain ⟨hjk, hn⟩ := getElem?_of_closed hk hn hpos
        obtain ⟨a, hlast, hfd, hid⟩ := h j n hn hpos
        have hother : ¬ (0 < m.connfd ∧ a.fd = m.connfd) := by
          rintro ⟨hm, heq⟩
          exact hjk (h.attached.alone (names_nodup hinv hnames) k j m n hk hn hm (hfd.trans heq))
        exact ⟨a, hlast, hfd, by rw [hident, if_neg hother, hid]⟩
    | accepted _ ha =>
        have hacc := h.accept ha
        rwa [hnone, List.append_nil] at hacc
  · exact h.accept ha

/-! ## The descriptors of the system calls -/

/-- The step from `s` calls `recv`, `send` or `close` on the descriptor. No
`close` comes before another of these calls in one step. -/
inductive Uses (s : Broker) (fd : Int) : Prop
  | recv {i rset cur} : s.Receives i rset cur → fd = cur.connfd → Uses s fd
  | send {i rset cur c} : s.pc = .handle i rset → s.nodes[i]? = some cur →
      c ∈ (s.outgoing i cur).calls → fd = c.fd → Uses s fd
  | close {j n} : s.Closes j → s.nodes[j]? = some n → 0 < n.connfd → fd = n.connfd → Uses s fd

/-- Every such call is on a node's descriptor. -/
theorem Uses.node {cfg : Config} {s : Broker} (hinv : Inv cfg s) {fd : Int} (h : s.Uses fd) :
    ∃ n ∈ s.nodes, fd = n.connfd := by
  cases h with
  | recv hrecv hfd => exact ⟨_, List.mem_of_getElem? hrecv.2.1, hfd⟩
  | close _ hn _ hfd => exact ⟨_, List.mem_of_getElem? hn, hfd⟩
  | @send i rset cur c hpc hcur hc hfd =>
      obtain ⟨n, hn, hcfd⟩ := outgoing_node (hinv.holding i rset hpc).rbuf_length hcur hc
      exact ⟨n, List.mem_of_getElem? hn, hfd.trans hcfd⟩

/-- What is asked of the connection table. -/
structure Table (s : Broker) (as : List Arrival) : Prop where
  distinct : ∀ (j j' : Nat) (n n' : PubSubNode), s.nodes[j]? = some n → s.nodes[j']? = some n' →
    0 < n.connfd → n'.connfd = n.connfd → j' = j
  latest : ∀ n ∈ s.nodes, 0 < n.connfd → ∃ c, s.kernel.conns n.connfd = some c ∧
    latest as n = some ⟨c.cid, n.connfd, c.un⟩
  used_open : ∀ fd, 0 < fd → s.Uses fd → s.kernel.conns fd ≠ none
  not_dangling : s.dangling = false
  not_badDescriptor : s.pc ≠ .exited .badDescriptor

/-- The loop is not left because of a descriptor. -/
theorem UpToDate.not_badDescriptor {cfg : Config} {s s' : Broker} {e : Event} {as : List Arrival}
    (hinv : Inv cfg s) (h : s.UpToDate as) (hs : Icehydra.step s e = some s') :
    s'.pc ≠ .exited .badDescriptor := by
  cases step_cases hs with
  | dangling _ hd =>
      rw [h.attached.not_dangling] at hd
      cases hd
  | selectError | ready => simp
  | timeout hpc => simp [hpc]
  | accept hpc =>
      rw [s.acceptBranch_eq]
      simp [hpc]
  | @scan i rset _ =>
      have hscan := s.scanned i rset
      generalize s.scanNode i rset = t at hscan ⊢
      cases hscan with
      | done | skip | failed | got => simp
  | @handle i rset hpc =>
      obtain ⟨cur, hcur⟩ := (hinv.holding i rset hpc).node
      rw [handleFrame_eq hcur]
      split
      · simp
      · split <;> simp

theorem upToDate_of_noted {cfg : Config} (hnames : (cfg.nodes.map PubSubNode.name).Nodup)
    {s : Broker} {as : List Arrival} (h : Runs.Noted step Runs.anyStep arrivals cfg.init s as) :
    Reachable cfg Runs.anyStep s ∧ s.UpToDate as ∧ s.pc ≠ .exited .badDescriptor := by
  refine h.invariant_of (I := fun s as => s.UpToDate as ∧ s.pc ≠ .exited .badDescriptor)
    (fun t ht => inv_of_reachable ht) ⟨UpToDate.init cfg, by simp [Config.init]⟩ ?_
  rintro t as e t' hinv ⟨hup, -⟩ - hs
  exact ⟨hup.step hnames hinv hs, hup.not_badDescriptor hinv hs⟩

/-- **The connection table.** With distinct names it is in order after every
run. -/
theorem connection_table (cfg : Config) (hnames : (cfg.nodes.map PubSubNode.name).Nodup)
    (s : Broker) (as : List Arrival) (h : Runs.Noted step Runs.anyStep arrivals cfg.init s as) :
    s.Table as := by
  obtain ⟨hrun, hup, hpc⟩ := upToDate_of_noted hnames h
  have hinv := inv_of_reachable hrun
  have hlatest : ∀ n ∈ s.nodes, 0 < n.connfd → ∃ c, s.kernel.conns n.connfd = some c ∧
      latest as n = some ⟨c.cid, n.connfd, c.un⟩ := by
    intro n hn hpos
    obtain ⟨j, hj⟩ := List.mem_iff_getElem?.mp hn
    obtain ⟨a, hlast, hfd, hid⟩ := hup j n hj hpos
    obtain ⟨c, hc, hcid, hun⟩ := Kernel.conns_of_ident hid
    refine ⟨c, by rw [hfd, hc], ?_⟩
    rw [hlast, hfd, hcid, hun]
  refine ⟨?_, hlatest, ?_, hup.attached.not_dangling, hpc⟩
  · intro j j' n n' hn hn' hpos heq
    exact hup.attached.alone (names_nodup hinv hnames) j j' n n' hn hn' hpos heq
  · intro fd hpos hfd
    obtain ⟨n, hn, rfl⟩ := hfd.node hinv
    obtain ⟨c, hc, -⟩ := hlatest n hn hpos
    simp [hc]

/-- `a` connects, and connects again before its first connection is noticed to
be gone; then its second one ends. -/
theorem connection_table_again :
    ∃ s as, Runs.Noted step Runs.anyStep arrivals trio.init s as ∧ as.length = 3 ∧ s.Table as ∧
      s.nodes.map PubSubNode.connfd = [-1, 6, 0] := by
  let gone : Sock := { Sock.eager [] with recvs := Stream'.const (.stop .zero) }
  have hrun : (Runs.run (Runs.noting step arrivals) Runs.unchecked (trio.init, [])
      [.accept (.client 5 [97] (.eager [])), .accept (.client 6 [98] (.eager [])),
        .accept (.client 7 [97] gone), .readyOf [7], .next, .next, .next, .next]).any
      (fun p => decide (p.2.length = 3) && decide (p.1.nodes.map PubSubNode.connfd = [-1, 6, 0]))
      = true := by decide +kernel
  obtain ⟨⟨s, as⟩, hs, hP⟩ := Runs.Reaches.of_run_unchecked hrun
  simp only [Bool.and_eq_true, decide_eq_true_eq] at hP
  exact ⟨s, as, hs, hP.1, connection_table trio (by decide) s as hs, hP.2⟩

/-! ## Descriptors without an owner -/

/-- Every open connection is some node's. -/
def Owned (s : Broker) : Prop :=
  ∀ fd c, s.kernel.conns fd = some c → ∃ n ∈ s.nodes, n.connfd = fd

theorem owned_iff {s : Broker} :
    s.Owned ↔ ∀ fd, s.kernel.ident fd ≠ none → ∃ n ∈ s.nodes, n.connfd = fd := by
  constructor
  · intro h fd hid
    obtain ⟨p, hp⟩ := Option.ne_none_iff_exists'.mp hid
    obtain ⟨c, hc, -⟩ := Kernel.conns_of_ident hp
    exact h fd c hc
  · intro h fd c hc
    exact h fd (by simp [Kernel.ident_eq hc])

/-- The accept branch finds a node for the connection, and no node that takes
it drops an open one for it. -/
structure Housed (s : Broker) (a : Accepted) : Prop where
  taken : a.Taken
  matched : ∃ n ∈ s.nodes, isPeer n.name a.un = true
  vacant : ∀ n ∈ s.nodes, isPeer n.name a.un = true → s.kernel.conns n.connfd = none

/-- Every connection that is accepted is housed. -/
def Houses (s : Broker) (e : Event) : Prop := ∀ a, e = .accept a → 0 ≤ a.fd → s.Housed a

theorem Owned.accept {s : Broker} (h : s.Owned) {a : Accepted} (hok : 0 ≤ a.fd → s.Housed a) :
    (s.acceptBranch a).Owned := by
  intro fd c hc
  rw [s.acceptBranch_eq] at hc ⊢
  by_cases hfd : 0 ≤ a.fd
  · obtain ⟨ht, ⟨n, hn, hpeer⟩, hvacant⟩ := hok hfd
    simp only [if_pos ht, attach, List.mem_map]
    by_cases heq : fd = a.fd
    · exact ⟨{ n with connfd := a.fd }, ⟨n, hn, if_pos hpeer⟩, heq.symm⟩
    · simp only [if_pos hfd, s.kernel.conns_accept_of_ne heq] at hc
      obtain ⟨m, hm, rfl⟩ := h fd c hc
      refine ⟨m, ⟨m, hm, if_neg fun hpeer => ?_⟩, rfl⟩
      rw [hvacant m hm hpeer] at hc
      cases hc
  · simp only [if_neg hfd, if_neg (fun ht : a.Taken => hfd ht.1)] at hc ⊢
    exact h fd c hc

/-- **What an accept does to the owners**: the condition is exact. -/
theorem owned_acceptBranch_iff {cfg : Config} {s : Broker} (hinv : Inv cfg s) (h : s.Owned)
    (hatt : s.Attached) {a : Accepted} (ha : a.Valid s) (hfd : 0 ≤ a.fd) :
    (s.acceptBranch a).Owned ↔ s.Housed a := by
  refine ⟨fun hown => ?_, fun hok => h.accept fun _ => hok⟩
  obtain ⟨hpos, hfree⟩ := ha.free hfd
  have hold : ∀ n ∈ s.nodes, n.connfd ≠ a.fd := by
    intro n hn heq
    obtain ⟨j, hj⟩ := List.mem_iff_getElem?.mp hn
    obtain ⟨cid, un, hid, -⟩ := hatt j n hj (by omega)
    rw [heq, Kernel.ident, hfree] at hid
    cases hid
  have hself : (s.acceptBranch a).kernel.conns a.fd = some (a.conn s.kernel.nextCid) := by
    rw [s.acceptBranch_eq]
    simp only [if_pos hfd]
    exact s.kernel.conns_accept_self a
  obtain ⟨n', hn', hnfd⟩ := hown a.fd _ hself
  rcases mem_acceptBranch hn' with hmem | ⟨ht, n, hn, hpeer, -⟩
  · exact absurd hnfd (hold n' hmem)
  refine ⟨ht, ⟨n, hn, hpeer⟩, fun m hm hmpeer => ?_⟩
  cases hc : s.kernel.conns m.connfd with
  | none => rfl
  | some c =>
      -- the old connection of `m` is still open, so another node has it
      have hc' : (s.acceptBranch a).kernel.conns m.connfd = some c := by
        rw [conns_acceptBranch_of_ne (hold m hm), hc]
      obtain ⟨w', hw', hwfd⟩ := hown _ c hc'
      rw [s.acceptBranch_eq] at hw'
      simp only [if_pos ht, attach, List.mem_map] at hw'
      obtain ⟨w, hw, heq⟩ := hw'
      split at heq
      · subst heq
        exact absurd hwfd.symm (hold m hm)
      · rename_i hwpeer
        subst heq
        rw [hatt.name_eq hm hw (hinv.ledger.conns_pos hc) hwfd] at hwpeer
        exact absurd hmpeer hwpeer

/-- Only an accept can leave a connection without an owner. -/
theorem Owned.step {cfg : Config} {s s' : Broker} {e : Event} (hinv : Inv cfg s) (h : s.Owned)
    (hok : s.Houses e) (hs : Icehydra.step s e = some s') : s'.Owned := by
  cases step_change hinv hs with
  | same hnodes hsame =>
      rw [owned_iff] at h ⊢
      intro fd hid
      rw [hnodes]
      exact h fd (by rwa [← hsame.2 fd])
  | @closed _ _ k m _ hk hnodes hident =>
      rw [owned_iff] at h ⊢
      intro fd hid
      rw [hident] at hid
      obtain ⟨n, hn, hfd⟩ := h fd fun hnone => hid (by rw [hnone, ite_self])
      obtain ⟨j, hj⟩ := List.mem_iff_getElem?.mp hn
      by_cases hjk : j = k
      · -- the node that was closed: its descriptor is not open any more
        subst hjk
        obtain rfl := Option.some.inj (hk.symm.trans hj)
        exfalso
        obtain ⟨p, hp⟩ := Option.ne_none_iff_exists'.mp hid
        split at hp
        · cases hp
        · rename_i hnot
          obtain ⟨c, hc, -⟩ := Kernel.conns_of_ident hp
          have hpos := hinv.ledger.conns_pos hc
          exact hnot ⟨by omega, hfd.symm⟩
      · refine ⟨n, ?_, hfd⟩
        rw [hnodes]
        exact List.mem_of_getElem? ((List.getElem?_set_ne (Ne.symm hjk)).trans hj)
  | @accepted a => exact h.accept (hok a rfl)

/-- Distinct descriptors that are open belong to distinct nodes. -/
theorem Owned.length_le {s : Broker} (h : s.Owned) {fds : List Int} (hnodup : fds.Nodup)
    (hopen : ∀ fd ∈ fds, s.kernel.conns fd ≠ none) : fds.length ≤ s.nodes.length := by
  have hsub : fds ⊆ s.nodes.map PubSubNode.connfd := by
    intro fd hfd
    obtain ⟨c, hc⟩ := Option.ne_none_iff_exists'.mp (hopen fd hfd)
    obtain ⟨n, hn, rfl⟩ := h fd c hc
    exact List.mem_map_of_mem hn
  have hle := (List.subperm_of_subset hnodup hsub).length_le
  rwa [List.length_map] at hle

/-- **Descriptors are not lost.** As long as every accepted connection is housed,
each open one is some node's, and there are no more of them than nodes. -/
theorem descriptors_owned (cfg : Config) (s : Broker) (h : Reachable cfg Houses s) :
    s.Owned ∧ ∀ fds : List Int, fds.Nodup → (∀ fd ∈ fds, s.kernel.conns fd ≠ none) →
      fds.length ≤ cfg.nodes.length := by
  have hown : s.Owned := by
    refine Runs.Reaches.invariant_of (J := Inv cfg) (I := Owned) h
      (fun t ht => inv_of_reachable ht) (fun fd c hc => by cases hc) ?_
    exact fun s e s' hinv hown hok hs => hown.step hinv hok hs
  refine ⟨hown, fun fds hnodup hopen => ?_⟩
  have hlen := congrArg List.length (inv_of_reachable h).static
  rw [staticOf, staticOf, List.length_map, List.length_map] at hlen
  rw [← hlen]
  exact hown.length_le hnodup hopen

/-- A check that is enough for `Houses`. -/
def checkHouses (s : Broker) (e : Event) : Bool :=
  match e with
  | .accept a =>
      decide a.Taken && (s.nodes.any fun n => isPeer n.name a.un) &&
        s.nodes.all fun n => !isPeer n.name a.un || (s.kernel.conns n.connfd).isNone
  | _ => true

theorem houses_of_check (s : Broker) (e : Event) (h : s.checkHouses e = true) : s.Houses e := by
  rintro a rfl -
  simp only [checkHouses, Bool.and_eq_true, decide_eq_true_eq, List.any_eq_true, List.all_eq_true,
    Bool.or_eq_true, Bool.not_eq_true', Option.isNone_iff_eq_none] at h
  obtain ⟨⟨ht, hmatched⟩, hvacant⟩ := h
  refine ⟨ht, hmatched, fun n hn hpeer => ?_⟩
  rcases hvacant n hn with hnot | hnone
  · rw [hpeer] at hnot
    cases hnot
  · exact hnone

/-- `a` connects, goes away, and connects again. -/
theorem descriptors_owned_again :
    ∃ s, Reachable trio Houses s ∧ s.Owned ∧ s.nodes.map PubSubNode.connfd = [7, 0, 0] := by
  let gone : Sock := { Sock.eager [] with recvs := Stream'.const (.stop .zero) }
  have hrun : (Runs.run step checkHouses trio.init
      [.accept (.client 5 [97] gone), .readyOf [5], .next, .next, .next, .next,
        .accept (.client 7 [97] (.eager []))]).any
      (fun s => decide (s.nodes.map PubSubNode.connfd = [7, 0, 0])) = true := by decide +kernel
  obtain ⟨s, hs, hP⟩ := Runs.Reaches.of_run houses_of_check hrun
  exact ⟨s, hs, (descriptors_owned trio s hs).1, by simpa using hP⟩

/-- **A stranger's descriptor stays open.** The client `z` is no node; it is
accepted, no node takes its connection, and nothing closes it. -/
theorem stranger_stays_open :
    ∃ s, Reachable trio Runs.anyStep s ∧ s.pc = .select ∧ ¬ s.Owned := by
  have hrun : (Runs.run step Runs.unchecked trio.init
      [.accept (.client 5 [122] (.eager [])), .timeout]).any
      (fun s => s.pc.scanned.isNone && s.pc.handled.isNone && s.pc.exit.isNone &&
        (s.kernel.conns 5).isSome && s.nodes.all fun n => decide (n.connfd ≠ 5)) = true := by
    decide +kernel
  obtain ⟨s, hs, hP⟩ := Runs.Reaches.of_run_unchecked hrun
  simp only [Bool.and_eq_true, List.all_eq_true, decide_eq_true_eq, Option.isSome_iff_exists,
    Option.isNone_iff_eq_none] at hP
  obtain ⟨⟨⟨⟨hscan, hhandle⟩, hexit⟩, c, hc⟩, hall⟩ := hP
  refine ⟨s, hs, Pc.eq_select hscan hhandle hexit, fun hown => ?_⟩
  obtain ⟨n, hn, hfd⟩ := hown 5 c hc
  exact hall n hn hfd

end Broker

/-! ## Whose connection it is -/

/-- **What the comparison lets through**: the name between any nine and any
five bytes. -/
theorem isPeer_iff {name un : Bytes} (hname : name.length < 32) (hun : un.length < 2 ^ 64) :
    isPeer name un = true ↔
      ∃ p q, p.length = namePrefixLen ∧ q.length = sockNameSuffixLen ∧ un = p ++ name ++ q := by
  have hp : namePrefixLen = 9 := rfl
  have hq : sockNameSuffixLen = 5 := rfl
  simp only [isPeer, Bool.and_eq_true, beq_iff_eq]
  constructor
  · rintro ⟨hmid, hlen⟩
    -- a path shorter than prefix and suffix would leave a length near 2^64
    have hun' : un.length = 9 + name.length + 5 := by omega
    refine ⟨un.take 9, un.drop (9 + name.length), ?_, ?_, ?_⟩
    · rw [List.length_take]
      omega
    · rw [List.length_drop]
      omega
    · have hsplit : un.drop 9 = name ++ un.drop (9 + name.length) := by
        calc un.drop 9
            = (un.drop 9).take name.length ++ (un.drop 9).drop name.length :=
              (List.take_append_drop _ _).symm
          _ = name ++ un.drop (9 + name.length) := by rw [← hp, hmid, hp, List.drop_drop]
      rw [List.append_assoc, ← hsplit, List.take_append_drop]
  · rintro ⟨p, q, hlp, hlq, rfl⟩
    have hlen : (p ++ name ++ q).length = p.length + name.length + q.length := by
      rw [List.length_append, List.length_append]
    refine ⟨?_, by omega⟩
    rw [List.append_assoc, ← hlp, List.drop_left, List.take_left]

/-- The name stands in the path at the right place, but not between the prefix
and the suffix of the client library. -/
def Disguised (name un : Bytes) : Prop :=
  ∃ p q, p.length = namePrefixLen ∧ q.length = sockNameSuffixLen ∧ un = p ++ name ++ q ∧
    ¬ (p = namePrefix ∧ q = sockNameSuffix)

/-- Prefix and suffix are at fixed places. -/
theorem not_disguised_iff {name un : Bytes} (hname : name.length < 32) (hun : un.length < 2 ^ 64) :
    ¬ Disguised name un ↔ (isPeer name un = true ↔ un = nameFix name) := by
  rw [isPeer_iff hname hun]
  constructor
  · intro hnot
    constructor
    · rintro ⟨p, q, hp, hq, rfl⟩
      have hsame : p = namePrefix ∧ q = sockNameSuffix := by
        by_contra hne
        exact hnot ⟨p, q, hp, hq, rfl, hne⟩
      rw [hsame.1, hsame.2, nameFix]
    · rintro rfl
      exact ⟨namePrefix, sockNameSuffix, rfl, rfl, rfl⟩
  · rintro hiff ⟨p, q, hp, hq, rfl, hne⟩
    have heq : p ++ name ++ q = nameFix name := hiff.mp ⟨p, q, hp, hq, rfl⟩
    rw [nameFix] at heq
    obtain ⟨hfront, hback⟩ := List.append_inj' heq hq
    exact hne ⟨(List.append_inj hfront hp).1, hback⟩

namespace Broker

theorem acceptBranch_attaches_iff {s : Broker} {a : Accepted} (ht : a.Taken) {j : Nat}
    {n : PubSubNode} (hn : s.nodes[j]? = some n) (hnew : n.connfd ≠ a.fd) :
    (s.acceptBranch a).nodes[j]? = some { n with connfd := a.fd } ↔ isPeer n.name a.un = true := by
  rw [s.acceptBranch_eq]
  simp only [if_pos ht, attach, List.getElem?_map, hn, Option.map_some, Option.some.injEq]
  split
  · rename_i hpeer
    simp [hpeer]
  · rename_i hpeer
    simp only [hpeer, Bool.false_eq_true, iff_false]
    intro heq
    exact hnew (congrArg PubSubNode.connfd heq)

/-- **Peer identity.** The accept branch gives a new descriptor to the node
exactly when the path is the one the client library builds from its name,
unless the path is a disguise. -/
theorem peer_identity_iff (s : Broker) (a : Accepted) (ht : a.Taken) (j : Nat) (n : PubSubNode)
    (hn : s.nodes[j]? = some n) (hname : n.name.length < 32) (hun : a.un.length < 2 ^ 64)
    (hnew : n.connfd ≠ a.fd) :
    ((s.acceptBranch a).nodes[j]? = some { n with connfd := a.fd } ↔ a.un = nameFix n.name) ↔
      ¬ Disguised n.name a.un := by
  rw [acceptBranch_attaches_iff ht hn hnew, not_disguised_iff hname hun]

/-- `a` connects under its own path. -/
theorem peer_identity_own :
    ((trio.init.acceptBranch (.client 5 [97] (.eager []))).nodes[0]?
        = some { name := [97], id := 1, connfd := 5 } ↔
      (Accepted.client 5 [97] (.eager [])).un = nameFix [97]) := by
  have hnot : ¬ Disguised [97] (Accepted.client 5 [97] (.eager [])).un := by
    rintro ⟨p, q, hp, hq, heq, hne⟩
    obtain ⟨hfront, hback⟩ := List.append_inj' (heq.symm.trans (show _ = nameFix [97] by decide)) hq
    exact hne ⟨(List.append_inj hfront hp).1, hback⟩
  exact (peer_identity_iff trio.init (.client 5 [97] (.eager [])) (by decide) 0
    { name := [97], id := 1 } rfl (by decide) (by decide) (by decide)).mpr hnot

/-- **A foreign socket takes the place of `a`**: it is bound to
`/tmp/aaa/a.sock`. -/
theorem disguise_attaches :
    let un : Bytes := [47, 116, 109, 112, 47, 97, 97, 97, 47, 97, 46, 115, 111, 99, 107]
    let a : Accepted := { Accepted.client 5 [97] (.eager []) with sunPath := un }
    (trio.init.acceptBranch a).nodes[0]? = some { name := [97], id := 1, connfd := 5 } ∧
      a.un ≠ nameFix [97] :=
  ⟨rfl, by decide⟩

end Broker

end Icehydra
