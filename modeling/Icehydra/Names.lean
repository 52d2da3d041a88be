import Icehydra.Discovery
import Icehydra.Table
import Mathlib.Data.List.TakeWhile

/-!
# Names — a node by its name, and a path from it

`find_node_by_name` of `src/conf.c` beside the comparison in the accept branch,
and the three functions that handle a path: `name_fix` of
`src/icehydra_util.c`, `creat_bind_unix_tcp` and `connect_unix_tcp` of
`src/unix_socket.c`, as `ih_subscriber_create_connect` calls them.
-/

namespace Icehydra

/-! ## find_node_by_name -/

/-- The position of the first node that `isStrSameN` takes for this name; it
compares as many bytes as the node's own name has. -/
def findNodeByName (nodes : List PubSubNode) (name : Bytes) : Option Nat :=
  nodes.findIdx? fun n => name.take n.name.length == n.name

theorem findNodeByName_eq_some {nodes : List PubSubNode} {name : Bytes} {j : Nat} :
    findNodeByName nodes name = some j ↔
      (∃ n, nodes[j]? = some n ∧ n.name <+: name) ∧
        ∀ i n, i < j → nodes[i]? = some n → ¬ n.name <+: name := by
  have hbeg : ∀ n : PubSubNode,
      (name.take n.name.length == n.name) = true ↔ n.name <+: name := by
    intro n
    rw [beq_iff_eq, List.prefix_iff_eq_take, eq_comm]
  rw [findNodeByName, List.findIdx?_eq_some_iff_getElem]
  constructor
  · rintro ⟨hj, hmatch, hbefore⟩
    refine ⟨⟨nodes[j], List.getElem?_eq_getElem hj, (hbeg _).mp hmatch⟩, fun i n hi hn => ?_⟩
    obtain ⟨hlt, rfl⟩ := List.getElem?_eq_some_iff.mp hn
    exact fun hpre => hbefore i hi ((hbeg _).mpr hpre)
  · rintro ⟨⟨n, hn, hpre⟩, hbefore⟩
    obtain ⟨hj, rfl⟩ := List.getElem?_eq_some_iff.mp hn
    refine ⟨hj, (hbeg _).mpr hpre, fun i hi hmatch => ?_⟩
    exact hbefore i _ hi (List.getElem?_eq_getElem _) ((hbeg _).mp hmatch)

/-- A node whose name begins this one is found, unless one in front of it is. -/
theorem exists_findNodeByName {nodes : List PubSubNode} {name : Bytes} {i : Nat} {n : PubSubNode}
    (hn : nodes[i]? = some n) (hpre : n.name <+: name) :
    ∃ j, j ≤ i ∧ findNodeByName nodes name = some j := by
  induction i using Nat.strong_induction_on generalizing n with
  | _ i ih =>
      by_cases hfirst : ∀ k m, k < i → nodes[k]? = some m → ¬ m.name <+: name
      · exact ⟨i, Nat.le_refl i, findNodeByName_eq_some.mpr ⟨⟨n, hn, hpre⟩, hfirst⟩⟩
      · simp only [not_forall, not_not] at hfirst
        obtain ⟨k, m, hk, hm, hpre'⟩ := hfirst
        obtain ⟨j, hj, hfound⟩ := ih k hk hm hpre'
        exact ⟨j, Nat.le_trans hj (Nat.le_of_lt hk), hfound⟩

/-! ## The accept branch -/

theorem isPeer_nameFix {name s : Bytes} (hs : (nameFix s).length < 2 ^ 64) :
    isPeer name (nameFix s) = true ↔ name = s := by
  have hlen : (nameFix s).length = namePrefixLen + s.length + sockNameSuffixLen := by
    rw [nameFix, List.length_append, List.length_append]
    rfl
  have hdrop : (nameFix s).drop namePrefixLen = s ++ sockNameSuffix := by
    rw [nameFix, List.append_assoc]
    exact List.drop_left
  have hmod : ((nameFix s).length + 2 ^ 64 - namePrefixLen - sockNameSuffixLen) % 2 ^ 64
      = s.length := by
    omega
  rw [isPeer, hdrop, hmod, Bool.and_eq_true, beq_iff_eq, beq_iff_eq]
  constructor
  · rintro ⟨htake, hsame⟩
    rw [hsame, List.take_left] at htake
    exact htake.symm
  · rintro rfl
    exact ⟨List.take_left, rfl⟩

namespace Broker

variable {st : Broker} {name : Bytes} {j : Nat}

/-- Whatever client connects under the path of this name, node `j` has its
descriptor afterwards. -/
def Attaches (st : Broker) (name : Bytes) (j : Nat) : Prop :=
  ∀ a : Accepted, a.Taken → a.un = nameFix name →
    ((st.acceptBranch a).nodes[j]?).map PubSubNode.connfd = some a.fd

/-- Node `j` has this name. -/
def Named (st : Broker) (name : Bytes) (j : Nat) : Prop :=
  ∃ n, st.nodes[j]? = some n ∧ n.name = name

/-- The two lookups find the same node, and it is the one of this name. -/
structure LookupsAgree (st : Broker) (name : Bytes) : Prop where
  same : ∀ j, findNodeByName st.nodes name = some j ↔ st.Attaches name j
  exact : ∀ j, st.Attaches name j ↔ st.Named name j

theorem connfd_acceptBranch {a : Accepted} (ht : a.Taken) :
    ((st.acceptBranch a).nodes[j]?).map PubSubNode.connfd
      = (st.nodes[j]?).map fun n => if isPeer n.name a.un then a.fd else n.connfd := by
  rw [st.acceptBranch_eq]
  simp only [if_pos ht, attach, List.getElem?_map, Option.map_map]
  congr 1
  funext n
  simp only [Function.comp_apply]
  split <;> rfl

/-- A client under this path, with a descriptor that is not the node's. -/
theorem exists_client (hnul : 0 ∉ name) (fd : Int) :
    ∃ a : Accepted, a.Taken ∧ a.un = nameFix name ∧ a.fd ≠ fd := by
  have hpath : ∀ b ∈ nameFix name, (decide (b ≠ 0)) = true := by
    intro b hb
    rw [decide_eq_true_eq]
    rintro rfl
    rcases List.mem_append.mp hb with hfront | hsuffix
    · rcases List.mem_append.mp hfront with hbeg | hname
      · exact absurd hbeg (by decide)
      · exact hnul hname
    · exact absurd hsuffix (by decide)
  have hpos : 0 ≤ (fd.natAbs : Int) + 1 := by omega
  have hne : (fd.natAbs : Int) + 1 ≠ fd := by omega
  exact ⟨.client (fd.natAbs + 1) name (.eager []), ⟨hpos, rfl, rfl⟩,
    List.takeWhile_eq_self_iff.mpr hpath, hne⟩

/-- **The accept branch** attaches exactly the nodes of this name. -/
theorem attaches_iff_named (hnul : 0 ∉ name) (hlen : (nameFix name).length < 2 ^ 64) :
    st.Attaches name j ↔ st.Named name j := by
  constructor
  · intro hatt
    cases hn : st.nodes[j]? with
    | none =>
        obtain ⟨a, ht, hun, -⟩ := exists_client hnul 0
        have hfd := hatt a ht hun
        rw [connfd_acceptBranch ht, hn] at hfd
        cases hfd
    | some n =>
        obtain ⟨a, ht, hun, hne⟩ := exists_client hnul n.connfd
        have hfd := hatt a ht hun
        rw [connfd_acceptBranch ht, hn, hun] at hfd
        by_cases hpeer : isPeer n.name (nameFix name) = true
        · exact ⟨n, hn, (isPeer_nameFix hlen).mp hpeer⟩
        · rw [Option.map_some, if_neg hpeer] at hfd
          exact absurd (Option.some.inj hfd).symm hne
  · rintro ⟨n, hn, rfl⟩ a ht hun
    rw [connfd_acceptBranch ht, hn, hun, Option.map_some, if_pos ((isPeer_nameFix hlen).mpr rfl)]

/-- A node whose name begins this one without being it stands behind the node of
this name. -/
def BeginningsBehind (nodes : List PubSubNode) (name : Bytes) : Prop :=
  ∀ (i : Nat) (n : PubSubNode), nodes[i]? = some n → n.name <+: name → n.name ≠ name →
    ∃ j m, j < i ∧ nodes[j]? = some m ∧ m.name = name

/-- **The two lookups** agree exactly when no shorter beginning of the name is
met first. -/
theorem lookups_agree_iff (st : Broker) (name : Bytes)
    (hdistinct : (st.nodes.map PubSubNode.name).Nodup) (hnul : 0 ∉ name)
    (hlen : (nameFix name).length < 2 ^ 64) :
    st.LookupsAgree name ↔ BeginningsBehind st.nodes name := by
  constructor
  · intro hagree i n hn hpre hne
    obtain ⟨k, hk, hfound⟩ := exists_findNodeByName hn hpre
    obtain ⟨m, hm, hname⟩ := (hagree.exact k).mp ((hagree.same k).mp hfound)
    refine ⟨k, m, Nat.lt_of_le_of_ne hk ?_, hm, hname⟩
    rintro rfl
    obtain rfl := Option.some.inj (hn.symm.trans hm)
    exact hne hname
  · intro hbehind
    have hnamed : ∀ j, findNodeByName st.nodes name = some j → st.Named name j := by
      intro j hfound
      obtain ⟨⟨n, hn, hpre⟩, hbefore⟩ := findNodeByName_eq_some.mp hfound
      by_contra hnot
      obtain ⟨i, m, hi, hm, rfl⟩ := hbehind j n hn hpre fun heq => hnot ⟨n, hn, heq⟩
      exact hbefore i m hi hm (List.prefix_refl _)
    refine ⟨fun j => ?_, fun j => attaches_iff_named hnul hlen⟩
    rw [attaches_iff_named hnul hlen]
    refine ⟨hnamed j, fun ⟨n, hn, hname⟩ => ?_⟩
    have hpre : n.name <+: name := ⟨[], (List.append_nil _).trans hname⟩
    obtain ⟨k, -, hfound⟩ := exists_findNodeByName hn hpre
    obtain ⟨m, hm, hname'⟩ := hnamed k hfound
    have hlt : k < (st.nodes.map PubSubNode.name).length := by
      rw [List.length_map]
      exact (List.getElem?_eq_some_iff.mp hm).1
    have hkj : k = j := by
      refine (List.getElem?_inj hlt hdistinct).mp ?_
      rw [List.getElem?_map, List.getElem?_map, hm, hn, Option.map_some, Option.map_some, hname,
        hname']
    rw [← hkj]
    exact hfound

/-- The three nodes `a`, `b`, `c`. -/
theorem lookups_agree_trio : trio.init.LookupsAgree [98] := by
  refine (lookups_agree_iff trio.init [98] (by decide) (by decide) (by decide)).mpr ?_
  intro i n hn hpre hne
  have hnone : ∀ n ∈ trio.init.nodes, n.name <+: [98] → n.name = [98] := by decide
  exact absurd (hnone n (List.mem_of_getElem? hn) hpre) hne

/-- **`a` passes for `ab`**: it is found though `ab` stands behind it, and found
where there is no `ab`, so that the accept branch attaches nobody. -/
theorem lookups_differ :
    let a : PubSubNode := { name := [97], id := 1 }
    let both : Broker := { trio.init with nodes := [a, { name := [97, 98], id := 2 }] }
    let alone : Broker := { trio.init with nodes := [a] }
    (findNodeByName both.nodes [97, 98] = some 0 ∧ both.Named [97, 98] 1 ∧
        ¬ both.LookupsAgree [97, 98]) ∧
      findNodeByName alone.nodes [97, 98] = some 0 ∧ (∀ j, ¬ alone.Named [97, 98] j) ∧
        ¬ alone.LookupsAgree [97, 98] := by
  intro a both alone
  have hnone : ∀ j, ¬ alone.Named [97, 98] j := by
    rintro j ⟨n, hn, hname⟩
    obtain rfl := List.mem_singleton.mp (List.mem_of_getElem? hn)
    exact absurd hname (by decide)
  refine ⟨⟨rfl, ⟨_, rfl, rfl⟩, fun h => ?_⟩, rfl, hnone, fun h => ?_⟩
  · obtain ⟨n, hn, hname⟩ := (h.exact 0).mp ((h.same 0).mp rfl)
    obtain rfl := Option.some.inj hn
    exact absurd hname (by decide)
  · exact hnone 0 ((h.exact 0).mp ((h.same 0).mp rfl))

end Broker

/-! ## The path functions -/

/-- A string copied to the start of a block of `size` bytes: it takes up the
first `stop` of them, its NUL included. -/
structure Copy where
  size : Nat
  stop : Nat
  deriving DecidableEq

def Copy.Inside (c : Copy) : Prop := c.stop ≤ c.size

instance (c : Copy) : Decidable c.Inside := inferInstanceAs (Decidable (_ ≤ _))

def Copy.of (size : Nat) (text : Bytes) : Copy := ⟨size, text.length + 1⟩

/-- `sizeof(un.sun_path)`. -/
def sizeofSunPath : Nat := 108

/-- What the calls around the path functions come back with: whether the `k`-th
`calloc` has memory for a block of that size, the descriptor of a socket bound to
this path or -1, whether a socket can be connected to this path. -/
structure System where
  calloc : Nat → Nat → Bool
  bound : Bytes → Int
  connects : Int → Bytes → Bool

/-- No object is larger than PTRDIFF_MAX. -/
def System.Allocates (sys : System) (k n : Nat) : Prop := n < 2 ^ 63 ∧ sys.calloc k n = true

instance (sys : System) (k n : Nat) : Decidable (sys.Allocates k n) :=
  inferInstanceAs (Decidable (_ ∧ _))

/-- How a path function comes back, `none` where a null pointer has ended the
process, and what it has copied. -/
structure PathCall (α : Type) where
  ret : Option α
  copies : List Copy

def PathCall.bind {α β : Type} (x : PathCall α) (f : α → PathCall β) : PathCall β :=
  match x.ret with
  | none => ⟨none, x.copies⟩
  | some a => ⟨(f a).ret, x.copies ++ (f a).copies⟩

instance : Monad PathCall where
  pure a := ⟨some a, []⟩
  bind := PathCall.bind

def strLen (str : Option Bytes) : Nat := str.elim 0 List.length

/-- The block that `name_fix` asks for; its length goes through an `int`. -/
def fixedSize (pre : Option Bytes) (name : Bytes) (suffix : Option Bytes) : Nat :=
  toSizeT (toInt32 (strLen pre + name.length + strLen suffix : Nat))

/-- What `sprintf` prints, if it is called. -/
def fixedText (pre : Option Bytes) (name : Bytes) (suffix : Option Bytes) : Option Bytes :=
  match pre, suffix with
  | none, none => none
  | none, some suffix => some (name ++ suffix)
  | some pre, none => some (pre ++ name)
  | some pre, some suffix => some (pre ++ name ++ suffix)

/-- `name_fix` with the `k`-th block: the string in it, or a null pointer when
there is no memory. -/
def nameFixIn (sys : System) (k : Nat) (pre : Option Bytes) (name : Bytes) (suffix : Option Bytes) :
    PathCall (Option Bytes) :=
  if sys.Allocates k (fixedSize pre name suffix) then
    match fixedText pre name suffix with
    | none => ⟨some (some []), []⟩
    | some text => ⟨some (some text), [.of (fixedSize pre name suffix) text]⟩
  else ⟨some none, []⟩

def creatBindUnixTcp (sys : System) (name : Option Bytes) : PathCall Int :=
  match name with
  | none => ⟨none, []⟩
  | some name =>
      -- the length without the NUL
      if sizeofSunPath < name.length then ⟨some (-1), []⟩
      else ⟨some (if sys.bound name < 0 then -1 else sys.bound name), [.of sizeofSunPath name]⟩

def connectUnixTcp (sys : System) (sockfd : Int) (serverName : Option Bytes) : PathCall Int :=
  if sockfd < 0 then ⟨some (-1), []⟩
  else
    match serverName with
    | none => ⟨none, []⟩
    | some serverName =>
        ⟨some (if sys.connects sockfd serverName then 0 else -1), [.of sizeofSunPath serverName]⟩

/-- The path of this name, in a block of its own. -/
def unixName (sys : System) (k : Nat) (name : Bytes) : PathCall (Option Bytes) :=
  nameFixIn sys k (some namePrefix) name (some sockNameSuffix)

/-- The result is what `client_connfd` is set to as well. -/
def ihSubscriberCreateConnect (sys : System) (subscriberName publisherName : Bytes) :
    PathCall Int := do
  let unClientName ← unixName sys 0 subscriberName
  let unServerName ← unixName sys 1 publisherName
  let sockfd ← creatBindUnixTcp sys unClientName
  let ret ← connectUnixTcp sys sockfd unServerName
  pure (if ret < 0 then -1 else sockfd)

/-! ## What is copied where -/

section Fixed

variable {sys : System} {k : Nat} {pre suffix : Option Bytes} {name text : Bytes}

theorem fixedText_length (h : fixedText pre name suffix = some text) :
    text.length = strLen pre + name.length + strLen suffix := by
  cases pre with
  | none =>
      cases suffix with
      | none => cases h
      | some suffix =>
          obtain rfl := Option.some.inj h
          simp [strLen]
  | some pre =>
      cases suffix with
      | none =>
          obtain rfl := Option.some.inj h
          simp [strLen]
      | some suffix =>
          obtain rfl := Option.some.inj h
          simp [strLen, Nat.add_assoc]

/-- A length that has become negative in the `int` is too large for any block, so
a block is never longer than the string. -/
theorem fixedSize_le (h : sys.Allocates k (fixedSize pre name suffix)) :
    fixedSize pre name suffix ≤ strLen pre + name.length + strLen suffix := by
  have hlt := h.1
  unfold fixedSize toSizeT at hlt ⊢
  rw [toInt32, Int.bmod_def] at hlt ⊢
  split at hlt <;> rename_i hsmall
  · rw [if_pos hsmall]
    omega
  · omega

/-- **`name_fix` leaves no room for the NUL.** -/
theorem nameFixIn_not_inside (hsys : sys.Allocates k (fixedSize pre name suffix))
    (h : fixedText pre name suffix = some text) :
    ∃ c ∈ (nameFixIn sys k pre name suffix).copies, ¬ c.Inside := by
  refine ⟨.of (fixedSize pre name suffix) text, ?_, ?_⟩
  · rw [nameFixIn, if_pos hsys, h]
    exact List.mem_singleton_self _
  · have hle := fixedSize_le hsys
    have hlen := fixedText_length h
    simp only [Copy.Inside, Copy.of]
    omega

end Fixed

section Calls

variable (sys : System) (name : Bytes)

/-- The block for the path of this name. -/
def pathSize (name : Bytes) : Nat := fixedSize (some namePrefix) name (some sockNameSuffix)

theorem unixName_none {sys : System} {k : Nat} {name : Bytes}
    (h : ¬ sys.Allocates k (pathSize name)) : unixName sys k name = ⟨some none, []⟩ := by
  rw [unixName, nameFixIn]
  exact if_neg h

theorem unixName_not_inside {sys : System} {k : Nat} {name : Bytes}
    (h : sys.Allocates k (pathSize name)) : ∃ c ∈ (unixName sys k name).copies, ¬ c.Inside :=
  @nameFixIn_not_inside sys k (some namePrefix) (some sockNameSuffix) name (nameFix name) h rfl

/-- **`creat_bind_unix_tcp`** keeps inside `sun_path`, and refuses what does not
fit, except for a path of just the length of `sun_path`. -/
theorem creatBindUnixTcp_fits_iff :
    ((∀ c ∈ (creatBindUnixTcp sys (some name)).copies, c.Inside) ∧
        (sizeofSunPath < name.length + 1 →
          (creatBindUnixTcp sys (some name)).ret = some (-1))) ↔
      name.length ≠ sizeofSunPath := by
  by_cases hlong : sizeofSunPath < name.length
  · have hcall : creatBindUnixTcp sys (some name) = ⟨some (-1), []⟩ := if_pos hlong
    rw [hcall]
    exact iff_of_true ⟨fun c hc => absurd hc List.not_mem_nil, fun _ => rfl⟩ (Nat.ne_of_gt hlong)
  · have hcopies : (creatBindUnixTcp sys (some name)).copies = [.of sizeofSunPath name] := by
      simp only [creatBindUnixTcp, if_neg hlong]
    rw [hcopies]
    constructor
    · rintro ⟨hin, -⟩ heq
      have hlast := hin _ (List.mem_singleton_self _)
      simp only [Copy.Inside, Copy.of] at hlast
      omega
    · intro hne
      refine ⟨fun c hc => ?_, fun hfull => by omega⟩
      obtain rfl := List.mem_singleton.mp hc
      simp only [Copy.Inside, Copy.of]
      omega

/-- **`connect_unix_tcp`** looks at the descriptor only. -/
theorem connectUnixTcp_inside_iff (sockfd : Int) :
    (∀ c ∈ (connectUnixTcp sys sockfd (some name)).copies, c.Inside) ↔
      sockfd < 0 ∨ name.length < sizeofSunPath := by
  by_cases hfd : sockfd < 0
  · have hcall : connectUnixTcp sys sockfd (some name) = ⟨some (-1), []⟩ := if_pos hfd
    rw [hcall]
    exact iff_of_true (fun c hc => absurd hc List.not_mem_nil) (.inl hfd)
  · have hcopies : (connectUnixTcp sys sockfd (some name)).copies = [.of sizeofSunPath name] := by
      simp only [connectUnixTcp, if_neg hfd]
    rw [hcopies, or_iff_right hfd, List.forall_mem_singleton]
    exact Iff.rfl

/-- Every copy stays in the memory it is made to, and a path that does not fit
`sun_path` is refused. -/
structure PathsInside (sys : System) (subscriberName publisherName : Bytes) : Prop where
  inside : ∀ c ∈ (ihSubscriberCreateConnect sys subscriberName publisherName).copies, c.Inside
  created : ∀ path, (unixName sys 0 subscriberName).ret = some (some path) →
    sizeofSunPath < path.length + 1 → (creatBindUnixTcp sys (some path)).ret = some (-1)
  connected : ∀ path, (unixName sys 1 publisherName).ret = some (some path) →
    sizeofSunPath < path.length + 1 →
      ∀ sockfd, (connectUnixTcp sys sockfd (some path)).ret = some (-1)

theorem PathCall.mem_bind {α β : Type} {x : PathCall α} {f : α → PathCall β} {c : Copy} :
    c ∈ (x >>= f).copies ↔ c ∈ x.copies ∨ ∃ a, x.ret = some a ∧ c ∈ (f a).copies := by
  obtain ⟨ret, copies⟩ := x
  cases ret with
  | none => simp [Bind.bind, PathCall.bind]
  | some a => simp [Bind.bind, PathCall.bind]

/-- `name_fix` always comes back. -/
theorem unixName_returns (k : Nat) : ∃ text, (unixName sys k name).ret = some text := by
  unfold unixName nameFixIn
  split
  · exact ⟨_, rfl⟩
  · exact ⟨_, rfl⟩

theorem mem_ihSubscriberCreateConnect {subscriberName publisherName : Bytes} {c : Copy}
    (h : c ∈ (unixName sys 0 subscriberName).copies ∨ c ∈ (unixName sys 1 publisherName).copies) :
    c ∈ (ihSubscriberCreateConnect sys subscriberName publisherName).copies := by
  refine PathCall.mem_bind.mpr (h.imp_right fun hc => ?_)
  obtain ⟨client, hclient⟩ := unixName_returns sys subscriberName 0
  exact ⟨client, hclient, PathCall.mem_bind.mpr (.inl hc)⟩

end Calls

/-- **No path is safe.** A connect stays inside the memory it owns only when
neither of the two paths gets any. -/
theorem ihSubscriberCreateConnect_inside_iff (sys : System) (subscriberName publisherName : Bytes) :
    PathsInside sys subscriberName publisherName ↔
      ¬ sys.Allocates 0 (pathSize subscriberName) ∧ ¬ sys.Allocates 1 (pathSize publisherName) := by
  constructor
  · rintro ⟨hin, -, -⟩
    refine ⟨fun hsys => ?_, fun hsys => ?_⟩
    · obtain ⟨c, hc, hnot⟩ := unixName_not_inside hsys
      exact hnot (hin c (mem_ihSubscriberCreateConnect sys (.inl hc)))
    · obtain ⟨c, hc, hnot⟩ := unixName_not_inside hsys
      exact hnot (hin c (mem_ihSubscriberCreateConnect sys (.inr hc)))
  · rintro ⟨hsub, hpub⟩
    have hended : ihSubscriberCreateConnect sys subscriberName publisherName = ⟨none, []⟩ := by
      rw [ihSubscriberCreateConnect, unixName_none hsub, unixName_none hpub]
      rfl
    refine ⟨fun c hc => ?_, fun path hpath => ?_, fun path hpath => ?_⟩
    · rw [hended] at hc
      exact absurd hc List.not_mem_nil
    · rw [unixName_none hsub] at hpath
      cases hpath
    · rw [unixName_none hpub] at hpath
      cases hpath

/-- **Names of one letter**: the path has 15 bytes and a block of 15, and its NUL
is the sixteenth. A subscriber whose path has 108 bytes, and a publisher whose
path has 109, are written past `sun_path` as well. -/
theorem ihSubscriberCreateConnect_overruns :
    let sys : System := ⟨fun _ _ => true, fun _ => 3, fun _ _ => true⟩
    let long := List.replicate 94 97
    let longer := List.replicate 95 97
    (¬ PathsInside sys [97] [98] ∧
        (ihSubscriberCreateConnect sys [97] [98]).copies.head? = some ⟨15, 16⟩) ∧
      ⟨108, 109⟩ ∈ (ihSubscriberCreateConnect sys long [98]).copies ∧
        ⟨108, 110⟩ ∈ (ihSubscriberCreateConnect sys [97] longer).copies := by
  intro sys long longer
  have hcopy : (⟨15, 16⟩ : Copy) ∈ (ihSubscriberCreateConnect sys [97] [98]).copies := by
    decide +kernel
  exact ⟨⟨fun h => absurd (h.inside _ hcopy) (by decide), by decide +kernel⟩, by decide +kernel,
    by decide +kernel⟩

end Icehydra
