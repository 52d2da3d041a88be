import Icehydra.CJsonDocument
import Icehydra.Keys

/-!
# ConfDocument — a configuration, written and loaded

What the file says about the nodes, however it is laid out, is what
`get_node_start` builds. One way to lay it out is `renderFile`.
-/

namespace Icehydra

open Cursor (Stops)

/-! ## Configurations -/

/-- What is configured of a node, the CPU and the segments if they are; the
strings fit the arrays they are copied to. -/
structure NodeConf where
  name : Bytes
  pid : Int
  cpuBind : Option Int
  shm : Option (List (Bytes × Int))
  name_fits : name.length < maxFileName
  shm_fits : ∀ p ∈ shm.getD [], p.1.length < maxFileName

/-- A value with the two members of a segment, in either order. -/
def SaysSegment (p : Bytes × Int) (json : CJson) : Prop :=
  json.child.Perm [.stringItem keyShmName p.1, .numberItem keyShmSize p.2]

section Node

-- What `shm_create` finds for a file name, a `proj_id` and a size.
variable (create : Bytes → UInt8 → Int → Int)

def shmNodes (filename : Bytes) : UInt8 → List (Bytes × Int) → List ShmNode
  | _, [] => []
  | projId, (name, size) :: rest =>
      ⟨name, create filename (projId + 1) size, size⟩ :: shmNodes filename (projId + 1) rest

/-- The node that is built from it. -/
def NodeConf.node (c : NodeConf) : ConfNode where
  name := c.name
  id := c.pid
  type := if c.pid = 0 then .pub else .sub
  cpuBind := c.cpuBind.getD 0
  shmNodePtr := c.shm.map (shmNodes create (namePrefix ++ c.name) 0)
  shmNodeNum := c.shm.elim 0 fun shm => (UInt8.ofNat shm.length).toNat

end Node

/-! ## Lookups -/

section Lookups

variable {json m : CJson} {key : Bytes} {c : NodeConf}

theorem find?_of_unique {α : Type} {l : List α} {p : α → Bool} {x : α} (hmem : x ∈ l) (hp : p x)
    (honly : ∀ y ∈ l, p y → y = x) : l.find? p = some x := by
  obtain ⟨y, hy⟩ := Option.isSome_iff_exists.mp (List.find?_isSome.mpr ⟨x, hmem, hp⟩)
  rw [hy, honly y (List.mem_of_find?_eq_some hy) (List.find?_some hy)]

theorem cJSONGetObjectItemCaseSensitive_of_unique (hmem : m ∈ json.child) (hm : m.string = some key)
    (honly : ∀ y ∈ json.child, y.string = none ∨ y.string = some key → y = m) :
    cJSONGetObjectItemCaseSensitive json key = some m := by
  have hfound : json.child.find? (fun y => y.string = none ∨ y.string = some key) = some m :=
    find?_of_unique hmem (by simp [hm]) fun y hy hp => honly y hy (of_decide_eq_true hp)
  rw [cJSONGetObjectItemCaseSensitive, hfound, Option.filter_some, if_pos (by simp [hm])]

theorem SaysSegment.size {p : Bytes × Int} (h : SaysSegment p json) :
    cJSONGetObjectItemCaseSensitive json keyShmSize = some (.numberItem keyShmSize p.2) := by
  refine cJSONGetObjectItemCaseSensitive_of_unique (h.mem_iff.mpr (by simp)) rfl fun y hy hstring => ?_
  rcases List.mem_pair.mp (h.mem_iff.mp hy) with rfl | rfl
  · rcases hstring with hnone | hsome
    · cases hnone
    · exact absurd (Option.some.inj hsome) (by decide)
  · rfl

theorem SaysSegment.name {p : Bytes × Int} (h : SaysSegment p json) :
    cJSONGetObjectItemCaseSensitive json keyShmName = some (.stringItem keyShmName p.1) := by
  refine cJSONGetObjectItemCaseSensitive_of_unique (h.mem_iff.mpr (by simp)) rfl fun y hy hstring => ?_
  rcases List.mem_pair.mp (h.mem_iff.mp hy) with rfl | rfl
  · rfl
  · rcases hstring with hnone | hsome
    · cases hnone
    · exact absurd (Option.some.inj hsome) (by decide)

section Members

variable {shm others : List CJson} (hshm : List.Forall₂ SaysShm c.shm.toList shm)
  (hothers : ∀ m ∈ others, ∀ key ∈ itemList, caseInsensitiveStrcmp key m.string = false)
  (hperm : json.child.Perm (.stringItem keyName c.name :: .numberItem keyPid c.pid ::
    (c.cpuBind.toList.map (CJson.numberItem keyCpuBind) ++ shm ++ others)))

include hperm

include hshm hothers

end Members

end Lookups

/-! ## Loading -/

section Loading

variable {create : Bytes → UInt8 → Int → Int}

end Loading

/-! ## One layout

The members in the order in which the example configurations have them.
-/

def shmJson (p : Bytes × Int) : CJson :=
  .object [.stringItem keyShmName p.1, .numberItem keyShmSize p.2]

def NodeConf.json (c : NodeConf) : CJson :=
  .object (.stringItem keyName c.name :: .numberItem keyPid c.pid ::
    (c.shm.toList.map (fun shm => (CJson.object (shm.map shmJson)).named (some keyShm)) ++
      c.cpuBind.toList.map (CJson.numberItem keyCpuBind)))

def quoteByte (c : UInt8) : Bytes := if c = 34 ∨ c = 92 then [92, c] else [c]

def quote (s : Bytes) : Bytes := 34 :: (s.flatMap quoteByte ++ [34])

def digitsOf (n : Nat) : Bytes :=
  if n < 10 then [.ofNat (48 + n)] else digitsOf (n / 10) ++ [.ofNat (48 + n % 10)]

theorem quoted_flatMap (s : Bytes) : Quoted (s.flatMap quoteByte) := by
  induction s with
  | nil => exact .nil
  | cons c s ih =>
      rw [List.flatMap_cons, quoteByte]
      by_cases hc : c = 34 ∨ c = 92
      · rw [if_pos hc]
        exact .escaped ih
      · rw [if_neg hc]
        rw [not_or] at hc
        exact .plain hc.1 hc.2 ih

theorem unescapes_flatMap (s : Bytes) : Unescapes (s.flatMap quoteByte) s := by
  induction s with
  | nil => exact .nil
  | cons c s ih =>
      rw [List.flatMap_cons, quoteByte]
      by_cases hc : c = 34 ∨ c = 92
      · have hescape : simpleEscape c = some c := by
          rcases hc with rfl | rfl <;> rfl
        rw [if_pos hc]
        exact .simple hescape ih
      · rw [if_neg hc]
        rw [not_or] at hc
        exact .plain hc.2 ih

theorem stringText_quote {s : Bytes} (h : 0 ∉ s) : StringText (quote s) s := by
  have htext := StringText.mk (quoted_flatMap s) (unescapes_flatMap s)
  rwa [cString_of_notMem h] at htext

theorem isDigit_ofNat {n : Nat} (h : n < 10) : isDigit (.ofNat (48 + n)) = true := by
  have hall : ∀ n < 10, isDigit (.ofNat (48 + n)) = true := by decide
  exact hall n h

theorem isDigit_digitsOf (n : Nat) : ∀ c ∈ digitsOf n, isDigit c = true := by
  fun_induction digitsOf n with
  | case1 n h =>
      intro c hc
      rw [List.mem_singleton.mp hc]
      exact isDigit_ofNat h
  | case2 n _ ih =>
      intro c hc
      rcases List.mem_append.mp hc with hc | hc
      · exact ih c hc
      · rw [List.mem_singleton.mp hc]
        exact isDigit_ofNat (Nat.mod_lt _ (by decide))

theorem digitsOf_ne_nil (n : Nat) : digitsOf n ≠ [] := by
  fun_induction digitsOf n with
  | case1 => exact List.cons_ne_nil _ _
  | case2 => exact List.append_ne_nil_of_right_ne_nil _ (List.cons_ne_nil _ _)

theorem digitsValue_concat (ds : Bytes) {d : Nat} (h : d < 10) :
    digitsValue (ds ++ [.ofNat (48 + d)]) = 10 * digitsValue ds + d := by
  have hdigit : ∀ d < 10, (UInt8.ofNat (48 + d)).toNat - 48 = d := by decide
  rw [digitsValue, List.foldl_append, List.foldl_cons, List.foldl_nil, hdigit d h]
  rfl

theorem digitsValue_digitsOf (n : Nat) : digitsValue (digitsOf n) = n := by
  fun_induction digitsOf n with
  | case1 n h =>
      have hone := digitsValue_concat [] h
      rwa [show digitsValue [] = 0 from rfl, Nat.mul_zero, Nat.zero_add] at hone
  | case2 n _ ih =>
      rw [digitsValue_concat _ (Nat.mod_lt _ (by decide)), ih]
      omega

theorem length_digitsOf {n k : Nat} (h : n < 10 ^ (k + 1)) : (digitsOf n).length ≤ k + 1 := by
  induction k generalizing n with
  | zero =>
      rw [digitsOf, if_pos (by omega)]
      exact Nat.le_refl _
  | succ k ih =>
      rw [digitsOf]
      split
      · exact Nat.succ_le_succ (Nat.zero_le _)
      · rw [List.length_append, List.length_singleton]
        have hdiv : n / 10 < 10 ^ (k + 1) := by
          rw [Nat.div_lt_iff_lt_mul (by decide)]
          rwa [Nat.pow_succ] at h
        exact Nat.succ_le_succ (ih hdiv)

/-- An integer, with its sign if it is negative. -/
def decimalOf (n : Int) : Decimal where
  sign := if n < 0 then some true else none
  whole := digitsOf n.natAbs
  fraction := none
  exponent := none
  isWhole := isDigit_digitsOf _
  isFraction _ h := by cases h
  nonempty := by
    rw [Option.getD_none, List.append_nil]
    exact digitsOf_ne_nil _

/-- The numbers of an `int`. -/
def IsInt (n : Int) : Prop := -2147483648 ≤ n ∧ n ≤ 2147483647

instance (n : Int) : Decidable (IsInt n) := inferInstanceAs (Decidable (_ ∧ _))

theorem decimalOf_value (n : Int) : (decimalOf n).value = n := by
  have hsigned : signed (decimalOf n).sign n.natAbs = n := by
    rw [signed, decimalOf]
    by_cases hneg : n < 0
    · simp only [if_pos hneg, if_true]
      omega
    · simp only [if_neg hneg, reduceCtorEq, if_false]
      omega
  have hmantissa : digitsValue ((decimalOf n).whole ++ (decimalOf n).fraction.getD []) = n.natAbs := by
    show digitsValue (digitsOf n.natAbs ++ []) = _
    rw [List.append_nil, digitsValue_digitsOf]
  have hexponent : ((decimalOf n).exponent.elim 0 fun e => signed e.sign (digitsValue e.digits))
      - ((decimalOf n).fraction.getD []).length = 0 := rfl
  simp only [Decimal.value, hmantissa, hsigned]
  rw [hexponent, zpow_zero, mul_one]

theorem decimalOf_valueint {n : Int} (h : IsInt n) : (decimalOf n).valueint = n := by
  rw [Decimal.valueint, decimalOf_value, doubleToInt_intCast]
  unfold IsInt at h
  omega

theorem decimalOf_text (n : Int) :
    (decimalOf n).text = signText (if n < 0 then some true else none) ++ digitsOf n.natAbs := by
  show signText (if n < 0 then some true else none) ++ (digitsOf n.natAbs ++ ([] ++ [])) = _
  rw [List.append_nil, List.append_nil]

theorem length_decimalOf {n : Int} {k : Nat} (h : n.natAbs < 10 ^ (k + 1)) :
    (decimalOf n).text.length ≤ k + 2 := by
  have hsign : ∀ sign, (signText sign).length ≤ 1 := by
    rintro (_ | _ | _) <;> decide
  have hone := hsign (if n < 0 then some true else none)
  have hdigits := length_digitsOf h
  rw [decimalOf_text, List.length_append]
  omega

theorem decimalOf_scalar {n : Int} (h : IsInt n) :
    Scalar (decimalOf n).text { CJson.empty with valueint := n } := by
  have hlen : (decimalOf n).text.length ≤ 9 + 2 := by
    apply length_decimalOf
    unfold IsInt at h
    omega
  have hscalar := Scalar.number (decimalOf n) (Nat.le_trans hlen (by decide)) ?_
  · rwa [decimalOf_valueint h] at hscalar
  · rw [decimalOf_text]
    by_cases hneg : n < 0
    · rw [if_pos hneg]
      exact ⟨45, _, rfl, .inl rfl⟩
    · rw [if_neg hneg, signText, List.nil_append]
      cases hdigits : digitsOf n.natAbs with
      | nil => exact absurd hdigits (digitsOf_ne_nil _)
      | cons c r =>
          exact ⟨c, r, rfl, .inr (isDigit_digitsOf n.natAbs c (by rw [hdigits]; exact List.mem_cons_self))⟩

/-- **Integers are read exactly**, or as the end of the `int` range they are
beyond: the double in between loses nothing that an `int` can hold. -/
theorem parseNumber_integer (item : CJson) (pre rest : Bytes) (n : Int) (h : n.natAbs < 10 ^ 62)
    (hs : Stops isNumberChar rest) :
    parseNumber item (.between pre ((decimalOf n).text ++ rest)) =
      .ok ({ item with valueint := max (-2147483648) (min n 2147483647) },
        .between (pre ++ (decimalOf n).text) rest) := by
  have hlen : (decimalOf n).text.length ≤ 61 + 2 := length_decimalOf h
  rw [parseNumber_text (decimalOf n) hlen hs, Decimal.valueint, decimalOf_value, doubleToInt_intCast]

/-- Ten digits in front of a comma. -/
theorem parseNumber_integer_ten :
    parseNumber .empty (.between [] ((decimalOf 3000000000).text ++ [44])) =
      .ok ({ CJson.empty with valueint := max (-2147483648) (min 3000000000 2147483647) },
        .between ([] ++ (decimalOf 3000000000).text) [44]) :=
  parseNumber_integer .empty [] [44] 3000000000 (by decide) (by rintro c ⟨⟩; decide)

/-! ### Objects and arrays -/

def commaJoin : List Bytes → Bytes
  | [] => []
  | [s] => s
  | s :: t :: texts => s ++ 44 :: commaJoin (t :: texts)

def renderArray (items : List Bytes) : Bytes := 91 :: (commaJoin items ++ [93])

def renderObject (members : List Bytes) : Bytes := 123 :: (commaJoin members ++ [125])

def renderMember (key text : Bytes) : Bytes := quote key ++ 58 :: text

def renderShm (p : Bytes × Int) : Bytes :=
  renderObject [renderMember keyShmName (quote p.1), renderMember keyShmSize (decimalOf p.2).text]

def NodeConf.render (c : NodeConf) : Bytes :=
  renderObject (renderMember keyName (quote c.name) :: renderMember keyPid (decimalOf c.pid).text ::
    (c.shm.toList.map (fun shm => renderMember keyShm (renderArray (shm.map renderShm))) ++
      c.cpuBind.toList.map fun n => renderMember keyCpuBind (decimalOf n).text))

/-- Strings without a zero, numbers that an `int` holds. -/
structure NodeConf.Writable (c : NodeConf) : Prop where
  name : 0 ∉ c.name
  pid : IsInt c.pid
  cpuBind : ∀ n ∈ c.cpuBind, IsInt n
  shm : ∀ shm ∈ c.shm, ∀ p ∈ shm, 0 ∉ p.1 ∧ IsInt p.2

section Render

variable {L : Bytes → CJson → Prop} {texts : List Bytes} {items : List CJson} {levels : Nat}

theorem sepBy_commaJoin {s : Bytes} {v : CJson} (hs : L s v) (h : List.Forall₂ L texts items) :
    Cursor.SepBy 44 L (commaJoin (s :: texts)) (v :: items) := by
  induction h generalizing s v with
  | nil => exact .last hs
  | cons ht _ ih => exact .more hs (ih ht)

theorem container_commaJoin {opening closing : UInt8} (h : List.Forall₂ L texts items) :
    Container opening closing L (opening :: (commaJoin texts ++ [closing])) (.object items) := by
  cases h with
  | nil => exact .empty blank_nil
  | cons hs h => exact .filled (sepBy_commaJoin hs h)

theorem Padded.of {s : Bytes} {v : CJson} (h : L s v) : Padded L s v := by
  have hpadded := Padded.mk blank_nil h blank_nil
  rwa [List.nil_append, List.append_nil] at hpadded

theorem Member.of {key s : Bytes} {v : CJson} (hkey : 0 ∉ key) (h : L s v) :
    Member L (renderMember key s) (v.named (some key)) :=
  .mk blank_nil (stringText_quote hkey) blank_nil (.of h)

theorem valueText_renderObject (h : List.Forall₂ (Member (ValueText levels)) texts items) :
    ValueText (levels + 1) (renderObject texts) (.object items) :=
  .inr (.inr (container_commaJoin h))

theorem valueText_renderArray (h : List.Forall₂ (Padded (ValueText levels)) texts items) :
    ValueText (levels + 1) (renderArray texts) (.object items) :=
  .inr (.inl (container_commaJoin h))

theorem Scalar.valueText {s : Bytes} {v : CJson} (h : Scalar s v) : ValueText levels s v := by
  cases levels with
  | zero => exact h
  | succ levels => exact .inl h

theorem valueText_quote {s : Bytes} (h : 0 ∉ s) :
    ValueText levels (quote s) { CJson.empty with valuestring := some s } :=
  (Scalar.string (stringText_quote h)).valueText

theorem valueText_decimalOf {n : Int} (h : IsInt n) :
    ValueText levels (decimalOf n).text { CJson.empty with valueint := n } :=
  (decimalOf_scalar h).valueText

theorem valueText_renderShm {p : Bytes × Int} (h : 0 ∉ p.1 ∧ IsInt p.2) :
    ValueText (levels + 1) (renderShm p) (shmJson p) :=
  valueText_renderObject (.cons (.of (by decide) (valueText_quote h.1))
    (.cons (.of (by decide) (valueText_decimalOf h.2)) .nil))

theorem NodeConf.Writable.render {c : NodeConf} (h : c.Writable) :
    ValueText (levels + 3) c.render c.json := by
  have hsegments : ∀ shm ∈ c.shm, List.Forall₂ (Padded (ValueText (levels + 1))) (shm.map renderShm)
      (shm.map shmJson) := by
    intro shm hshm
    rw [List.forall₂_map_left_iff, List.forall₂_map_right_iff]
    exact List.forall₂_same.mpr fun p hp => .of (valueText_renderShm (h.shm shm hshm p hp))
  refine valueText_renderObject (.cons (.of (by decide) (valueText_quote h.name))
    (.cons (.of (by decide) (valueText_decimalOf h.pid)) (List.rel_append ?_ ?_)))
  · rw [List.forall₂_map_left_iff, List.forall₂_map_right_iff]
    exact List.forall₂_same.mpr fun shm hshm =>
      .of (by decide) (valueText_renderArray (hsegments shm (Option.mem_toList.mp hshm)))
  · rw [List.forall₂_map_left_iff, List.forall₂_map_right_iff]
    exact List.forall₂_same.mpr fun n hn =>
      .of (by decide) (valueText_decimalOf (h.cpuBind n (Option.mem_toList.mp hn)))

theorem NodeConf.Writable.front {c : NodeConf} (h : c.Writable) {w : Bytes} (hw : Blank w) :
    ValueFront (w ++ c.render) c.json :=
  .mk (.inl rfl) hw (@NodeConf.Writable.render 997 c h)

end Render

/-! ### No zero in it -/

end Icehydra
