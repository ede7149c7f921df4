import Nexus.Abac.DefaultDeny
import Nexus.Abac.Meaning
import Nexus.Lib.Decimal
import Mathlib.Data.List.TakeWhile

/-!
# Comparing numbers

The constants of the engine are texts.  The primitives `_lt`, `_le`, `_gt` and `_ge` turn two
texts into numbers with `tonumber`, compare these, and match the result, interned again with
`tostring`, against the two texts.  A number in a policy and the size of an object are printed
for the engine after they went through an `int`.

`numeric_comparison_iff` says for which sides a comparison of integers is right.

* A digit string with zeros in front, or beyond a `lua_Integer`, is not what its number is
  printed as, and no comparison with it is ever satisfied.
* A literal or a size beyond an `int` wraps around.
* Ten digits, or nine with a sign, are cut.
-/

namespace Nexus.Abac

open Datalog List AbacValue String AtomTree

/-! ## Numbers of the engine -/

/-- `lisspace`. -/
def isSpace (c : Char) : Bool :=
  c = ' ' || c = '\t' || c = '\n' || c = '\x0b' || c = '\x0c' || c = '\r'

/-- `isneg`: the sign, and what follows it. -/
def isNeg : List Char → Bool × List Char
  | '-' :: s => (true, s)
  | '+' :: s => (false, s)
  | s => (false, s)

/-- `lisxdigit`. -/
def isXDigit (c : Char) : Bool :=
  c.isDigit || ('a' ≤ c && c ≤ 'f') || ('A' ≤ c && c ≤ 'F')

/-- `luaO_hexavalue`. -/
def hexaValue (c : Char) : Nat :=
  if c.isDigit then c.toNat - '0'.toNat else c.toLower.toNat - 'a'.toNat + 10

/-- The loops of `l_str2int` over the digits, and what they stop at. -/
def readDigits (base : Nat) (isDigit : Char → Bool) (value : Char → Nat) (s : List Char) :
    Option (BitVec 64) × List Char :=
  let digits := s.takeWhile isDigit
  (if digits = [] then none
    else some (digits.foldl (fun a c => a * BitVec.ofNat 64 base + BitVec.ofNat 64 (value c)) 0),
   s.dropWhile isDigit)

/-- The numeral of `l_str2int`, and what follows it. -/
def readNumeral : List Char → Option (BitVec 64) × List Char
  | '0' :: 'x' :: s => readDigits 16 isXDigit hexaValue s
  | '0' :: 'X' :: s => readDigits 16 isXDigit hexaValue s
  | s => readDigits 10 Char.isDigit (fun c => c.toNat - '0'.toNat) s

/-- `l_str2int`: a decimal or hexadecimal numeral, modulo the width of a `lua_Integer`. -/
def lStr2int (s : List Char) : Option Int :=
  let (neg, s) := isNeg (s.dropWhile isSpace)
  let (a, s) := readNumeral s
  match a, s.dropWhile isSpace with
  | some a, [] => some (if neg then -a else a).toInt
  | _, _ => none

/-- The floating-point numbers of the engine: what `l_str2d` reads, how they are printed, and
the comparisons that one of them takes part in. -/
structure LuaFloats where
  Float : Type
  lStr2d : String → Option Float
  toText : Float → String
  less : Int ⊕ Float → Int ⊕ Float → Prop
  lessEqual : Int ⊕ Float → Int ⊕ Float → Prop

section Primitives

variable (F : LuaFloats)

/-- `tonumber`. -/
def tonumber (id : String) : Option (Int ⊕ F.Float) :=
  match lStr2int id.toList with
  | some i => some (.inl i)
  | none => (F.lStr2d id).map .inr

/-- `tostring` of a number. -/
def tostring : Int ⊕ F.Float → String
  | .inl i => toString i
  | .inr f => F.toText f

/-- `j < k`. -/
def luaLess : Int ⊕ F.Float → Int ⊕ F.Float → Prop
  | .inl i, .inl j => i < j
  | j, k => F.less j k

/-- `j <= k`. -/
def luaLessEqual : Int ⊕ F.Float → Int ⊕ F.Float → Prop
  | .inl i, .inl j => i ≤ j
  | j, k => F.lessEqual j k

/-- `add_iter_prim` for a comparison of numbers: the numbers are constants again, and these
are matched with the ones of the literal. -/
def numericPrim (holds : Int ⊕ F.Float → Int ⊕ F.Float → Prop) (x y : String) : Prop :=
  ∃ j k, tonumber F x = some j ∧ tonumber F y = some k ∧ holds j k ∧ tostring F j = x ∧
    tostring F k = y

/-- The primitives of `datalog.lua`. -/
def luaPrims : Primitives := fun name x y =>
  match name with
  | "_ge" => numericPrim F (fun j k => luaLessEqual F k j) x y
  | "_gt" => numericPrim F (fun j k => luaLess F k j) x y
  | "_le" => numericPrim F (luaLessEqual F) x y
  | "_lt" => numericPrim F (luaLess F) x y
  | "_ne" => x ≠ y
  | "=" => x = y
  | _ => False

end Primitives

/-! ## Reading decimal texts -/

variable {ds : List Char} {i : Int}

theorem digitsValue_eq (ds : List Char) : digitsValue ds = Nat.ofDigitChars 10 ds 0 := rfl

theorem foldl_bitVec (ds : List Char) (n : Nat) :
    ds.foldl (fun a c => a * BitVec.ofNat 64 10 + BitVec.ofNat 64 (c.toNat - '0'.toNat))
      (BitVec.ofNat 64 n) =
    BitVec.ofNat 64 (ds.foldl (fun n c => 10 * n + (c.toNat - '0'.toNat)) n) := by
  induction ds generalizing n with
  | nil => rfl
  | cons c ds ih =>
    rw [foldl_cons, foldl_cons, ← ih, ← BitVec.ofNat_mul, ← BitVec.ofNat_add,
      Nat.mul_comm]

theorem ne_of_isDigit {c : Char} (h : c.isDigit = true) :
    isSpace c = false ∧ c ≠ '-' ∧ c ≠ '+' ∧ c ≠ 'x' ∧ c ≠ 'X' := by
  have hne : ∀ d : Char, d.isDigit = false → c ≠ d := by
    rintro d hd rfl
    rw [hd] at h
    cases h
  refine ⟨?_, hne _ (by decide), hne _ (by decide), hne _ (by decide), hne _ (by decide)⟩
  simp only [isSpace, Bool.or_eq_false_iff, decide_eq_false_iff_not]
  exact ⟨⟨⟨⟨⟨hne _ (by decide), hne _ (by decide)⟩, hne _ (by decide)⟩, hne _ (by decide)⟩,
    hne _ (by decide)⟩, hne _ (by decide)⟩

section

variable (hne : ds ≠ []) (hdigits : ∀ c ∈ ds, c.isDigit = true)
include hne hdigits

theorem readNumeral_digits : readNumeral ds = (some (BitVec.ofNat 64 (digitsValue ds)), []) := by
  have htake : ds.takeWhile Char.isDigit = ds := takeWhile_eq_self_iff.mpr hdigits
  have hdrop : ds.dropWhile Char.isDigit = [] := dropWhile_eq_nil_iff.mpr hdigits
  unfold readNumeral
  split
  · exact absurd rfl (ne_of_isDigit (hdigits 'x' (by simp))).2.2.2.1
  · exact absurd rfl (ne_of_isDigit (hdigits 'X' (by simp))).2.2.2.2
  · simp only [readDigits, htake, hdrop, hne, if_false]
    exact congrArg (fun a => (some a, [])) (foldl_bitVec ds 0)

theorem lStr2int_digits : lStr2int ds = some (BitVec.ofNat 64 (digitsValue ds)).toInt := by
  have hspace : ds.dropWhile isSpace = ds := by
    obtain ⟨c, cs, rfl⟩ := exists_cons_of_ne_nil hne
    exact dropWhile_cons_of_neg (by simp [(ne_of_isDigit (hdigits c mem_cons_self)).1])
  have hsign : isNeg ds = (false, ds) := by
    unfold isNeg
    split
    · exact absurd rfl (ne_of_isDigit (hdigits '-' (by simp))).2.1
    · exact absurd rfl (ne_of_isDigit (hdigits '+' (by simp))).2.2.1
    · rfl
  simp only [lStr2int, hspace, hsign, readNumeral_digits hne hdigits]
  rfl

theorem lStr2int_neg : lStr2int ('-' :: ds) = some (-BitVec.ofNat 64 (digitsValue ds)).toInt := by
  have hspace : ('-' :: ds).dropWhile isSpace = '-' :: ds :=
    dropWhile_cons_of_neg (by decide)
  simp only [lStr2int, hspace, isNeg, readNumeral_digits hne hdigits]
  rfl

end

theorem toList_toString_int (i : Int) :
    (toString i).toList =
      if 0 ≤ i then Nat.toDigits 10 i.toNat else '-' :: Nat.toDigits 10 (-i).toNat := by
  rw [Int.toString_eq_repr, Int.repr_eq_if]
  split
  · exact Nat.toList_repr
  · rw [toList_append, Nat.toList_repr]
    rfl

theorem isDigit_toDigits {n : Nat} : ∀ c ∈ Nat.toDigits 10 n, c.isDigit = true :=
  fun _ hc => Nat.isDigit_of_mem_toDigits (by decide) (by decide) hc

theorem digitsValue_toDigits (n : Nat) : digitsValue (Nat.toDigits 10 n) = n :=
  Nat.ofDigitChars_ten_toDigits

theorem lStr2int_toString (hlow : -2 ^ 63 ≤ i) (hhigh : i < 2 ^ 63) :
    lStr2int (toString i).toList = some i := by
  rw [toList_toString_int]
  split
  · next hnonneg =>
    rw [lStr2int_digits Nat.toDigits_ne_nil isDigit_toDigits, digitsValue_toDigits,
      BitVec.toInt_ofNat', Int.toNat_of_nonneg hnonneg]
    rw [Int.bmod_eq_of_le (by omega) (by omega)]
  · next hneg =>
    have hbits : -BitVec.ofNat 64 (-i).toNat = BitVec.ofInt 64 i := by
      rw [← BitVec.ofInt_natCast, Int.toNat_of_nonneg (by omega), BitVec.ofInt_neg, neg_neg]
    rw [lStr2int_neg Nat.toDigits_ne_nil isDigit_toDigits, digitsValue_toDigits, hbits,
      BitVec.toInt_ofInt, Int.bmod_eq_of_le (by omega) (by omega)]

/-- Digits are read as the number that they are printed for, up to its width, and are matched
by its text only if they are plain and there are not too many of them. -/
theorem toString_toInt_eq_iff (hne : ds ≠ []) (hdigits : ∀ c ∈ ds, c.isDigit = true) :
    toString (BitVec.ofNat 64 (digitsValue ds)).toInt = String.ofList ds ↔
      Decimal.Plain ds ∧ digitsValue ds < 2 ^ 63 := by
  rw [← Decimal.toDigits_ofDigitChars_iff hne hdigits, ← digitsValue_eq]
  constructor
  · intro h
    have hlist := congrArg toList h
    rw [toList_toString_int, toList_ofList] at hlist
    have hlt := BitVec.toInt_lt (x := BitVec.ofNat 64 (digitsValue ds))
    generalize (BitVec.ofNat 64 (digitsValue ds)).toInt = i at hlist hlt
    split at hlist
    · next hnonneg =>
      have hvalue : digitsValue ds = i.toNat := by rw [← hlist, digitsValue_toDigits]
      rw [hvalue]
      exact ⟨hlist, by omega⟩
    · exact absurd rfl (ne_of_isDigit (hdigits '-' (by simp [← hlist]))).2.1
  · rintro ⟨hplain, hlt⟩
    refine toList_inj.mp ?_
    rw [BitVec.toInt_ofNat', Int.bmod_eq_of_le (by omega) (by omega),
      toList_toString_int, if_pos (by omega), Int.toNat_natCast, toList_ofList]
    exact hplain

/-! ## Printing an `int` -/

/-- What is left of an `int` in nine characters. -/
def cutInt (i : Int) : Int :=
  if 10 ^ 9 ≤ i then i / 10
  else if i ≤ -10 ^ 9 then -(-i / 100)
  else if i ≤ -10 ^ 8 then -(-i / 10)
  else i

theorem stringify_number (hlow : -2 ^ 31 ≤ i) (hhigh : i < 2 ^ 31) :
    (AbacValue.number i).stringify = toString (cutInt i) := by
  refine toList_inj.mp ?_
  rw [stringify, toList_ofList, toList_toString_int, toList_toString_int]
  by_cases hnonneg : 0 ≤ i
  · rw [if_pos hnonneg]
    by_cases hlong : 10 ^ 9 ≤ i
    · have hcut : cutInt i = i / 10 := if_pos hlong
      rw [hcut, if_pos (by omega), Decimal.take_toDigits_div (j := 1) (by omega) (by omega)
        (by omega)]
      congr 1
      omega
    · have hcut : cutInt i = i := by
        rw [cutInt, if_neg hlong, if_neg (by omega), if_neg (by omega)]
      rw [hcut, if_pos hnonneg]
      exact take_of_length_le ((Nat.length_toDigits_le_iff (by decide) (by decide)).mpr
        (by omega))
  · rw [if_neg hnonneg, take_succ_cons]
    by_cases hten : i ≤ -10 ^ 9
    · have hcut : cutInt i = -(-i / 100) := by rw [cutInt, if_neg (by omega), if_pos hten]
      rw [hcut, if_neg (by omega), Decimal.take_toDigits_div (j := 2) (by omega) (by omega)
        (by omega)]
      congr 2
      omega
    by_cases hnine : i ≤ -10 ^ 8
    · have hcut : cutInt i = -(-i / 10) := by
        rw [cutInt, if_neg (by omega), if_neg hten, if_pos hnine]
      rw [hcut, if_neg (by omega), Decimal.take_toDigits_div (j := 1) (by omega) (by omega)
        (by omega)]
      congr 2
      omega
    · have hcut : cutInt i = i := by
        rw [cutInt, if_neg (by omega), if_neg hten, if_neg hnine]
      rw [hcut, if_neg hnonneg]
      exact congrArg ('-' :: ·) (take_of_length_le
        ((Nat.length_toDigits_le_iff (by decide) (by decide)).mpr (by omega)))

theorem cutInt_bounds (hlow : -2 ^ 31 ≤ i) (hhigh : i < 2 ^ 31) :
    -2 ^ 63 ≤ cutInt i ∧ cutInt i < 2 ^ 63 := by
  unfold cutInt
  split
  · omega
  split
  · omega
  split <;> omega

/-! ## The sides of a comparison -/

/-- A side of a comparison with what it stands for: a number of the policy, an attribute with
its value, or the size of the object. -/
inductive Operand where
  | literal (digits : List Char)
  | attr (type : AtomType) (name value : List Char)
  | osize (size : Nat)

/-- The side as it is written in a policy. -/
def Operand.tree : Operand → ArgTree
  | .literal digits => .number digits
  | .attr type name _ => .dotted (type.text ++ '.' :: name)
  | .osize _ => .dotted ['o', '.', '@', 'o', 's', 'i', 'z', 'e']

/-- The integer that the side denotes. -/
def Operand.integer : Operand → Nat
  | .literal digits => digitsValue digits
  | .attr _ _ value => digitsValue value
  | .osize size => size

/-- The value of an attribute is a short digit string, and a size is one of the machine. -/
def Operand.InRange : Operand → Prop
  | .literal _ => True
  | .attr _ _ value => value ≠ [] ∧ (∀ c ∈ value, c.isDigit = true) ∧ value.length < 64
  | .osize size => size < 2 ^ 64

/-- The attribute has this value and no other; the size is what `__handle_osize` returns. -/
def Operand.Recorded (facts : Set GroundAtom) (u o : String) : Operand → Prop
  | .literal _ => True
  | .attr type name value =>
    ∀ x, ⟨String.ofList name, [type.entity u o, x]⟩ ∈ facts ↔ x = String.ofList value
  | .osize size => ∀ x, ⟨"@osize", [o, x]⟩ ∈ facts ↔ x = (handleOsize size).stringify

/-- The constant that the engine has for the side. -/
def Operand.constant : Operand → String
  | .literal digits => (AbacValue.number (atoi digits)).stringify
  | .attr _ _ value => String.ofList value
  | .osize size => (handleOsize size).stringify

/-- The text of the side is that of a `lua_Integer`. -/
def Operand.Readable : Operand → Prop
  | .attr _ _ value => Decimal.Plain value ∧ digitsValue value < 2 ^ 63
  | _ => True

/-- The integer that is compared for a readable side: literals and sizes as an `int` in nine
characters. -/
def Operand.compared : Operand → Int
  | .literal digits => cutInt (atoi digits)
  | .attr _ _ value => digitsValue value
  | .osize size => cutInt (BitVec.ofNat 32 size).toInt

/-- The relation of a comparison. -/
def Comparison.relation : Comparison → Int → Int → Prop
  | .lt, m, n => m < n
  | .le, m, n => m ≤ n
  | .gt, m, n => m > n
  | .ge, m, n => m ≥ n
  | .ee, m, n => m = n
  | .ne, m, n => m ≠ n

/-- Both sides are readable and what is compared is related as the integers are, or they are
not and the integers are not related either. -/
def RightlyCompared (cmp : Comparison) (a b : Operand) : Prop :=
  (a.Readable ∧ b.Readable →
    (cmp.relation a.compared b.compared ↔ cmp.relation a.integer b.integer)) ∧
  (¬ (a.Readable ∧ b.Readable) → ¬ cmp.relation a.integer b.integer)

instance (a : Operand) : Decidable a.InRange :=
  match a with
  | .literal _ => .isTrue trivial
  | .attr _ _ value =>
    haveI : Decidable (∀ c ∈ value, c.isDigit = true) := List.decidableBAll _ _
    inferInstanceAs (Decidable
      (value ≠ [] ∧ (∀ c ∈ value, c.isDigit = true) ∧ value.length < 64))
  | .osize size => inferInstanceAs (Decidable (size < 2 ^ 64))

instance (a : Operand) : Decidable a.Readable :=
  match a with
  | .attr _ _ value =>
    inferInstanceAs (Decidable (Decimal.Plain value ∧ digitsValue value < 2 ^ 63))
  | .literal _ | .osize _ => .isTrue trivial

instance (cmp : Comparison) (m n : Int) : Decidable (cmp.relation m n) :=
  match cmp with
  | .lt => inferInstanceAs (Decidable (m < n))
  | .le => inferInstanceAs (Decidable (m ≤ n))
  | .gt => inferInstanceAs (Decidable (m > n))
  | .ge => inferInstanceAs (Decidable (m ≥ n))
  | .ee => inferInstanceAs (Decidable (m = n))
  | .ne => inferInstanceAs (Decidable (m ≠ n))

instance (cmp : Comparison) (a b : Operand) : Decidable (RightlyCompared cmp a b) :=
  inferInstanceAs (Decidable (_ ∧ _))

/-- Literals and sizes have nine digits, and values of attributes are written as a
`lua_Integer` is printed. -/
def Operand.Short : Operand → Prop
  | .literal digits => digitsValue digits < 10 ^ 9
  | .attr _ _ value => Decimal.Plain value ∧ digitsValue value < 2 ^ 63
  | .osize size => size < 10 ^ 9

theorem cutInt_toInt {n : Nat} (h : n < 10 ^ 9) : cutInt (BitVec.ofNat 32 n).toInt = n := by
  have hint : (BitVec.ofNat 32 n).toInt = n := by
    rw [BitVec.toInt_ofNat', Int.bmod_eq_of_le (by omega) (by omega)]
  rw [hint, cutInt, if_neg (by omega), if_neg (by omega), if_neg (by omega)]

theorem Operand.Short.compared {a : Operand} (h : a.Short) : a.compared = a.integer := by
  cases a with
  | literal digits =>
    have hsat : min (digitsValue digits) (2 ^ 63 - 1) = digitsValue digits :=
      min_eq_left (h.le.trans (by decide))
    rw [Operand.compared, atoi, hsat]
    exact cutInt_toInt h
  | attr type name value => rfl
  | osize size => exact cutInt_toInt h

theorem Operand.Short.readable {a : Operand} (h : a.Short) : a.Readable := by
  cases a with
  | attr type name value => exact h
  | literal digits | osize size => trivial

theorem rightlyCompared_of_short (cmp : Comparison) {a b : Operand} (ha : a.Short) (hb : b.Short) :
    RightlyCompared cmp a b := by
  refine ⟨fun _ => ?_, fun h => absurd ⟨ha.readable, hb.readable⟩ h⟩
  rw [ha.compared, hb.compared]

theorem int32_bounds (x : BitVec 32) : -2 ^ 31 ≤ x.toInt ∧ x.toInt < 2 ^ 31 :=
  ⟨BitVec.le_toInt x, BitVec.toInt_lt⟩

theorem tonumber_of_lStr2int (F : LuaFloats) {text : String} (h : lStr2int text.toList = some i) :
    tonumber F text = some (.inl i) := by
  rw [tonumber, h]

/-- The number that the engine makes of a side, and when it matches the side. -/
theorem Operand.tonumber_constant (F : LuaFloats) {a : Operand} (h : a.InRange) :
    ∃ i, tonumber F a.constant = some (.inl i) ∧ (toString i = a.constant ↔ a.Readable) ∧
      (a.Readable → i = a.compared) := by
  have hint : ∀ x : BitVec 32, tonumber F (number x.toInt).stringify =
      some (.inl (cutInt x.toInt)) ∧
      toString (cutInt x.toInt) = (number x.toInt).stringify := by
    intro x
    obtain ⟨hlow, hhigh⟩ := int32_bounds x
    obtain ⟨hcutLow, hcutHigh⟩ := cutInt_bounds hlow hhigh
    have htext := stringify_number hlow hhigh
    refine ⟨tonumber_of_lStr2int F ?_, htext.symm⟩
    rw [htext]
    exact lStr2int_toString hcutLow hcutHigh
  cases a with
  | literal digits =>
    obtain ⟨hread, htext⟩ := hint (BitVec.ofNat 32 (min (digitsValue digits) (2 ^ 63 - 1)))
    exact ⟨_, hread, iff_of_true htext trivial, fun _ => rfl⟩
  | osize size =>
    obtain ⟨hread, htext⟩ := hint (BitVec.ofNat 32 size)
    exact ⟨_, hread, iff_of_true htext trivial, fun _ => rfl⟩
  | attr type name value =>
    obtain ⟨hne, hdigits, -⟩ := h
    refine ⟨_, tonumber_of_lStr2int F ?_, toString_toInt_eq_iff hne hdigits, ?_⟩
    · rw [Operand.constant, toList_ofList]
      exact lStr2int_digits hne hdigits
    · rintro ⟨-, hlt⟩
      rw [BitVec.toInt_ofNat', Int.bmod_eq_of_le (by omega) (by omega)]
      rfl

theorem numericPrim_iff (F : LuaFloats) {holds : Int ⊕ F.Float → Int ⊕ F.Float → Prop}
    {a b : Operand} (ha : a.InRange) (hb : b.InRange) :
    numericPrim F holds a.constant b.constant ↔
      (a.Readable ∧ b.Readable) ∧ holds (.inl a.compared) (.inl b.compared) := by
  obtain ⟨i, hi, hitext, hireadable⟩ := Operand.tonumber_constant F ha
  obtain ⟨j, hj, hjtext, hjreadable⟩ := Operand.tonumber_constant F hb
  constructor
  · rintro ⟨x, y, hx, hy, hholds, hxtext, hytext⟩
    cases hi.symm.trans hx
    cases hj.symm.trans hy
    have hareadable := hitext.mp hxtext
    have hbreadable := hjtext.mp hytext
    rw [hireadable hareadable, hjreadable hbreadable] at hholds
    exact ⟨⟨hareadable, hbreadable⟩, hholds⟩
  · rintro ⟨⟨hareadable, hbreadable⟩, hholds⟩
    refine ⟨.inl i, .inl j, hi, hj, ?_, hitext.mpr hareadable, hjtext.mpr hbreadable⟩
    rw [hireadable hareadable, hjreadable hbreadable]
    exact hholds

/-! ## The comparison in a policy -/

/-- The text spells the policy, and the policy is accepted. -/
structure WrittenPolicy (space : Option AttributeSpace) (uuid : Uuid) (input : List Char)
    (tree : RuleTree) : Prop where
  spells : Spells tree.tokens (policyText input)
  accepted : (parseAbacPolicy space uuid input).outcome = .ok (tree.parsed uuid)

/-- With some constants for its variables, the literals of the atom are all derived. -/
def PolicyAtom.Satisfied (prims : Primitives) (facts : Set GroundAtom) (clause : Clause)
    (u o : String) (atom : PolicyAtom) : Prop :=
  ∃ literals index, policyAtomToDb atom 0 = some (literals, index) ∧
    ∃ σ : String → String, σ "U" = u ∧ σ "O" = o ∧
      ∀ l ∈ literals, Derives (policyProgram prims facts clause) (l.ground σ)

section Satisfied

variable {facts : Set GroundAtom} {u o : String}

/-- The side of an operand, as it is translated, has the operand's constant as its value. -/
theorem Operand.denotes_iff {a : Operand} (h : a.Recorded facts u o) (x : String) :
    (a.tree.parsed.side AbacValue.stringify).Denotes facts u o x ↔ x = a.constant := by
  cases a with
  | literal digits => exact Iff.rfl
  | attr type name value =>
    have hside : (Operand.attr type name value).tree.parsed.side stringify =
        .named type (ofList name) := by
      cases type <;> exact side_identifier (toList_ofList) rfl
    rw [hside]
    exact h x
  | osize size => exact h x

theorem Operand.not_mem_predicates {a : Operand} (h : a.Recorded facts u o)
    (hfacts : Assertable facts) (perm : Perm) :
    perm.toString ∉ (a.tree.parsed.side AbacValue.stringify).predicates := by
  intro hmem
  have hdenotes := (Operand.denotes_iff h a.constant).mpr rfl
  cases hside : a.tree.parsed.side stringify with
  | value text =>
    rw [hside] at hmem
    cases hmem
  | named type name =>
    rw [hside] at hmem hdenotes
    exact hfacts _ hdenotes perm (mem_singleton.mp hmem).symm

/-- An atom with a condition that does not ask for the permission is satisfied if the
condition holds. -/
theorem PolicyAtom.satisfied_iff {prims : Primitives} {perm : Perm} {conditions : List Condition}
    {atom : PolicyAtom} (hclean : atom.Clean)
    (hpushed : (atom.condition AbacValue.stringify).Pushed)
    (hasks : perm.toString ∉ (atom.condition AbacValue.stringify).predicates) :
    atom.Satisfied prims facts (policyClause perm conditions) u o ↔
      (atom.condition AbacValue.stringify).Holds prims facts u o := by
  have hwidth : totalWidth [atom.condition stringify] ≤ maxVariables := by
    have hside : ∀ s : Side, s.width ≤ 1 := by
      intro s
      cases s <;> simp [Side.width]
    have hcondition : (atom.condition stringify).width ≤ 2 := by
      cases atom.condition stringify with
      | fact predicate type value => exact Nat.zero_le 2
      | compare primitive left right => exact Nat.add_le_add (hside left) (hside right)
    exact hcondition.trans (by decide)
  have hliterals : conditionsLiterals [atom.condition stringify] 0 =
      (atom.condition stringify).literals 0 := append_nil _
  have hproper := hclean.proper_condition fun _ hquote => quote_not_mem_stringify hquote
  have hinstance := exists_instance_iff (D := Given prims facts) (u := u) (o := o) hwidth
  rw [hliterals, forall_mem_singleton, Condition.satisfiable_given_iff hproper hpushed]
    at hinstance
  rw [← hinstance, PolicyAtom.Satisfied, policyAtomToDb_eq_some hclean.translatable]
  simp only [Option.some.injEq, Prod.mk.injEq, and_assoc, exists_and_left, exists_eq_left']
  refine exists_congr fun σ => and_congr_right fun _ => and_congr_right fun _ => ?_
  refine forall₂_congr fun l hl => derives_given_iff fun heq => hasks ?_
  exact (Condition.exists_literal_iff).mp ⟨l, hl, heq⟩

end Satisfied

/-- The facts that the bouncer asserts about a user and an object. -/
def requestFacts (space : AttributeSpace) (user : Uuid) (userName : String)
    (userAttributes : Attributes) (obj : ObjectMetadata) : Set GroundAtom :=
  {a | factClause a ∈ entityFacts (kbEntityNew user .user) space userAttributes
      (userSystemFunctions userName) ++
    entityFacts (kbEntityNew obj.uuid .object) space obj.attributes (objSystemFunctions obj)}

theorem assertable_requestFacts (calls : List SpaceCall) (user : Uuid) (userName : String)
    (userAttributes : Attributes) (obj : ObjectMetadata) :
    Assertable (requestFacts (.build calls) user userName userAttributes obj) := by
  have hentity : ∀ {entity : KbEntity} {attributes : Attributes}
      {functions : List (String × Option String)} {c : Clause},
      (∀ c ∈ systemFunctionFacts entity functions, SystemFact c) →
      c ∈ entityFacts entity (.build calls) attributes functions →
      ∀ perm : Perm, c.head.pred ≠ perm.toString := by
    intro entity attributes functions c hsystem hc perm heq
    obtain rfl | hc := mem_cons.mp hc
    · exact TypeFact.pred_ne ⟨entity, rfl⟩ perm heq
    obtain hc | hc := mem_append.mp hc
    · exact not_reserved_of_mem (hsystem c hc).pred_mem (.inl ⟨perm, heq⟩)
    · have hattribute : AttributeFact c := ⟨calls, entity, attributes, hc⟩
      exact not_reserved_of_attributeName hattribute.attributeName (.inl ⟨perm, heq⟩)
  intro a ha
  obtain huser | hobject := mem_append.mp ha
  · exact hentity (fun c hc => ⟨_, .inl ⟨userName, hc⟩⟩) huser
  · exact hentity (fun c hc => ⟨_, .inr ⟨obj, hc⟩⟩) hobject

theorem recorded_osize (calls : List SpaceCall) (user : Uuid) (userName : String)
    (userAttributes : Attributes) (obj : ObjectMetadata) :
    (Operand.osize obj.size).Recorded
      (requestFacts (.build calls) user userName userAttributes obj)
      (nexusUuidToHex user) (nexusUuidToHex obj.uuid) := by
  have hattribute : ∀ {entity : KbEntity} {attributes : Attributes} {x y : String},
      factClause ⟨"@osize", [x, y]⟩ ∉ attributeTableFacts entity (.build calls) attributes := by
    intro entity attributes x y hmem
    have hname : AttributeName "@osize" :=
      AttributeFact.attributeName ⟨calls, entity, attributes, hmem⟩
    exact absurd hname.1 (by decide)
  have htype : ∀ (entity : KbEntity) (x y : String),
      factClause ⟨"@osize", [x, y]⟩ ≠ entityTypeFact entity := by
    intro entity x y heq
    have hpred : "@osize" = (entityTypeFact entity).head.pred :=
      congrArg (fun c : Clause => c.head.pred) heq
    unfold entityTypeFact at hpred
    cases hentity : entity.type <;> simp [hentity, dbFact, dbMakeLiteral] at hpred
  have hsize : (handleOsize obj.size).stringify ≠ "" := stringify_number_ne _
  have hfact : dbFact obj.uuid "@osize" (handleOsize obj.size).stringify =
      factClause ⟨"@osize", [nexusUuidToHex obj.uuid, (handleOsize obj.size).stringify]⟩ := by
    simp [dbFact, dbPushTerm, hsize, dbMakeLiteral, factClause]
  intro x
  constructor
  · intro hmem
    obtain huser | hobject := mem_append.mp hmem
    · obtain heq | huser := mem_cons.mp huser
      · exact absurd heq (htype _ _ _)
      obtain hsystem | htable := mem_append.mp huser
      · have hname : "@osize" ∈ (userSystemFunctions userName).map Prod.fst :=
          pred_mem_of_systemFunctionFacts hsystem
        simp [userSystemFunctions] at hname
      · exact absurd htable hattribute
    · obtain heq | hobject := mem_cons.mp hobject
      · exact absurd heq (htype _ _ _)
      obtain hsystem | htable := mem_append.mp hobject
      · obtain ⟨⟨name, value⟩, hmem, hvalue⟩ := mem_filterMap.mp hsystem
        obtain ⟨text, rfl, hclause⟩ := Option.map_eq_some_iff.mp hvalue
        obtain rfl : name = "@osize" := congrArg (fun c : Clause => c.head.pred) hclause
        obtain rfl : text = (handleOsize obj.size).stringify := by
          simpa [objSystemFunctions] using hmem
        have hterms := congrArg (fun c : Clause => c.head.terms) (hfact.symm.trans hclause)
        simpa [factClause, eq_comm] using hterms
      · exact absurd htable hattribute
  · rintro rfl
    refine mem_append_right _ (mem_cons_of_mem _ (mem_append_left _ ?_))
    refine mem_filterMap.mpr ⟨("@osize", some (handleOsize obj.size).stringify), ?_, ?_⟩
    · simp [objSystemFunctions]
    · exact congrArg some hfact

theorem luaPrims_comparison_iff (F : LuaFloats) {cmp : Comparison}
    (hcmp : cmp ∈ [Comparison.lt, .le, .gt, .ge]) {a b : Operand} (ha : a.InRange)
    (hb : b.InRange) :
    luaPrims F ((booleanOperatorToDatalogStr cmp.operator).getD "") a.constant b.constant ↔
      (a.Readable ∧ b.Readable) ∧ cmp.relation a.compared b.compared := by
  cases cmp with
  | lt | le | gt | ge => exact numericPrim_iff F ha hb
  | ee | ne => simp at hcmp

/-- A numeric comparison is right exactly if it is one of the readable sides whose compared
integers are related alike, or an unreadable one that is not satisfied anyway. -/
theorem numeric_comparison_iff (F : LuaFloats) {space : Option AttributeSpace} {uuid : Uuid}
    {input : List Char} {tree : RuleTree} (hpolicy : WrittenPolicy space uuid input tree)
    {cmp : Comparison} (hcmp : cmp ∈ [.lt, .le, .gt, .ge]) {a b : Operand}
    (hatom : .comparison cmp a.tree b.tree ∈ tree.atoms) (ha : a.InRange) (hb : b.InRange)
    {facts : Set GroundAtom} {u o : String} (hfacts : Assertable facts)
    (hra : a.Recorded facts u o) (hrb : b.Recorded facts u o) {clause : Clause}
    (hclause : policyRuleToDb (tree.parsed uuid) = some clause) :
    ((AtomTree.comparison cmp a.tree b.tree).parsed.Satisfied (luaPrims F) facts clause u o ↔
      cmp.relation a.integer b.integer) ↔ RightlyCompared cmp a b := by
  have hall := clean_of_parse hpolicy.accepted
  have hmem : (comparison cmp a.tree b.tree).parsed ∈ (tree.parsed uuid).atoms :=
    mem_map_of_mem hatom
  have hclean := hall _ hmem
  obtain rfl := Option.some.inj (hclause.symm.trans
    (policyRuleToDb_eq_some fun atom hatom => (hall atom hatom).translatable))
  have hstring : ∀ a : Operand, a.tree.parsed ≠ .string "" := by
    intro a
    cases a <;> exact AbacValue.noConfusion
  have hpushed : ((comparison cmp a.tree b.tree).parsed.condition
      stringify).Pushed :=
    ⟨(pushed_side_iff _).mpr (hstring a), (pushed_side_iff _).mpr (hstring b)⟩
  have hasks : (tree.parsed uuid).perm.toString ∉
      ((comparison cmp a.tree b.tree).parsed.condition stringify).predicates := by
    have hprimitive : (booleanOperatorToDatalogStr cmp.operator).getD "" ≠
        (tree.parsed uuid).perm.toString := by
      generalize (tree.parsed uuid).perm = perm
      cases cmp <;> cases perm <;> decide
    rw [parsed, PolicyAtom.condition, Condition.predicates, mem_append,
      mem_append, mem_singleton]
    rintro ((hleft | hright) | heq)
    · exact Operand.not_mem_predicates hra hfacts _ hleft
    · exact Operand.not_mem_predicates hrb hfacts _ hright
    · exact hprimitive heq.symm
  have hholds : ((comparison cmp a.tree b.tree).parsed.condition
      stringify).Holds (luaPrims F) facts u o ↔
      (a.Readable ∧ b.Readable) ∧ cmp.relation a.compared b.compared := by
    rw [← luaPrims_comparison_iff F hcmp ha hb, parsed, PolicyAtom.condition,
      Condition.Holds]
    simp only [Operand.denotes_iff hra, Operand.denotes_iff hrb, exists_eq_left, exists_and_left]
  rw [PolicyAtom.satisfied_iff hclean hpushed hasks, hholds, RightlyCompared]
  by_cases hreadable : a.Readable ∧ b.Readable
  · simp [hreadable]
  · simp [hreadable]

/-- An engine that reads no floating-point numbers. -/
def noFloats : LuaFloats := ⟨Empty, fun _ => none, Empty.elim, fun _ _ => False, fun _ _ => False⟩

/-- The policy `read:-<(o.@osize,100)`. -/
def smallPolicy : RuleTree :=
  ⟨.read, .comparison .lt (Operand.osize 42).tree (Operand.literal ['1', '0', '0']).tree, []⟩

/-- A file of 42 bytes. -/
def smallFile : ObjectMetadata := ⟨2, 1, false, 42, some ["f"], [], false⟩

/-- A file of 42 bytes is one of less than 100. -/
theorem small_file_satisfied :
    smallPolicy.first.parsed.Satisfied (luaPrims noFloats)
      (requestFacts (.build []) 1 "u1" [] smallFile)
      (policyClause .read [.compare "_lt" (.named .object "@osize") (.value "100")])
      (nexusUuidToHex 1) (nexusUuidToHex 2) := by
  have hpolicy : WrittenPolicy none 0 "read:-<(o.@osize,100)".toList smallPolicy := by
    refine ⟨?_, by decide⟩
    exact .token (.identifier ['r', 'e', 'a', 'd']) (.token .colonequals (.token .lt
      (.token .lparen (.token (.dotNotation ['o', '.', '@', 'o', 's', 'i', 'z', 'e'])
        (.token .comma (.token (.number ['1', '0', '0']) (.token .rparen .nil)))))))
  have hclause : policyRuleToDb (smallPolicy.parsed 0) = some
      (policyClause .read [.compare "_lt" (.named .object "@osize") (.value "100")]) := by decide
  have hexact := (numeric_comparison_iff noFloats hpolicy (by decide) mem_cons_self
    (by decide) (by decide) (assertable_requestFacts [] 1 "u1" [] smallFile)
    (recorded_osize [] 1 "u1" [] smallFile) trivial hclause).mpr (by decide)
  exact hexact.mpr (by decide)

/-- The policy `read:->(u.a,1000000000)`. -/
def cutPolicy : RuleTree :=
  ⟨.read, .comparison .gt (.dotted ['u', '.', 'a']) (.number "1000000000".toList), []⟩

/-- A user whose attribute has the value 200000000, and an object. -/
def cutFacts : Set GroundAtom :=
  {⟨"_isUser", [nexusUuidToHex 1]⟩, ⟨"_isObject", [nexusUuidToHex 2]⟩,
    ⟨"a", [nexusUuidToHex 1, "200000000"]⟩}

/-- The last digit of the number is cut, and the permission is derived for a smaller value. -/
theorem cut_number_derived :
    (parseAbacPolicy (some exampleSpace) 0 "read:->(u.a,1000000000)".toList).outcome =
        .ok (cutPolicy.parsed 0) ∧
      (∃ clause, policyRuleToDb (cutPolicy.parsed 0) = some clause ∧
        Derives (policyProgram (luaPrims noFloats) cutFacts clause)
          ⟨"read", [nexusUuidToHex 1, nexusUuidToHex 2]⟩) ∧
      ¬ Comparison.gt.relation (digitsValue "200000000".toList)
        (digitsValue "1000000000".toList) := by
  refine ⟨by decide, ⟨policyClause .read [.compare "_gt" (.named .user "a") (.value "100000000")],
    by decide, ?_⟩, by decide⟩
  have hfacts : ∀ a ∈ cutFacts, a.pred ≠ Perm.read.toString := by
    rintro a (rfl | rfl | rfl) <;> simp [Perm.toString]
  have hprims : luaPrims noFloats "_gt" "200000000" "100000000" := by
    have hattribute : (Operand.attr .user ['a'] "200000000".toList).InRange := by decide
    exact (numericPrim_iff noFloats hattribute (b := .literal "1000000000".toList) trivial).mpr
      ⟨⟨by decide, trivial⟩, show (100000000 : Int) < 200000000 by decide⟩
  refine (derives_policy_iff hfacts (by decide) (by decide)).mpr ⟨.inl rfl, .inr (.inl rfl), ?_⟩
  refine forall_mem_singleton.mpr
    ((Condition.satisfiable_given_iff (by decide) (by decide)).mpr ?_)
  exact ⟨"200000000", "100000000", .inr (.inr rfl), rfl, hprims⟩

end Nexus.Abac
