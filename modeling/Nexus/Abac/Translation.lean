import Nexus.Abac.Semantics
import Nexus.Abac.Parser

/-!
# Instances of translated policies

`policy_rule_to_db` writes the atoms of a policy as literals and takes a new variable for
each dotted argument of a comparison.  Here an atom is read as a condition on the user
and the object, and the literals are computed from the condition.

* `policyRuleToDb_eq_some`: the clause of a policy in terms of its conditions.
* `exists_instance_iff`: an instance of the literals for a user and an object holds exactly
  if each condition is satisfied by values of its own.  This is where the variables must be
  different; their names are cut, so there may not be more than `maxVariables` of them.
* `derives_policy_iff`: derivations from a set of facts and one policy that does not ask for
  its own permission end with such an instance.
-/

namespace Nexus.Abac

open Datalog List

/-! ## Conditions -/

/-- A side of a comparison: a constant, or an attribute or function of the user or object. -/
inductive Side where
  | value (text : String)
  | named (type : AtomType) (name : String)
  deriving DecidableEq, Repr

/-- What an atom asks for: a fact with at most one value, or a comparison. -/
inductive Condition where
  | fact (predicate : String) (type : AtomType) (value : String)
  | compare (primitive : String) (left right : Side)
  deriving DecidableEq, Repr

/-- The side that an argument of a comparison is, where `text` writes the constants. -/
def AbacValue.side (text : AbacValue → String) : AbacValue → Side
  | .identifier s =>
    .named (if s.toList.head? = some 'u' then .user else .object)
      (String.ofList (s.toList.drop 2))
  | v => .value (text v)

/-- The condition of an atom, where `text` writes the constants. -/
def PolicyAtom.condition (text : AbacValue → String) : PolicyAtom → Condition
  | .normal predicate type arg => .fact predicate type ((arg.map text).getD "")
  | .bool operator left right =>
    .compare ((booleanOperatorToDatalogStr operator).getD "") (left.side text) (right.side text)

/-- The constant of the user or of the object. -/
def AtomType.entity (u o : String) : AtomType → String
  | .user => u
  | .object => o

/-- The fact as `db_assert_fact` asserts it: without a value if that is empty. -/
def groundFact (predicate entity value : String) : GroundAtom :=
  ⟨predicate, entity :: if value = "" then [] else [value]⟩

/-! ## The literals of a condition -/

/-- The variable of the dotted argument with that index, in a buffer of ten bytes. -/
def xVar (index : Nat) : String := String.ofList (("X" ++ toString index).toList.take 9)

/-- How many variables a side takes. -/
def Side.width : Side → Nat
  | .value _ => 0
  | .named _ _ => 1

/-- The literal that gives a dotted argument its values. -/
def Side.literals : Side → Nat → List Literal
  | .value _, _ => []
  | .named type name, index => [⟨name, [.var type.uppercase, .var (xVar index)]⟩]

/-- The term of a side in the literal of the comparison; an empty constant has none. -/
def Side.terms : Side → Nat → List Term
  | .value text, _ => dbPushTerm .const text
  | .named _ _, index => [.var (xVar index)]

/-- How many variables a condition takes. -/
def Condition.width : Condition → Nat
  | .fact _ _ _ => 0
  | .compare _ left right => left.width + right.width

/-- The literals of a condition whose variables start at an index. -/
def Condition.literals : Condition → Nat → List Literal
  | .fact predicate type value, _ =>
    [⟨predicate, .var type.uppercase :: dbPushTerm .const value⟩]
  | .compare primitive left right, index =>
    left.literals index ++ right.literals (index + left.width) ++
      [⟨primitive, left.terms index ++ right.terms (index + left.width)⟩]

/-- How many variables conditions take. -/
def totalWidth : List Condition → Nat
  | [] => 0
  | c :: cs => c.width + totalWidth cs

/-- The literals of conditions, one after the other. -/
def conditionsLiterals : List Condition → Nat → List Literal
  | [], _ => []
  | c :: cs, index => c.literals index ++ conditionsLiterals cs (index + c.width)

/-- An argument that can be translated: the entity of an identifier is known. -/
def AbacValue.HasEntity : AbacValue → Prop
  | .identifier s => s.toList.head? = some 'u' ∨ s.toList.head? = some 'o'
  | _ => True

/-- An atom that can be translated: its comparison and its entities are known. -/
def PolicyAtom.Translatable : PolicyAtom → Prop
  | .normal _ _ _ => True
  | .bool operator left right =>
    (booleanOperatorToDatalogStr operator).isSome ∧ left.HasEntity ∧ right.HasEntity

theorem tryPushBooleanFact_eq_some {arg : AbacValue} (h : arg.HasEntity) (index : Nat) :
    tryPushBooleanFact arg index =
      some ((arg.side AbacValue.stringify).literals index, (arg.side AbacValue.stringify).terms index,
        index + (arg.side AbacValue.stringify).width) := by
  cases arg with
  | string s => rfl
  | number i => rfl
  | identifier s =>
    obtain h | h := h <;>
      simp [tryPushBooleanFact, AbacValue.side, Side.literals, Side.terms, Side.width, h, xVar,
        dbMakeLiteral, AtomType.uppercase]

theorem policyAtomToDb_eq_some {atom : PolicyAtom} (h : atom.Translatable) (index : Nat) :
    policyAtomToDb atom index =
      some ((atom.condition AbacValue.stringify).literals index,
        index + (atom.condition AbacValue.stringify).width) := by
  cases atom with
  | normal predicate type arg => rfl
  | bool operator left right =>
    obtain ⟨hop, hleft, hright⟩ := h
    obtain ⟨primitive, hprimitive⟩ := Option.isSome_iff_exists.mp hop
    simp [policyAtomToDb, tryPushBooleanFact_eq_some hleft, tryPushBooleanFact_eq_some hright,
      hprimitive, PolicyAtom.condition, Condition.literals, Condition.width, dbMakeLiteral,
      Nat.add_assoc]

theorem policyAtomsToDb_eq_some {atoms : List PolicyAtom} (h : ∀ atom ∈ atoms, atom.Translatable)
    (index : Nat) :
    policyAtomsToDb atoms index =
      some (conditionsLiterals (atoms.map (·.condition AbacValue.stringify)) index) := by
  induction atoms generalizing index with
  | nil => rfl
  | cons atom atoms ih =>
    obtain ⟨hatom, hatoms⟩ := forall_mem_cons.mp h
    simp [policyAtomsToDb, policyAtomToDb_eq_some hatom, ih hatoms, conditionsLiterals]

/-- The attributes and functions that a side asks for. -/
def Side.predicates : Side → List String
  | .value _ => []
  | .named _ name => [name]

/-- The predicates of the literals of a condition. -/
def Condition.predicates : Condition → List String
  | .fact predicate _ _ => [predicate]
  | .compare primitive left right => left.predicates ++ right.predicates ++ [primitive]

theorem Side.exists_literal_iff (s : Side) (index : Nat) {pred : String} :
    (∃ l ∈ s.literals index, l.pred = pred) ↔ pred ∈ s.predicates := by
  cases s with
  | value text => simp [Side.literals, Side.predicates]
  | named type name => simp [Side.literals, Side.predicates, eq_comm]

theorem Condition.exists_literal_iff {c : Condition} {index : Nat} {pred : String} :
    (∃ l ∈ c.literals index, l.pred = pred) ↔ pred ∈ c.predicates := by
  cases c with
  | fact predicate type value => simp [Condition.literals, Condition.predicates, eq_comm]
  | compare primitive left right =>
    rw [Condition.predicates, mem_append, mem_append, mem_singleton,
      ← left.exists_literal_iff index,
      ← right.exists_literal_iff (index + left.width)]
    simp only [Condition.literals, mem_append, mem_singleton, or_and_right,
      exists_or, exists_eq_left, eq_comm]

theorem exists_conditionsLiterals_iff (cs : List Condition) (index : Nat) {pred : String} :
    (∃ l ∈ conditionsLiterals cs index, l.pred = pred) ↔ ∃ c ∈ cs, pred ∈ c.predicates := by
  induction cs generalizing index with
  | nil => simp [conditionsLiterals]
  | cons c cs ih =>
    simp only [conditionsLiterals, mem_append, or_and_right, exists_or, ih,
      Condition.exists_literal_iff, mem_cons, exists_eq_left]

/-- The clause of a policy with these conditions. -/
def policyClause (perm : Perm) (conditions : List Condition) : Clause :=
  ⟨⟨perm.toString, [.var "U", .var "O"]⟩,
    ⟨"_isUser", [.var "U"]⟩ :: ⟨"_isObject", [.var "O"]⟩ :: conditionsLiterals conditions 0⟩

theorem policyRuleToDb_eq_some {rule : PolicyRule} (h : ∀ atom ∈ rule.atoms, atom.Translatable) :
    policyRuleToDb rule =
      some (policyClause rule.perm (rule.atoms.map (·.condition AbacValue.stringify))) := by
  simp [policyRuleToDb, policyAtomsToDb_eq_some h, policyClause, dbMakeLiteral]

/-! ## Conditions under an assignment

The literals hold under an assignment if the conditions hold with the values that it gives
to the indices. -/

section Satisfaction

variable (D : GroundAtom → Prop) (u o : String)

/-- The attribute of the side has the value at the index. -/
def Side.SatAt (f : Nat → String) (index : Nat) : Side → Prop
  | .value _ => True
  | .named type name => D ⟨name, [type.entity u o, f index]⟩

/-- The constants of a side in the literal of the comparison. -/
def Side.constants (f : Nat → String) (index : Nat) : Side → List String
  | .value text => if text = "" then [] else [text]
  | .named _ _ => [f index]

/-- The condition holds with the values at its indices. -/
def Condition.SatAt (f : Nat → String) (index : Nat) : Condition → Prop
  | .fact predicate type value => D (groundFact predicate (type.entity u o) value)
  | .compare primitive left right =>
    left.SatAt D u o f index ∧ right.SatAt D u o f (index + left.width) ∧
      D ⟨primitive, left.constants f index ++ right.constants f (index + left.width)⟩

/-- The conditions hold with the values at their indices. -/
def SatFrom (f : Nat → String) : List Condition → Nat → Prop
  | [], _ => True
  | c :: cs, index => c.SatAt D u o f index ∧ SatFrom f cs (index + c.width)

/-- Some values satisfy the condition. -/
def Condition.Satisfiable (c : Condition) : Prop := ∃ f, c.SatAt D u o f 0

variable {D u o}

section

variable (σ : String → String)

theorem AtomType.value_uppercase (type : AtomType) :
    σ type.uppercase = type.entity (σ "U") (σ "O") := by
  cases type <;> rfl

theorem map_dbPushTerm (text : String) :
    (dbPushTerm .const text).map (Term.value σ) = if text = "" then [] else [text] := by
  unfold dbPushTerm
  split <;> rfl

theorem Side.map_terms (index : Nat) (s : Side) :
    (s.terms index).map (Term.value σ) = s.constants (σ ∘ xVar) index := by
  cases s with
  | value text => exact map_dbPushTerm σ text
  | named type name => rfl

theorem Side.forall_literals_iff (index : Nat) (s : Side) :
    (∀ l ∈ s.literals index, D (l.ground σ)) ↔ s.SatAt D (σ "U") (σ "O") (σ ∘ xVar) index := by
  cases s with
  | value text => simp [Side.literals, Side.SatAt]
  | named type name =>
    simp [Side.literals, Side.SatAt, Literal.ground, Term.value, AtomType.value_uppercase]

theorem Condition.forall_literals_iff (index : Nat) (c : Condition) :
    (∀ l ∈ c.literals index, D (l.ground σ)) ↔ c.SatAt D (σ "U") (σ "O") (σ ∘ xVar) index := by
  cases c with
  | fact predicate type value =>
    simp [Condition.literals, Condition.SatAt, Literal.ground, Term.value,
      AtomType.value_uppercase, groundFact, map_dbPushTerm]
  | compare primitive left right =>
    rw [Condition.literals, forall_mem_append, forall_mem_append,
      left.forall_literals_iff, right.forall_literals_iff, forall_mem_singleton,
      Literal.ground, map_append, left.map_terms, right.map_terms, and_assoc,
      Condition.SatAt]

theorem forall_conditionsLiterals_iff (cs : List Condition) (index : Nat) :
    (∀ l ∈ conditionsLiterals cs index, D (l.ground σ)) ↔
      SatFrom D (σ "U") (σ "O") (σ ∘ xVar) cs index := by
  induction cs generalizing index with
  | nil => simp [conditionsLiterals, SatFrom]
  | cons c cs ih =>
    rw [conditionsLiterals, forall_mem_append, c.forall_literals_iff, ih, SatFrom]

end

/-! ## Every condition has values of its own -/

variable {f g : Nat → String} {i j : Nat}

theorem Side.satAt_congr (s : Side) (h : s.width = 1 → f i = g j) :
    s.SatAt D u o f i ↔ s.SatAt D u o g j := by
  cases s with
  | value text => exact Iff.rfl
  | named type name => rw [Side.SatAt, Side.SatAt, h rfl]

theorem Side.constants_congr (s : Side) (h : s.width = 1 → f i = g j) :
    s.constants f i = s.constants g j := by
  cases s with
  | value text => rfl
  | named type name => rw [Side.constants, Side.constants, h rfl]

theorem Condition.satAt_congr (c : Condition) (h : ∀ k < c.width, f (i + k) = g (j + k)) :
    c.SatAt D u o f i ↔ c.SatAt D u o g j := by
  cases c with
  | fact predicate type value => exact Iff.rfl
  | compare primitive left right =>
    have hleft : left.width = 1 → f i = g j := fun hwidth =>
      h 0 (by rw [Condition.width, hwidth]; omega)
    have hright : right.width = 1 → f (i + left.width) = g (j + left.width) := fun hwidth =>
      h left.width (by rw [Condition.width, hwidth]; omega)
    rw [Condition.SatAt, Condition.SatAt, left.satAt_congr hleft, right.satAt_congr hright,
      left.constants_congr hleft, right.constants_congr hright]

theorem satFrom_congr (cs : List Condition) (h : ∀ k, i ≤ k → k < i + totalWidth cs → f k = g k) :
    SatFrom D u o f cs i ↔ SatFrom D u o g cs i := by
  induction cs generalizing i with
  | nil => exact Iff.rfl
  | cons c cs ih =>
    rw [totalWidth] at h
    have hc : ∀ k < c.width, f (i + k) = g (i + k) := fun k hk => h _ (by omega) (by omega)
    have hcs : ∀ k, i + c.width ≤ k → k < i + c.width + totalWidth cs → f k = g k :=
      fun k hlow hhigh => h k (by omega) (by omega)
    rw [SatFrom, SatFrom, c.satAt_congr hc, ih hcs]

theorem Condition.satisfiable_of_satAt {c : Condition} (h : c.SatAt D u o f i) :
    c.Satisfiable D u o := by
  refine ⟨fun k => f (i + k), (c.satAt_congr ?_).mp h⟩
  intro k _
  rw [Nat.zero_add]

theorem exists_satFrom_iff (cs : List Condition) (i : Nat) :
    (∃ f, SatFrom D u o f cs i) ↔ ∀ c ∈ cs, c.Satisfiable D u o := by
  induction cs generalizing i with
  | nil => simp [SatFrom]
  | cons c cs ih =>
    rw [forall_mem_cons, ← ih (i + c.width)]
    constructor
    · rintro ⟨f, hc, hcs⟩
      exact ⟨Condition.satisfiable_of_satAt hc, f, hcs⟩
    · rintro ⟨⟨f, hc⟩, g, hcs⟩
      refine ⟨fun k => if k < i + c.width then f (k - i) else g k, ?_, ?_⟩
      · refine (c.satAt_congr ?_).mp hc
        intro k hk
        rw [if_pos (by omega), Nat.zero_add, Nat.add_sub_cancel_left]
      · refine (satFrom_congr cs ?_).mp hcs
        intro k hk _
        rw [if_neg (by omega)]

/-! ## The names of the variables -/

/-- How many variables have different names: those of at most eight digits. -/
def maxVariables : Nat := 10 ^ 8

theorem toList_xVar (i : Nat) : (xVar i).toList = 'X' :: (Nat.toDigits 10 i).take 8 := by
  rw [xVar, String.toList_ofList, String.toList_append, Nat.toString_eq_repr, Nat.toList_repr]
  rfl

theorem take_toDigits {n : Nat} (hn : n < maxVariables) :
    (Nat.toDigits 10 n).take 8 = Nat.toDigits 10 n :=
  take_of_length_le ((Nat.length_toDigits_le_iff (by omega) (by omega)).mpr hn)

theorem xVar_injOn (hi : i < maxVariables) (hj : j < maxVariables) (h : xVar i = xVar j) :
    i = j := by
  have hlist := congrArg String.toList h
  rw [toList_xVar, toList_xVar, cons.injEq, take_toDigits hi, take_toDigits hj] at hlist
  rw [← Nat.ofDigitChars_ten_toDigits (n := i), hlist.2, Nat.ofDigitChars_ten_toDigits]

theorem xVar_maxVariables : xVar maxVariables = xVar (maxVariables / 10) := by
  have hdigits : Nat.toDigits 10 maxVariables = Nat.toDigits 10 (maxVariables / 10) ++ ['0'] :=
    Nat.toDigits_of_base_le (by decide) (by decide)
  have hlong : ¬ (Nat.toDigits 10 (maxVariables / 10)).length ≤ 7 := by
    rw [Nat.length_toDigits_le_iff (by decide) (by decide)]
    decide
  refine String.toList_inj.mp ?_
  rw [toList_xVar, toList_xVar, hdigits, take_append_of_le_length (by omega)]

theorem xVar_ne (i : Nat) : xVar i ≠ "U" ∧ xVar i ≠ "O" := by
  constructor <;>
  · intro h
    have hlist := congrArg String.toList h
    rw [toList_xVar] at hlist
    exact absurd (cons.inj hlist).1 (by decide)

/-- Values for the variables, the user and the object make up an assignment. -/
theorem exists_assignment (f : Nat → String) :
    ∃ σ : String → String, σ "U" = u ∧ σ "O" = o ∧ ∀ i < maxVariables, σ (xVar i) = f i := by
  classical
  refine ⟨fun x => if x = "U" then u else if x = "O" then o else
    if h : ∃ i, i < maxVariables ∧ xVar i = x then f h.choose else "", rfl, rfl, ?_⟩
  intro i hi
  have hex : ∃ j, j < maxVariables ∧ xVar j = xVar i := ⟨i, hi, rfl⟩
  dsimp only
  rw [if_neg (xVar_ne i).1, if_neg (xVar_ne i).2, dif_pos hex,
    xVar_injOn hex.choose_spec.1 hi hex.choose_spec.2]

/-- An instance of the literals for a user and an object holds exactly if each condition is
satisfied. -/
theorem exists_instance_iff {cs : List Condition} (hwidth : totalWidth cs ≤ maxVariables) :
    (∃ σ : String → String, σ "U" = u ∧ σ "O" = o ∧
        ∀ l ∈ conditionsLiterals cs 0, D (l.ground σ)) ↔
      ∀ c ∈ cs, c.Satisfiable D u o := by
  rw [← exists_satFrom_iff cs 0]
  constructor
  · rintro ⟨σ, rfl, rfl, h⟩
    exact ⟨_, (forall_conditionsLiterals_iff σ cs 0).mp h⟩
  · rintro ⟨f, h⟩
    obtain ⟨σ, hu, ho, hσ⟩ := exists_assignment (u := u) (o := o) f
    refine ⟨σ, hu, ho, (forall_conditionsLiterals_iff σ cs 0).mpr ?_⟩
    rw [hu, ho]
    refine (satFrom_congr cs ?_).mp h
    intro k _ hk
    exact (hσ k (by omega)).symm

end Satisfaction

/-! ## Derivations from facts and one policy -/

/-- The clause of an asserted fact. -/
def factClause (a : GroundAtom) : Clause := ⟨⟨a.pred, a.args.map .const⟩, []⟩

theorem ground_factClause (σ : String → String) (a : GroundAtom) :
    (factClause a).ground σ = ⟨a, []⟩ := by
  have hargs : (a.args.map Term.const).map (Term.value σ) = a.args := by
    rw [map_map]
    exact map_id a.args
  simp [factClause, Clause.ground, Literal.ground, hargs]

/-- The program of the facts and one policy. -/
def policyProgram (prims : Primitives) (facts : Set GroundAtom) (c : Clause) :
    Set (Rule GroundAtom) :=
  program prims (factClause '' facts ∪ {c})

/-- What holds without the policy: facts, and what the primitives accept. -/
def Given (prims : Primitives) (facts : Set GroundAtom) (a : GroundAtom) : Prop :=
  if a.isPrimitive then ∃ name x y, a = ⟨name, [x, y]⟩ ∧ prims name x y else a ∈ facts

section Derivations

variable {prims : Primitives} {facts : Set GroundAtom} {perm : Perm} {conditions : List Condition}

/-- The rules of the program: facts, instances of the policy, and primitives. -/
theorem mem_policyProgram {c : Clause} {r : Rule GroundAtom}
    (h : r ∈ policyProgram prims facts c) :
    (r.head ∈ facts ∧ r.head.isPrimitive = false ∧ r.body = []) ∨ (∃ σ, r = c.ground σ) ∨
      ∃ name x y, name ∈ primitiveNames ∧ prims name x y ∧ r = ⟨⟨name, [x, y]⟩, []⟩ := by
  obtain ⟨hprim, c', hfact | hpolicy, σ, rfl⟩ | hprimitive := h
  · obtain ⟨a, ha, rfl⟩ := hfact
    rw [ground_factClause] at hprim ⊢
    exact .inl ⟨ha, hprim, rfl⟩
  · obtain rfl := hpolicy
    exact .inr (.inl ⟨σ, rfl⟩)
  · exact .inr (.inr hprimitive)

theorem not_isPrimitive_perm (perm : Perm) (args : List String) :
    GroundAtom.isPrimitive ⟨perm.toString, args⟩ = false := by
  have h : perm.toString ∉ primitiveNames := by cases perm <;> decide
  simp [GroundAtom.isPrimitive, h]

theorem derives_given_iff {a : GroundAtom} (h : a.pred ≠ perm.toString) :
    Derives (policyProgram prims facts (policyClause perm conditions)) a ↔
      Given prims facts a := by
  unfold Given
  split
  · next hprim =>
    obtain ⟨pred, args⟩ := a
    simp only [GroundAtom.isPrimitive, Bool.and_eq_true, decide_eq_true_eq, beq_iff_eq] at hprim
    obtain ⟨hname, hlength⟩ := hprim
    obtain ⟨x, y, rfl⟩ := length_eq_two.mp hlength
    rw [policyProgram, derives_primitive_iff hname]
    constructor
    · exact fun hholds => ⟨pred, x, y, rfl, hholds⟩
    · rintro ⟨name, x', y', heq, hholds⟩
      obtain ⟨rfl, rfl, rfl⟩ : pred = name ∧ x = x' ∧ y = y' := by simpa using heq
      exact hholds
  · next hprim =>
    rw [derives_iff]
    constructor
    · rintro ⟨r, hr, rfl, -⟩
      obtain ⟨hfact, -, -⟩ | ⟨σ, rfl⟩ | ⟨name, x, y, hname, -, rfl⟩ := mem_policyProgram hr
      · exact hfact
      · exact absurd rfl h
      · simp [GroundAtom.isPrimitive, hname] at hprim
    · intro hfact
      refine ⟨⟨a, []⟩, .inl ⟨by simpa using hprim, factClause a, .inl ⟨a, hfact, rfl⟩, id, ?_⟩, rfl,
        fun b hb => absurd hb not_mem_nil⟩
      exact (ground_factClause id a).symm

theorem derives_perm_iff {u o : String} (hfacts : ∀ a ∈ facts, a.pred ≠ perm.toString) :
    Derives (policyProgram prims facts (policyClause perm conditions)) ⟨perm.toString, [u, o]⟩ ↔
      ∃ σ : String → String, σ "U" = u ∧ σ "O" = o ∧
        ∀ l ∈ (policyClause perm conditions).body,
          Derives (policyProgram prims facts (policyClause perm conditions)) (l.ground σ) := by
  rw [derives_iff]
  constructor
  · rintro ⟨r, hr, hhead, hbody⟩
    obtain ⟨hfact, -, -⟩ | ⟨σ, rfl⟩ | ⟨name, x, y, hname, -, rfl⟩ := mem_policyProgram hr
    · exact absurd (congrArg GroundAtom.pred hhead) (hfacts _ hfact)
    · have hargs : [σ "U", σ "O"] = [u, o] := congrArg GroundAtom.args hhead
      rw [cons.injEq, cons.injEq] at hargs
      exact ⟨σ, hargs.1, hargs.2.1, fun l hl => hbody _ (mem_map_of_mem hl)⟩
    · have hprim := not_isPrimitive_perm perm [u, o]
      rw [← hhead] at hprim
      simp [GroundAtom.isPrimitive, hname] at hprim
  · rintro ⟨σ, rfl, rfl, hbody⟩
    refine ⟨(policyClause perm conditions).ground σ, .inl ⟨not_isPrimitive_perm perm _,
      _, .inr rfl, σ, rfl⟩, rfl, ?_⟩
    intro b hb
    obtain ⟨l, hl, rfl⟩ := mem_map.mp hb
    exact hbody l hl

/-- A policy that does not ask for its own permission gives it exactly to the users for the
objects that satisfy its conditions. -/
theorem derives_policy_iff {u o : String} (hfacts : ∀ a ∈ facts, a.pred ≠ perm.toString)
    (hasks : ∀ c ∈ conditions, perm.toString ∉ c.predicates)
    (hwidth : totalWidth conditions ≤ maxVariables) :
    Derives (policyProgram prims facts (policyClause perm conditions)) ⟨perm.toString, [u, o]⟩ ↔
      ⟨"_isUser", [u]⟩ ∈ facts ∧ ⟨"_isObject", [o]⟩ ∈ facts ∧
        ∀ c ∈ conditions, c.Satisfiable (Given prims facts) u o := by
  have hbody : ∀ l ∈ conditionsLiterals conditions 0, l.pred ≠ perm.toString := by
    intro l hl heq
    obtain ⟨c, hc, hpred⟩ := (exists_conditionsLiterals_iff _ _).mp ⟨l, hl, heq⟩
    exact hasks c hc hpred
  have huser : "_isUser" ≠ perm.toString := by cases perm <;> decide
  have hobject : "_isObject" ≠ perm.toString := by cases perm <;> decide
  have hgiven : ∀ σ : String → String,
      (∀ l ∈ conditionsLiterals conditions 0, Derives (policyProgram prims facts
        (policyClause perm conditions)) (l.ground σ)) ↔
      ∀ l ∈ conditionsLiterals conditions 0, Given prims facts (l.ground σ) := fun σ =>
    forall₂_congr fun l hl => derives_given_iff (hbody l hl)
  rw [derives_perm_iff hfacts, ← exists_instance_iff hwidth]
  simp only [policyClause, forall_mem_cons] at hgiven ⊢
  constructor
  · rintro ⟨σ, rfl, rfl, hu, ho, hl⟩
    exact ⟨(derives_given_iff huser).mp hu, (derives_given_iff hobject).mp ho, σ, rfl, rfl,
      (hgiven σ).mp hl⟩
  · rintro ⟨hu, ho, σ, rfl, rfl, hl⟩
    exact ⟨σ, rfl, rfl, (derives_given_iff huser).mpr hu, (derives_given_iff hobject).mpr ho,
      (hgiven σ).mpr hl⟩

/-- A policy that asks for a permission gives nothing: no fact is about one. -/
theorem not_derives_of_asks {u o : String}
    (hfacts : ∀ a ∈ facts, ∀ perm : Perm, a.pred ≠ perm.toString)
    (hasks : ∃ c ∈ conditions, ∃ perm : Perm, perm.toString ∈ c.predicates) :
    ¬ Derives (policyProgram prims facts (policyClause perm conditions))
      ⟨perm.toString, [u, o]⟩ := by
  obtain ⟨c, hc, asked, hmem⟩ := hasks
  obtain ⟨l, hl, hpred⟩ := (exists_conditionsLiterals_iff _ 0).mpr ⟨c, hc, hmem⟩
  refine not_derives_of_unfounded (S := {a | ∃ perm : Perm, a.pred = perm.toString}) ?_ ⟨perm, rfl⟩
  rintro r hr ⟨perm', hhead⟩
  obtain ⟨hfact, -, -⟩ | ⟨σ, rfl⟩ | ⟨name, x, y, hname, -, rfl⟩ := mem_policyProgram hr
  · exact absurd hhead (hfacts _ hfact perm')
  · exact ⟨l.ground σ, mem_map_of_mem (mem_cons_of_mem _ (mem_cons_of_mem _ hl)),
      asked, hpred⟩
  · have hnone := not_isPrimitive_perm perm' [x, y]
    rw [← hhead] at hnone
    simp [GroundAtom.isPrimitive, hname] at hnone

end Derivations

end Nexus.Abac
