import Nexus.Basic

/-!
# Datalog clauses, and policy rules as clauses

The bouncer hands two kinds of clauses to the datalog engine: facts about the
user and the object, and one rule for each policy of the policy store.  This
module has the clause syntax of `datalog.lua` and the translation of a policy
rule in `rule.c`/`atom.c`, which pushes the literals one by one onto the
engine's stack.
-/

namespace Nexus.Abac

/-- A term of `datalog.lua`: an interned constant or variable. -/
inductive Term where
  | const (id : String)
  | var (id : String)
  deriving DecidableEq, Repr

/-- A predicate name with its terms; the arity is the number of terms. -/
structure Literal where
  pred : String
  terms : List Term
  deriving DecidableEq, Repr

/-- A head with a body.  A fact is a clause with an empty body. -/
structure Clause where
  head : Literal
  body : List Literal
  deriving DecidableEq, Repr

/-- `__db_push_term`: a term whose text is empty is not pushed at all. -/
def dbPushTerm (mk : String → Term) (text : String) : List Term :=
  if text = "" then [] else [mk text]

/-- `__db_make_literal`; the second term is optional. -/
def dbMakeLiteral (predicate : String) (first : List Term) (second : List Term) :
    Literal :=
  { pred := predicate, terms := first ++ second }

/-! ## Policy rules -/

/-- `struct abac_value`. -/
inductive AbacValue where
  | string (s : String)
  | number (i : Int)
  | identifier (s : String)
  deriving DecidableEq, Repr

/-- `abac_value_stringify`: a number is printed into a 10-byte buffer. -/
def AbacValue.stringify : AbacValue → String
  | .string s => s
  | .identifier s => s
  | .number i => String.ofList ((toString i).toList.take 9)

/-- `atom_type_t` of an atom: who it speaks about. -/
inductive AtomType where
  | user
  | object
  deriving DecidableEq, Repr

/-- `__atom_type_to_uppercase_str`. -/
def AtomType.uppercase : AtomType → String
  | .user => "U"
  | .object => "O"

/-- `struct policy_atom`, split by `pred_type`: attribute and function atoms
have an entity and at most one argument, a boolean atom has two arguments. -/
inductive PolicyAtom where
  | normal (predicate : String) (type : AtomType) (arg : Option AbacValue)
  | bool (operator : String) (left right : AbacValue)
  deriving DecidableEq, Repr

/-- `struct policy_rule`; the atom count and types are functions of the list. -/
structure PolicyRule where
  perm : Perm
  uuid : Uuid
  atoms : List PolicyAtom
  deriving DecidableEq, Repr

/-- `boolean_operator_to_datalog_str`. -/
def booleanOperatorToDatalogStr : String → Option String
  | ">" => some "_gt"
  | "<" => some "_lt"
  | ">=" => some "_ge"
  | "<=" => some "_le"
  | "!=" => some "_ne"
  | "==" => some "="
  | _ => none

/-- `__try_push_boolean_fact`: an identifier `u.name` pushes the literal
`name(U, Xi)` and stands for the variable `Xi`; any other value is a constant.
The result is the pushed literals, the term, and the next free index. -/
def tryPushBooleanFact (arg : AbacValue) (index : Nat) :
    Option (List Literal × List Term × Nat) :=
  match arg with
  | .identifier s =>
    let entity :=
      match s.toList.head? with
      | some 'u' => some "U"
      | some 'o' => some "O"
      | _ => none
    entity.map fun e =>
      let x := Term.var (String.ofList (("X" ++ toString index).toList.take 9))
      ([dbMakeLiteral (String.ofList (s.toList.drop 2)) [.var e] [x]], [x], index + 1)
  | v => some ([], dbPushTerm .const v.stringify, index)

/-- `policy_atom_to_db`: the literals an atom adds to the body. -/
def policyAtomToDb (atom : PolicyAtom) (index : Nat) : Option (List Literal × Nat) :=
  match atom with
  | .normal predicate type arg =>
    let second := (arg.map AbacValue.stringify).getD ""
    some ([dbMakeLiteral predicate [.var type.uppercase] (dbPushTerm .const second)],
      index)
  | .bool operator left right => do
    let (pushed₁, term₁, index₁) ← tryPushBooleanFact left index
    let (pushed₂, term₂, index₂) ← tryPushBooleanFact right index₁
    let predicate ← booleanOperatorToDatalogStr operator
    some (pushed₁ ++ pushed₂ ++ [dbMakeLiteral predicate term₁ term₂], index₂)

/-- The loop of `policy_rule_to_db` over the atoms. -/
def policyAtomsToDb : List PolicyAtom → Nat → Option (List Literal)
  | [], _ => some []
  | atom :: atoms, index => do
    let (pushed, index') ← policyAtomToDb atom index
    let rest ← policyAtomsToDb atoms index'
    some (pushed ++ rest)

/-- `policy_rule_to_db`: the clause `perm(U, O) :- _isUser(U), _isObject(O), …`. -/
def policyRuleToDb (rule : PolicyRule) : Option Clause := do
  let body ← policyAtomsToDb rule.atoms 0
  some {
    head := dbMakeLiteral rule.perm.toString [.var "U"] [.var "O"]
    body := dbMakeLiteral "_isUser" [.var "U"] [] ::
      dbMakeLiteral "_isObject" [.var "O"] [] :: body }

end Nexus.Abac
