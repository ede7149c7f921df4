import Nexus.Abac.AttributeSpace

/-!
# The policy parser

`parser_lexer.c` turns the text of a policy into a rule.  The lexer hands out one token
at a time, and the parser follows the grammar with at most one token pushed back.

The state of the lexer is the text that is left.  Tokens that end where another
character begins are read one character too far and backed up.  At the end of the
input no character is read there, so that backing up gives the last character of the
token back.  A string without a closing quote is never left, and an attribute whose
value is no value at all is a `NULL` pointer that is followed: neither returns.
-/

namespace Nexus.Abac

/-! ## The lexer -/

/-- `struct my_token`. -/
inductive Token where
  | lparen
  | rparen
  | comma
  | number (val : List Char)
  | string (val : List Char)
  | identifier (val : List Char)
  | dotNotation (val : List Char)
  | colonequals
  | lt
  | le
  | gt
  | ge
  | ee
  | ne
  | done
  | unknown
  deriving DecidableEq, Repr

/-- `MAX_ARGUMENT_LEN`. -/
def maxArgumentLen : Nat := 256

/-- The loop of `__lex_number` after a character of the number: the digits, and the text
that is left. -/
def lexDigits (last : Char) : List Char → List Char × List Char
  | [] => ([], [last])
  | c :: cs =>
    if c.isDigit then
      let run := lexDigits c cs
      (c :: run.1, run.2)
    else ([], c :: cs)

/-- `__lex_number`, after its first digit. -/
def lexNumber (first : Char) (text : List Char) : Token × List Char :=
  let run := lexDigits first text
  if maxArgumentLen < (first :: run.1).length then (.unknown, run.2)
  else (.number (first :: run.1), run.2)

/-- The loop of `__lex_identifier`: whether a dot and an at sign were read, the last
character, and the text.  A second dot or at sign ends the identifier with an error. -/
def lexIdentifierChars (dot sign : Bool) (last : Char) :
    List Char → Option (List Char × Bool) × List Char
  | [] => (some ([], dot), [last])
  | c :: cs =>
    if c.isAlphanum then
      let run := lexIdentifierChars dot sign c cs
      (run.1.map fun r => (c :: r.1, r.2), run.2)
    else if c = '.' then
      if dot then (none, cs)
      else
        let run := lexIdentifierChars true sign c cs
        (run.1.map fun r => (c :: r.1, r.2), run.2)
    else if c = '@' then
      if sign then (none, cs)
      else
        let run := lexIdentifierChars dot true c cs
        (run.1.map fun r => (c :: r.1, r.2), run.2)
    else (some ([], dot), c :: cs)

/-- `__lex_identifier`, after its first character. -/
def lexIdentifier (first : Char) (text : List Char) : Token × List Char :=
  match lexIdentifierChars false (first = '@') first text with
  | (none, rest) => (.unknown, rest)
  | (some (chars, dot), rest) =>
    if maxArgumentLen < (first :: chars).length then (.unknown, rest)
    else if dot then (.dotNotation (first :: chars), rest)
    else (.identifier (first :: chars), rest)

/-- The loop of `__lex_string`; `none` if it is not left. -/
def lexStringChars : List Char → Option (List Char × List Char)
  | [] => none
  | c :: cs =>
    if c = '"' then some ([], cs)
    else (lexStringChars cs).map fun run => (c :: run.1, run.2)

/-- `__lex_string`, after the opening quote. -/
def lexString (text : List Char) : Option (Token × List Char) :=
  (lexStringChars text).map fun run =>
    (if maxArgumentLen < run.1.length then .unknown else .string run.1, run.2)

/-- `__lex_boolean_op` for a character that may stand alone. -/
def lexAngle (first : Char) (alone withEquals : Token) : List Char → Token × List Char
  | '=' :: cs => (withEquals, cs)
  | [] => (alone, [first])
  | c :: cs => (alone, c :: cs)

/-- `__lex_boolean_op` for a character that needs an equals sign. -/
def lexWithEquals (withEquals : Token) : List Char → Token × List Char
  | '=' :: cs => (withEquals, cs)
  | _ :: cs => (.unknown, cs)
  | [] => (.unknown, [])

/-- The colon of `lexer_next_token`. -/
def lexColon : List Char → Token × List Char
  | '-' :: cs => (.colonequals, cs)
  | _ :: cs => (.unknown, cs)
  | [] => (.unknown, [])

/-- `lexer_next_token`; `none` if it does not return. -/
def lexerNextToken : List Char → Option (Token × List Char)
  | [] => some (.done, [])
  | c :: cs =>
    if c = ' ' ∨ c = '\t' then lexerNextToken cs
    else if c = ',' then some (.comma, cs)
    else if c = '(' then some (.lparen, cs)
    else if c = ')' then some (.rparen, cs)
    else if c = '<' then some (lexAngle c .lt .le cs)
    else if c = '>' then some (lexAngle c .gt .ge cs)
    else if c = '!' then some (lexWithEquals .ne cs)
    else if c = '=' then some (lexWithEquals .ee cs)
    else if c = ':' then some (lexColon cs)
    else if c.isAlpha ∨ c = '@' then some (lexIdentifier c cs)
    else if c = '"' then lexString cs
    else if c.isDigit ∧ c ≠ '0' then some (lexNumber c cs)
    else some (.unknown, c :: cs)

/-! ## The characters that the lexer reads -/

/-- The calls of `__next_char` in the loop of `__lex_number`. -/
def digitsReads : List Char → Nat
  | [] => 1
  | c :: cs => if c.isDigit then digitsReads cs + 1 else 1

/-- The calls of `__next_char` in the loop of `__lex_identifier`. -/
def identifierReads (dot sign : Bool) : List Char → Nat
  | [] => 1
  | c :: cs =>
    if c.isAlphanum then identifierReads dot sign cs + 1
    else if c = '.' then if dot then 1 else identifierReads true sign cs + 1
    else if c = '@' then if sign then 1 else identifierReads dot true cs + 1
    else 1

/-- The calls of `__next_char` in the loop of `__lex_string` up to the end of the text. -/
def stringReads : List Char → Nat
  | [] => 1
  | c :: cs => if c = '"' then 1 else stringReads cs + 1

/-- The calls of `__next_char` in `lexer_next_token`. -/
def lexerReads : List Char → Nat
  | [] => 1
  | c :: cs =>
    if c = ' ' ∨ c = '\t' then lexerReads cs + 1
    else if c = ',' ∨ c = '(' ∨ c = ')' then 1
    else if c = '<' ∨ c = '>' ∨ c = '!' ∨ c = '=' ∨ c = ':' then 2
    else if c.isAlpha ∨ c = '@' then identifierReads false (c = '@') cs + 1
    else if c = '"' then stringReads cs + 1
    else if c.isDigit ∧ c ≠ '0' then digitsReads cs + 1
    else 1

/-! ## The parser -/

/-- How a call ends: it returns a result, it returns an error, or it does not return. -/
inductive Outcome (α : Type) where
  | ok (result : α)
  | failed
  | stuck
  deriving DecidableEq, Repr

/-- A call of the parser: how it ends, and the characters that it reads. -/
structure Parse (α : Type) where
  outcome : Outcome α
  reads : Nat
  deriving DecidableEq, Repr

namespace Parse

/-- Go on after a result. -/
def bind {α β : Type} (x : Parse α) (f : α → Parse β) : Parse β :=
  match x.outcome with
  | .ok a => ⟨(f a).outcome, x.reads + (f a).reads⟩
  | .failed => ⟨.failed, x.reads⟩
  | .stuck => ⟨.stuck, x.reads⟩

instance : Monad Parse where
  pure a := ⟨.ok a, 0⟩
  bind := bind

/-- Return an error. -/
def fail {α : Type} : Parse α := ⟨.failed, 0⟩

/-- Follow a `NULL` pointer. -/
def crash {α : Type} : Parse α := ⟨.stuck, 0⟩

variable {α β : Type}

@[simp] theorem pure_outcome (a : α) : (pure a : Parse α).outcome = .ok a := rfl

@[simp] theorem pure_reads (a : α) : (pure a : Parse α).reads = 0 := rfl

@[simp] theorem fail_outcome : (fail : Parse α).outcome = .failed := rfl

@[simp] theorem fail_reads : (fail : Parse α).reads = 0 := rfl

@[simp] theorem crash_outcome : (crash : Parse α).outcome = .stuck := rfl

@[simp] theorem crash_reads : (crash : Parse α).reads = 0 := rfl

theorem bind_eq_ok {x : Parse α} {f : α → Parse β} {b : β} :
    (x >>= f).outcome = .ok b ↔ ∃ a, x.outcome = .ok a ∧ (f a).outcome = .ok b := by
  change (bind x f).outcome = .ok b ↔ _
  unfold bind
  cases x.outcome <;> simp

end Parse

/-- `struct my_parser`: the text that is left, and the token that was pushed back. -/
structure Parser where
  rest : List Char
  prevToken : Option Token
  deriving DecidableEq

/-- `__next_token`. -/
def nextToken (p : Parser) : Parse (Token × Parser) :=
  match p.prevToken with
  | some token => pure (token, ⟨p.rest, none⟩)
  | none =>
    match lexerNextToken p.rest with
    | none => ⟨.stuck, lexerReads p.rest⟩
    | some (token, rest) => ⟨.ok (token, ⟨rest, none⟩), lexerReads p.rest⟩

/-- `__consume_token`. -/
def consumeToken (expected : Token) (p : Parser) : Parse Parser := do
  let (token, p) ← nextToken p
  if token = expected then pure p else .fail

/-- The number that decimal digits stand for. -/
def digitsValue (digits : List Char) : Nat :=
  digits.foldl (fun n c => 10 * n + (c.toNat - '0'.toNat)) 0

/-- `atoi`: beyond an `int` the low bits of the `long` that `strtol` returns. -/
def atoi (digits : List Char) : Int :=
  (BitVec.ofNat 32 (min (digitsValue digits) (2 ^ 63 - 1))).toInt

/-- `__abac_value_from_token`. -/
def abacValueFromToken : Token → Option AbacValue
  | .dotNotation val => some (.identifier (String.ofList val))
  | .string val => some (.string (String.ofList val))
  | .number val => some (.number (atoi val))
  | _ => none

/-- The entity of `__parse_regular_atom_type`. -/
def parseEntity (p : Parser) : Parse (AtomType × Parser) := do
  let (token, p) ← nextToken p
  match token with
  | .identifier ['u'] => pure (.user, p)
  | .identifier ['o'] => pure (.object, p)
  | _ => .fail

/-- The rest of `__parse_regular_atom_type`: after a comma a number is refused, and any
other token is taken for a value. -/
def parseOptionalValue (p : Parser) : Parse (Option AbacValue × Parser) := do
  let (token, p) ← nextToken p
  match token with
  | .comma => do
    let (token, p) ← nextToken p
    match token with
    | .number _ => .fail
    | token =>
      match abacValueFromToken token with
      | none => .crash
      | some value => pure (some value, p)
  | .rparen => pure (none, ⟨p.rest, some .rparen⟩)
  | _ => .fail

/-- `__parse_regular_atom_type`. -/
def parseRegularAtomType (p : Parser) : Parse ((AtomType × Option AbacValue) × Parser) := do
  let (type, p) ← parseEntity p
  let (arg, p) ← parseOptionalValue p
  pure ((type, arg), p)

/-- The value of an argument of `__parse_boolean_atom_type`. -/
def parseArgument (p : Parser) : Parse (AbacValue × Parser) := do
  let (token, p) ← nextToken p
  match abacValueFromToken token with
  | none => .fail
  | some value => pure (value, p)

/-- `__parse_boolean_atom_type`. -/
def parseBooleanAtomType (p : Parser) : Parse ((AbacValue × AbacValue) × Parser) := do
  let (left, p) ← parseArgument p
  let p ← consumeToken .comma p
  let (right, p) ← parseArgument p
  pure ((left, right), p)

/-- `my_token_to_string` of the comparisons. -/
def comparisonToString : Token → Option String
  | .ee => some "=="
  | .ne => some "!="
  | .gt => some ">"
  | .lt => some "<"
  | .ge => some ">="
  | .le => some "<="
  | _ => none

/-! ## Validity of atoms -/

/-- The table `system_functions`. -/
def systemFunctions : List (String × AtomType) :=
  [("@uname", .user), ("@upkey", .user), ("@opath", .object), ("@oname", .object),
   ("@osize", .object), ("@otype", .object), ("@odirname", .object)]

/-- `__find_system_function`: the first function whose name the given one begins with. -/
def findSystemFunction (name : String) : Option (String × AtomType) :=
  systemFunctions.find? fun function => function.1.toList.isPrefixOf name.toList

/-- `__check_system_function` and `system_function_exists`. -/
def checkSystemFunction (name : String) (type : AtomType) : Bool :=
  (findSystemFunction name).any fun function => function.2 = type

/-- The type an attribute must have for an atom of that type. -/
def AtomType.attributeType : AtomType → AttributeType
  | .user => .user
  | .object => .object

/-- `__check_attribute`; `none` if the attribute space cannot be acquired. -/
def checkAttribute (space : Option AttributeSpace) (name : String) (type : AtomType) : Bool :=
  space.any fun space =>
    (attributeSpaceFindName space name).any fun schema => schema.type = type.attributeType

/-- `atom_type_from_char`. -/
def atomTypeFromChar : Char → Option AtomType
  | 'u' => some .user
  | 'o' => some .object
  | _ => none

/-- The check of one argument in `__validate_boolean_operator_atom`.  The character
between the entity and the name is not looked at. -/
def validateArgument (space : Option AttributeSpace) : AbacValue → Bool
  | .identifier symbol =>
    match symbol.toList with
    | entity :: _ :: name =>
      match atomTypeFromChar entity with
      | none => false
      | some type =>
        if name.head? = some '@' then checkSystemFunction (String.ofList name) type
        else checkAttribute space (String.ofList name) type
    | _ => false
  | _ => true

/-- `policy_atom_is_valid`.  An attribute atom always is. -/
def policyAtomIsValid (space : Option AttributeSpace) : PolicyAtom → Bool
  | .normal predicate type _ =>
    if predicate.toList.head? = some '@' then checkSystemFunction predicate type else true
  | .bool _ left right => validateArgument space left && validateArgument space right

/-! ## Atoms and rules -/

/-- `policy_atom_set_predicate`, as the predicate is read later: a name of 32 characters
or more is cut, and the count of its arguments follows it in memory. -/
def storedPredicate (name : List Char) (arg : Option AbacValue) : String :=
  storedName (String.ofList name) (if arg.isSome then "\x01" else "")

/-- The atom that begins with the token, up to its closing parenthesis. -/
def parseAtomFrom (token : Token) (p : Parser) : Parse (PolicyAtom × Parser) :=
  match token with
  | .identifier name => do
    let p ← consumeToken .lparen p
    let ((type, arg), p) ← parseRegularAtomType p
    pure (.normal (storedPredicate name arg) type arg, p)
  | token =>
    match comparisonToString token with
    | none => .fail
    | some operator => do
      let p ← consumeToken .lparen p
      let ((left, right), p) ← parseBooleanAtomType p
      pure (.bool operator left right, p)

/-- `__parse_atom`. -/
def parseAtom (space : Option AttributeSpace) (p : Parser) : Parse (PolicyAtom × Parser) := do
  let (token, p) ← nextToken p
  let (atom, p) ← parseAtomFrom token p
  let p ← consumeToken .rparen p
  if policyAtomIsValid space atom then pure (atom, p) else .fail

/-- The loop of `__parse_rule`: the atoms, and the token after them.  Every atom takes
at least one character, so that the length of the text is enough fuel. -/
def parseAtoms (space : Option AttributeSpace) :
    Nat → Parser → Parse ((List PolicyAtom × Token) × Parser)
  -- out of fuel
  | 0, _ => .crash
  | fuel + 1, p => do
    let (atom, p) ← parseAtom space p
    let (token, p) ← nextToken p
    if token = .comma then
      let ((atoms, last), p) ← parseAtoms space fuel p
      pure ((atom :: atoms, last), p)
    else pure (([atom], token), p)

/-- The permission of `__parse_rule`. -/
def parsePermission (p : Parser) : Parse (Perm × Parser) := do
  let (token, p) ← nextToken p
  match token with
  | .identifier name =>
    match permTypeFromString (String.ofList name) with
    | none => .fail
    | some perm => pure (perm, p)
  | _ => .fail

/-- `__parse_rule`, with the uuid that `policy_rule_new` draws. -/
def parseRule (space : Option AttributeSpace) (uuid : Uuid) (p : Parser) :
    Parse (PolicyRule × Token) := do
  let (perm, p) ← parsePermission p
  let p ← consumeToken .colonequals p
  let ((atoms, last), _) ← parseAtoms space (p.rest.length + 1) p
  pure (⟨perm, uuid, atoms⟩, last)

/-- `parse_abac_policy` on the text up to its end. -/
def parseAbacPolicy (space : Option AttributeSpace) (uuid : Uuid) (input : List Char) :
    Parse PolicyRule := do
  let (rule, last) ← parseRule space uuid ⟨input.takeWhile (· ≠ '\x00'), none⟩
  if last = .done then pure rule else .fail

end Nexus.Abac
