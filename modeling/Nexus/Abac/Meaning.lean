import Nexus.Abac.Conditions
import Nexus.Abac.Recognition

/-!
# What a policy means

A policy gives its permission to a user for an object if every atom of it holds of them.
`policy_meaning_iff` says for which of the policies that the parser accepts this is what
the engine derives from the clause of `policy_rule_to_db`, for all facts and all primitives.
The clause says something else in three cases.

* An empty string as a side of a comparison is left out, and the comparison has a single
  term then, which no primitive takes.
* A number is printed into a buffer of ten bytes and loses all digits after the ninth.
* So does the name of a variable: two of them are the same from `maxVariables` on.
-/

namespace Nexus.Abac

open Datalog List AbacValue String Condition PolicyAtom

/-! ## Policies -/

/-- A value as it is written: a number with all of its digits. -/
def AbacValue.written : AbacValue → String
  | .string s => s
  | .identifier s => s
  | .number i => toString i

/-- The values of an argument of a comparison: the literal, or those of the attribute or
function that the identifier names. -/
def AbacValue.Denotes (facts : Set GroundAtom) (u o : String) : AbacValue → String → Prop
  | .identifier symbol, x => ∃ entity dot name type, symbol.toList = entity :: dot :: name ∧
      atomTypeFromChar entity = some type ∧ ⟨String.ofList name, [type.entity u o, x]⟩ ∈ facts
  | v, x => x = v.written

/-- The atom holds of the user and the object. -/
def PolicyAtom.Holds (prims : Primitives) (facts : Set GroundAtom) (u o : String) :
    PolicyAtom → Prop
  | .normal predicate type arg =>
    groundFact predicate (type.entity u o) ((arg.map AbacValue.written).getD "") ∈ facts
  | .bool operator left right => ∃ primitive x y,
      booleanOperatorToDatalogStr operator = some primitive ∧ left.Denotes facts u o x ∧
        right.Denotes facts u o y ∧ prims primitive x y

/-- The arguments of the comparisons, in the order in which they are translated. -/
def comparedArgs : List PolicyAtom → List AbacValue
  | [] => []
  | .normal _ _ _ :: atoms => comparedArgs atoms
  | .bool _ left right :: atoms => left :: right :: comparedArgs atoms

/-- The name of a variable. -/
def Term.variableName : Term → Option String
  | .var id => some id
  | .const _ => none

/-- The variables that `__try_push_boolean_fact` introduces for arguments, one after the
other. -/
def introducedVariables : List AbacValue → Nat → List String
  | [], _ => []
  | arg :: args, index =>
    match tryPushBooleanFact arg index with
    | none => []
    | some (_, terms, index') =>
      terms.filterMap Term.variableName ++ introducedVariables args index'

/-- No fact is about a permission, as none is that the bouncer asserts. -/
def Assertable (facts : Set GroundAtom) : Prop :=
  ∀ a ∈ facts, ∀ perm : Perm, a.pred ≠ perm.toString

/-- The clause of the policy gives the permission to the users for the objects of which the
atoms hold, and its variables are different. -/
def MeansWhatItSays (rule : PolicyRule) : Prop :=
  ∃ clause, policyRuleToDb rule = some clause ∧
    (∀ (prims : Primitives) (facts : Set GroundAtom) (user object : Uuid), Assertable facts →
      (Derives (policyProgram prims facts clause)
          ⟨rule.perm.toString, [nexusUuidToHex user, nexusUuidToHex object]⟩ ↔
        ⟨"_isUser", [nexusUuidToHex user]⟩ ∈ facts ∧
          ⟨"_isObject", [nexusUuidToHex object]⟩ ∈ facts ∧
          ∀ atom ∈ rule.atoms,
            atom.Holds prims facts (nexusUuidToHex user) (nexusUuidToHex object))) ∧
    (introducedVariables (comparedArgs rule.atoms) 0).Nodup ∧
    ∀ x ∈ introducedVariables (comparedArgs rule.atoms) 0, x ≠ "U" ∧ x ≠ "O"

/-! ### What the parser leaves -/

/-- The argument of a comparison has no quotes, and an identifier has an entity and a name
that is not one of a primitive. -/
def AbacValue.Clean : AbacValue → Prop
  | .string s => '"' ∉ s.toList
  | .number _ => True
  | .identifier s => ∃ entity dot name type, s.toList = entity :: dot :: name ∧
      atomTypeFromChar entity = some type ∧ String.ofList name ∉ primitiveNames

/-- What the parser leaves of an atom. -/
def PolicyAtom.Clean : PolicyAtom → Prop
  | .normal predicate _ arg => predicate ∉ primitiveNames ∧
      ∀ v, arg = some v → v.stringify = v.written ∧ '"' ∉ v.written.toList
  | .bool operator left right =>
    (∃ primitive ∈ primitiveNames, booleanOperatorToDatalogStr operator = some primitive) ∧
      left.Clean ∧ right.Clean

theorem not_mem_primitiveNames {name : String}
    (h : ∀ c, name.toList.head? = some c → identifierChar c = true) : name ∉ primitiveNames := by
  have hall : ∀ primitive ∈ primitiveNames,
      primitive.toList.head?.any (!identifierChar ·) = true := by decide
  intro hmem
  obtain ⟨c, hhead, hc⟩ := (Option.any_eq_true ..).mp (hall _ hmem)
  rw [h c hhead] at hc
  cases hc

theorem quote_not_mem_of_identifier {val : List Char} {dots : Nat} (h : IsIdentifier val dots) :
    '"' ∉ val :=
  fun hmem => absurd (h.chars _ hmem) (by decide)

theorem quote_not_mem_toString (i : Int) : '"' ∉ (toString i).toList := by
  have hdigits : ∀ n : Nat, '"' ∉ n.repr.toList := by
    intro n hmem
    rw [Nat.toList_repr] at hmem
    exact absurd (Nat.isDigit_of_mem_toDigits (by omega) (by omega) hmem) (by decide)
  rw [Int.toString_eq_repr, Int.repr_eq_if]
  split
  · exact hdigits _
  · rw [toList_append, mem_append]
    rintro (hminus | hmem)
    · exact absurd hminus (by decide)
    · exact hdigits _ hmem

variable {space : Option AttributeSpace}

theorem ArgTree.clean_parsed {arg : ArgTree} (hlexed : arg.token.Lexed)
    (hvalid : validateArgument space arg.parsed = true) :
    arg.parsed.Clean := by
  cases arg with
  | string val =>
    rw [ArgTree.parsed, AbacValue.Clean, toList_ofList]
    exact hlexed.1.1
  | number digits => trivial
  | dotted val =>
    have hident : IsIdentifier val 1 := hlexed.1
    rw [ArgTree.parsed, validateArgument, toList_ofList] at hvalid
    rw [ArgTree.parsed, AbacValue.Clean, toList_ofList]
    obtain _ | ⟨entity, _ | ⟨dot, name⟩⟩ := val
    · cases hvalid
    · cases hvalid
    · dsimp only at hvalid
      cases htype : atomTypeFromChar entity with
      | none =>
        rw [htype] at hvalid
        cases hvalid
      | some type =>
        refine ⟨entity, dot, name, type, rfl, htype, not_mem_primitiveNames fun c hc => ?_⟩
        rw [toList_ofList] at hc
        refine hident.chars c (mem_cons_of_mem _ (mem_cons_of_mem _ ?_))
        exact mem_of_mem_head? hc

theorem AtomTree.clean_parsed {tree : AtomTree} (hlexed : ∀ t ∈ tree.tokens, t.Lexed)
    (htaken : tree.Taken space) : tree.parsed.Clean := by
  cases tree with
  | regular name type arg =>
    have hname : IsIdentifier name 0 := by
      cases arg <;> exact (hlexed (.identifier name) mem_cons_self).1
    refine ⟨not_mem_primitiveNames fun c hc => ?_, fun v hv => ?_⟩
    · rw [head_storedPredicate] at hc
      exact hname.chars c (mem_of_mem_head? hc)
    · obtain ⟨arg, rfl, rfl⟩ := Option.map_eq_some_iff.mp hv
      have harg : arg.token.Lexed := hlexed _ (by simp [AtomTree.tokens])
      cases arg with
      | string val =>
        refine ⟨rfl, ?_⟩
        rw [ArgTree.parsed, written, toList_ofList]
        exact harg.1.1
      | number digits => exact htaken.1.elim
      | dotted val =>
        have hident : IsIdentifier val 1 := harg.1
        refine ⟨rfl, ?_⟩
        rw [ArgTree.parsed, written, toList_ofList]
        exact quote_not_mem_of_identifier hident
  | comparison cmp left right =>
    have hvalid : validateArgument space left.parsed = true ∧
        validateArgument space right.parsed = true := by
      simpa [AtomTree.parsed, policyAtomIsValid] using htaken.2
    have hleft : left.token.Lexed := hlexed _ (by simp [AtomTree.tokens])
    have hright : right.token.Lexed := hlexed _ (by simp [AtomTree.tokens])
    refine ⟨?_, ArgTree.clean_parsed hleft hvalid.1, ArgTree.clean_parsed hright hvalid.2⟩
    cases cmp
    · exact ⟨"_lt", by decide, rfl⟩
    · exact ⟨"_le", by decide, rfl⟩
    · exact ⟨"_gt", by decide, rfl⟩
    · exact ⟨"_ge", by decide, rfl⟩
    · exact ⟨"=", by decide, rfl⟩
    · exact ⟨"_ne", by decide, rfl⟩

theorem clean_of_parse {uuid : Uuid} {input : List Char} {rule : PolicyRule}
    (h : (parseAbacPolicy space uuid input).outcome = .ok rule) :
    ∀ atom ∈ rule.atoms, atom.Clean := by
  obtain ⟨tree, -, hlexed, htaken, rfl⟩ := parseAbacPolicy_eq_ok.mp h
  intro atom hatom
  obtain ⟨atomTree, hmem, rfl⟩ := mem_map.mp hatom
  exact AtomTree.clean_parsed (fun t ht => hlexed t (RuleTree.mem_tokens hmem ht))
    (htaken atomTree hmem)

/-! ### Clean atoms as conditions -/

variable {text : AbacValue → String} {atom : PolicyAtom} {facts : Set GroundAtom}

variable {v : AbacValue} {u o : String}

theorem quote_not_mem_stringify (h : '"' ∉ v.written.toList) :
    '"' ∉ v.stringify.toList := by
  cases v with
  | string s | identifier s => exact h
  | number i =>
    rw [stringify, toList_ofList]
    exact fun hmem => h (mem_of_mem_take hmem)

theorem AbacValue.side_identifier {s : String} {entity dot : Char} {name : List Char}
    {type : AtomType} (hs : s.toList = entity :: dot :: name)
    (htype : atomTypeFromChar entity = some type) :
    (AbacValue.identifier s).side text = .named type (String.ofList name) := by
  have hentity : (if some entity = some 'u' then AtomType.user else .object) = type := by
    unfold atomTypeFromChar at htype
    split at htype
    · exact Option.some.inj htype
    · exact Option.some.inj htype
    · cases htype
  simp only [side, hs, head?_cons, hentity, drop_succ_cons, drop_zero]

theorem AbacValue.Clean.hasEntity (h : v.Clean) : v.HasEntity := by
  cases v with
  | string s | number i => trivial
  | identifier s =>
    obtain ⟨entity, dot, name, type, hs, htype, -⟩ := h
    rw [AbacValue.HasEntity, hs]
    unfold atomTypeFromChar at htype
    split at htype
    · exact .inl rfl
    · exact .inr rfl
    · cases htype

theorem AbacValue.Clean.proper_side (h : v.Clean)
    (htext : ∀ v : AbacValue, '"' ∉ v.written.toList → '"' ∉ (text v).toList) :
    (v.side text).Proper := by
  cases v with
  | string s => exact htext _ h
  | number i => exact htext _ (quote_not_mem_toString i)
  | identifier s =>
    obtain ⟨entity, dot, name, type, hs, htype, hname⟩ := h
    rw [side_identifier hs htype]
    exact hname

theorem PolicyAtom.Clean.translatable (h : atom.Clean) :
    atom.Translatable := by
  cases atom with
  | normal predicate type arg => trivial
  | bool operator left right =>
    obtain ⟨⟨primitive, -, hprimitive⟩, hleft, hright⟩ := h
    exact ⟨by rw [hprimitive]; rfl, hleft.hasEntity, hright.hasEntity⟩

theorem PolicyAtom.Clean.proper_condition (h : atom.Clean)
    (htext : ∀ v : AbacValue, '"' ∉ v.written.toList → '"' ∉ (text v).toList) :
    (atom.condition text).Proper := by
  cases atom with
  | normal predicate type arg =>
    refine ⟨h.1, ?_⟩
    cases arg with
    | none => exact (by decide : '"' ∉ "".toList)
    | some v => exact htext v (h.2 v rfl).2
  | bool operator left right =>
    obtain ⟨⟨primitive, hmem, hprimitive⟩, hleft, hright⟩ := h
    refine ⟨?_, hleft.proper_side htext, hright.proper_side htext⟩
    rw [hprimitive]
    exact hmem

theorem AbacValue.Clean.denotes_iff (h : v.Clean) {x : String} :
    v.Denotes facts u o x ↔ (v.side AbacValue.written).Denotes facts u o x := by
  cases v with
  | string s | number i => exact Iff.rfl
  | identifier s =>
    obtain ⟨entity, dot, name, type, hs, htype, -⟩ := h
    rw [side_identifier hs htype]
    constructor
    · rintro ⟨entity', dot', name', type', hs', htype', hmem⟩
      obtain ⟨rfl, -, rfl⟩ : entity = entity' ∧ dot = dot' ∧ name = name' := by
        simpa using hs.symm.trans hs'
      cases htype.symm.trans htype'
      exact hmem
    · exact fun hmem => ⟨entity, dot, name, type, hs, htype, hmem⟩

theorem PolicyAtom.Clean.holds_iff (h : atom.Clean) {prims : Primitives} :
    atom.Holds prims facts u o ↔
      (atom.condition AbacValue.written).Holds prims facts u o := by
  cases atom with
  | normal predicate type arg => exact Iff.rfl
  | bool operator left right =>
    obtain ⟨⟨primitive, -, hprimitive⟩, hleft, hright⟩ := h
    rw [condition, hprimitive, Option.getD_some, Condition.Holds]
    simp only [← hleft.denotes_iff, ← hright.denotes_iff, PolicyAtom.Holds, hprimitive,
      Option.some.injEq]
    constructor
    · rintro ⟨_, x, y, rfl, hx, hy, hholds⟩
      exact ⟨x, y, hx, hy, hholds⟩
    · rintro ⟨x, y, hx, hy, hholds⟩
      exact ⟨primitive, x, y, rfl, hx, hy, hholds⟩

/-! ## When a policy means what it says -/

/-- The conditions of a policy, where `text` writes the constants. -/
def PolicyRule.conditions (rule : PolicyRule) (text : AbacValue → String) : List Condition :=
  rule.atoms.map (·.condition text)

/-- The argument takes a variable. -/
def AbacValue.isIdentifier : AbacValue → Bool
  | .identifier _ => true
  | _ => false

/-- An atom asks for something that is called like a permission. -/
def PolicyRule.AsksPermission (rule : PolicyRule) : Prop :=
  ∃ c ∈ rule.conditions AbacValue.written, ∃ perm : Perm, perm.toString ∈ c.predicates

/-- There are not too many variables, and either the policy asks for what no fact says, or no
compared constant is empty and the comparisons with the first nine characters of the numbers
amount to those with the numbers. -/
def PolicyRule.Printable (rule : PolicyRule) : Prop :=
  (comparedArgs rule.atoms).countP AbacValue.isIdentifier ≤ maxVariables ∧
    (rule.AsksPermission ∨
      (∀ arg ∈ comparedArgs rule.atoms, arg ≠ .string "") ∧
        Covers (rule.conditions AbacValue.written) (rule.conditions AbacValue.stringify) ∧
        Covers (rule.conditions AbacValue.stringify) (rule.conditions AbacValue.written))

/-! ### The variables -/

theorem AbacValue.width_side (text : AbacValue → String) (v : AbacValue) :
    (v.side text).width = if v.isIdentifier then 1 else 0 := by
  cases v <;> rfl

theorem totalWidth_conditions (text : AbacValue → String) (atoms : List PolicyAtom) :
    totalWidth (atoms.map (·.condition text)) =
      (comparedArgs atoms).countP AbacValue.isIdentifier := by
  induction atoms with
  | nil => rfl
  | cons atom atoms ih =>
    cases atom with
    | normal predicate type arg =>
      rw [map_cons, totalWidth, ih, comparedArgs]
      exact Nat.zero_add _
    | bool operator left right =>
      rw [map_cons, totalWidth, ih, comparedArgs, countP_cons, countP_cons,
        condition, width, width_side, width_side]
      omega

theorem filterMap_dbPushTerm (text : String) :
    (dbPushTerm .const text).filterMap Term.variableName = [] := by
  unfold dbPushTerm
  split <;> rfl

theorem introducedVariables_eq {args : List AbacValue} (h : ∀ arg ∈ args, arg.HasEntity)
    (index : Nat) :
    introducedVariables args index =
      (List.range' index (args.countP AbacValue.isIdentifier)).map xVar := by
  induction args generalizing index with
  | nil => rfl
  | cons arg args ih =>
    obtain ⟨harg, hargs⟩ := forall_mem_cons.mp h
    rw [introducedVariables, tryPushBooleanFact_eq_some harg, countP_cons]
    dsimp only
    rw [ih hargs, width_side]
    cases arg with
    | identifier s =>
      rw [isIdentifier, if_pos rfl, range'_succ]
      rfl
    | string s => exact congrArg (· ++ _) (filterMap_dbPushTerm s)
    | number i => exact congrArg (· ++ _) (filterMap_dbPushTerm _)

theorem nodup_range_map_xVar (n : Nat) :
    ((List.range' 0 n).map xVar).Nodup ↔ n ≤ maxVariables := by
  constructor
  · intro h
    by_contra hlong
    have hinj := inj_on_of_nodup_map h
    have hmem : ∀ {i}, i ≤ maxVariables → i ∈ range' 0 n := by
      intro i hi
      rw [mem_range'_1]
      omega
    have heq := hinj (hmem le_rfl) (hmem (Nat.div_le_self _ 10)) xVar_maxVariables
    cases heq
  · intro h
    refine List.Nodup.map_on ?_ nodup_range'
    intro i hi j hj heq
    rw [mem_range'_1] at hi hj
    exact xVar_injOn (by omega) (by omega) heq

/-! ### Written and printed conditions -/

theorem mem_comparedArgs {atoms : List PolicyAtom} {arg : AbacValue} :
    arg ∈ comparedArgs atoms ↔
      ∃ operator left right, .bool operator left right ∈ atoms ∧ (arg = left ∨ arg = right) := by
  induction atoms with
  | nil => simp [comparedArgs]
  | cons atom atoms ih =>
    cases atom with
    | normal predicate type value => simp [comparedArgs, ih]
    | bool operator left right =>
      simp only [comparedArgs, mem_cons, ih, bool.injEq]
      constructor
      · rintro (rfl | rfl | ⟨operator', left', right', hmem, h⟩)
        · exact ⟨_, _, _, .inl ⟨rfl, rfl, rfl⟩, .inl rfl⟩
        · exact ⟨_, _, _, .inl ⟨rfl, rfl, rfl⟩, .inr rfl⟩
        · exact ⟨_, _, _, .inr hmem, h⟩
      · rintro ⟨_, _, _, ⟨rfl, rfl, rfl⟩ | hmem, h⟩
        · exact h.imp id .inl
        · exact .inr (.inr ⟨_, _, _, hmem, h⟩)

theorem stringify_number_ne (i : Int) : (AbacValue.number i).stringify ≠ "" := by
  have hne : ∀ n : Nat, n.repr.toList ≠ [] := by
    intro n
    rw [Nat.toList_repr]
    exact Nat.toDigits_ne_nil
  intro h
  have hlist := congrArg toList h
  rw [stringify, toList_ofList, toList_empty, take_eq_nil_iff,
    Int.toString_eq_repr, Int.repr_eq_if] at hlist
  obtain hlist | hlist := hlist
  · cases hlist
  · split at hlist
    · exact hne _ hlist
    · simp at hlist

theorem AbacValue.pushed_side_iff (v : AbacValue) :
    (v.side AbacValue.stringify).Pushed ↔ v ≠ .string "" := by
  cases v with
  | string s => simp [Side.Pushed, side, stringify]
  | number i =>
    have hne := stringify_number_ne i
    simp [Side.Pushed, side, hne]
  | identifier s => simp [Side.Pushed, side]

theorem PolicyRule.pushed_iff (rule : PolicyRule) :
    (∀ c ∈ rule.conditions AbacValue.stringify, c.Pushed) ↔
      ∀ arg ∈ comparedArgs rule.atoms, arg ≠ .string "" := by
  rw [PolicyRule.conditions, forall_mem_map]
  constructor
  · intro h arg harg
    obtain ⟨operator, left, right, hmem, rfl | rfl⟩ := mem_comparedArgs.mp harg
    · exact (pushed_side_iff _).mp (h _ hmem).1
    · exact (pushed_side_iff _).mp (h _ hmem).2
  · intro h atom hatom
    cases atom with
    | normal predicate type arg => trivial
    | bool operator left right =>
      exact ⟨(pushed_side_iff _).mpr (h _ (mem_comparedArgs.mpr ⟨_, _, _, hatom, .inl rfl⟩)),
        (pushed_side_iff _).mpr (h _ (mem_comparedArgs.mpr ⟨_, _, _, hatom, .inr rfl⟩))⟩

theorem PolicyAtom.predicates_condition (text text' : AbacValue → String) (atom : PolicyAtom) :
    (atom.condition text).predicates = (atom.condition text').predicates := by
  have hside : ∀ v : AbacValue, (v.side text).predicates = (v.side text').predicates := by
    intro v
    cases v <;> rfl
  cases atom with
  | normal predicate type arg => rfl
  | bool operator left right =>
    rw [condition, condition, predicates, predicates,
      hside left, hside right]

/-- The facts that a clean policy asks for are the same, as their values are no numbers. -/
theorem condition_normal_eq {predicate : String} {type : AtomType} {arg : Option AbacValue}
    (h : (PolicyAtom.normal predicate type arg).Clean) :
    (PolicyAtom.normal predicate type arg).condition AbacValue.stringify =
      (PolicyAtom.normal predicate type arg).condition AbacValue.written := by
  cases arg with
  | none => rfl
  | some v =>
    rw [condition, condition, Option.map_some, Option.map_some,
      (h.2 v rfl).1]

theorem sameFacts_conditions {rule : PolicyRule} (h : ∀ atom ∈ rule.atoms, atom.Clean) :
    SameFacts (rule.conditions AbacValue.written) (rule.conditions AbacValue.stringify) ∧
      SameFacts (rule.conditions AbacValue.stringify) (rule.conditions AbacValue.written) := by
  have hmem : ∀ {text text' : AbacValue → String} {predicate type value},
      (∀ predicate type arg, (normal predicate type arg).Clean →
        (normal predicate type arg).condition text =
          (normal predicate type arg).condition text') →
      .fact predicate type value ∈ rule.conditions text →
      .fact predicate type value ∈ rule.conditions text' := by
    intro text text' predicate type value htext hfact
    obtain ⟨atom, hatom, heq⟩ := mem_map.mp hfact
    cases atom with
    | normal predicate' type' arg =>
      rw [htext _ _ _ (h _ hatom)] at heq
      exact mem_map.mpr ⟨_, hatom, heq⟩
    | bool operator left right => cases heq
  exact ⟨fun _ _ _ => hmem fun _ _ _ => condition_normal_eq,
    fun _ _ _ => hmem fun _ _ _ hclean => (condition_normal_eq hclean).symm⟩

theorem PolicyRule.asksPermission_iff (rule : PolicyRule) (text : AbacValue → String) :
    rule.AsksPermission ↔
      ∃ c ∈ rule.conditions text, ∃ perm : Perm, perm.toString ∈ c.predicates := by
  simp only [PolicyRule.AsksPermission, PolicyRule.conditions, mem_map,
    exists_exists_and_eq_and, predicates_condition written text]

theorem Condition.not_holds_of_asks {c : Condition} (hproper : c.Proper) {perm : Perm}
    (hasks : perm.toString ∈ c.predicates) {prims : Primitives} (hfacts : Assertable facts) :
    ¬ c.Holds prims facts u o := by
  have hside : ∀ {s : Side} {x : String}, perm.toString ∈ s.predicates →
      ¬ s.Denotes facts u o x := by
    intro s x hmem hdenotes
    cases s with
    | value text => cases hmem
    | named type name => exact hfacts _ hdenotes perm (mem_singleton.mp hmem).symm
  cases c with
  | fact predicate type value =>
    exact fun hholds => hfacts _ hholds perm (mem_singleton.mp hasks).symm
  | compare primitive left right =>
    rintro ⟨x, y, hx, hy, -⟩
    rw [predicates, mem_append, mem_append, mem_singleton] at hasks
    obtain (hleft | hright) | heq := hasks
    · exact hside hleft hx
    · exact hside hright hy
    · have hnone : perm.toString ∉ primitiveNames := by cases perm <;> decide
      exact hnone (heq ▸ hproper.1)

/-- The facts that conditions need have the names that the conditions ask for. -/
theorem pred_ownFacts {K : List Condition} (hK : ∀ c ∈ K, c.Proper) {a : GroundAtom}
    (ha : a ∈ ownFacts u o K) :
    a.pred ∉ primitiveNames ∧
      (a.pred = "_isUser" ∨ a.pred = "_isObject" ∨ ∃ c ∈ K, a.pred ∈ c.predicates) := by
  obtain rfl | rfl | ⟨predicate, type, value, hmem, rfl⟩ | ⟨type, name, hcompared, rfl⟩ := ha
  · exact ⟨show "_isUser" ∉ primitiveNames by decide, .inl rfl⟩
  · exact ⟨show "_isObject" ∉ primitiveNames by decide, .inr (.inl rfl)⟩
  · exact ⟨(hK _ hmem).1, .inr (.inr ⟨_, hmem, mem_singleton_self _⟩)⟩
  · obtain ⟨primitive, left, right, hmem, rfl | rfl⟩ := hcompared
    · exact ⟨(hK _ hmem).2.1, .inr (.inr ⟨_, hmem, by simp [predicates, Side.predicates]⟩)⟩
    · exact ⟨(hK _ hmem).2.2, .inr (.inr ⟨_, hmem, by simp [predicates, Side.predicates]⟩)⟩

theorem assertable_ownFacts {K : List Condition} (hK : ∀ c ∈ K, c.Proper)
    (hasks : ¬ ∃ c ∈ K, ∃ perm : Perm, perm.toString ∈ c.predicates) :
    Assertable (ownFacts u o K) := by
  intro a ha perm heq
  obtain ⟨-, hname | hname | ⟨c, hc, hmem⟩⟩ := pred_ownFacts hK ha
  · exact absurd (hname.symm.trans heq) (by cases perm <;> decide)
  · exact absurd (hname.symm.trans heq) (by cases perm <;> decide)
  · exact hasks ⟨c, hc, perm, heq ▸ hmem⟩

/-! ### The theorem -/

section Policy

variable {rule : PolicyRule}

theorem proper_conditions (h : ∀ atom ∈ rule.atoms, atom.Clean) :
    (∀ c ∈ rule.conditions AbacValue.written, c.Proper) ∧
      ∀ c ∈ rule.conditions AbacValue.stringify, c.Proper := by
  constructor <;> intro c hc <;> obtain ⟨atom, hatom, rfl⟩ := mem_map.mp hc
  · exact (h atom hatom).proper_condition fun _ hquote => hquote
  · exact (h atom hatom).proper_condition fun _ hquote => quote_not_mem_stringify hquote

theorem meansWhatItSays_iff (h : ∀ atom ∈ rule.atoms, atom.Clean) :
    MeansWhatItSays rule ↔
      (comparedArgs rule.atoms).countP AbacValue.isIdentifier ≤ maxVariables ∧
        ∀ (prims : Primitives) (facts : Set GroundAtom) (user object : Uuid), Assertable facts →
          (Derives (policyProgram prims facts
              (policyClause rule.perm (rule.conditions AbacValue.stringify)))
              ⟨rule.perm.toString, [nexusUuidToHex user, nexusUuidToHex object]⟩ ↔
            ⟨"_isUser", [nexusUuidToHex user]⟩ ∈ facts ∧
              ⟨"_isObject", [nexusUuidToHex object]⟩ ∈ facts ∧
              ∀ c ∈ rule.conditions AbacValue.written,
                c.Holds prims facts (nexusUuidToHex user) (nexusUuidToHex object)) := by
  have hclause := policyRuleToDb_eq_some fun atom hatom => (h atom hatom).translatable
  have hargs : ∀ arg ∈ comparedArgs rule.atoms, arg.HasEntity := by
    intro arg harg
    obtain ⟨operator, left, right, hmem, rfl | rfl⟩ := mem_comparedArgs.mp harg
    · exact (h _ hmem).2.1.hasEntity
    · exact (h _ hmem).2.2.hasEntity
  have hvariables : (introducedVariables (comparedArgs rule.atoms) 0).Nodup ∧
      (∀ x ∈ introducedVariables (comparedArgs rule.atoms) 0, x ≠ "U" ∧ x ≠ "O") ↔
      (comparedArgs rule.atoms).countP isIdentifier ≤ maxVariables := by
    rw [introducedVariables_eq hargs, nodup_range_map_xVar, and_iff_left_iff_imp]
    intro _ x hx
    obtain ⟨i, -, rfl⟩ := mem_map.mp hx
    exact xVar_ne i
  have hatoms : ∀ {prims : Primitives} {facts : Set GroundAtom} {u o : String},
      (∀ atom ∈ rule.atoms, atom.Holds prims facts u o) ↔
        ∀ c ∈ rule.conditions written, c.Holds prims facts u o := by
    intro prims facts u o
    rw [PolicyRule.conditions, forall_mem_map]
    exact forall₂_congr fun atom hatom => (h atom hatom).holds_iff
  rw [MeansWhatItSays, hclause]
  simp only [Option.some.injEq, exists_eq_left', hvariables, hatoms]
  exact and_comm

/-- The conditions that are printed hold if those that are written do, for all facts. -/
theorem printable_of_means (hclean : ∀ atom ∈ rule.atoms, atom.Clean)
    (hasks : ¬ rule.AsksPermission) (h : MeansWhatItSays rule) :
    (∀ arg ∈ comparedArgs rule.atoms, arg ≠ .string "") ∧
      Covers (rule.conditions AbacValue.written) (rule.conditions AbacValue.stringify) ∧
      Covers (rule.conditions AbacValue.stringify) (rule.conditions AbacValue.written) := by
  obtain ⟨hproper, hproper'⟩ := proper_conditions hclean
  obtain ⟨hcount, hderives⟩ := (meansWhatItSays_iff hclean).mp h
  have hwidth : totalWidth (rule.conditions stringify) ≤ maxVariables := by
    rw [PolicyRule.conditions, totalWidth_conditions]
    exact hcount
  have hasks' := mt (rule.asksPermission_iff stringify).mpr hasks
  have hown : ∀ c ∈ rule.conditions stringify, rule.perm.toString ∉ c.predicates :=
    fun c hc hmem => hasks' ⟨c, hc, rule.perm, hmem⟩
  have hne : nexusUuidToHex 1 ≠ nexusUuidToHex 2 := fun heq =>
    absurd (nexusUuidToHex_injective heq) (by decide)
  -- a user and an object with what conditions `K` need
  have hneeds : ∀ K : List Condition, Assertable (ownFacts (nexusUuidToHex 1) (nexusUuidToHex 2) K) →
      ((∀ c ∈ rule.conditions stringify, c.Satisfiable
          (Given (ownPrims K) (ownFacts (nexusUuidToHex 1) (nexusUuidToHex 2) K))
          (nexusUuidToHex 1) (nexusUuidToHex 2)) ↔
        ∀ c ∈ rule.conditions written, c.Holds (ownPrims K)
          (ownFacts (nexusUuidToHex 1) (nexusUuidToHex 2) K) (nexusUuidToHex 1)
          (nexusUuidToHex 2)) := by
    intro K hK
    have hiff := hderives (ownPrims K) _ 1 2 hK
    rw [derives_policy_iff (fun a ha => hK a ha rule.perm) hown hwidth] at hiff
    simpa [ownFacts] using hiff
  have hassertable := assertable_ownFacts (u := nexusUuidToHex 1) (o := nexusUuidToHex 2) hproper
    hasks
  have hsat := (hneeds _ hassertable).mpr fun c hc => holds_own hc
  have hpushed : ∀ c ∈ rule.conditions stringify, c.Pushed := by
    intro c hc
    cases c with
    | fact predicate type value => trivial
    | compare primitive left right =>
      by_contra hnot
      obtain ⟨a, ha, heq⟩ := exists_fact_of_not_pushed hnot (hsat _ hc)
      have hprimitive : primitive ∈ primitiveNames := (hproper' _ hc).1
      exact (pred_ownFacts hproper ha).1 (heq ▸ hprimitive)
  refine ⟨rule.pushed_iff.mp hpushed, ?_, ?_⟩
  · refine covers_of_holds hne hproper hproper' fun c hc => ?_
    exact (satisfiable_given_iff (hproper' c hc) (hpushed c hc)).mp (hsat c hc)
  · refine covers_of_holds hne hproper' hproper ?_
    refine (hneeds _ (assertable_ownFacts hproper' hasks')).mp fun c hc => ?_
    exact (satisfiable_given_iff (hproper' c hc) (hpushed c hc)).mpr (holds_own hc)

/-- A policy that the parser accepts means what it says exactly if it is printed so. -/
theorem policy_meaning_iff {space : Option AttributeSpace} {uuid : Uuid} {input : List Char}
    (h : (parseAbacPolicy space uuid input).outcome = .ok rule) :
    MeansWhatItSays rule ↔ rule.Printable := by
  have hclean := clean_of_parse h
  obtain ⟨hproper, hproper'⟩ := proper_conditions hclean
  constructor
  · intro hmeans
    refine ⟨((meansWhatItSays_iff hclean).mp hmeans).1, ?_⟩
    by_cases hasks : rule.AsksPermission
    · exact .inl hasks
    · exact .inr (printable_of_means hclean hasks hmeans)
  · rintro ⟨hcount, hprinted⟩
    refine (meansWhatItSays_iff hclean).mpr ⟨hcount, ?_⟩
    intro prims facts user object hfacts
    by_cases hasks : rule.AsksPermission
    · -- neither the permission nor what is asked for is there
      have hasks' := (rule.asksPermission_iff stringify).mp hasks
      obtain ⟨c, hc, perm, hmem⟩ := hasks
      refine iff_of_false (not_derives_of_asks hfacts hasks') ?_
      rintro ⟨-, -, hholds⟩
      exact not_holds_of_asks (hproper c hc) hmem hfacts (hholds c hc)
    · obtain ⟨hnonempty, hcovers, hcovers'⟩ := hprinted.resolve_left hasks
      have hpushed := rule.pushed_iff.mpr hnonempty
      have hasks' := mt (rule.asksPermission_iff stringify).mpr hasks
      have hwidth : totalWidth (rule.conditions stringify) ≤ maxVariables := by
        rw [PolicyRule.conditions, totalWidth_conditions]
        exact hcount
      obtain ⟨hsame, hsame'⟩ := sameFacts_conditions hclean
      rw [derives_policy_iff (fun a ha => hfacts a ha rule.perm)
        (fun c hc hmem => hasks' ⟨c, hc, rule.perm, hmem⟩) hwidth]
      refine and_congr_right fun _ => and_congr_right fun _ => ?_
      rw [forall₂_congr fun c hc =>
        satisfiable_given_iff (hproper' c hc) (hpushed c hc)]
      exact ⟨hcovers'.holds hsame', hcovers.holds hsame⟩

end Policy

theorem Covers.refl (K : List Condition) : Covers K K :=
  fun _ left right hmem => ⟨left, right, hmem, .inl rfl, .inl rfl⟩

/-- The attributes `a` of users and `b` of objects. -/
def exampleSpace : AttributeSpace := .build [.add "a" .user 1 "", .add "b" .object 2 ""]

/-- The policy that compares the two attributes. -/
theorem equal_attributes_means :
    MeansWhatItSays ⟨.read, 0, [.bool "==" (.identifier "u.a") (.identifier "o.b")]⟩ := by
  have hparse : (parseAbacPolicy (some exampleSpace) 0 "read:-==(u.a,o.b)".toList).outcome =
      .ok ⟨.read, 0, [.bool "==" (.identifier "u.a") (.identifier "o.b")]⟩ := by decide
  exact (policy_meaning_iff hparse).mpr ⟨by decide, .inr ⟨by decide, Covers.refl _, Covers.refl _⟩⟩

/-- The policy `read:-!=(u.a,"")`. -/
def emptyLiteralPolicy : PolicyRule :=
  ⟨.read, 0, [.bool "!=" (.identifier "u.a") (.string "")]⟩

/-- A user with a value of the attribute, and an object. -/
def emptyLiteralFacts : Set GroundAtom :=
  {⟨"_isUser", [nexusUuidToHex 1]⟩, ⟨"_isObject", [nexusUuidToHex 2]⟩,
    ⟨"a", [nexusUuidToHex 1, "x"]⟩}

/-- The primitives that compare texts. -/
def textPrims : Primitives := fun primitive x y =>
  (primitive = "=" ∧ x = y) ∨ (primitive = "_ne" ∧ x ≠ y)

/-- The policy is accepted, the value of the attribute is not empty, and nothing is derived. -/
theorem empty_literal_not_derived :
    (parseAbacPolicy (some exampleSpace) 0 "read:-!=(u.a,\"\")".toList).outcome =
        .ok emptyLiteralPolicy ∧
      (∀ atom ∈ emptyLiteralPolicy.atoms,
        atom.Holds textPrims emptyLiteralFacts (nexusUuidToHex 1) (nexusUuidToHex 2)) ∧
      ∃ clause, policyRuleToDb emptyLiteralPolicy = some clause ∧
        ¬ Derives (policyProgram textPrims emptyLiteralFacts clause)
          ⟨"read", [nexusUuidToHex 1, nexusUuidToHex 2]⟩ := by
  refine ⟨by decide, ?_, policyClause .read [.compare "_ne" (.named .user "a") (.value "")],
    by decide, ?_⟩
  · refine forall_mem_singleton.mpr ⟨"_ne", "x", "", rfl, ?_, rfl, .inr ⟨rfl, by decide⟩⟩
    exact ⟨'u', '.', ['a'], .user, rfl, rfl, .inr (.inr rfl)⟩
  · have hfacts : ∀ a ∈ emptyLiteralFacts, a.pred ∈ ["_isUser", "_isObject", "a"] := by
      rintro a (rfl | rfl | rfl) <;> simp
    intro hderives
    have hsat := (derives_policy_iff (fun a ha heq => absurd (heq ▸ hfacts a ha) (by decide))
      (by decide) (by decide)).mp hderives
    have hpushed : ¬ (compare "_ne" (.named .user "a") (.value "")).Pushed :=
      fun h => h.2 rfl
    obtain ⟨a, ha, heq⟩ := exists_fact_of_not_pushed hpushed
      (hsat.2.2 _ (mem_singleton_self _))
    exact absurd (heq ▸ hfacts a ha) (by decide)

end Nexus.Abac
