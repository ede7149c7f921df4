import Nexus.Abac.Recognition

/-!
# What accepted policies refer to

A policy should refer to system functions and attributes that exist, under the names by
which the bouncer asserts their values.  `ecall_abac_policy_add` leaves this to
`policy_atom_is_valid`, which does not look at the predicate of an attribute atom at
all, and compares other names by their first characters.  `policyAdd_refers_iff` says
for which policies this is enough.
-/

namespace Nexus.Abac

open List

/-! ## Adding a policy -/

/-- The outcomes of the calls that `ecall_abac_policy_add` depends on. -/
structure PolicyAddEnv where
  storeAcquired : Bool
  spaceAcquired : Bool
  storeFlushed : Bool

/-- `ecall_abac_policy_add`: the rules of the store, with the new rule at the end. -/
def ecallAbacPolicyAdd (env : PolicyAddEnv) (space : AttributeSpace) (uuid : Uuid)
    (input : List Char) (store : List PolicyRule) : Parse (List PolicyRule) :=
  if env.storeAcquired then do
    let rule ← parseAbacPolicy (if env.spaceAcquired then some space else none) uuid input
    if env.storeFlushed then pure (store ++ [rule]) else .fail
  else .fail

/-! ## References -/

/-- The name is that of a system function or of an attribute of the entity. -/
def NameRefers (space : AttributeSpace) (name : String) (type : AtomType) : Prop :=
  if name.toList.head? = some '@' then (name, type) ∈ systemFunctions
  else ∃ schema ∈ space, schema.name = name ∧ schema.type = type.attributeType

/-- The entity and the name of a dotted argument refer to something. -/
def AbacValue.Refers (space : AttributeSpace) : AbacValue → Prop
  | .identifier symbol => ∃ entity dot name type, symbol.toList = entity :: dot :: name ∧
      atomTypeFromChar entity = some type ∧ NameRefers space (String.ofList name) type
  | _ => True

/-- The predicate and the dotted arguments of an atom refer to something. -/
def PolicyAtom.Refers (space : AttributeSpace) : PolicyAtom → Prop
  | .normal predicate type arg =>
    NameRefers space predicate type ∧ ∀ value, arg = some value → value.Refers space
  | .bool _ left right => left.Refers space ∧ right.Refers space

/-- The system function or the attribute that a name is taken for, by its first
characters, has that very name. -/
def FoundByName (space : AttributeSpace) (name : String) : Prop :=
  if name.toList.head? = some '@' then
    ∀ function, findSystemFunction name = some function → function.1 = name
  else ∀ schema, attributeSpaceFindName space name = some schema → schema.name = name

/-- The name of a dotted argument is found by that name. -/
def AbacValue.FoundByName (space : AttributeSpace) : AbacValue → Prop
  | .identifier symbol => Abac.FoundByName space (String.ofList (symbol.toList.drop 2))
  | _ => True

/-- What the checks leave open does not matter for the atom: its attribute would pass the
check that comparisons get, so would a dotted value, and names are found by name. -/
def PolicyAtom.Covered (space : AttributeSpace) : PolicyAtom → Prop
  | .normal predicate type arg =>
    (predicate.toList.head? ≠ some '@' → checkAttribute (some space) predicate type = true) ∧
      FoundByName space predicate ∧ ∀ value, arg = some value →
        validateArgument (some space) value = true ∧ value.FoundByName space
  | .bool _ left right => left.FoundByName space ∧ right.FoundByName space

/-! ## Names in a space -/

/-- No two attributes have the same first characters. -/
def DistinctNames (space : AttributeSpace) : Prop :=
  space.Pairwise fun schema schema' => nameChars schema.name ≠ nameChars schema'.name

variable {space : AttributeSpace}

theorem distinctNames_step (h : DistinctNames space) (call : SpaceCall) :
    DistinctNames (space.step call) := by
  cases call with
  | add name type uuid beyond =>
    unfold AttributeSpace.step attributeSpaceAdd
    dsimp only
    split
    · exact h
    · next hnone =>
      split
      · exact h
      split
      · exact h
      refine pairwise_append.mpr ⟨h, pairwise_singleton _ _, ?_⟩
      rintro schema hschema new hnew
      obtain rfl := mem_singleton.mp hnew
      -- an attribute with these characters would have been found
      intro heq
      dsimp only at heq
      rw [nameChars_storedName] at heq
      have hfound : (attributeSpaceFindName space name).isSome = true :=
        find?_isSome.mpr ⟨schema, hschema, decide_eq_true heq⟩
      exact hnone hfound
  | del name =>
    unfold AttributeSpace.step attributeSpaceDel
    dsimp only
    cases attributeSpaceFindName space name with
    | none => exact h
    | some schema => exact h.sublist eraseP_sublist

theorem distinctNames_build (calls : List SpaceCall) : DistinctNames (.build calls) := by
  have hrun : ∀ (calls : List SpaceCall) (space : AttributeSpace), DistinctNames space →
      DistinctNames (calls.foldl AttributeSpace.step space) := by
    intro calls
    induction calls with
    | nil => exact fun _ h => h
    | cons call calls ih => exact fun space h => ih _ (distinctNames_step h call)
  exact hrun calls [] List.Pairwise.nil

theorem attributeSpaceFindName_of_mem (h : DistinctNames space) {schema : AttributeSchema}
    (hschema : schema ∈ space) :
    attributeSpaceFindName space schema.name = some schema := by
  induction space with
  | nil => cases hschema
  | cons first space ih =>
    obtain ⟨hfirst, hspace⟩ := pairwise_cons.mp h
    obtain rfl | hmem := mem_cons.mp hschema
    · exact find?_cons_of_pos (decide_eq_true rfl)
    · rw [attributeSpaceFindName, find?_cons_of_neg (by simpa using hfirst schema hmem)]
      exact ih hspace hmem

/-! ## Comparing to the end is referring to what exists -/

theorem findSystemFunction_of_mem {name : String} {type : AtomType}
    (h : (name, type) ∈ systemFunctions) : findSystemFunction name = some (name, type) := by
  have hall : ∀ function ∈ systemFunctions, findSystemFunction function.1 = some function := by
    decide
  exact hall (name, type) h

/-- The check of a name in a comparison. -/
def checkName (space : AttributeSpace) (name : String) (type : AtomType) : Bool :=
  if name.toList.head? = some '@' then checkSystemFunction name type
  else checkAttribute (some space) name type

theorem nameRefers_iff (hspace : DistinctNames space) {name : String} {type : AtomType} :
    NameRefers space name type ↔ checkName space name type = true ∧ FoundByName space name := by
  unfold checkName FoundByName NameRefers
  split
  · constructor
    · intro hmem
      have hfind := findSystemFunction_of_mem hmem
      refine ⟨by simp [checkSystemFunction, hfind], fun function hfound => ?_⟩
      rw [hfind] at hfound
      cases hfound
      rfl
    · rintro ⟨hcheck, hexact⟩
      obtain ⟨function, hfind, htype⟩ := (Option.any_eq_true _ _).mp hcheck
      have hmem : function ∈ systemFunctions := mem_of_find?_eq_some hfind
      obtain rfl := hexact function hfind
      obtain rfl : function.2 = type := of_decide_eq_true htype
      exact hmem
  · constructor
    · rintro ⟨schema, hmem, rfl, htype⟩
      have hfind := attributeSpaceFindName_of_mem hspace hmem
      refine ⟨by simp [checkAttribute, hfind, htype], fun schema' hfound => ?_⟩
      rw [hfind] at hfound
      cases hfound
      rfl
    · rintro ⟨hcheck, hexact⟩
      simp only [checkAttribute, Option.any_some] at hcheck
      obtain ⟨schema, hfind, htype⟩ := (Option.any_eq_true _ _).mp hcheck
      exact ⟨schema, mem_of_find?_eq_some hfind, hexact schema hfind,
        of_decide_eq_true htype⟩

/-- A dotted argument passes its check exactly if its name does for its entity. -/
theorem validateArgument_identifier {symbol : String} :
    validateArgument (some space) (.identifier symbol) = true ↔
      ∃ entity dot name type, symbol.toList = entity :: dot :: name ∧
        atomTypeFromChar entity = some type ∧
        checkName space (String.ofList name) type = true := by
  unfold validateArgument
  dsimp only
  split
  · next entity dot name heq =>
    cases htype : atomTypeFromChar entity with
    | none => simp [heq, htype]
    | some type => simp [heq, htype, checkName]
  · next hshort =>
    simp only [Bool.false_eq_true, false_iff]
    rintro ⟨entity, dot, name, type, heq, -⟩
    exact hshort entity dot name heq

theorem AbacValue.refers_iff (hspace : DistinctNames space) (value : AbacValue) :
    value.Refers space ↔ validateArgument (some space) value = true ∧ value.FoundByName space := by
  cases value with
  | string s | number i => exact ⟨fun _ => ⟨rfl, trivial⟩, fun _ => trivial⟩
  | identifier symbol =>
    rw [validateArgument_identifier]
    simp only [Refers, FoundByName]
    constructor
    · rintro ⟨entity, dot, name, type, heq, htype, hrefers⟩
      obtain ⟨hcheck, hfound⟩ := (nameRefers_iff hspace).mp hrefers
      refine ⟨⟨entity, dot, name, type, heq, htype, hcheck⟩, ?_⟩
      rw [heq]
      exact hfound
    · rintro ⟨⟨entity, dot, name, type, heq, htype, hcheck⟩, hfound⟩
      rw [heq] at hfound
      exact ⟨entity, dot, name, type, heq, htype, (nameRefers_iff hspace).mpr ⟨hcheck, hfound⟩⟩

/-- Of a valid atom, what the checks leave open is exactly what is missing for it to
refer to what exists. -/
theorem PolicyAtom.covered_iff (hspace : DistinctNames space) {atom : PolicyAtom}
    (hvalid : policyAtomIsValid (some space) atom = true) :
    atom.Covered space ↔ atom.Refers space := by
  cases atom with
  | normal predicate type arg =>
    simp only [Covered, Refers, nameRefers_iff hspace, AbacValue.refers_iff hspace, checkName]
    unfold policyAtomIsValid at hvalid
    by_cases hsign : predicate.toList.head? = some '@'
    · simp only [hsign, if_true] at hvalid
      simp [hsign, hvalid]
    · simp [hsign, and_assoc]
  | bool operator left right =>
    simp only [policyAtomIsValid, Bool.and_eq_true] at hvalid
    simp only [Covered, Refers, AbacValue.refers_iff hspace, hvalid.1, hvalid.2, true_and]

/-! ## Accepted policies -/

/-- Every policy atom that is accepted from the input is covered. -/
def CoveredPolicy (space : AttributeSpace) (input : List Char) : Prop :=
  ∀ tree : RuleTree, Spells tree.tokens (policyText input) → (∀ t ∈ tree.tokens, t.Lexed) →
    (∀ atom ∈ tree.atoms, atom.Taken (some space)) →
    ∀ atom ∈ tree.atoms, atom.parsed.Covered space

theorem validateArgument_of_none {value : AbacValue} (h : validateArgument none value = true) :
    validateArgument (some space) value = true := by
  cases value with
  | string s => rfl
  | number i => rfl
  | identifier symbol =>
    unfold validateArgument at h ⊢
    dsimp only at h ⊢
    split at h
    · split at h
      · cases h
      · split at h
        · next hsign => rwa [if_pos hsign]
        · cases h
    · cases h

theorem AtomTree.Taken.of_none {tree : AtomTree} (h : tree.Taken none) :
    tree.Taken (some space) := by
  refine ⟨h.1, ?_⟩
  have hvalid := h.2
  cases htree : tree.parsed with
  | normal predicate type arg =>
    rw [htree] at hvalid
    exact hvalid
  | bool operator left right =>
    rw [htree] at hvalid
    simp only [policyAtomIsValid, Bool.and_eq_true] at hvalid ⊢
    exact ⟨validateArgument_of_none hvalid.1, validateArgument_of_none hvalid.2⟩

theorem ecallAbacPolicyAdd_eq_ok {env : PolicyAddEnv} {uuid : Uuid} {input : List Char}
    {store : List PolicyRule} {rule : PolicyRule}
    (h : (ecallAbacPolicyAdd env space uuid input store).outcome = .ok (store ++ [rule])) :
    ∃ tree : RuleTree, Spells tree.tokens (policyText input) ∧ (∀ t ∈ tree.tokens, t.Lexed) ∧
      (∀ atom ∈ tree.atoms, atom.Taken (some space)) ∧ rule = tree.parsed uuid := by
  unfold ecallAbacPolicyAdd at h
  split at h
  · obtain ⟨rule', hparse, h⟩ := Parse.bind_eq_ok.mp h
    split at h
    · obtain heq := append_cancel_left (pure_eq_ok.mp h)
      obtain rfl := singleton_inj.mp heq
      obtain ⟨tree, hspells, hlexed, htaken, hrule⟩ := parseAbacPolicy_eq_ok.mp hparse
      refine ⟨tree, hspells, hlexed, fun atom hatom => ?_, hrule⟩
      have hatomTaken := htaken atom hatom
      split at hatomTaken
      · exact hatomTaken
      · exact hatomTaken.of_none
    · cases h
  · cases h

/-- Every rule that is accepted refers only to system functions and attributes that exist
if and only if what the checks leave open does not matter for the policy. -/
theorem policyAdd_refers_iff (calls : List SpaceCall) (input : List Char) :
    (∀ env uuid store rule,
      (ecallAbacPolicyAdd env (.build calls) uuid input store).outcome = .ok (store ++ [rule]) →
        ∀ atom ∈ rule.atoms, atom.Refers (.build calls)) ↔
    CoveredPolicy (.build calls) input := by
  have hspace := distinctNames_build calls
  constructor
  · intro hrefers tree hspells hlexed htaken atom hatom
    rw [atom.parsed.covered_iff hspace (htaken atom hatom).2]
    have hparse : (parseAbacPolicy (some (.build calls)) 0 input).outcome = .ok (tree.parsed 0) :=
      parseAbacPolicy_eq_ok.mpr ⟨tree, hspells, hlexed, htaken, rfl⟩
    refine hrefers ⟨true, true, true⟩ 0 [] (tree.parsed 0) ?_ _ (mem_map_of_mem hatom)
    exact Parse.bind_eq_ok.mpr ⟨_, hparse, rfl⟩
  · intro hcovered env uuid store rule hadd atom hatom
    obtain ⟨tree, hspells, hlexed, htaken, rfl⟩ := ecallAbacPolicyAdd_eq_ok hadd
    obtain ⟨atomTree, hmem, rfl⟩ := mem_map.mp hatom
    rw [← PolicyAtom.covered_iff hspace (htaken atomTree hmem).2]
    exact hcovered tree hspells hlexed htaken atomTree hmem

/-- Without any attribute, a policy about one is accepted. -/
theorem unknown_attribute_accepted :
    (ecallAbacPolicyAdd ⟨true, true, true⟩ [] 0 "read:-a(u)".toList []).outcome =
        .ok [⟨.read, 0, [.normal "a" .user none]⟩] ∧
      ¬ (PolicyAtom.normal "a" .user none).Refers [] := by
  refine ⟨by decide, ?_⟩
  rintro ⟨hname, -⟩
  simp [NameRefers] at hname

end Nexus.Abac
