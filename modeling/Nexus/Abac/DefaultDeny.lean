import Nexus.Abac.AttributeSpace
import Nexus.Abac.Semantics

/-!
# Without a rule there is no permission

The bouncer asserts three kinds of facts about a user or an object: its type, the values
of the system functions, and the attributes that were granted to it.  The names of the
attributes are chosen by whoever manages the attribute space.  No choice gives a fact
that the engine could take for a permission, for a type, for a comparison or for a system
function, so a permission is only derived from a rule of the policy store.
-/

namespace Nexus.Abac

open Datalog List

/-- The fact is one of `__insert_attribute_table`, for a space that was built by calls. -/
def AttributeFact (c : Clause) : Prop :=
  ∃ calls entity attributes, c ∈ attributeTableFacts entity (AttributeSpace.build calls) attributes

/-- The fact is one of `__insert_system_functions`, for a user or an object. -/
def SystemFact (c : Clause) : Prop :=
  ∃ entity, (∃ name, c ∈ systemFunctionFacts entity (userSystemFunctions name)) ∨
    ∃ obj, c ∈ systemFunctionFacts entity (objSystemFunctions obj)

/-- The fact is one of `db_assert_kb_entity_type`. -/
def TypeFact (c : Clause) : Prop := ∃ entity, c = entityTypeFact entity

/-- The names of the table `system_functions`. -/
def systemFunctionNames : List String :=
  ["@uname", "@upkey", "@opath", "@oname", "@osize", "@otype", "@odirname"]

/-- The names that mean something to a policy: permissions, types and comparisons. -/
def Reserved (name : String) : Prop :=
  (∃ perm : Perm, name = perm.toString) ∨ name = "_isUser" ∨ name = "_isObject" ∨
    name ∈ primitiveNames

/-- The first character of a reserved name that is not a permission is no letter. -/
theorem not_reserved_of_attributeName {name : String} (h : AttributeName name) :
    ¬ Reserved name := by
  rintro (⟨perm, rfl⟩ | rfl | rfl | hprim)
  · exact h.2 perm rfl
  · exact absurd h.1 (by decide)
  · exact absurd h.1 (by decide)
  · simp only [primitiveNames, mem_cons, not_mem_nil, or_false] at hprim
    obtain rfl | rfl | rfl | rfl | rfl | rfl := hprim <;> exact absurd h.1 (by decide)

theorem AttributeFact.attributeName {c : Clause} (h : AttributeFact c) :
    AttributeName c.head.pred := by
  obtain ⟨calls, entity, attributes, hc⟩ := h
  obtain ⟨entry, -, hentry⟩ := mem_filterMap.mp hc
  obtain ⟨schema, hschema, rfl⟩ := Option.map_eq_some_iff.mp hentry
  exact attributeName_build calls schema (mem_of_find?_eq_some hschema)

theorem pred_mem_of_systemFunctionFacts {entity : KbEntity}
    {functions : List (String × Option String)} {c : Clause}
    (h : c ∈ systemFunctionFacts entity functions) : c.head.pred ∈ functions.map Prod.fst := by
  obtain ⟨f, hf, hvalue⟩ := mem_filterMap.mp h
  obtain ⟨value, -, rfl⟩ := Option.map_eq_some_iff.mp hvalue
  exact mem_map_of_mem hf

theorem SystemFact.pred_mem {c : Clause} (h : SystemFact c) :
    c.head.pred ∈ systemFunctionNames := by
  obtain ⟨entity, ⟨name, hc⟩ | ⟨obj, hc⟩⟩ := h
  · have hmem := pred_mem_of_systemFunctionFacts hc
    simp only [userSystemFunctions, map_cons, map_nil, mem_cons,
      not_mem_nil, or_false] at hmem
    obtain h | h := hmem <;> rw [h] <;> decide
  · have hmem := pred_mem_of_systemFunctionFacts hc
    simp only [objSystemFunctions, map_cons, map_nil, mem_cons,
      not_mem_nil, or_false] at hmem
    obtain h | h | h | h | h := hmem <;> rw [h] <;> decide

theorem not_reserved_of_mem {name : String} (h : name ∈ systemFunctionNames) :
    ¬ Reserved name := by
  have hall : ∀ name ∈ systemFunctionNames,
      (∀ perm ∈ permMap, name ≠ perm.toString) ∧ name ≠ "_isUser" ∧ name ≠ "_isObject" ∧
        name ∉ primitiveNames := by decide
  obtain ⟨hperm, huser, hobject, hprim⟩ := hall name h
  rintro (⟨perm, rfl⟩ | hname | hname | hname)
  · exact hperm perm (by cases perm <;> decide) rfl
  · exact huser hname
  · exact hobject hname
  · exact hprim hname

theorem TypeFact.pred_ne {c : Clause} (h : TypeFact c) (perm : Perm) :
    c.head.pred ≠ perm.toString := by
  obtain ⟨entity, rfl⟩ := h
  have hname : (entityTypeFact entity).head.pred = "_isUser" ∨
      (entityTypeFact entity).head.pred = "_isObject" := by
    unfold entityTypeFact
    cases entity.type
    · exact .inl rfl
    · exact .inr rfl
  obtain h | h := hname <;> rw [h] <;> cases perm <;> decide

theorem pred_policyRuleToDb {rule : PolicyRule} {c : Clause} (h : policyRuleToDb rule = some c) :
    c.head.pred = rule.perm.toString := by
  simp only [policyRuleToDb, Option.bind_eq_bind, Option.bind_eq_some_iff, Option.some.injEq] at h
  obtain ⟨body, -, rfl⟩ := h
  rfl

theorem permToString_injective : Function.Injective Perm.toString := by
  intro p q h
  have hp := permTypeFromString_toString p
  rw [h, permTypeFromString_toString] at hp
  exact (Option.some.inj hp).symm

/-- No fact has a reserved name and no attribute is called like a system function, so what
is asserted for the policies of a store without a rule for the permission does not give the
permission to anybody. -/
theorem default_deny :
    (∀ c, AttributeFact c ∨ SystemFact c → ¬ Reserved c.head.pred) ∧
      (∀ c, AttributeFact c → c.head.pred ∉ systemFunctionNames) ∧
      ∀ (prims : Primitives) (rules : List PolicyRule) (kb : Set Clause),
        (∀ c ∈ kb, AttributeFact c ∨ SystemFact c ∨ TypeFact c ∨
          ∃ rule ∈ rules, policyRuleToDb rule = some c) →
        ∀ perm : Perm, (∀ rule ∈ rules, rule.perm ≠ perm) → ∀ user object : Uuid,
          ¬ Derives (program prims kb)
            ⟨perm.toString, [nexusUuidToHex user, nexusUuidToHex object]⟩ := by
  have hfacts : ∀ c, AttributeFact c ∨ SystemFact c → ¬ Reserved c.head.pred := by
    rintro c (hattribute | hsystem)
    · exact not_reserved_of_attributeName hattribute.attributeName
    · exact not_reserved_of_mem hsystem.pred_mem
  refine ⟨hfacts, fun c hattribute hmem => ?_, fun prims rules kb hkb perm hno user object => ?_⟩
  · have hletter : ∀ name ∈ systemFunctionNames, ¬ name.toList.head?.any Char.isAlpha = true := by
      decide
    exact hletter _ hmem hattribute.attributeName.1
  · -- no clause is about the permission
    refine not_derives_of_unfounded (S := {a | a.pred = perm.toString}) ?_ rfl
    rintro r (⟨-, c, hc, σ, rfl⟩ | ⟨name, x, y, hname, -, rfl⟩) hhead
    · obtain hattribute | hsystem | htype | ⟨rule, hrule, hclause⟩ := hkb c hc
      · exact absurd (.inl ⟨perm, hhead⟩) (hfacts c (.inl hattribute))
      · exact absurd (.inl ⟨perm, hhead⟩) (hfacts c (.inr hsystem))
      · exact absurd hhead (htype.pred_ne perm)
      · have hperm := (pred_policyRuleToDb hclause).symm.trans hhead
        exact absurd (permToString_injective hperm) (hno rule hrule)
    · have hprims : ∀ name ∈ primitiveNames, ∀ perm ∈ permMap, name ≠ perm.toString := by decide
      exact absurd hhead (hprims name hname perm (by cases perm <;> decide))

/-- The attribute `readers` was granted to a user, and the only policy is about writing. -/
theorem readers_not_permission :
    ¬ Derives (program (fun _ _ _ => True)
        {dbFact 1 "readers" "all", ⟨⟨"write", [.var "U", .var "O"]⟩,
          [⟨"_isUser", [.var "U"]⟩, ⟨"_isObject", [.var "O"]⟩]⟩})
      ⟨Perm.read.toString, [nexusUuidToHex 1, nexusUuidToHex 2]⟩ := by
  refine default_deny.2.2 _ [⟨.write, 0, []⟩] _ ?_ .read (by simp) 1 2
  rintro c (rfl | rfl)
  · exact .inl ⟨[.add "readers" .user 7 ""], kbEntityNew 1 .user, [(7, "all")], by decide⟩
  · exact .inr (.inr (.inr ⟨_, mem_singleton_self _, rfl⟩))

end Nexus.Abac
