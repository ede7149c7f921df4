import Mathlib.Data.List.Infix
import Mathlib.Data.List.MinMax
import Nexus.Abac.Policy

/-!
# The knowledge base

In `datalog.lua` a predicate, a name with an arity, is an object that holds its clauses and
lives for as long as something refers to it.  The table `db` holds the predicates that were
asserted and not removed.  The prover does not look at it: it follows the predicates of the
query and of the clauses.

Eviction and clearing walk over `db`, and tell a rule from a fact by the text of a clause: a
rule has two slashes.  Each predicate is written with a slash before its arity, so a fact whose
value has a slash counts as a rule.

An entity is named inside the engine by the 32 hex digits of its uuid.
-/

namespace Nexus.Abac

/-! ## Entity names -/

/-- `%02x`. -/
def hexByte (b : Nat) : List Char := [Nat.digitChar (b / 16), Nat.digitChar (b % 16)]

/-- `nexus_uuid_to_hex`, as characters. -/
def uuidHex (u : Uuid) : List Char := (uuidBytes u).flatMap hexByte

/-- `nexus_uuid_to_hex`. -/
def nexusUuidToHex (u : Uuid) : String := String.ofList (uuidHex u)

private theorem digitChar_inj {m n : Nat} (hm : m < 16) (hn : n < 16)
    (h : Nat.digitChar m = Nat.digitChar n) : m = n := by
  have key : ∀ a b : Fin 16, Nat.digitChar a = Nat.digitChar b → a = b := by decide
  exact congrArg Fin.val (key ⟨m, hm⟩ ⟨n, hn⟩ h)

private theorem hexByte_inj {a b : Nat} (ha : a < 256) (hb : b < 256)
    (h : hexByte a = hexByte b) : a = b := by
  simp only [hexByte, List.cons.injEq, and_true] at h
  have hhi := digitChar_inj (by omega) (by omega) h.1
  have hlo := digitChar_inj (by omega) (by omega) h.2
  omega

private theorem flatMap_hexByte_inj : ∀ {xs ys : List Nat},
    (∀ x ∈ xs, x < 256) → (∀ y ∈ ys, y < 256) →
    xs.flatMap hexByte = ys.flatMap hexByte → xs = ys
  | [], [], _, _, _ => rfl
  | [], y :: ys, _, _, h => by simp [hexByte] at h
  | x :: xs, [], _, _, h => by simp [hexByte] at h
  | x :: xs, y :: ys, hx, hy, h => by
    have h' : hexByte x ++ xs.flatMap hexByte = hexByte y ++ ys.flatMap hexByte := h
    obtain ⟨hhd, htl⟩ := List.append_inj h' rfl
    rw [hexByte_inj (hx x (by simp)) (hy y (by simp)) hhd,
      flatMap_hexByte_inj (fun a ha => hx a (by simp [ha]))
        (fun a ha => hy a (by simp [ha])) htl]

theorem uuidHex_injective : Function.Injective uuidHex := by
  intro u v h
  have hbytes : uuidBytes u = uuidBytes v :=
    flatMap_hexByte_inj (fun _ => Digits.lt_of_mem_fixed (by decide))
      (fun _ => Digits.lt_of_mem_fixed (by decide)) h
  exact BitVec.eq_of_toNat_eq (Digits.fixed_inj (toNat_lt_bytes u) (toNat_lt_bytes v) hbytes)

theorem nexusUuidToHex_injective : Function.Injective nexusUuidToHex :=
  fun _ _ h => uuidHex_injective (String.ofList_injective h)

/-! ## Facts about an entity -/

/-- The fact `predicate(entity, value)` of `db_assert_fact`; an empty value is
left out of the literal. -/
def dbFact (entity : Uuid) (predicate : String) (value : String) : Clause :=
  { head := dbMakeLiteral predicate [.const (nexusUuidToHex entity)]
      (dbPushTerm .const value)
    body := [] }

/-! ## Clause ids -/

/-- `add_size`. -/
def addSize (str : List Char) : List Char := Nat.toDigits 10 str.length ++ ':' :: str

/-- `get_id` of a term. -/
def Term.getId : Term → List Char
  | .const id => 'c' :: id.toList
  | .var id => 'v' :: id.toList

/-- `mk_pred_id`, for the predicate of a literal. -/
def Literal.predId (l : Literal) : List Char :=
  l.pred.toList ++ '/' :: Nat.toDigits 10 l.terms.length

/-- `get_id`. -/
def Literal.getId (l : Literal) : List Char :=
  addSize l.predId ++ l.terms.flatMap fun t => addSize t.getId

/-- `get_clause_id`. -/
def Clause.getClauseId (c : Clause) : List Char :=
  addSize c.head.getId ++ c.body.flatMap fun l => addSize l.getId

/-- `is_rule`. -/
def isRuleId (clauseId : List Char) : Bool := decide (2 ≤ clauseId.count '/')

/-! ## The operations -/

/-- The clauses of the predicates in `db`, and those of predicates that were removed from it
and are still referred to. -/
structure Kb where
  db : List Clause
  removed : List Clause
  deriving DecidableEq, Repr

/-- The clauses are about one predicate. -/
def samePred (c d : Clause) : Bool := decide (c.head.predId = d.head.predId)

/-- `assert` of a safe clause; its predicate is in `db` from now on. -/
def Kb.assert (kb : Kb) (c : Clause) : Kb where
  db := List.insert c (kb.removed.filter (samePred c) ++ kb.db)
  removed := kb.removed.filter fun d => !samePred c d

/-- `evict_entity` retracts the clause. -/
def Clause.evictedBy (uuid : Uuid) (c : Clause) : Bool :=
  !isRuleId c.getClauseId && decide (uuidHex uuid <:+: c.getClauseId)

/-- `evict_entity`. -/
def Kb.evictEntity (kb : Kb) (uuid : Uuid) : Kb :=
  { kb with db := kb.db.filter fun c => !c.evictedBy uuid }

/-- The clause refers to the predicate of the other one. -/
def Clause.refersTo (c d : Clause) : Bool := c.body.any fun l => l.predId = d.head.predId

/-- `lua_gc`: the clauses of `loose` that `live` leads to, in `fuel` steps. -/
def reachable : Nat → List Clause → List Clause → List Clause
  | 0, _, _ => []
  | fuel + 1, live, loose =>
    let hit := loose.filter fun c => live.any fun d => d.refersTo c
    hit ++ reachable fuel hit (loose.filter fun c => !live.any fun d => d.refersTo c)

/-- `clear_rules` and `clear_facts`, with the `lua_gc` after them.  A predicate is removed
from `db` with all its clauses if its first clause, in the order of its table, is of the kind
that is cleared. -/
def Kb.clear (kb : Kb) (rules : Bool) (order : Clause → Nat) : Kb :=
  let gone c := ((kb.db.filter (samePred c)).argmin order).any fun first =>
    isRuleId first.getClauseId = rules
  let db := kb.db.filter fun c => !gone c
  let loose := kb.removed ++ kb.db.filter gone
  { db, removed := reachable loose.length db loose }

/-- `clear_rules`. -/
def Kb.clearRules (kb : Kb) (order : Clause → Nat) : Kb := kb.clear true order

/-- `clear_facts`. -/
def Kb.clearFacts (kb : Kb) (order : Clause → Nat) : Kb := kb.clear false order

end Nexus.Abac
