import Mathlib.Algebra.Order.BigOperators.Group.List
import Nexus.Abac.Recognition
import Nexus.Dirnode.AttributeTable

/-!
# The stored policies

The rules of a volume are kept in the policy store, in three nested formats of variable
length: a store is a header and its rules, a rule a header and its atoms, an atom a header
and its arguments.  Every writer is given what is left of the buffer and computes beforehand
how much it will write.  An atom adds up the size of its arguments as they are pushed, and
checks after it has written them, and after it has read them, that it ends where this sum
says.

The header of a rule has 16 bits for the number of its atoms, and nothing limits them: the
count is cut.  `policyStore_roundTrip_iff` says that a store is read as it was written exactly
if none of its rules has 65536 atoms or more.
-/

namespace Nexus.Abac

open Codec List

/-! ## Rules in memory -/

/-- `struct abac_value`, with the bytes of its value; `data_sz` is their number. -/
structure ValueRecord where
  type : BitVec 32
  data : Bytes
  deriving DecidableEq, Repr

/-- `struct policy_atom`. -/
structure AtomRecord where
  atomType : BitVec 32
  predType : BitVec 32
  predicate : Bytes
  arity : Nat
  argsBufsize : Nat
  args : List ValueRecord
  deriving DecidableEq, Repr

/-- `struct policy_rule`. -/
structure RuleRecord where
  permType : BitVec 32
  atomCount : Nat
  atomTypes : BitVec 32
  ruleUuid : Uuid
  atoms : List AtomRecord
  deriving DecidableEq, Repr

/-- The characters of the parser are the bytes of the text. -/
def byteOfChar (c : Char) : UInt8 := UInt8.ofNat c.toNat

/-- `_ABAC_VALUE_MAXLEN`. -/
def abacValueMaxlen : Nat := 1024

/-- `__abac_value_from_str`. -/
def abacValueFromStr (type : BitVec 32) (string : String) : ValueRecord :=
  ⟨type, (string.toList.take abacValueMaxlen).map byteOfChar ++ [0]⟩

/-- The value in memory: `ABAC_VALUE_STRING`, `ABAC_VALUE_IDENTIFIER` and
`ABAC_VALUE_NUMBER`. -/
def AbacValue.record : AbacValue → ValueRecord
  | .string s => abacValueFromStr 1 s
  | .identifier s => abacValueFromStr 2 s
  | .number i => ⟨3, le 4 (BitVec.ofInt 32 i).toNat⟩

/-- `sizeof(struct __abac_value_buf)`. -/
def abacValueHdrSize : Nat := 4 + 8

/-- `abac_value_bufsize`. -/
def ValueRecord.bufSize (v : ValueRecord) : Nat := abacValueHdrSize + v.data.length

/-- `SYSTEM_FUNC_MAX_LENGTH`. -/
def systemFuncMaxLength : Nat := attributeNameMax

/-- `policy_atom_set_predicate`: the kind of the predicate by its first character. -/
def predTypeOf (predicate : List Char) : BitVec 32 :=
  match predicate.head? with
  | some '>' | some '<' | some '=' | some '!' => 3
  | some '@' => 2
  | _ => 1

/-- `policy_atom_new_from_predicate`. -/
def policyAtomNewFromPredicate (predicate : List Char) : AtomRecord where
  atomType := 0
  predType := predTypeOf predicate
  predicate := padTo systemFuncMaxLength ((predicate.take systemFuncMaxLength).map byteOfChar)
  arity := 0
  argsBufsize := 0
  args := []

/-- `policy_atom_push_arg`. -/
def AtomRecord.pushArg (atom : AtomRecord) (value : ValueRecord) : AtomRecord :=
  { atom with
    arity := atom.arity + 1
    argsBufsize := atom.argsBufsize + value.bufSize
    args := atom.args ++ [value] }

/-- `ATOM_TYPE_USER` and `ATOM_TYPE_OBJECT`. -/
def AtomType.bits : AtomType → BitVec 32
  | .user => 1
  | .object => 2

/-- What an argument of a comparison adds to the type of its atom. -/
def AbacValue.entityBits : AbacValue → BitVec 32
  | .identifier s => ((s.toList.head?.bind atomTypeFromChar).map AtomType.bits).getD 0
  | _ => 0

/-- The atom that the parser builds. -/
def PolicyAtom.record : PolicyAtom → AtomRecord
  | .normal predicate type arg =>
    arg.toList.foldl (fun atom value => atom.pushArg value.record)
      { policyAtomNewFromPredicate predicate.toList with atomType := type.bits }
  | .bool operator left right =>
    [left, right].foldl
      (fun atom value =>
        { atom.pushArg value.record with atomType := atom.atomType ||| value.entityBits })
      (policyAtomNewFromPredicate operator.toList)

/-- `perm_type_t`. -/
def permBits : Perm → BitVec 32
  | .read => 1
  | .write => 2
  | .create => 3
  | .delete => 4
  | .audit => 5

/-- `policy_rule_push_atom`. -/
def RuleRecord.pushAtom (rule : RuleRecord) (atom : AtomRecord) : RuleRecord :=
  { rule with
    atomCount := rule.atomCount + 1
    atomTypes := rule.atomTypes ||| atom.atomType
    atoms := rule.atoms ++ [atom] }

/-- The rule that the parser builds, from `policy_rule_new`. -/
def PolicyRule.record (rule : PolicyRule) : RuleRecord :=
  (rule.atoms.map PolicyAtom.record).foldl RuleRecord.pushAtom
    ⟨permBits rule.perm, 0, 0, rule.uuid, []⟩

/-! ## The store -/

/-- `struct policy_store`. -/
structure PolicyStore where
  myUuid : Uuid
  rootUuid : Uuid
  rulesCount : BitVec 32
  attributeSpaceMacversion : MacAndVersion
  rulesList : List RuleRecord
  deriving DecidableEq, Repr

/-- `policy_store_create`. -/
def policyStoreCreate (rootUuid uuid : Uuid) : PolicyStore := ⟨uuid, rootUuid, 0, ⟨0, 0⟩, []⟩

namespace PolicyStore

/-- `__put_policy_rule`. -/
def putPolicyRule (s : PolicyStore) (rule : RuleRecord) : PolicyStore :=
  { s with rulesCount := s.rulesCount + 1, rulesList := s.rulesList ++ [rule] }

/-- `policy_store_add`. -/
def policyStoreAdd (s : PolicyStore) (rule : RuleRecord) : PolicyStore := s.putPolicyRule rule

/-- `policy_store_del`. -/
def policyStoreDel (s : PolicyStore) (uuid : Uuid) : PolicyStore :=
  if s.rulesList.any (fun rule => rule.ruleUuid = uuid) then
    { s with
      rulesCount := s.rulesCount - 1
      rulesList := s.rulesList.eraseP fun rule => rule.ruleUuid = uuid }
  else s

/-- `policy_store_del_first`. -/
def policyStoreDelFirst (s : PolicyStore) : PolicyStore :=
  if s.rulesCount = 0 then s
  else
    match s.rulesList with
    | [] => s
    | rule :: _ => s.policyStoreDel rule.ruleUuid

end PolicyStore

/-! ## Writing -/

/-- What `abac_value_to_buf` writes. -/
def ValueRecord.bytes (v : ValueRecord) : Bytes :=
  le 4 v.type.toNat ++ le 8 v.data.length ++ v.data

/-- `__atom_argument_to_buffer` and `abac_value_to_buf`. -/
def abacValueToBuf (v : ValueRecord) (buflen : Nat) : Option Bytes :=
  if buflen < v.bufSize then none else some v.bytes

/-- `sizeof(struct __policy_atom_buf)`. -/
def policyAtomHdrSize : Nat := 4 + 4 + systemFuncMaxLength + 2 + 2

/-- `policy_atom_buf_size`. -/
def AtomRecord.bufSize (atom : AtomRecord) : Nat := policyAtomHdrSize + atom.argsBufsize

def AtomRecord.header (atom : AtomRecord) : Bytes :=
  le 4 atom.atomType.toNat ++ le 4 atom.predType.toNat ++ atom.predicate ++ le 2 atom.arity ++
    le 2 atom.argsBufsize

/-- `policy_atom_to_buf`. -/
def policyAtomToBuf (atom : AtomRecord) (buflen : Nat) : Option Bytes :=
  if buflen < atom.bufSize then none
  else do
    let args ← putMany abacValueToBuf atom.args (buflen - policyAtomHdrSize)
    -- make sure that the output is at the end of the buffer
    if atom.header.length + args.length = atom.bufSize then some (atom.header ++ args) else none

/-- `sizeof(struct __policy_rule_hdr)`. -/
def policyRuleHdrSize : Nat := 4 + 2 + 16

/-- `policy_rule_buf_size`. -/
def RuleRecord.bufSize (rule : RuleRecord) : Nat :=
  policyRuleHdrSize + (rule.atoms.map AtomRecord.bufSize).sum

def RuleRecord.header (rule : RuleRecord) : Bytes :=
  le 4 rule.permType.toNat ++ le 2 rule.atomCount ++ le 16 rule.ruleUuid.toNat

/-- `policy_rule_to_buf`. -/
def policyRuleToBuf (rule : RuleRecord) (buflen : Nat) : Option Bytes :=
  if buflen < rule.bufSize then none
  else do
    let atoms ← putMany policyAtomToBuf rule.atoms (buflen - policyRuleHdrSize)
    some (rule.header ++ atoms)

/-- `sizeof(struct __policy_store_hdr)`. -/
def policyStoreHdrSize : Nat := 16 + 16 + 20 + 4

/-- `__policy_store_buf_size`. -/
def PolicyStore.bufSize (s : PolicyStore) : Nat :=
  policyStoreHdrSize + (s.rulesList.map RuleRecord.bufSize).sum

def PolicyStore.header (s : PolicyStore) : Bytes :=
  le 16 s.myUuid.toNat ++ le 16 s.rootUuid.toNat ++
    (le 4 s.attributeSpaceMacversion.version.toNat ++ le 16 s.attributeSpaceMacversion.mac.toNat) ++
    le 4 s.rulesCount.toNat

/-- `__policy_store_serialize`, into a buffer of the size that was computed. -/
def policyStoreSerialize (s : PolicyStore) : Option Bytes := do
  let rules ← putMany policyRuleToBuf s.rulesList (s.bufSize - policyStoreHdrSize)
  some (s.header ++ rules)

/-! ## Reading -/

/-- `abac_value_from_buf`. -/
def abacValueFromBuf : Codec.Parser ValueRecord := fun bs => do
  let (type, bs) ← nat 4 bs
  let (size, bs) ← nat 8 bs
  let (data, bs) ← bytes size bs
  some (⟨BitVec.ofNat 32 type, data⟩, bs)

/-- `policy_atom_from_buf`. -/
def policyAtomFromBuf : Codec.Parser AtomRecord := fun bs => do
  let (atomType, bs) ← nat 4 bs
  let (predType, bs) ← nat 4 bs
  let (predicate, bs) ← bytes systemFuncMaxLength bs
  let (arity, bs) ← nat 2 bs
  let (argsBufsize, bs) ← nat 2 bs
  if bs.length < argsBufsize then none
  else
    let (args, rest) ← many abacValueFromBuf arity bs
    -- the arguments end where the header says
    if bs.length = argsBufsize + rest.length then
      some (⟨BitVec.ofNat 32 atomType, BitVec.ofNat 32 predType, predicate, arity, argsBufsize,
        args⟩, rest)
    else none

/-- `policy_rule_from_buf`. -/
def policyRuleFromBuf : Codec.Parser RuleRecord := fun bs => do
  let (permType, bs) ← nat 4 bs
  let (atomCount, bs) ← nat 2 bs
  let (ruleUuid, bs) ← nat 16 bs
  let (atoms, bs) ← many policyAtomFromBuf atomCount bs
  let rule := atoms.foldl RuleRecord.pushAtom
    ⟨BitVec.ofNat 32 permType, 0, 0, BitVec.ofNat 128 ruleUuid, []⟩
  if rule.atomCount ≠ atomCount then none else some (rule, bs)

/-- `__policy_store_parse`. -/
def policyStoreParse (bs : Bytes) : Option PolicyStore := do
  let (myUuid, bs) ← nat 16 bs
  let (rootUuid, bs) ← nat 16 bs
  let (version, bs) ← nat 4 bs
  let (mac, bs) ← nat 16 bs
  let (rulesCount, bs) ← nat 4 bs
  let (rules, _) ← many policyRuleFromBuf rulesCount bs
  let store := policyStoreCreate (BitVec.ofNat 128 rootUuid) (BitVec.ofNat 128 myUuid)
  some (rules.foldl PolicyStore.putPolicyRule
    { store with
      attributeSpaceMacversion := ⟨BitVec.ofNat 32 version, BitVec.ofNat 128 mac⟩ })

/-! ## Values -/

theorem length_le_sum_map {α : Type} {f : α → Nat} {l : List α} (h : ∀ a ∈ l, 1 ≤ f a) :
    l.length ≤ (l.map f).sum := by
  have hsum := length_le_sum_of_one_le (l.map f) (forall_mem_map.mpr h)
  rwa [length_map] at hsum

theorem ValueRecord.length_bytes (v : ValueRecord) : v.bytes.length = v.bufSize := by
  simp only [ValueRecord.bytes, ValueRecord.bufSize, abacValueHdrSize, length_append,
    length_le]

theorem abacValueToBuf_of_fits {v : ValueRecord} {buflen : Nat} (h : v.bufSize ≤ buflen) :
    abacValueToBuf v buflen = some v.bytes := if_neg (Nat.not_lt.mpr h)

theorem abacValueFromBuf_append {v : ValueRecord} (h : v.data.length < 256 ^ 8) (rest : Bytes) :
    abacValueFromBuf (v.bytes ++ rest) = some (v, rest) := by
  simp [abacValueFromBuf, ValueRecord.bytes, nat_append_of_lt h]

theorem AbacValue.bufSize_record_le (value : AbacValue) :
    value.record.bufSize ≤ abacValueHdrSize + (abacValueMaxlen + 1) := by
  have hstring : ∀ type string, (abacValueFromStr type string).data.length ≤ abacValueMaxlen + 1 := by
    intro type string
    simp only [abacValueFromStr, length_append, length_map, length_take,
      length_singleton]
    omega
  refine Nat.add_le_add_left ?_ _
  cases value with
  | string s => exact hstring 1 s
  | identifier s => exact hstring 2 s
  | number i =>
    rw [AbacValue.record, length_le]
    decide

/-! ## Atoms -/

/-- The header of an atom says how many arguments follow and how long they are. -/
structure AtomRecord.WF (atom : AtomRecord) : Prop where
  predicate : atom.predicate.length = systemFuncMaxLength
  arity : atom.arity = atom.args.length
  argsBufsize : atom.argsBufsize = (atom.args.map ValueRecord.bufSize).sum
  short : atom.argsBufsize < 256 ^ 2

/-- What `policy_atom_to_buf` writes. -/
def AtomRecord.bytes (atom : AtomRecord) : Bytes :=
  atom.header ++ atom.args.flatMap ValueRecord.bytes

namespace AtomRecord.WF

variable {atom : AtomRecord}

theorem length_header (h : atom.WF) : atom.header.length = policyAtomHdrSize := by
  simp only [AtomRecord.header, policyAtomHdrSize, length_append, length_le, h.predicate]

theorem length_args (h : atom.WF) :
    (atom.args.flatMap ValueRecord.bytes).length = atom.argsBufsize := by
  rw [h.argsBufsize]
  exact length_flatMap_of_size fun v _ => v.length_bytes

theorem length_bytes (h : atom.WF) : atom.bytes.length = atom.bufSize := by
  rw [AtomRecord.bytes, length_append, h.length_header, h.length_args]
  rfl

theorem data_lt (h : atom.WF) {v : ValueRecord} (hv : v ∈ atom.args) :
    v.data.length < 256 ^ 8 := by
  have hle : v.bufSize ≤ atom.argsBufsize := by
    rw [h.argsBufsize]
    exact le_sum_of_mem (mem_map_of_mem hv)
  have hshort := h.short
  unfold ValueRecord.bufSize at hle
  omega

theorem arity_lt (h : atom.WF) : atom.arity < 256 ^ 2 := by
  have hle := length_le_sum_map (f := ValueRecord.bufSize) (l := atom.args) fun v _ => by
    unfold ValueRecord.bufSize abacValueHdrSize
    omega
  rw [h.arity]
  rw [← h.argsBufsize] at hle
  exact hle.trans_lt h.short

theorem toBuf (h : atom.WF) {buflen : Nat} (hfits : atom.bufSize ≤ buflen) :
    policyAtomToBuf atom buflen = some atom.bytes := by
  have hargs : putMany abacValueToBuf atom.args (buflen - policyAtomHdrSize) =
      some (atom.args.flatMap ValueRecord.bytes) := by
    refine putMany_of_fits (fun v _ left hleft => abacValueToBuf_of_fits hleft)
      (fun v _ => v.length_bytes) ?_
    rw [← h.argsBufsize]
    unfold AtomRecord.bufSize at hfits
    omega
  rw [policyAtomToBuf, if_neg (Nat.not_lt.mpr hfits), hargs]
  simp only [Option.bind_eq_bind, Option.bind_some, h.length_header, h.length_args]
  exact if_pos rfl

theorem fromBuf (h : atom.WF) (rest : Bytes) :
    policyAtomFromBuf (atom.bytes ++ rest) = some (atom, rest) := by
  have hargs := many_records h.arity
    (fun v hv rest => abacValueFromBuf_append (h.data_lt hv) rest) rest
  have hlength := h.length_args
  simp only [policyAtomFromBuf, AtomRecord.bytes, AtomRecord.header, append_assoc,
    nat_append_four, bytes_append_of_length h.predicate, nat_append_of_lt h.arity_lt,
    nat_append_of_lt h.short, Option.bind_eq_bind, Option.bind_some]
  rw [if_neg (by rw [length_append]; omega), hargs]
  simp only [Option.bind_some]
  rw [if_pos (by rw [length_append]; omega)]
  simp

end AtomRecord.WF

theorem AtomRecord.wf_new (predicate : List Char) : (policyAtomNewFromPredicate predicate).WF where
  predicate := by
    refine length_padTo ?_
    rw [length_map]
    exact length_take_le _ _
  arity := rfl
  argsBufsize := rfl
  short := Nat.zero_lt_succ _

/-- Pushing an argument keeps the header right as long as the arguments are short. -/
theorem AtomRecord.WF.pushArg {atom : AtomRecord} (h : atom.WF) {v : ValueRecord}
    (hshort : atom.argsBufsize + v.bufSize < 256 ^ 2) : (atom.pushArg v).WF where
  predicate := h.predicate
  arity := by simp [AtomRecord.pushArg, h.arity]
  argsBufsize := by simp [AtomRecord.pushArg, h.argsBufsize]
  short := hshort

theorem AtomRecord.WF.withType {atom : AtomRecord} (h : atom.WF) (type : BitVec 32) :
    { atom with atomType := type }.WF :=
  ⟨h.predicate, h.arity, h.argsBufsize, h.short⟩

theorem PolicyAtom.wf_record (atom : PolicyAtom) : atom.record.WF := by
  have hvalue := AbacValue.bufSize_record_le
  have hlimit : abacValueHdrSize + (abacValueMaxlen + 1) = 1037 := rfl
  cases atom with
  | normal predicate type arg =>
    have hnew := (AtomRecord.wf_new predicate.toList).withType type.bits
    cases arg with
    | none => exact hnew
    | some value =>
      refine hnew.pushArg ?_
      have hle := hvalue value
      show 0 + value.record.bufSize < 256 ^ 2
      omega
  | bool operator left right =>
    have hleft := hvalue left
    have hright := hvalue right
    have hfirst := ((AtomRecord.wf_new operator.toList).pushArg
      (show 0 + left.record.bufSize < 256 ^ 2 by omega)).withType (0 ||| left.entityBits)
    have hsecond := hfirst.pushArg
      (show 0 + left.record.bufSize + right.record.bufSize < 256 ^ 2 by omega)
    exact hsecond.withType _

/-! ## Rules -/

/-- The rule of the atoms that are pushed one after the other. -/
def ruleOf (permType : BitVec 32) (uuid : Uuid) (atoms : List AtomRecord) : RuleRecord :=
  atoms.foldl RuleRecord.pushAtom ⟨permType, 0, 0, uuid, []⟩

theorem foldl_pushAtom (rule : RuleRecord) (atoms : List AtomRecord) :
    atoms.foldl RuleRecord.pushAtom rule =
      { rule with
        atomCount := rule.atomCount + atoms.length
        atomTypes := (atoms.map (·.atomType)).foldl (· ||| ·) rule.atomTypes
        atoms := rule.atoms ++ atoms } := by
  induction atoms generalizing rule with
  | nil => simp
  | cons atom atoms ih =>
    rw [foldl_cons, ih]
    simp [RuleRecord.pushAtom, Nat.add_comm, Nat.add_left_comm]

section RuleOf

variable (permType : BitVec 32) (uuid : Uuid) (atoms : List AtomRecord)

@[simp] theorem permType_ruleOf : (ruleOf permType uuid atoms).permType = permType := by
  rw [ruleOf, foldl_pushAtom]

@[simp] theorem atomCount_ruleOf : (ruleOf permType uuid atoms).atomCount = atoms.length := by
  rw [ruleOf, foldl_pushAtom, Nat.zero_add]

@[simp] theorem ruleUuid_ruleOf : (ruleOf permType uuid atoms).ruleUuid = uuid := by
  rw [ruleOf, foldl_pushAtom]

@[simp] theorem atoms_ruleOf : (ruleOf permType uuid atoms).atoms = atoms := by
  rw [ruleOf, foldl_pushAtom, nil_append]

end RuleOf

/-- The rule was built by pushing its atoms. -/
structure RuleRecord.WF (rule : RuleRecord) : Prop where
  built : ruleOf rule.permType rule.ruleUuid rule.atoms = rule
  atoms : ∀ atom ∈ rule.atoms, atom.WF

theorem RuleRecord.WF.atomCount {rule : RuleRecord} (h : rule.WF) :
    rule.atomCount = rule.atoms.length := by
  have hcount := atomCount_ruleOf rule.permType rule.ruleUuid rule.atoms
  rwa [h.built] at hcount

theorem PolicyRule.wf_record (rule : PolicyRule) : rule.record.WF := by
  have hrecord : rule.record =
      ruleOf (permBits rule.perm) rule.uuid (rule.atoms.map PolicyAtom.record) := rfl
  rw [hrecord]
  refine ⟨by simp, ?_⟩
  rw [atoms_ruleOf]
  intro atom hatom
  obtain ⟨parsed, -, rfl⟩ := mem_map.mp hatom
  exact parsed.wf_record

/-- What `policy_rule_to_buf` writes. -/
def RuleRecord.bytes (rule : RuleRecord) : Bytes :=
  rule.header ++ rule.atoms.flatMap AtomRecord.bytes

namespace RuleRecord.WF

variable {rule : RuleRecord}

theorem length_bytes (h : rule.WF) : rule.bytes.length = rule.bufSize := by
  have hatoms : (rule.atoms.flatMap AtomRecord.bytes).length =
      (rule.atoms.map AtomRecord.bufSize).sum :=
    length_flatMap_of_size fun atom hatom => (h.atoms atom hatom).length_bytes
  simp only [RuleRecord.bytes, RuleRecord.header, RuleRecord.bufSize, policyRuleHdrSize,
    length_append, length_le, hatoms]

theorem toBuf (h : rule.WF) {buflen : Nat} (hfits : rule.bufSize ≤ buflen) :
    policyRuleToBuf rule buflen = some rule.bytes := by
  have hatoms : putMany policyAtomToBuf rule.atoms (buflen - policyRuleHdrSize) =
      some (rule.atoms.flatMap AtomRecord.bytes) := by
    refine putMany_of_fits (fun atom hatom left hleft => (h.atoms atom hatom).toBuf hleft)
      (fun atom hatom => (h.atoms atom hatom).length_bytes) ?_
    unfold RuleRecord.bufSize at hfits
    omega
  rw [policyRuleToBuf, if_neg (Nat.not_lt.mpr hfits), hatoms]
  rfl

theorem fromBuf (h : rule.WF) (hcount : rule.atoms.length < 256 ^ 2) (rest : Bytes) :
    policyRuleFromBuf (rule.bytes ++ rest) = some (rule, rest) := by
  have hatoms := many_records h.atomCount
    (fun atom hatom rest => (h.atoms atom hatom).fromBuf rest) rest
  simp only [policyRuleFromBuf, RuleRecord.bytes, RuleRecord.header, append_assoc,
    nat_append_four, nat_append_of_lt (h.atomCount ▸ hcount), nat_append_sixteen, hatoms,
    Option.bind_eq_bind, Option.bind_some, BitVec.ofNat_toNat, BitVec.setWidth_eq]
  have hbuilt := h.built
  unfold ruleOf at hbuilt
  rw [hbuilt]
  exact if_neg (fun hne => hne rfl)

end RuleRecord.WF

theorem length_atoms_of_fromBuf {bs rest : Bytes} {rule : RuleRecord}
    (h : policyRuleFromBuf bs = some (rule, rest)) : rule.atoms.length < 256 ^ 2 := by
  simp only [policyRuleFromBuf, Option.bind_eq_bind, Option.bind_eq_some_iff, Prod.exists] at h
  obtain ⟨permType, bs₁, -, count, bs₂, hcount, uuid, bs₃, -, atoms, bs₄, hatoms, hrule⟩ := h
  have hlength : atoms.length = count :=
    (many_eq_some (P := fun _ => True) (fun _ _ _ _ => trivial) hatoms).1
  split at hrule
  · cases hrule
  · cases hrule
    rw [foldl_pushAtom, nil_append, hlength]
    exact lt_of_nat hcount

/-! ## Stores -/

/-- The calls on a policy store.  A policy is given by its text, and parsed with the
attribute space and the uuid that is drawn for the rule. -/
inductive PolicyCall where
  | add (text : Bytes) (space : Option AttributeSpace) (uuid : Uuid)
  | del (uuid : Uuid)
  | delFirst

namespace PolicyStore

/-- One call; a policy that is not accepted is not added. -/
def step (s : PolicyStore) : PolicyCall → PolicyStore
  | .add text space uuid =>
    match (parseAbacPolicy space uuid (text.map fun b => Char.ofNat b.toNat)).outcome with
    | .ok rule => s.policyStoreAdd rule.record
    | _ => s
  | .del uuid => s.policyStoreDel uuid
  | .delFirst => s.policyStoreDelFirst

/-- The count is right, and the store is written into the buffer that was computed for it and
read as it was. -/
def RoundTrips (s : PolicyStore) : Prop :=
  s.rulesCount.toNat = s.rulesList.length ∧
    ∃ buffer, policyStoreSerialize s = some buffer ∧ buffer.length = s.bufSize ∧
      policyStoreParse buffer = some s

/-- The count is the number of rules, as far as it fits, and the rules were built by the
parser. -/
structure Sound (s : PolicyStore) : Prop where
  count : s.rulesCount = BitVec.ofNat 32 s.rulesList.length
  rules : ∀ rule ∈ s.rulesList, rule.WF

theorem sound_create (rootUuid uuid : Uuid) : (policyStoreCreate rootUuid uuid).Sound :=
  ⟨rfl, fun _ h => absurd h not_mem_nil⟩

variable {s : PolicyStore}

theorem Sound.putPolicyRule (h : s.Sound) {rule : RuleRecord} (hrule : rule.WF) :
    (s.putPolicyRule rule).Sound where
  count := by
    simp only [PolicyStore.putPolicyRule, length_append, length_singleton, h.count,
      BitVec.ofNat_add]
    rfl
  rules := by
    intro other hother
    obtain hold | hnew := mem_append.mp hother
    · exact h.rules other hold
    · rwa [mem_singleton.mp hnew]

theorem Sound.policyStoreDel (h : s.Sound) (uuid : Uuid) : (s.policyStoreDel uuid).Sound := by
  unfold PolicyStore.policyStoreDel
  split
  next hany =>
    obtain ⟨rule, hrule, huuid⟩ := any_eq_true.mp hany
    have hlength : (s.rulesList.eraseP fun rule => rule.ruleUuid = uuid).length =
        s.rulesList.length - 1 := length_eraseP_of_mem hrule huuid
    have hpos : 0 < s.rulesList.length := length_pos_of_mem hrule
    refine ⟨?_, fun other hother => h.rules other (mem_of_mem_eraseP hother)⟩
    show s.rulesCount - 1 = BitVec.ofNat 32 (s.rulesList.eraseP _).length
    rw [hlength, h.count]
    obtain ⟨n, hn⟩ := Nat.exists_eq_succ_of_ne_zero hpos.ne'
    rw [hn, Nat.succ_sub_one, Nat.succ_eq_add_one, BitVec.ofNat_add]
    exact BitVec.add_sub_cancel _ _
  next => exact h

theorem Sound.step (h : s.Sound) (call : PolicyCall) : (s.step call).Sound := by
  cases call with
  | add text space uuid =>
    unfold PolicyStore.step
    dsimp only
    split
    next rule _ => exact h.putPolicyRule rule.wf_record
    next => exact h
  | del uuid => exact h.policyStoreDel uuid
  | delFirst =>
    unfold PolicyStore.step PolicyStore.policyStoreDelFirst
    dsimp only
    split
    · exact h
    · split
      · exact h
      · exact h.policyStoreDel _

theorem Sound.run (h : s.Sound) (calls : List PolicyCall) :
    (calls.foldl PolicyStore.step s).Sound := by
  induction calls generalizing s with
  | nil => exact h
  | cons call calls ih => exact ih (h.step call)

/-! ## The round trip -/

/-- What `__policy_store_serialize` writes. -/
def bytes (s : PolicyStore) : Bytes := s.header ++ s.rulesList.flatMap RuleRecord.bytes

theorem Sound.length_bytes (h : s.Sound) : s.bytes.length = s.bufSize := by
  have hrules : (s.rulesList.flatMap RuleRecord.bytes).length =
      (s.rulesList.map RuleRecord.bufSize).sum :=
    length_flatMap_of_size fun rule hrule => (h.rules rule hrule).length_bytes
  simp only [bytes, header, bufSize, policyStoreHdrSize, length_append, length_le, hrules]

theorem Sound.serialize (h : s.Sound) : policyStoreSerialize s = some s.bytes := by
  have hrules : putMany policyRuleToBuf s.rulesList (s.bufSize - policyStoreHdrSize) =
      some (s.rulesList.flatMap RuleRecord.bytes) := by
    refine putMany_of_fits (fun rule hrule left hleft => (h.rules rule hrule).toBuf hleft)
      (fun rule hrule => (h.rules rule hrule).length_bytes) ?_
    unfold bufSize
    omega
  rw [policyStoreSerialize, hrules]
  rfl

theorem Sound.toNat_rulesCount (h : s.Sound) (hsize : s.bufSize < 2 ^ 31) :
    s.rulesCount.toNat = s.rulesList.length := by
  have hle := length_le_sum_map (f := RuleRecord.bufSize) (l := s.rulesList) fun rule _ => by
    unfold RuleRecord.bufSize policyRuleHdrSize
    omega
  unfold bufSize at hsize
  rw [h.count, BitVec.toNat_ofNat]
  exact Nat.mod_eq_of_lt (by omega)

theorem foldl_putPolicyRule (s : PolicyStore) (rules : List RuleRecord) :
    rules.foldl PolicyStore.putPolicyRule s =
      { s with
        rulesCount := s.rulesCount + BitVec.ofNat 32 rules.length
        rulesList := s.rulesList ++ rules } := by
  induction rules generalizing s with
  | nil => simp
  | cons rule rules ih =>
    rw [foldl_cons, ih]
    simp only [PolicyStore.putPolicyRule, append_assoc, singleton_append,
      length_cons, BitVec.ofNat_add, BitVec.add_assoc]
    rw [BitVec.add_comm (1 : BitVec 32)]
    rfl

theorem parse_bytes (s : PolicyStore) : policyStoreParse s.bytes =
    (many policyRuleFromBuf s.rulesCount.toNat (s.rulesList.flatMap RuleRecord.bytes)).map fun r =>
      { s with rulesCount := BitVec.ofNat 32 r.1.length, rulesList := r.1 } := by
  simp only [policyStoreParse, bytes, header, append_assoc, nat_append_sixteen,
    nat_append_four, Option.bind_eq_bind, Option.bind_some, foldl_putPolicyRule, policyStoreCreate,
    BitVec.ofNat_toNat, BitVec.setWidth_eq, nil_append, zero_add]
  cases many policyRuleFromBuf s.rulesCount.toNat (s.rulesList.flatMap RuleRecord.bytes) <;> rfl

theorem Sound.survives_iff (h : s.Sound) (hsize : s.bufSize < 2 ^ 31) :
    s.RoundTrips ↔ ∀ rule ∈ s.rulesList, rule.atoms.length < 2 ^ 16 := by
  have hcount := h.toNat_rulesCount hsize
  constructor
  · rintro ⟨-, buffer, hwritten, -, hread⟩
    cases h.serialize.symm.trans hwritten
    rw [parse_bytes] at hread
    obtain ⟨⟨rules, rest⟩, hmany, hsame⟩ := Option.map_eq_some_iff.mp hread
    have hall := (many_eq_some (P := fun rule => rule.atoms.length < 256 ^ 2)
      (fun _ _ _ hrule => length_atoms_of_fromBuf hrule) hmany).2
    have hrules : rules = s.rulesList := congrArg rulesList hsame
    rwa [hrules] at hall
  · intro hshort
    refine ⟨hcount, s.bytes, h.serialize, h.length_bytes, ?_⟩
    have hmany : many policyRuleFromBuf s.rulesCount.toNat
        (s.rulesList.flatMap RuleRecord.bytes) = some (s.rulesList, []) :=
      many_all hcount fun rule hrule rest => (h.rules rule hrule).fromBuf (hshort rule hrule) rest
    rw [parse_bytes, hmany, Option.map_some, ← h.count]

/-- A store of less than 2 GiB, however it came about, is read as it was written exactly if
none of its rules has more atoms than the header of a rule can count. -/
theorem policyStore_roundTrip_iff (rootUuid uuid : Uuid) (calls : List PolicyCall)
    (hsize : (calls.foldl step (policyStoreCreate rootUuid uuid)).bufSize < 2 ^ 31) :
    (calls.foldl step (policyStoreCreate rootUuid uuid)).RoundTrips ↔
      ∀ rule ∈ (calls.foldl step (policyStoreCreate rootUuid uuid)).rulesList,
        rule.atoms.length < 2 ^ 16 :=
  ((sound_create rootUuid uuid).run calls).survives_iff hsize

end PolicyStore

/-! ## A rule that is too long -/

/-- The policy `read:-a(u),a(u),...` with `n + 1` atoms. -/
def repeatedPolicy (n : Nat) : RuleTree :=
  ⟨.read, .regular ['a'] .user none, List.replicate n (.regular ['a'] .user none)⟩

def repeatedText (n : Nat) : Bytes :=
  ((repeatedPolicy n).tokens.flatMap Token.text).map byteOfChar

theorem spells_flatMap_text (tokens : List Token) : Spells tokens (tokens.flatMap Token.text) := by
  induction tokens with
  | nil => exact .nil
  | cons t tokens ih => exact .token t ih

theorem eq_of_mem_repeatedPolicy {n : Nat} {atom : AtomTree}
    (h : atom ∈ (repeatedPolicy n).first :: (repeatedPolicy n).others) :
    atom = .regular ['a'] .user none := by
  obtain rfl | h := mem_cons.mp h
  · rfl
  · exact eq_of_mem_replicate h

theorem mem_tokens_repeatedPolicy {n : Nat} {t : Token} (h : t ∈ (repeatedPolicy n).tokens) :
    t ∈ [.identifier ['r', 'e', 'a', 'd'], .colonequals, .comma, .identifier ['a'], .lparen,
      .identifier ['u'], Token.rparen] := by
  obtain rfl | h := mem_cons.mp h
  · have hread : Perm.read.toString.toList = ['r', 'e', 'a', 'd'] := by decide
    show Token.identifier Perm.read.toString.toList ∈ _
    rw [hread]
    exact mem_cons_self
  obtain rfl | h := mem_cons.mp h
  · simp
  obtain rfl | ⟨atom, hmem, ht⟩ := mem_atomsTokens h
  · simp
  · rw [eq_of_mem_repeatedPolicy hmem] at ht
    simp only [AtomTree.tokens, AtomType.text, mem_cons, not_mem_nil, or_false] at ht
    obtain rfl | rfl | rfl | rfl := ht <;> simp

theorem parse_repeatedText (n : Nat) (uuid : Uuid) :
    (parseAbacPolicy none uuid ((repeatedText n).map fun b => Char.ofNat b.toNat)).outcome =
      .ok ((repeatedPolicy n).parsed uuid) := by
  -- the characters are ASCII and none of them is NUL
  have hchars : ∀ c ∈ (repeatedPolicy n).tokens.flatMap Token.text,
      Char.ofNat (byteOfChar c).toNat = c ∧ c ≠ '\x00' := by
    intro c hc
    obtain ⟨t, ht, hct⟩ := mem_flatMap.mp hc
    have hall : ∀ t ∈ [.identifier ['r', 'e', 'a', 'd'], .colonequals, .comma, .identifier ['a'],
        .lparen, .identifier ['u'], Token.rparen], t.text.all fun c =>
          Char.ofNat (byteOfChar c).toNat = c ∧ c ≠ '\x00' := by decide
    exact of_decide_eq_true (all_eq_true.mp (hall t (mem_tokens_repeatedPolicy ht)) c hct)
  have htext : (repeatedText n).map (fun b => Char.ofNat b.toNat) =
      (repeatedPolicy n).tokens.flatMap Token.text := by
    rw [repeatedText, map_map]
    conv_rhs => rw [← map_id ((repeatedPolicy n).tokens.flatMap Token.text)]
    exact map_congr_left fun c hc => (hchars c hc).1
  rw [htext]
  refine parseAbacPolicy_eq_ok.mpr ⟨repeatedPolicy n, ?_, ?_, ?_, rfl⟩
  · have hpolicy : policyText ((repeatedPolicy n).tokens.flatMap Token.text) =
        (repeatedPolicy n).tokens.flatMap Token.text := by
      refine takeWhile_eq_self_iff.mpr fun c hc => ?_
      simpa using (hchars c hc).2
    rw [hpolicy]
    exact spells_flatMap_text _
  · intro t ht
    have hmem := mem_tokens_repeatedPolicy ht
    simp only [mem_cons, not_mem_nil, or_false] at hmem
    refine Token.WellFormed.lexed ?_ ?_
    · obtain rfl | rfl | rfl | rfl | rfl | rfl | rfl := hmem <;>
        first | exact isIdentifier_of_mem (by decide) | trivial
    · obtain rfl | rfl | rfl | rfl | rfl | rfl | rfl := hmem <;> exact nofun
  · intro atom hatom
    rw [eq_of_mem_repeatedPolicy hatom]
    exact ⟨trivial, by decide⟩

namespace PolicyStore

theorem step_repeatedText (n : Nat) :
    (policyStoreCreate 0 0).step (.add (repeatedText n) none 7) =
      (policyStoreCreate 0 0).policyStoreAdd ((repeatedPolicy n).parsed 7).record := by
  simp only [step, parse_repeatedText]

theorem atoms_repeatedPolicy (n : Nat) (uuid : Uuid) :
    ((repeatedPolicy n).parsed uuid).record.atoms =
      List.replicate (n + 1) (AtomTree.regular ['a'] .user none).parsed.record := by
  have hatoms : ((repeatedPolicy n).parsed uuid).record.atoms =
      ((repeatedPolicy n).parsed uuid).atoms.map PolicyAtom.record := atoms_ruleOf _ _ _
  rw [hatoms]
  simp [RuleTree.parsed, RuleTree.atoms, repeatedPolicy, replicate_succ]

theorem bufSize_repeatedText (n : Nat) :
    ((policyStoreCreate 0 0).step (.add (repeatedText n) none 7)).bufSize = 78 + 44 * (n + 1) := by
  have hatom : (AtomTree.regular ['a'] .user none).parsed.record.bufSize = 44 := by decide
  have hsum : (((repeatedPolicy n).parsed 7).record.atoms.map AtomRecord.bufSize).sum =
      44 * (n + 1) := by
    rw [atoms_repeatedPolicy, map_replicate, hatom, sum_replicate_nat, Nat.mul_comm]
  rw [step_repeatedText]
  simp only [bufSize, policyStoreAdd, putPolicyRule, policyStoreCreate, nil_append,
    map_singleton, sum_singleton, RuleRecord.bufSize, hsum, policyStoreHdrSize,
    policyRuleHdrSize]
  omega

/-- A rule with 1000 atoms is read as it was written. -/
theorem thousand_atoms_kept :
    ((policyStoreCreate 0 0).step (.add (repeatedText 999) none 7)).bufSize < 2 ^ 31 ∧
      ((policyStoreCreate 0 0).step (.add (repeatedText 999) none 7)).RoundTrips := by
  have hsize : ((policyStoreCreate 0 0).step (.add (repeatedText 999) none 7)).bufSize < 2 ^ 31 := by
    rw [bufSize_repeatedText]
    decide
  have hround := policyStore_roundTrip_iff 0 0 [.add (repeatedText 999) none 7]
  rw [foldl_cons, foldl_nil] at hround
  refine ⟨hsize, (hround hsize).mpr ?_⟩
  intro rule hrule
  rw [step_repeatedText] at hrule
  have hsame : rule = ((repeatedPolicy 999).parsed 7).record := mem_singleton.mp hrule
  rw [hsame, atoms_repeatedPolicy, length_replicate]
  decide

/-- A rule with 65536 atoms, in a store of less than 3 MB, is not. -/
theorem atoms_lost_by_count :
    ((policyStoreCreate 0 0).step (.add (repeatedText 65535) none 7)).bufSize < 2 ^ 31 ∧
      ¬ ((policyStoreCreate 0 0).step (.add (repeatedText 65535) none 7)).RoundTrips := by
  have hsize : ((policyStoreCreate 0 0).step (.add (repeatedText 65535) none 7)).bufSize <
      2 ^ 31 := by
    rw [bufSize_repeatedText]
    decide
  refine ⟨hsize, fun hround => ?_⟩
  have hshort := (((sound_create 0 0).step _).survives_iff hsize).mp hround
  rw [step_repeatedText] at hshort
  have hrule := hshort _ mem_cons_self
  rw [atoms_repeatedPolicy, length_replicate] at hrule
  exact absurd hrule (by decide)

end PolicyStore

end Nexus.Abac
