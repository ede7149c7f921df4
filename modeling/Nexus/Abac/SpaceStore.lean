import Nexus.Abac.AttributeSpace
import Nexus.Lib.Keyed
import Nexus.Lib.Runs

/-!
# The attribute space in memory and in the store

`attribute_space.c` keeps the schemas in a list, in a hash map by uuid, and counts them.  A
name lives in a field of 32 bytes that it may fill completely; every use of the field and of
a name that is looked up stops at 32 bytes, so all of them see the same name.

* `findAttributeSchemaByName` and `findAttributeSchemaByUuid` search the two indexes.
* `Consistent` says that the indexes agree, that names and uuids are not used twice, and
  that the space that is loaded after a store has the same schemas.
* `attributeSpace_consistent` is the result for every run of additions and deletions.
* `SpaceTable.Shows` is what the names are as texts: a run of the table is one of the space
  that policies refer to.

An addition allocates a schema.  `nexus_malloc` aborts the enclave if the heap is full, and
`config.xml` bounds the heap, so the 32-bit count of the stored header does not overflow.
-/

namespace Nexus.Abac

open Codec List

/-- `HeapMaxSize` of `config.xml`. -/
def heapMaxSize : Nat := 0x4000000

/-- `sizeof(struct attribute_schema)`, with the four bytes behind its uuid. -/
def attributeSchemaSize : Nat := 16 + 16 + 4 + attributeNameMax + 16 + 4

/-- What `strnlen(name, ATTRIBUTE_NAME_MAX)` and `memcmp` look at of a name. -/
def fieldName (name : Bytes) : Bytes := (cstring name).take attributeNameMax

/-- `strncpy(field, name, ATTRIBUTE_NAME_MAX)`. -/
def strncpyName (name : Bytes) : Bytes := padTo attributeNameMax (fieldName name)

/-- `struct attribute_schema`; `name` is the whole field. -/
structure SchemaRecord where
  uuid : Uuid
  name : Bytes
  type : BitVec 32
  deriving DecidableEq, Repr

/-- `struct attribute_space`, with the schemas in its list and in its hash map. -/
structure SpaceTable where
  myUuid : Uuid
  rootUuid : Uuid
  count : Nat
  list : List SchemaRecord
  map : List SchemaRecord
  deriving DecidableEq, Repr

namespace SpaceTable

/-- `attribute_space_create`. -/
def attributeSpaceCreate (rootUuid uuid : Uuid) : SpaceTable := ⟨uuid, rootUuid, 0, [], []⟩

/-- `__find_attribute_schema_by_name`. -/
def findAttributeSchemaByName (t : SpaceTable) (name : Bytes) : Option SchemaRecord :=
  t.list.find? fun s => fieldName s.name = fieldName name

/-- `__find_attribute_schema_by_uuid`. -/
def findAttributeSchemaByUuid (t : SpaceTable) (uuid : Uuid) : Option SchemaRecord :=
  t.map.find? fun s => s.uuid = uuid

/-- `__put_attribute`: `hashmap_add` puts the schema in front of its bucket. -/
def putAttribute (t : SpaceTable) (name : Bytes) (uuid : Uuid) (type : BitVec 32) : SpaceTable :=
  let schema : SchemaRecord := ⟨uuid, strncpyName name, type⟩
  { t with map := schema :: t.map, list := t.list ++ [schema], count := t.count + 1 }

/-- `__del_attribute`. -/
def delAttribute (t : SpaceTable) (schema : SchemaRecord) : SpaceTable :=
  { t with map := t.map.erase schema, list := t.list.erase schema, count := t.count - 1 }

/-- `perm_type_from_string` finds a permission. -/
def isPermission (name : Bytes) : Bool :=
  permMap.any fun perm => perm.toString.toList.map Char.toUInt8 = fieldName name

/-- `attribute_space_add`, with the uuid that is drawn and the answer of `calloc`, which
fails at the latest when the schemas fill the heap.  The result is `none` if `nexus_malloc`
aborts. -/
def attributeSpaceAdd (t : SpaceTable) (name : Bytes) (type : BitVec 32) (uuid : Uuid)
    (calloc : Bool) : Option (SpaceTable × Bool) :=
  if (t.findAttributeSchemaByName name).isSome then some (t, false)
  else if !((cstring name).head?.any fun b => (Char.ofNat b.toNat).isAlpha) then some (t, false)
  else if isPermission name then some (t, false)
  else if calloc && decide ((t.list.length + 1) * attributeSchemaSize ≤ heapMaxSize) then
    some (t.putAttribute name uuid type, true)
  else none

/-- `attribute_space_del`. -/
def attributeSpaceDel (t : SpaceTable) (name : Bytes) : SpaceTable × Bool :=
  match t.findAttributeSchemaByName name with
  | none => (t, false)
  | some schema => (t.delAttribute schema, true)

/-! ## Serialisation -/

/-- One `struct __attr_space_entry`. -/
def serializeSchema (s : SchemaRecord) : Bytes :=
  le 4 s.type.toNat ++ s.name ++ le 16 s.uuid.toNat

/-- `attribute_space_serialize`. -/
def attributeSpaceSerialize (t : SpaceTable) : Bytes :=
  le 16 t.myUuid.toNat ++ le 16 t.rootUuid.toNat ++ le 4 t.count ++
    t.list.flatMap serializeSchema

def parseSchema : Codec.Parser SchemaRecord := fun bs => do
  let (type, bs) ← nat 4 bs
  let (name, bs) ← bytes attributeNameMax bs
  let (uuid, bs) ← nat 16 bs
  some (⟨BitVec.ofNat 128 uuid, name, BitVec.ofNat 32 type⟩, bs)

/-- `attribute_space_from_buffer`; a buffer that is too short is read beyond its end, which
is `none` here. -/
def attributeSpaceFromBuffer : Codec.Parser SpaceTable := fun bs => do
  let (myUuid, bs) ← nat 16 bs
  let (rootUuid, bs) ← nat 16 bs
  let (count, bs) ← nat 4 bs
  let (entries, bs) ← many parseSchema count bs
  some (entries.foldl (fun t e => t.putAttribute e.name e.uuid e.type)
    (attributeSpaceCreate (BitVec.ofNat 128 rootUuid) (BitVec.ofNat 128 myUuid)), bs)

/-! ## The property -/

/-- The indexes and the count describe the same schemas, no name and no uuid is used twice,
and the space can be stored and loaded. -/
structure Consistent (t : SpaceTable) : Prop where
  count : t.count = t.list.length
  indexes : t.map.Perm t.list
  names : (t.list.map fun s => fieldName s.name).Nodup
  uuids : (t.list.map SchemaRecord.uuid).Nodup
  find : ∀ name uuid schema,
    t.findAttributeSchemaByName name = some schema ∧
        t.findAttributeSchemaByUuid uuid = some schema ↔
      schema ∈ t.list ∧ fieldName schema.name = fieldName name ∧ schema.uuid = uuid
  stored : ∃ t', attributeSpaceFromBuffer (attributeSpaceSerialize t) = some (t', []) ∧
    t'.list = t.list ∧ t'.myUuid = t.myUuid ∧ t'.rootUuid = t.rootUuid

end SpaceTable

/-- The calls that change a space. -/
inductive SpaceEvent where
  | add (name : Bytes) (type : BitVec 32) (uuid : Uuid) (calloc : Bool)
  | del (name : Bytes)

/-- One call; the space is `none` once the enclave was aborted. -/
def spaceStep : Option SpaceTable → SpaceEvent → Option SpaceTable
  | none, _ => none
  | some t, .add name type uuid calloc => (t.attributeSpaceAdd name type uuid calloc).map Prod.fst
  | some t, .del name => some (t.attributeSpaceDel name).1

/-- The uuid that is drawn is not the one of a schema in the space. -/
def SpaceEvent.Fresh (s : Option SpaceTable) : SpaceEvent → Prop
  | .add _ _ uuid _ => ∀ t, s = some t → uuid ∉ t.list.map SchemaRecord.uuid
  | .del _ => True

/-! ## Names in fields -/

theorem length_fieldName_le (name : Bytes) : (fieldName name).length ≤ attributeNameMax := by
  unfold fieldName
  rw [length_take]
  exact Nat.min_le_left ..

theorem length_strncpyName (name : Bytes) : (strncpyName name).length = attributeNameMax :=
  length_padTo (length_fieldName_le name)

theorem zero_notMem_fieldName (name : Bytes) : (0 : UInt8) ∉ fieldName name :=
  fun h => zero_notMem_cstring name (mem_of_mem_take h)

theorem fieldName_strncpyName (name : Bytes) : fieldName (strncpyName name) = fieldName name := by
  have hcstring : cstring (strncpyName name) = fieldName name :=
    cstring_padTo (zero_notMem_fieldName name) attributeNameMax
  rw [show fieldName (strncpyName name) = (cstring (strncpyName name)).take attributeNameMax from rfl,
    hcstring, take_of_length_le (length_fieldName_le name)]

theorem strncpyName_strncpyName (name : Bytes) :
    strncpyName (strncpyName name) = strncpyName name := by
  rw [show strncpyName (strncpyName name) = padTo attributeNameMax (fieldName (strncpyName name))
    from rfl, fieldName_strncpyName]
  rfl

namespace SpaceTable

variable {t : SpaceTable}

/-! ## The invariant -/

structure Sound (t : SpaceTable) : Prop where
  count : t.count = t.list.length
  indexes : t.map.Perm t.list
  names : (t.list.map fun s => fieldName s.name).Nodup
  uuids : (t.list.map SchemaRecord.uuid).Nodup
  fields : ∀ s ∈ t.list, strncpyName s.name = s.name
  heap : t.list.length * attributeSchemaSize ≤ heapMaxSize

theorem sound_create (rootUuid uuid : Uuid) : (attributeSpaceCreate rootUuid uuid).Sound :=
  ⟨rfl, .refl _, nodup_nil, nodup_nil, fun _ h => absurd h not_mem_nil,
    Nat.zero_le _⟩

theorem findByName_eq_get (t : SpaceTable) (name : Bytes) : t.findAttributeSchemaByName name =
    Keyed.get (fun s : SchemaRecord => fieldName s.name) t.list (fieldName name) := rfl

theorem findByUuid_eq_get (t : SpaceTable) (uuid : Uuid) :
    t.findAttributeSchemaByUuid uuid = Keyed.get SchemaRecord.uuid t.map uuid := rfl

theorem Sound.find (h : t.Sound) (name : Bytes) (uuid : Uuid) (schema : SchemaRecord) :
    t.findAttributeSchemaByName name = some schema ∧
        t.findAttributeSchemaByUuid uuid = some schema ↔
      schema ∈ t.list ∧ fieldName schema.name = fieldName name ∧ schema.uuid = uuid := by
  rw [findByName_eq_get, findByUuid_eq_get, Keyed.get_perm h.uuids h.indexes,
    Keyed.get_eq_some_iff h.names, Keyed.get_eq_some_iff h.uuids]
  constructor
  · intro hfound
    exact ⟨hfound.1.1, hfound.1.2, hfound.2.2⟩
  · intro hschema
    exact ⟨⟨hschema.1, hschema.2.1⟩, hschema.1, hschema.2.2⟩

theorem parseSchema_append {s : SchemaRecord} (hname : s.name.length = attributeNameMax)
    (rest : Bytes) : parseSchema (serializeSchema s ++ rest) = some (s, rest) := by
  simp [parseSchema, serializeSchema, bytes_append_of_length hname]

/-- Loading puts the entries one after the other behind those that are there. -/
theorem foldl_putAttribute (entries : List SchemaRecord)
    (hfields : ∀ e ∈ entries, strncpyName e.name = e.name) (t : SpaceTable) :
    (entries.foldl (fun t e => t.putAttribute e.name e.uuid e.type) t).list = t.list ++ entries ∧
      (entries.foldl (fun t e => t.putAttribute e.name e.uuid e.type) t).myUuid = t.myUuid ∧
      (entries.foldl (fun t e => t.putAttribute e.name e.uuid e.type) t).rootUuid = t.rootUuid := by
  induction entries generalizing t with
  | nil => exact ⟨(append_nil _).symm, rfl, rfl⟩
  | cons e entries ih =>
    obtain ⟨hlist, hmy, hroot⟩ := ih (fun x hx => hfields x (mem_cons_of_mem e hx))
      (t.putAttribute e.name e.uuid e.type)
    refine ⟨?_, hmy, hroot⟩
    rw [foldl_cons, hlist]
    have he := hfields e mem_cons_self
    show t.list ++ [⟨e.uuid, strncpyName e.name, e.type⟩] ++ entries = t.list ++ e :: entries
    rw [he, append_assoc]
    rfl

theorem Sound.stored (h : t.Sound) :
    ∃ t', attributeSpaceFromBuffer (attributeSpaceSerialize t) = some (t', []) ∧
      t'.list = t.list ∧ t'.myUuid = t.myUuid ∧ t'.rootUuid = t.rootUuid := by
  have hcount : t.count < 256 ^ 4 := by
    have hheap := h.heap
    rw [← h.count] at hheap
    unfold attributeSchemaSize attributeNameMax heapMaxSize at hheap
    omega
  have hmany : many parseSchema t.count (t.list.flatMap serializeSchema) = some (t.list, []) := by
    refine many_all h.count fun s hs rest => parseSchema_append ?_ rest
    rw [← h.fields s hs]
    exact length_strncpyName s.name
  obtain ⟨hlist, hmy, hroot⟩ := foldl_putAttribute t.list h.fields
    (attributeSpaceCreate t.rootUuid t.myUuid)
  refine ⟨_, ?_, hlist, hmy, hroot⟩
  simp [attributeSpaceFromBuffer, attributeSpaceSerialize, nat_append_of_lt hcount, hmany]

theorem Sound.consistent (h : t.Sound) : t.Consistent :=
  ⟨h.count, h.indexes, h.names, h.uuids, h.find, h.stored⟩

/-! ## Steps -/

theorem Sound.putAttribute (h : t.Sound) {name : Bytes} {uuid : Uuid} (type : BitVec 32)
    (hname : t.findAttributeSchemaByName name = none)
    (huuid : uuid ∉ t.list.map SchemaRecord.uuid)
    (hheap : (t.list.length + 1) * attributeSchemaSize ≤ heapMaxSize) :
    (t.putAttribute name uuid type).Sound := by
  rw [findByName_eq_get, Keyed.get_eq_none_iff] at hname
  have hlist : (t.putAttribute name uuid type).list = t.list ++ [⟨uuid, strncpyName name, type⟩] :=
    rfl
  constructor
  case count =>
    show t.count + 1 = _
    rw [hlist, length_append, length_singleton, h.count]
  case indexes => exact (h.indexes.cons _).trans (perm_append_singleton _ _).symm
  case names =>
    rw [hlist, map_append, map_singleton, nodup_append_comm]
    refine nodup_cons.mpr ⟨?_, h.names⟩
    dsimp only
    rw [fieldName_strncpyName]
    exact hname
  case uuids =>
    rw [hlist, map_append, map_singleton, nodup_append_comm]
    exact nodup_cons.mpr ⟨huuid, h.uuids⟩
  case fields =>
    intro s hs
    obtain hs | hs := mem_append.mp hs
    · exact h.fields s hs
    · obtain rfl := mem_singleton.mp hs
      exact strncpyName_strncpyName name
  case heap =>
    rw [hlist, length_append, length_singleton]
    exact hheap

theorem Sound.delAttribute (h : t.Sound) {schema : SchemaRecord} (hmem : schema ∈ t.list) :
    (t.delAttribute schema).Sound := by
  have hlength : (t.list.erase schema).length = t.list.length - 1 := length_erase_of_mem hmem
  have hsub : (t.list.erase schema).Sublist t.list := erase_sublist
  constructor
  case count =>
    show t.count - 1 = (t.list.erase schema).length
    rw [hlength, h.count]
  case indexes => exact h.indexes.erase schema
  case names => exact h.names.sublist (hsub.map _)
  case uuids => exact h.uuids.sublist (hsub.map _)
  case fields => exact fun s hs => h.fields s (hsub.subset hs)
  case heap =>
    have hle : (t.list.erase schema).length ≤ t.list.length := hsub.length_le
    exact (Nat.mul_le_mul_right _ hle).trans h.heap

theorem Sound.add (h : t.Sound) {name : Bytes} {type : BitVec 32} {uuid : Uuid} {calloc : Bool}
    (huuid : uuid ∉ t.list.map SchemaRecord.uuid) {result : SpaceTable × Bool}
    (hadd : t.attributeSpaceAdd name type uuid calloc = some result) : result.1.Sound := by
  unfold attributeSpaceAdd at hadd
  split at hadd
  · cases hadd
    exact h
  next hname =>
  split at hadd
  · cases hadd
    exact h
  split at hadd
  · cases hadd
    exact h
  split at hadd
  next hheap =>
    cases hadd
    rw [Bool.and_eq_true] at hheap
    exact h.putAttribute type (Option.not_isSome_iff_eq_none.mp hname) huuid
      (of_decide_eq_true hheap.2)
  · cases hadd

theorem Sound.del (h : t.Sound) (name : Bytes) : (t.attributeSpaceDel name).1.Sound := by
  unfold attributeSpaceDel
  split
  · exact h
  next schema hfind => exact h.delAttribute (Keyed.mem_of_get hfind).1

end SpaceTable

/-! ## The names as texts -/

/-- `attribute_type_t`. -/
def AttributeType.code : AttributeType → BitVec 32
  | .user => 1
  | .object => 2

/-- The schema is the one of the space, up to what follows its field in memory. -/
structure SchemaRecord.Shows (s : SchemaRecord) (schema : AttributeSchema) : Prop where
  uuid : schema.uuid = s.uuid
  name : nameChars schema.name = nameChars (text (fieldName s.name))
  type : s.type = schema.type.code

/-- The table has the schemas of the space. -/
def SpaceTable.Shows (t : SpaceTable) (space : AttributeSpace) : Prop :=
  Forall₂ SchemaRecord.Shows t.list space

theorem toUInt8_ofNat (b : UInt8) : (Char.ofNat b.toNat).toUInt8 = b := by
  have hvalid : b.toNat.isValidChar := .inl (b.toNat_lt.trans (by decide))
  rw [Char.ofNat, dif_pos hvalid]
  exact UInt8.ofNat_toNat

theorem ofNat_injective : Function.Injective fun b : UInt8 => Char.ofNat b.toNat :=
  Function.LeftInverse.injective toUInt8_ofNat

theorem nameChars_text (name : Bytes) : nameChars (text (fieldName name)) =
    (fieldName name).map fun b => Char.ofNat b.toNat := by
  rw [nameChars, text, String.toList_ofList, take_of_length_le]
  rw [length_map]
  exact length_fieldName_le name

theorem nameChars_text_inj {a b : Bytes} :
    nameChars (text (fieldName a)) = nameChars (text (fieldName b)) ↔ fieldName a = fieldName b := by
  rw [nameChars_text, nameChars_text]
  exact (map_injective_iff.mpr ofNat_injective).eq_iff

theorem isPermission_eq (name : Bytes) :
    SpaceTable.isPermission name = (permTypeFromString (text (fieldName name))).isSome := by
  have hname : ∀ perm : Perm, perm.toString.toList.map Char.toUInt8 = fieldName name ↔
      nameChars perm.toString = nameChars (text (fieldName name)) := by
    intro perm
    have hbytes : (perm.toString.toList.map Char.toUInt8).map (fun b => Char.ofNat b.toNat) =
        nameChars perm.toString := by cases perm <;> decide
    rw [nameChars_text, ← hbytes]
    exact (map_injective_iff.mpr ofNat_injective).eq_iff.symm
  rw [Bool.eq_iff_iff, SpaceTable.isPermission, permTypeFromString, any_eq_true, find?_isSome]
  simp only [hname]

namespace SpaceTable

variable {t : SpaceTable} {space : AttributeSpace}

theorem Shows.find (h : t.Shows space) (name : Bytes) :
    (t.findAttributeSchemaByName name).isSome =
      (attributeSpaceFindName space (text (fieldName name))).isSome := by
  unfold findAttributeSchemaByName attributeSpaceFindName
  unfold Shows at h
  generalize t.list = list at h
  induction h with
  | nil => rfl
  | cons hs _ ih =>
    rw [find?_cons, find?_cons, hs.name]
    simp only [nameChars_text_inj]
    split
    · rfl
    · exact ih

theorem Shows.putAttribute (h : t.Shows space) (name : Bytes) (type : AttributeType) (uuid : Uuid)
    (beyond : String) : (t.putAttribute name uuid type.code).Shows
      (space ++ [⟨uuid, storedName (text (fieldName name)) beyond, type⟩]) := by
  refine rel_append h (.cons ⟨rfl, ?_, rfl⟩ .nil)
  rw [nameChars_storedName, fieldName_strncpyName]

theorem Shows.add (h : t.Shows space) (name : Bytes) (type : AttributeType) (uuid : Uuid)
    (calloc : Bool) (beyond : String) {result : SpaceTable × Bool}
    (hadd : t.attributeSpaceAdd name type.code uuid calloc = some result) :
    result.1.Shows (space.step (.add (text (fieldName name)) type uuid beyond)) := by
  have halpha : ((cstring name).head?.any fun b => (Char.ofNat b.toNat).isAlpha) =
      (text (fieldName name)).toList.head?.any Char.isAlpha := by
    unfold text fieldName
    cases cstring name <;> simp [attributeNameMax]
  rw [attributeSpaceAdd, h.find, halpha, isPermission_eq] at hadd
  unfold AttributeSpace.step Abac.attributeSpaceAdd
  dsimp only
  split at hadd
  · next hfound =>
    cases hadd
    rwa [if_pos hfound]
  next hfound =>
  split at hadd
  · next hletter =>
    cases hadd
    rwa [if_neg hfound, if_pos hletter]
  next hletter =>
  split at hadd
  · next hperm =>
    cases hadd
    rwa [if_neg hfound, if_neg hletter, if_pos hperm]
  next hperm =>
  split at hadd
  · cases hadd
    rw [if_neg hfound, if_neg hletter, if_neg hperm]
    exact h.putAttribute name type uuid beyond
  · cases hadd

theorem erase_findAttributeSchemaByName {name : Bytes} {schema : SchemaRecord}
    (hfind : t.findAttributeSchemaByName name = some schema) :
    t.list.erase schema = t.list.eraseP fun s => fieldName s.name = fieldName name := by
  unfold findAttributeSchemaByName at hfind
  generalize t.list = list at hfind
  induction list with
  | nil => rfl
  | cons s list ih =>
    rw [find?_cons] at hfind
    split at hfind
    · next hname =>
      cases hfind
      rw [erase_cons_head, eraseP_cons, hname]
      rfl
    · next hname =>
      have hne : s ≠ schema := by
        rintro rfl
        rw [find?_some hfind] at hname
        cases hname
      rw [erase_cons_tail (by simpa using hne), eraseP_cons, hname, ih hfind]
      rfl

theorem Shows.del (h : t.Shows space) (name : Bytes) :
    (t.attributeSpaceDel name).1.Shows (space.step (.del (text (fieldName name)))) := by
  have herase : Forall₂ SchemaRecord.Shows
      (t.list.eraseP fun s => fieldName s.name = fieldName name)
      (space.eraseP fun schema => nameChars schema.name = nameChars (text (fieldName name))) := by
    unfold Shows at h
    generalize t.list = list at h
    induction h with
    | nil => exact .nil
    | cons hs hrest ih =>
      rw [eraseP_cons, eraseP_cons, hs.name]
      simp only [nameChars_text_inj]
      cases decide (fieldName _ = fieldName name) with
      | true => exact hrest
      | false => exact .cons hs ih
  have hfind := h.find name
  unfold attributeSpaceDel AttributeSpace.step Abac.attributeSpaceDel
  cases hschema : t.findAttributeSchemaByName name with
  | none =>
    rw [hschema, Option.isSome_none, eq_comm, Option.isSome_eq_false_iff,
      Option.isNone_iff_eq_none] at hfind
    simp only [hfind, Option.map_none, Option.getD_none]
    exact h
  | some schema =>
    rw [hschema, Option.isSome_some, eq_comm] at hfind
    obtain ⟨found, hfound⟩ := Option.isSome_iff_exists.mp hfind
    simp only [hfound, Option.map_some, Option.getD_some]
    unfold Shows delAttribute
    rw [erase_findAttributeSchemaByName hschema]
    exact herase

end SpaceTable

/-- The attribute that is added is one of users or of objects. -/
def SpaceEvent.Typed : SpaceEvent → Prop
  | .add _ type _ _ => ∃ attributeType : AttributeType, type = attributeType.code
  | .del _ => True

/-- Every table of a run has the schemas of a space that was built by calls. -/
theorem exists_build_shows (rootUuid uuid : Uuid) {events : List SpaceEvent}
    (htyped : ∀ e ∈ events, e.Typed) :
    Runs.Always spaceStep (fun s => ∀ t, s = some t → ∃ calls, t.Shows (.build calls))
      (some (SpaceTable.attributeSpaceCreate rootUuid uuid)) events := by
  refine Runs.always_of_meets (C := fun _ e => e.Typed) ?_ ?_ (Runs.meets_of_forall fun _ => htyped)
  · intro s e h he t ht
    cases s with
    | none => cases ht
    | some t₀ =>
      obtain ⟨calls, hshows⟩ := h t₀ rfl
      cases e with
      | add name type uuid calloc =>
        obtain ⟨result, hadd, rfl⟩ := Option.map_eq_some_iff.mp ht
        obtain ⟨attributeType, rfl⟩ := he
        refine ⟨calls ++ [.add (text (fieldName name)) attributeType uuid ""], ?_⟩
        rw [AttributeSpace.build, foldl_append]
        exact hshows.add name attributeType uuid calloc "" hadd
      | del name =>
        cases ht
        refine ⟨calls ++ [.del (text (fieldName name))], ?_⟩
        rw [AttributeSpace.build, foldl_append]
        exact hshows.del name
  · rintro t ⟨⟩
    exact ⟨[], .nil⟩

/-- In every run of additions and deletions the attribute space is consistent. -/
theorem attributeSpace_consistent (rootUuid uuid : Uuid) {events : List SpaceEvent}
    (hfresh : Runs.Meets spaceStep (fun s e => e.Fresh s)
      (some (SpaceTable.attributeSpaceCreate rootUuid uuid)) events) :
    Runs.Always spaceStep (fun s => ∀ t, s = some t → t.Consistent)
      (some (SpaceTable.attributeSpaceCreate rootUuid uuid)) events := by
  refine Runs.Always.mono (P := fun s => ∀ t, s = some t → t.Sound)
    (fun s h t ht => (h t ht).consistent) (Runs.always_of_meets ?_ ?_ hfresh)
  · intro s e h hf t ht
    cases s with
    | none => cases ht
    | some t₀ =>
      cases e with
      | add name type uuid calloc =>
        obtain ⟨result, hadd, rfl⟩ := Option.map_eq_some_iff.mp ht
        exact (h t₀ rfl).add (hf t₀ rfl) hadd
      | del name =>
        cases ht
        exact (h t₀ rfl).del name
  · intro t ht
    cases ht
    exact SpaceTable.sound_create rootUuid uuid

/-- Two names that agree up to 32 bytes: the second one is refused. -/
theorem longNames_consistent :
    let a : Bytes := List.replicate 32 97
    let events : List SpaceEvent :=
      [.add (a ++ [98]) 1 7 true, .add (a ++ [99]) 1 8 true, .add [98] 2 8 true, .del [98]]
    Runs.Always spaceStep (fun s => ∀ t, s = some t → t.Consistent)
      (some (SpaceTable.attributeSpaceCreate 1 2)) events := by
  refine attributeSpace_consistent 1 2 ⟨?_, ?_, ?_, trivial, trivial⟩
  · intro t ht
    cases ht
    decide
  · intro t ht
    cases ht
    decide
  · intro t ht
    cases ht
    decide

end Nexus.Abac
