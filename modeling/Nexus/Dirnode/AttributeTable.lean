import Nexus.Lib.Keyed
import Nexus.Basic
import Nexus.Lib.Codec

/-!
# Attribute tables

`attribute_table.c`: the attributes of a dirnode, filenode or user profile, as a
hash map from attribute uuids to values.  A value lives in a 64-byte buffer with
its length kept beside it.  The hash map is a list here, in the order its
iterator visits the entries.

The table is written inside the object it belongs to: a header, then one
fixed-size record for each entry, of which only `attr_val_len` bytes of the
value are copied into the zeroed output buffer.
-/

namespace Nexus

open Codec List

/-- `ATTRIBUTE_VALUE_SIZE`. -/
def attributeValueSize : Nat := 64

/-- `struct mac_and_version`. -/
structure MacAndVersion where
  version : BitVec 32
  mac : Mac
  deriving DecidableEq, Repr

/-- `struct attribute_entry`; `attrVal` is the whole 64-byte buffer. -/
structure AttributeEntry where
  attrUuid : Uuid
  attrValLen : Nat
  attrVal : Bytes
  deriving DecidableEq, Repr

/-- `struct attribute_table`. -/
structure AttributeTable where
  count : Nat
  generation : BitVec 64
  auditLogUuid : Uuid
  attributeSpaceMacversion : MacAndVersion
  attributeMap : List AttributeEntry
  deriving DecidableEq, Repr

/-! ## Operations -/

/-- `attribute_table_create`. -/
def attributeTableCreate : AttributeTable where
  count := 0
  generation := 0
  auditLogUuid := 0
  attributeSpaceMacversion := ⟨0, 0⟩
  attributeMap := []

/-- `__get_attr_entry`. -/
def getAttrEntry (t : AttributeTable) (uuid : Uuid) : Option AttributeEntry :=
  t.attributeMap.find? fun e => e.attrUuid = uuid

/-- `attribute_table_find`. -/
def attributeTableFind (t : AttributeTable) (uuid : Uuid) : Option Bytes :=
  (getAttrEntry t uuid).map fun e => cstring e.attrVal

/-- `__put_attr_entry` with a value of at most 64 bytes. -/
def putAttrEntry (t : AttributeTable) (uuid : Uuid) (value : Bytes) : AttributeTable :=
  { t with
    count := t.count + 1
    attributeMap := t.attributeMap ++
      [{ attrUuid := uuid, attrValLen := value.length
         attrVal := padTo attributeValueSize value }] }

/-- How `attribute_table_add` overwrites the buffer of an existing entry: a
non-empty value replaces only as many bytes as it has. -/
def overwriteAttrVal (old value : Bytes) : Bytes :=
  if value = [] then List.replicate attributeValueSize 0 else value ++ old.drop value.length

/-- `attribute_table_add`; the value is cut to 64 bytes. -/
def attributeTableAdd (t : AttributeTable) (uuid : Uuid) (value : Bytes) : AttributeTable :=
  let value := (cstring value).take attributeValueSize
  match getAttrEntry t uuid with
  | some entry =>
    if cstring entry.attrVal = value then t
    else
      { t with
        generation := t.generation + 1
        attributeMap := t.attributeMap.map fun e =>
          if e.attrUuid = uuid then
            { e with attrVal := overwriteAttrVal e.attrVal value, attrValLen := value.length }
          else e }
  | none =>
    let t := putAttrEntry t uuid value
    { t with generation := t.generation + 1 }

/-- `attribute_table_del`; `none` when the attribute is not there. -/
def attributeTableDel (t : AttributeTable) (uuid : Uuid) : Option AttributeTable :=
  match getAttrEntry t uuid with
  | none => none
  | some _ =>
    some { t with
      count := t.count - 1
      generation := t.generation + 1
      attributeMap := t.attributeMap.eraseP fun e => e.attrUuid = uuid }

/-- `attribute_table_set_audit_log`. -/
def attributeTableSetAuditLog (t : AttributeTable) (uuid : Uuid) : AttributeTable :=
  { t with auditLogUuid := uuid }

/-! ## Serialisation -/

/-- `sizeof(struct __attr_table_hdr)`. -/
def attrTableHdrSize : Nat := 8 + 8 + 16 + 4 + 16

/-- `sizeof(struct __attr_table_entry)`. -/
def attrTableEntrySize : Nat := 16 + 8 + attributeValueSize

/-- `attribute_table_get_size`. -/
def attributeTableGetSize (t : AttributeTable) : Nat :=
  attrTableHdrSize + t.count * attrTableEntrySize

/-- `__serialize_attribute_header`. -/
def serializeAttributeHeader (t : AttributeTable) : Bytes :=
  le 8 t.count ++ le 8 t.generation.toNat ++ le 16 t.auditLogUuid.toNat ++
    le 4 t.attributeSpaceMacversion.version.toNat ++ le 16 t.attributeSpaceMacversion.mac.toNat

/-- `__serialize_attribute_entry`, into a zeroed buffer. -/
def serializeAttributeEntry (e : AttributeEntry) : Bytes :=
  le 16 e.attrUuid.toNat ++ le 8 e.attrValLen ++
    padTo attributeValueSize (e.attrVal.take e.attrValLen)

/-- What `attribute_table_store` writes, after it has refreshed the mac and
version of the attribute space. -/
def attributeTableBytes (t : AttributeTable) : Bytes :=
  serializeAttributeHeader t ++ t.attributeMap.flatMap serializeAttributeEntry

/-- The refresh in `attribute_table_store`. -/
def exportMacversion (mv : MacAndVersion) (t : AttributeTable) : AttributeTable :=
  { t with attributeSpaceMacversion := mv }

/-- One record of `__parse_attribute_table_body`; `__put_attr_entry` refuses a
length above 64. -/
def parseAttributeEntry : Parser AttributeEntry := fun bs => do
  let (uuid, bs) ← nat 16 bs
  let (len, bs) ← nat 8 bs
  let (val, bs) ← bytes attributeValueSize bs
  if len ≤ attributeValueSize then
    some ({ attrUuid := BitVec.ofNat 128 uuid, attrValLen := len,
            attrVal := padTo attributeValueSize (val.take len) }, bs)
  else none

/-- `attribute_table_from_buffer`. -/
def attributeTableFromBuffer : Parser AttributeTable := fun bs => do
  let (count, bs) ← nat 8 bs
  let (generation, bs) ← nat 8 bs
  let (auditLogUuid, bs) ← nat 16 bs
  let (version, bs) ← nat 4 bs
  let (mac, bs) ← nat 16 bs
  let (entries, bs) ← many parseAttributeEntry count bs
  some ({ count := entries.length, generation := BitVec.ofNat 64 generation,
          auditLogUuid := BitVec.ofNat 128 auditLogUuid,
          attributeSpaceMacversion := ⟨BitVec.ofNat 32 version, BitVec.ofNat 128 mac⟩,
          attributeMap := entries }, bs)

/-! ## Well-formed tables

The value buffer of an entry always has 64 bytes.  An entry is `Canonical` when
the bytes behind its value are zero, which is how a reloaded entry looks. -/

structure AttributeEntry.WF (e : AttributeEntry) : Prop where
  length : e.attrVal.length = attributeValueSize
  valLen : e.attrValLen ≤ attributeValueSize

def AttributeEntry.reloaded (e : AttributeEntry) : AttributeEntry :=
  { e with attrVal := padTo attributeValueSize (e.attrVal.take e.attrValLen) }

def AttributeEntry.Canonical (e : AttributeEntry) : Prop := e.reloaded = e

structure AttributeTable.WF (t : AttributeTable) : Prop where
  count : t.count = t.attributeMap.length
  countFits : t.count < 2 ^ 64
  entries : ∀ e ∈ t.attributeMap, e.WF
  unique : (t.attributeMap.map AttributeEntry.attrUuid).Nodup

def AttributeTable.reloaded (t : AttributeTable) : AttributeTable :=
  { t with attributeMap := t.attributeMap.map AttributeEntry.reloaded }

def AttributeTable.Canonical (t : AttributeTable) : Prop :=
  ∀ e ∈ t.attributeMap, e.Canonical

variable {t : AttributeTable}

theorem AttributeTable.reloaded_eq (h : t.Canonical) :
    t.reloaded = t := by
  have hmap : t.attributeMap.map AttributeEntry.reloaded = t.attributeMap := by
    conv_rhs => rw [← map_id t.attributeMap]
    exact map_congr_left h
  rw [AttributeTable.reloaded, hmap]

/-! ### Round trip -/

variable {e : AttributeEntry}

theorem length_serializeAttributeEntry (h : e.WF) :
    (serializeAttributeEntry e).length = attrTableEntrySize := by
  have hpad : (padTo attributeValueSize (e.attrVal.take e.attrValLen)).length
      = attributeValueSize := by
    apply length_padTo
    rw [length_take]
    exact le_trans (Nat.min_le_left ..) h.valLen
  simp only [serializeAttributeEntry, length_append, length_le, hpad, attrTableEntrySize]

theorem length_attributeTableBytes (h : t.WF) :
    (attributeTableBytes t).length = attributeTableGetSize t := by
  have hentries : (t.attributeMap.flatMap serializeAttributeEntry).length
      = t.attributeMap.length * attrTableEntrySize := by
    rw [length_flatMap]
    rw [map_congr_left fun e he => length_serializeAttributeEntry (h.entries e he)]
    simp
  simp only [attributeTableBytes, serializeAttributeHeader, length_append, length_le,
    hentries, attributeTableGetSize, attrTableHdrSize, h.count]

theorem parseAttributeEntry_append (h : e.WF) (rest : Bytes) :
    parseAttributeEntry (serializeAttributeEntry e ++ rest) = some (e.reloaded, rest) := by
  have hlen : (e.attrVal.take e.attrValLen).length = e.attrValLen := by
    rw [length_take, h.length]
    exact Nat.min_eq_left h.valLen
  have hpad : (padTo attributeValueSize (e.attrVal.take e.attrValLen)).length
      = attributeValueSize := length_padTo (by rw [hlen]; exact h.valLen)
  have htake : (padTo attributeValueSize (e.attrVal.take e.attrValLen)).take e.attrValLen
      = e.attrVal.take e.attrValLen := by
    rw [padTo, take_append_of_le_length (by rw [hlen]), take_take, Nat.min_self]
  have hvalLen : e.attrValLen < 256 ^ 8 := by
    have := h.valLen
    rw [attributeValueSize] at this
    omega
  simp [parseAttributeEntry, serializeAttributeEntry, nat_append_of_lt hvalLen,
    bytes_append_of_length hpad, h.valLen, htake, AttributeEntry.reloaded]

/-- Loading a stored table gives the table back, with clean value buffers. -/
theorem attributeTableFromBuffer_append (h : t.WF) (rest : Bytes) :
    attributeTableFromBuffer (attributeTableBytes t ++ rest) = some (t.reloaded, rest) := by
  have hcount : t.count < 256 ^ 8 := lt_of_lt_of_eq h.countFits (by norm_num)
  have hmany : many parseAttributeEntry t.count
      (t.attributeMap.flatMap serializeAttributeEntry ++ rest)
      = some (t.attributeMap.map AttributeEntry.reloaded, rest) := by
    rw [h.count]
    exact many_flatMap _ _ fun e he => parseAttributeEntry_append (h.entries e he)
  simp [attributeTableFromBuffer, attributeTableBytes, serializeAttributeHeader,
    nat_append_of_lt hcount, hmany, AttributeTable.reloaded, h.count.symm]

/-! ### The operations keep tables well formed -/

variable {uuid : Uuid}

theorem attributeTableCreate_wf : attributeTableCreate.WF where
  count := rfl
  countFits := by decide
  entries := by simp [attributeTableCreate]
  unique := by simp [attributeTableCreate]

theorem getAttrEntry_eq_none (h : getAttrEntry t uuid = none) :
    uuid ∉ t.attributeMap.map AttributeEntry.attrUuid :=
  Keyed.get_eq_none_iff.mp h

theorem getAttrEntry_of_mem (h : t.WF) (he : e ∈ t.attributeMap) :
    getAttrEntry t e.attrUuid = some e :=
  Keyed.get_of_mem h.unique he

private theorem cut_length_le (value : Bytes) :
    ((cstring value).take attributeValueSize).length ≤ attributeValueSize := by
  rw [length_take]
  exact Nat.min_le_left ..

/-- Adding an attribute needs room for one more entry when it is a new one. -/
theorem attributeTableAdd_wf (h : t.WF) (uuid : Uuid) (value : Bytes)
    (hroom : getAttrEntry t uuid = none → t.count + 1 < 2 ^ 64) :
    (attributeTableAdd t uuid value).WF := by
  have hcut := cut_length_le value
  unfold attributeTableAdd
  generalize (cstring value).take attributeValueSize = v at hcut
  cases hfind : getAttrEntry t uuid with
  | none =>
    refine ⟨?_, hroom hfind, ?_, ?_⟩
    · simp [putAttrEntry, h.count]
    · intro e he
      simp only [putAttrEntry, mem_append, mem_singleton] at he
      rcases he with he | rfl
      · exact h.entries e he
      · exact ⟨length_padTo hcut, hcut⟩
    · have hnew := getAttrEntry_eq_none hfind
      simp only [putAttrEntry, map_append, map_cons, map_nil]
      rw [nodup_append_comm]
      exact nodup_cons.mpr ⟨hnew, h.unique⟩
  | some entry =>
    dsimp only
    split
    · exact h
    · refine ⟨by simp [h.count], h.countFits, ?_, ?_⟩
      · intro e he
        simp only [mem_map] at he
        obtain ⟨e₀, he₀, rfl⟩ := he
        have hwf := h.entries e₀ he₀
        have hlen := hwf.length
        split
        · refine ⟨?_, hcut⟩
          simp only [overwriteAttrVal]
          split
          · simp
          · rw [length_append, length_drop, hlen]
            omega
        · exact hwf
      · have huuids : ∀ e : AttributeEntry,
            (if e.attrUuid = uuid then
              { e with attrVal := overwriteAttrVal e.attrVal v, attrValLen := v.length }
            else e).attrUuid = e.attrUuid := by
          intro e
          split <;> rfl
        simpa [map_map, Function.comp_def, huuids] using h.unique

theorem attributeTableDel_wf {t' : AttributeTable} (h : t.WF)
    (hdel : attributeTableDel t uuid = some t') : t'.WF := by
  unfold attributeTableDel at hdel
  cases hfind : getAttrEntry t uuid with
  | none => simp [hfind] at hdel
  | some entry =>
    simp only [hfind] at hdel
    cases hdel
    have hmem := mem_of_find?_eq_some hfind
    have huuid := find?_some hfind
    have hlen := length_eraseP_of_mem (p := fun e => decide (e.attrUuid = uuid)) hmem huuid
    refine ⟨?_, lt_of_le_of_lt (Nat.sub_le ..) h.countFits, ?_, ?_⟩
    · show t.count - 1 = _
      rw [hlen, h.count]
    · intro e he
      exact h.entries e (mem_of_mem_eraseP he)
    · exact h.unique.sublist (List.Sublist.map _ eraseP_sublist)

/-! ### Canonical entries

Replacing a value by a shorter one, other than the empty one, leaves the tail of
the old value in the buffer. -/

/-- The value does not leave a tail of the value it replaces. -/
def AttributeAddClean (t : AttributeTable) (uuid : Uuid) (value : Bytes) : Prop :=
  ∀ e ∈ getAttrEntry t uuid,
    let v := (cstring value).take attributeValueSize
    v = [] ∨ e.attrValLen ≤ v.length ∨ cstring e.attrVal = v

theorem padTo_take_self {n : Nat} (v : Bytes) : (padTo n v).take v.length = v := by
  simp [padTo]

private theorem canonical_overwrite (hwf : e.WF) (hcan : e.Canonical) {v : Bytes}
    (hv : v.length ≤ attributeValueSize) (hclean : v = [] ∨ e.attrValLen ≤ v.length) :
    AttributeEntry.Canonical
      { e with attrVal := overwriteAttrVal e.attrVal v, attrValLen := v.length } := by
  have hbuf : e.attrVal = padTo attributeValueSize (e.attrVal.take e.attrValLen) :=
    (congrArg AttributeEntry.attrVal hcan).symm
  unfold AttributeEntry.Canonical AttributeEntry.reloaded overwriteAttrVal
  by_cases hempty : v = []
  · simp [hempty, padTo]
  · have hle : e.attrValLen ≤ v.length := hclean.resolve_left hempty
    have hdrop : e.attrVal.drop v.length
        = List.replicate (attributeValueSize - v.length) 0 := by
      have hlen : (e.attrVal.take e.attrValLen).length = e.attrValLen := by
        rw [length_take, hwf.length]
        exact Nat.min_eq_left hwf.valLen
      rw [hbuf, padTo, drop_append, drop_eq_nil_of_le (by omega), hlen]
      simp only [nil_append, drop_replicate]
      congr 1
      omega
    simp only [if_neg hempty, hdrop, take_left']
    simp [padTo]

theorem attributeTableAdd_canonical (h : t.WF) (hcan : t.Canonical) {value : Bytes}
    (hclean : AttributeAddClean t uuid value) :
    (attributeTableAdd t uuid value).Canonical := by
  have hcut := cut_length_le value
  unfold AttributeAddClean at hclean
  unfold attributeTableAdd
  generalize (cstring value).take attributeValueSize = v at hcut hclean
  cases hfind : getAttrEntry t uuid with
  | none =>
    intro e he
    simp only [putAttrEntry, mem_append, mem_singleton] at he
    rcases he with he | rfl
    · exact hcan e he
    · simp [AttributeEntry.Canonical, AttributeEntry.reloaded, padTo_take_self]
  | some entry =>
    dsimp only
    split
    · exact hcan
    next hdiff =>
      intro e he
      simp only [mem_map] at he
      obtain ⟨e₀, he₀, rfl⟩ := he
      split
      next huuid =>
        obtain rfl : e₀ = entry := by
          have := getAttrEntry_of_mem h he₀
          rw [huuid, hfind] at this
          exact (Option.some.inj this).symm
        refine canonical_overwrite (h.entries e₀ he₀) (hcan e₀ he₀) hcut ?_
        rcases hclean e₀ hfind with hempty | hle | hsame
        · exact .inl hempty
        · exact .inr hle
        · exact absurd hsame hdiff
      · exact hcan e₀ he₀

theorem attributeTableDel_canonical {t' : AttributeTable} (hcan : t.Canonical)
    (hdel : attributeTableDel t uuid = some t') : t'.Canonical := by
  unfold attributeTableDel at hdel
  cases hfind : getAttrEntry t uuid with
  | none => simp [hfind] at hdel
  | some entry =>
    simp only [hfind] at hdel
    cases hdel
    intro e he
    exact hcan e (mem_of_mem_eraseP he)

end Nexus
