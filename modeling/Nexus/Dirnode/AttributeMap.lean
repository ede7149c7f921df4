import Nexus.Dirnode.AttributeTable
import Nexus.Lib.Runs

/-!
# Attribute tables as maps

An attribute table should be a map from uuids to values, and a table that is stored and
loaded should be the same map.  The length of a value is kept beside its buffer: a reader
of the table sees the C string in the buffer, and the stored table holds the bytes up to
the length.

A value that replaces a longer one leaves the end of the longer one in the buffer.  The two
views then differ from each other, and the first one from the value that was added.
`attributeTable_isMap_iff` says that nothing else can go wrong.
-/

namespace Nexus

open Function Codec List Option Keyed

/-! ## Calls -/

/-- A value: a C string that is shorter than the buffer for it. -/
structure AttributeValue where
  bytes : Bytes
  fits : bytes.length < attributeValueSize
  noNul : (0 : UInt8) ∉ bytes

inductive AttributeCall where
  /-- `attribute_table_add`. -/
  | add (uuid : Uuid) (value : AttributeValue)
  /-- `attribute_table_del`. -/
  | del (uuid : Uuid)
  /-- `attribute_table_set_audit_log`. -/
  | setAuditLog (uuid : Uuid)

/-- A table, beside the value that was last added for each uuid. -/
structure AttributeRun where
  table : AttributeTable
  last : Uuid → Option AttributeValue

namespace AttributeRun

def create : AttributeRun := ⟨attributeTableCreate, fun _ => none⟩

def step (s : AttributeRun) : AttributeCall → AttributeRun
  | .add uuid value =>
    ⟨attributeTableAdd s.table uuid value.bytes, update s.last uuid (some value)⟩
  | .del uuid =>
    ⟨(attributeTableDel s.table uuid).getD s.table, update s.last uuid none⟩
  | .setAuditLog uuid => ⟨attributeTableSetAuditLog s.table uuid, s.last⟩

/-- The value of a uuid, as `attribute_table_find` should return it. -/
def lastBytes (s : AttributeRun) (uuid : Uuid) : Option Bytes :=
  (s.last uuid).map AttributeValue.bytes

/-- The table is the map of the values that were last added, and so is the table that is
loaded after a store, in whatever order the iterator of the hash map visits the entries. -/
structure IsMap (s : AttributeRun) : Prop where
  find : ∀ uuid, attributeTableFind s.table uuid = s.lastBytes uuid
  count : s.table.count = {uuid | (s.last uuid).isSome = true}.ncard
  stored : ∀ mv order, order.Perm s.table.attributeMap → ∃ t,
    attributeTableFromBuffer (attributeTableBytes
        (exportMacversion mv { s.table with attributeMap := order })) = some (t, []) ∧
      (∀ uuid, attributeTableFind t uuid = s.lastBytes uuid) ∧
      t.count = s.table.count ∧ t.auditLogUuid = s.table.auditLogUuid

end AttributeRun

/-- A new attribute needs a count that does not wrap around; a value for an attribute that
has one is empty or not shorter. -/
def AttributeCall.NotShorter (t : AttributeTable) : AttributeCall → Prop
  | .add uuid value =>
    match attributeTableFind t uuid with
    | none => t.count + 1 < 2 ^ 64
    | some old => value.bytes = [] ∨ old.length ≤ value.bytes.length
  | _ => True

/-! ## Buffers -/

theorem overwriteAttrVal_padTo {old : Bytes} {v : AttributeValue}
    (h : v.bytes = [] ∨ old.length ≤ v.bytes.length) :
    overwriteAttrVal (padTo attributeValueSize old) v.bytes = padTo attributeValueSize v.bytes := by
  unfold overwriteAttrVal
  split
  next hempty =>
    rw [hempty]
    rfl
  next hempty =>
    have hle := h.resolve_left hempty
    unfold padTo
    rw [drop_append, drop_eq_nil_of_le hle, nil_append, drop_replicate]
    congr 2
    omega

/-- A shorter value that is not empty is read together with the end of the old one. -/
theorem cstring_overwriteAttrVal_ne {old v : AttributeValue} (hne : v.bytes ≠ [])
    (hlt : v.bytes.length < old.bytes.length) :
    cstring (overwriteAttrVal (padTo attributeValueSize old.bytes) v.bytes) ≠ v.bytes := by
  unfold overwriteAttrVal padTo
  rw [if_neg hne, drop_append_of_le_length hlt.le]
  obtain ⟨b, rest, hdrop⟩ := exists_cons_of_length_pos
    (show 0 < (old.bytes.drop v.bytes.length).length by rw [length_drop]; omega)
  have hb : b ≠ 0 := by
    rintro rfl
    refine old.noNul (mem_of_mem_drop (i := v.bytes.length) ?_)
    rw [hdrop]
    exact mem_cons_self
  rw [hdrop, cons_append]
  intro heq
  have hlen := congrArg List.length heq
  unfold cstring at hlen
  rw [takeWhile_append_of_pos, takeWhile_cons_of_pos (by simpa using hb)] at hlen
  · simp at hlen
  · intro x hx
    have hx0 : x ≠ 0 := fun h0 => v.noNul (h0 ▸ hx)
    simpa using hx0

/-! ## The invariant -/

/-- The entry of a value that covers what was in the buffer before. -/
def AttributeValue.entry (uuid : Uuid) (v : AttributeValue) : AttributeEntry :=
  ⟨uuid, v.bytes.length, padTo attributeValueSize v.bytes⟩

theorem AttributeValue.reloaded_entry (uuid : Uuid) (v : AttributeValue) :
    (v.entry uuid).reloaded = v.entry uuid := by
  unfold AttributeEntry.reloaded AttributeValue.entry
  dsimp only
  rw [padTo_take_self]

theorem getAttrEntry_eq_get (t : AttributeTable) (uuid : Uuid) :
    getAttrEntry t uuid = Keyed.get AttributeEntry.attrUuid t.attributeMap uuid := rfl

theorem AttributeValue.cut (v : AttributeValue) :
    (cstring v.bytes).take attributeValueSize = v.bytes := by
  rw [cstring_of_notMem v.noNul, take_of_length_le v.fits.le]

namespace AttributeRun

/-- Every buffer holds the value that was last added, and zeros behind it. -/
structure Clean (s : AttributeRun) : Prop where
  wf : s.table.WF
  entries : ∀ uuid, getAttrEntry s.table uuid = (s.last uuid).map (AttributeValue.entry uuid)

variable {s : AttributeRun}

theorem find_of_entries {t : AttributeTable} {last : Uuid → Option AttributeValue} {uuid : Uuid}
    (h : getAttrEntry t uuid = (last uuid).map (AttributeValue.entry uuid)) :
    attributeTableFind t uuid = (last uuid).map AttributeValue.bytes := by
  unfold attributeTableFind
  rw [h]
  cases last uuid with
  | none => rfl
  | some v => exact congrArg some (cstring_padTo v.noNul _)

theorem Clean.count (h : s.Clean) :
    s.table.count = {uuid | (s.last uuid).isSome = true}.ncard := by
  have hset : {uuid | (s.last uuid).isSome = true} =
      {uuid | uuid ∈ s.table.attributeMap.map AttributeEntry.attrUuid} := by
    ext uuid
    simp only [Set.mem_setOf_eq]
    rw [← isSome_get_iff, ← getAttrEntry_eq_get, h.entries, isSome_map]
  rw [hset, ncard_keys h.wf.unique, h.wf.count]

theorem Clean.stored (h : s.Clean) (mv : MacAndVersion) {order : List AttributeEntry}
    (horder : order.Perm s.table.attributeMap) : ∃ t,
    attributeTableFromBuffer (attributeTableBytes
        (exportMacversion mv { s.table with attributeMap := order })) = some (t, []) ∧
      (∀ uuid, attributeTableFind t uuid = s.lastBytes uuid) ∧
      t.count = s.table.count ∧ t.auditLogUuid = s.table.auditLogUuid := by
  have hwf : (exportMacversion mv { s.table with attributeMap := order }).WF := by
    refine ⟨h.wf.count.trans horder.length_eq.symm, h.wf.countFits, ?_, ?_⟩
    · intro e he
      exact h.wf.entries e (horder.mem_iff.mp he)
    · exact (horder.map AttributeEntry.attrUuid).nodup_iff.mpr h.wf.unique
  have hparse := attributeTableFromBuffer_append hwf []
  rw [append_nil] at hparse
  refine ⟨_, hparse, fun uuid => find_of_entries ?_, rfl, rfl⟩
  have hget : getAttrEntry (exportMacversion mv { s.table with attributeMap := order }).reloaded
      uuid = (Keyed.get AttributeEntry.attrUuid order uuid).map AttributeEntry.reloaded :=
    get_map_of_key fun _ => rfl
  rw [hget, get_perm h.wf.unique horder, ← getAttrEntry_eq_get, h.entries, Option.map_map]
  cases s.last uuid with
  | none => rfl
  | some v => exact congrArg some (v.reloaded_entry uuid)

theorem Clean.isMap (h : s.Clean) : s.IsMap :=
  ⟨fun uuid => find_of_entries (h.entries uuid), h.count, fun mv _ horder => h.stored mv horder⟩

theorem clean_create : create.Clean := ⟨attributeTableCreate_wf, fun _ => rfl⟩

/-! ## Steps -/

theorem getAttrEntry_attributeTableAdd (h : s.Clean) (uuid : Uuid) (v : AttributeValue)
    (k : Uuid) : getAttrEntry (attributeTableAdd s.table uuid v.bytes) k =
      if k = uuid then
        match s.last uuid with
        | none => some (v.entry uuid)
        | some old =>
          if old.bytes = v.bytes then some (old.entry uuid)
          else some ⟨uuid, v.bytes.length,
            overwriteAttrVal (padTo attributeValueSize old.bytes) v.bytes⟩
      else getAttrEntry s.table k := by
  have hentry := h.entries uuid
  unfold attributeTableAdd
  rw [v.cut, hentry]
  cases hlast : s.last uuid with
  | none =>
    rw [hlast] at hentry
    have hnew : (v.entry uuid).attrUuid ∉ s.table.attributeMap.map AttributeEntry.attrUuid :=
      getAttrEntry_eq_none hentry
    exact get_append hnew
  | some old =>
    rw [hlast] at hentry
    dsimp only [map_some]
    rw [show cstring (old.entry uuid).attrVal = old.bytes from cstring_padTo old.noNul _]
    by_cases hsame : old.bytes = v.bytes
    · rw [if_pos hsame, if_pos hsame]
      split
      next hk => rw [hk, hentry, map_some]
      · rfl
    · rw [if_neg hsame, if_neg hsame]
      rw [getAttrEntry_eq_get]
      dsimp only
      rw [get_map_of_key (by intro e; split <;> rfl), ← getAttrEntry_eq_get]
      split
      next hk =>
        subst hk
        rw [hentry]
        simp [AttributeValue.entry]
      next hk =>
        cases hget : getAttrEntry s.table k with
        | none => rfl
        | some e =>
          have hkey : e.attrUuid ≠ uuid := by
            rw [(mem_of_get hget).2]
            exact hk
          simp [hkey]

theorem Clean.add (h : s.Clean) {uuid : Uuid} {v : AttributeValue}
    (hc : (AttributeCall.add uuid v).NotShorter s.table) : (s.step (.add uuid v)).Clean := by
  have hfind : attributeTableFind s.table uuid = _ := find_of_entries (h.entries uuid)
  simp only [AttributeCall.NotShorter, hfind] at hc
  constructor
  · refine attributeTableAdd_wf h.wf uuid v.bytes fun hnone => ?_
    rw [h.entries, map_eq_none_iff] at hnone
    simpa [hnone] using hc
  · intro k
    simp only [step]
    rw [getAttrEntry_attributeTableAdd h uuid v k]
    by_cases hk : k = uuid
    · subst hk
      rw [if_pos rfl, update_self]
      cases hlast : s.last k with
      | none => rfl
      | some old =>
        rw [hlast] at hc
        dsimp only [map_some] at hc ⊢
        split
        next hsame =>
          unfold AttributeValue.entry
          rw [hsame]
        · rw [overwriteAttrVal_padTo hc]
          rfl
    · rw [if_neg hk, update_of_ne hk, h.entries]

theorem Clean.del (h : s.Clean) (uuid : Uuid) : (s.step (.del uuid)).Clean := by
  have hentry := h.entries uuid
  simp only [step]
  cases hdel : attributeTableDel s.table uuid with
  | none =>
    have hnone : getAttrEntry s.table uuid = none := by
      cases hget : getAttrEntry s.table uuid with
      | none => rfl
      | some e =>
        unfold attributeTableDel at hdel
        rw [hget] at hdel
        cases hdel
    have hlast : s.last uuid = none := by
      rw [hnone] at hentry
      exact map_eq_none_iff.mp hentry.symm
    rw [getD_none, ← hlast, update_eq_self]
    exact h
  | some t =>
    refine ⟨attributeTableDel_wf h.wf hdel, fun k => ?_⟩
    unfold attributeTableDel at hdel
    split at hdel
    · cases hdel
    cases hdel
    dsimp only [getD_some]
    rw [getAttrEntry_eq_get, get_eraseP h.wf.unique, update_apply]
    split
    · rfl
    · rw [← getAttrEntry_eq_get, h.entries]

theorem Clean.setAuditLog (h : s.Clean) (uuid : Uuid) : (s.step (.setAuditLog uuid)).Clean :=
  ⟨⟨h.wf.count, h.wf.countFits, h.wf.entries, h.wf.unique⟩, h.entries⟩

theorem count_of_fromBuffer_full {t t' : AttributeTable} {rest : Bytes}
    (hfull : t.count = 2 ^ 64)
    (h : attributeTableFromBuffer (attributeTableBytes t) = some (t', rest)) : t'.count = 0 := by
  have hzero : t.count % 256 ^ 8 = 0 := by
    rw [hfull]
    rfl
  simp only [attributeTableFromBuffer, attributeTableBytes, serializeAttributeHeader,
    append_assoc] at h
  rw [nat_append, hzero] at h
  simp only [bind_eq_bind, bind_some, bind_eq_some_iff, many,
    Option.some.injEq, Prod.mk.injEq] at h
  obtain ⟨_, _, _, _, _, _, _, _, rfl, -⟩ := h
  rfl

theorem Clean.notShorter_of_isMap (h : s.Clean) {uuid : Uuid} {v : AttributeValue}
    (hmap : (s.step (.add uuid v)).IsMap) : (AttributeCall.add uuid v).NotShorter s.table := by
  have hfind : attributeTableFind s.table uuid = _ := find_of_entries (h.entries uuid)
  have hentry := getAttrEntry_attributeTableAdd h uuid v uuid
  rw [if_pos rfl] at hentry
  simp only [AttributeCall.NotShorter, hfind]
  cases hlast : s.last uuid with
  | none =>
    dsimp only [map_none]
    -- a count that wraps around is stored as zero
    by_contra hfull
    have hcount : (attributeTableAdd s.table uuid v.bytes).count = 2 ^ 64 := by
      have hnone : getAttrEntry s.table uuid = none := by
        rw [h.entries, hlast]
        rfl
      have hlt := h.wf.countFits
      have hadd : (attributeTableAdd s.table uuid v.bytes).count = s.table.count + 1 := by
        unfold attributeTableAdd
        rw [hnone]
        rfl
      omega
    obtain ⟨t, hparse, -, htcount, -⟩ := hmap.stored ⟨0, 0⟩ _ (List.Perm.refl _)
    have hzero := count_of_fromBuffer_full (t := exportMacversion ⟨0, 0⟩
      (attributeTableAdd s.table uuid v.bytes)) hcount hparse
    have hsame : t.count = (attributeTableAdd s.table uuid v.bytes).count := htcount
    omega
  | some old =>
    dsimp only [map_some]
    by_contra hshort
    rw [not_or, not_le] at hshort
    have hdiff : old.bytes ≠ v.bytes := by
      intro heq
      rw [heq] at hshort
      exact lt_irrefl _ hshort.2
    rw [hlast] at hentry
    dsimp only at hentry
    rw [if_neg hdiff] at hentry
    have hread := hmap.find uuid
    simp only [step, lastBytes, update_self, map_some, attributeTableFind, hentry,
      Option.some.injEq] at hread
    exact cstring_overwriteAttrVal_ne hshort.1 hshort.2 hread

end AttributeRun

/-- The table stays the map of the values that were last added exactly as long as no value
replaces a longer one. -/
theorem attributeTable_isMap_iff (calls : List AttributeCall) :
    Runs.Always AttributeRun.step AttributeRun.IsMap AttributeRun.create calls ↔
      Runs.Meets AttributeRun.step (fun s call => call.NotShorter s.table) AttributeRun.create
        calls := by
  refine Runs.always_iff_meets_of_kept (I := AttributeRun.Clean) ?_ (fun _ h => h.isMap) ?_
    AttributeRun.clean_create calls
  · intro s call h hc
    cases call with
    | add uuid v => exact h.add hc
    | del uuid => exact h.del uuid
    | setAuditLog uuid => exact h.setAuditLog uuid
  · intro s call h hmap
    cases call with
    | add uuid v => exact h.notShorter_of_isMap hmap
    | del uuid | setAuditLog uuid => trivial

/-- The value `abc` is replaced by `x`, and is read as `xbc`. -/
theorem shorter_value_keeps_tail :
    let abc : AttributeValue := ⟨[97, 98, 99], by decide, by decide⟩
    let x : AttributeValue := ⟨[120], by decide, by decide⟩
    let calls : List AttributeCall := [.add 1 abc, .add 1 x]
    attributeTableFind (calls.foldl AttributeRun.step AttributeRun.create).table 1 =
        some [120, 98, 99] ∧
      (calls.foldl AttributeRun.step AttributeRun.create).lastBytes 1 = some [120] ∧
      ¬ Runs.Always AttributeRun.step AttributeRun.IsMap AttributeRun.create calls := by
  refine ⟨by decide, by decide, ?_⟩
  intro h
  have hread := h.2.2.find 1
  cases hread

end Nexus
