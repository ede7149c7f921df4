import Nexus.Abac.SpaceStore
import Nexus.Dirnode.AttributeTable

/-!
# Listing the attributes of a user or an object

`UNSAFE_attribute_table_ls` reports how many pairs it wrote and how many attributes there are
through two pointers, which come from the backend by way of the ecalls.  The pointers are
passed by position, and the ecalls do not agree with the backend on the order.
`attributeListing_complete_iff` says for which tables that does not show.
-/

namespace Nexus.Abac

open Codec List

/-- `struct nxs_attribute_pair`. -/
structure AttributePair where
  schemaStr : Bytes
  valStr : Bytes
  deriving DecidableEq, Repr

/-- The variables of the backend whose addresses it passes. -/
inductive Counter where
  | totalSize
  | resultSize
  deriving DecidableEq, Repr

/-- The pairs that were written, and the variables of the backend. -/
structure Listing where
  pairs : List AttributePair
  counters : Counter → Nat

/-- `NXS_ATTRIBUTE_VALUE_MAX`. -/
def attributeValueMax : Nat := 32

/-- What is copied of an entry; an attribute that is no longer in the space is called `XXX`. -/
def exportPair (space : SpaceTable) (entry : AttributeEntry) : AttributePair where
  schemaStr := strncpyName
    (((space.findAttributeSchemaByUuid entry.attrUuid).map (·.name)).getD [88, 88, 88])
  valStr := padTo attributeValueMax ((cstring entry.attrVal).take attributeValueMax)

/-- The rounds of `UNSAFE_attribute_table_ls` over the entries that the iterator has not
visited; behind the last one it gives `NULL`. -/
def copyPairs (space : SpaceTable) (capacity : Nat) :
    List AttributeEntry → Nat → Nat → List AttributePair
  | [], _, _ => []
  | _ :: entries, offset + 1, copied =>
    if copied < capacity then copyPairs space capacity entries offset copied else []
  | entry :: entries, 0, copied =>
    exportPair space entry ::
      if copied + 1 < capacity then copyPairs space capacity entries 0 (copied + 1) else []

/-- `UNSAFE_attribute_table_ls`. -/
def unsafeAttributeTableLs (t : AttributeTable) (space : SpaceTable) (capacity offset : Nat)
    (resultCount totalCount : Counter) : Listing :=
  let pairs := copyPairs space capacity t.attributeMap offset 0
  ⟨pairs, Function.update (Function.update (fun _ => 0) resultCount pairs.length) totalCount t.count⟩

/-- `UNSAFE_user_profile_attribute_ls`, given whether the attribute space is acquired. -/
def unsafeUserProfileAttributeLs (profile : AttributeTable) (space : Option SpaceTable)
    (capacity offset : Nat) (resultCount totalCount : Counter) : Option Listing :=
  space.map fun space =>
    unsafeAttributeTableLs profile space capacity offset resultCount totalCount

/-- `ecall_abac_user_attribute_ls`, given whether the profile is found. -/
def ecallAbacUserAttributeLs (profile : Option AttributeTable) (space : Option SpaceTable)
    (capacity offset : Nat) (resultCountOut totalCountOut : Counter) : Option Listing :=
  profile.bind fun profile =>
    unsafeUserProfileAttributeLs profile space capacity offset resultCountOut totalCountOut

/-- The metadata of a path. -/
inductive ListedMetadata where
  | filenode (attributeTable : AttributeTable)
  | dirnode (attributeTable : AttributeTable)
  | other

/-- `__do_object_attribute_ls`. -/
def doObjectAttributeLs (metadata : ListedMetadata) (space : Option SpaceTable)
    (capacity offset : Nat) (resultCount totalCount : Counter) : Option Listing :=
  space.bind fun space =>
    match metadata with
    | .filenode t | .dirnode t =>
      some (unsafeAttributeTableLs t space capacity offset resultCount totalCount)
    | .other => none

/-- `ecall_abac_object_attribute_ls`, given whether the metadata is found and stored again. -/
def ecallAbacObjectAttributeLs (metadata : Option ListedMetadata) (stored : Bool)
    (space : Option SpaceTable) (capacity offset : Nat) (totalCountOut resultCountOut : Counter) :
    Option Listing := do
  let metadata ← metadata
  let listing ← doObjectAttributeLs metadata space capacity offset totalCountOut resultCountOut
  if stored then some listing else none

/-! ## Paging -/

/-- The listings of a caller that goes on by the number of results until it has reached the
total, at most as many as the bound. -/
def pages (call : Nat → Option Listing) : Nat → Nat → Option (List Listing)
  | 0, _ => none
  | bound + 1, offset => do
    let listing ← call offset
    let next := offset + listing.counters .resultSize
    if next < listing.counters .totalSize then (listing :: ·) <$> pages call bound next
    else some [listing]

/-- The counters of every page are right, and the pages have every attribute once. -/
def Complete (t : AttributeTable) (space : SpaceTable) (capacity : Nat)
    (call : Nat → Option Listing) : Prop :=
  ∃ bound listings, pages call bound 0 = some listings ∧
    (∀ listing ∈ listings, listing.counters .resultSize = listing.pairs.length ∧
      listing.pairs.length ≤ capacity ∧ listing.counters .totalSize = t.attributeMap.length) ∧
    listings.flatMap Listing.pairs = t.attributeMap.map (exportPair space)

variable (space : SpaceTable) {capacity : Nat} {t : AttributeTable}

theorem copyPairs_eq (entries : List AttributeEntry) (offset : Nat) {copied : Nat}
    (hcopied : copied < capacity) :
    copyPairs space capacity entries offset copied =
      ((entries.drop offset).take (capacity - copied)).map (exportPair space) := by
  induction entries generalizing offset copied with
  | nil => simp [copyPairs]
  | cons entry entries ih =>
    cases offset with
    | succ offset => rw [copyPairs, if_pos hcopied, ih offset hcopied, drop_succ_cons]
    | zero =>
      obtain ⟨left, hleft⟩ : ∃ left, capacity - copied = left + 1 := ⟨capacity - copied - 1, by omega⟩
      rw [copyPairs, drop_zero, hleft, take_succ_cons, map_cons]
      split
      next hmore =>
        have hleft' : capacity - (copied + 1) = left := by omega
        rw [ih 0 hmore, drop_zero, hleft']
      next hfull =>
        obtain rfl : left = 0 := by omega
        rw [take_zero, map_nil]

/-- The backend takes the number of pairs for the total, and the total for the number of
pairs. -/
theorem complete_swapped_iff (hcapacity : 1 ≤ capacity) (hcount : t.count = t.attributeMap.length) :
    Complete t space capacity (fun offset =>
        some (unsafeAttributeTableLs t space capacity offset .totalSize .resultSize)) ↔
      t.count ≤ capacity := by
  have hpairs := copyPairs_eq space t.attributeMap 0 (show 0 < capacity from hcapacity)
  rw [drop_zero, Nat.sub_zero] at hpairs
  constructor
  · rintro ⟨bound, listings, hpages, hcounters, -⟩
    cases bound with
    | zero => cases hpages
    | succ bound =>
      have hmem : unsafeAttributeTableLs t space capacity 0 .totalSize .resultSize ∈ listings := by
        simp only [pages, Option.bind_eq_bind, Option.bind_some] at hpages
        split at hpages
        · obtain ⟨rest, -, rfl⟩ := Option.map_eq_some_iff.mp hpages
          exact mem_cons_self
        · cases hpages
          exact mem_cons_self
      obtain ⟨hresult, hfits, -⟩ := hcounters _ hmem
      exact hresult.trans_le hfits
  · intro hfits
    have hall : copyPairs space capacity t.attributeMap 0 0 =
        t.attributeMap.map (exportPair space) := by
      rw [hpairs, take_of_length_le (hcount ▸ hfits)]
    refine ⟨1, [unsafeAttributeTableLs t space capacity 0 .totalSize .resultSize], ?_, ?_, ?_⟩
    · simp [pages, unsafeAttributeTableLs, hall, hcount]
    · simp [unsafeAttributeTableLs, hall, hcount]
      omega
    · simp [unsafeAttributeTableLs, hall]

/-- The listings are complete for the tables that fit one page. -/
theorem attributeListing_complete_iff (t : AttributeTable) (space : SpaceTable) (capacity : Nat)
    (hcapacity : 1 ≤ capacity) (hcount : t.count = t.attributeMap.length) :
    (Complete t space capacity (fun offset => ecallAbacUserAttributeLs (some t) (some space)
      capacity offset .totalSize .resultSize) ↔ t.count ≤ capacity) ∧
    ∀ metadata ∈ [ListedMetadata.filenode t, .dirnode t],
      (Complete t space capacity (fun offset => ecallAbacObjectAttributeLs (some metadata) true
        (some space) capacity offset .totalSize .resultSize) ↔ t.count ≤ capacity) := by
  have hiff := complete_swapped_iff space hcapacity hcount
  refine ⟨hiff, fun metadata hmetadata => ?_⟩
  obtain rfl | rfl : metadata = .filenode t ∨ metadata = .dirnode t := by simpa using hmetadata
  · exact hiff
  · exact hiff

/-! ## Examples -/

/-- A user with two attributes. -/
def twoAttributes : AttributeTable :=
  attributeTableAdd (attributeTableAdd attributeTableCreate 1 [97]) 2 [98]

theorem twoAttributes_complete :
    Complete twoAttributes (.attributeSpaceCreate 0 0) 50 (fun offset => ecallAbacUserAttributeLs
      (some twoAttributes) (some (.attributeSpaceCreate 0 0)) 50 offset .totalSize .resultSize) :=
  (attributeListing_complete_iff twoAttributes _ 50 (by decide) (by decide)).1.mpr (by decide)

/-- With room for one pair the backend is told of two, and that there are no more. -/
theorem listing_swaps_counters :
    (ecallAbacUserAttributeLs (some twoAttributes) (some (.attributeSpaceCreate 0 0)) 1 0
        .totalSize .resultSize).map
      (fun l => (l.pairs.length, l.counters .resultSize, l.counters .totalSize)) = some (1, 2, 1) ∧
    (ecallAbacObjectAttributeLs (some (.filenode twoAttributes)) true
        (some (.attributeSpaceCreate 0 0)) 1 0 .totalSize .resultSize).map
      (fun l => (l.pairs.length, l.counters .resultSize, l.counters .totalSize)) = some (1, 2, 1) := by
  decide

end Nexus.Abac
