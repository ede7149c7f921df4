import Nexus.Abac.Bouncer
import Nexus.Lib.Codec

/-!
# The attribute space

`attribute_space.c` keeps the attributes that may be granted to users and objects, and
`perm.c` the names of the permissions.  A name is stored in a field of 32 bytes; one
that fills the field has no end there, and is read on into what follows it in memory.

A new attribute must start with a letter and must not be called like a permission.
`attributeName_build` says what this means for the names as they are read.
-/

namespace Nexus.Abac

/-- `ATTRIBUTE_NAME_MAX`, also the size of the buffers for predicates. -/
def attributeNameMax : Nat := 32

/-- A C string as text, one character for each byte. -/
def text (bytes : Bytes) : String := String.ofList (bytes.map fun b => Char.ofNat b.toNat)

/-- The first characters of a text, up to the size of a name. -/
def nameChars (name : String) : List Char := name.toList.take attributeNameMax

/-- The entries of `__perm_map`. -/
def permMap : List Perm := [.read, .write, .create, .delete, .audit]

/-- `perm_type_from_string`: the names are compared up to 32 characters. -/
def permTypeFromString (str : String) : Option Perm :=
  permMap.find? fun perm => nameChars perm.toString = nameChars str

/-- What is read of a name that was stored in a field of 32 bytes, with the text that
follows the field in memory. -/
def storedName (name beyond : String) : String :=
  if name.length < attributeNameMax then name else String.ofList (nameChars name) ++ beyond

theorem nameChars_storedName (name beyond : String) :
    nameChars (storedName name beyond) = nameChars name := by
  unfold storedName
  split
  · rfl
  · next hlong =>
    have hlength : attributeNameMax ≤ name.toList.length := by
      rw [String.length_toList]
      omega
    rw [nameChars, String.toList_append, String.toList_ofList, nameChars,
      List.take_append_of_le_length (by rw [List.length_take]; omega), List.take_take, min_self]

/-- `__find_attribute_schema_by_name`. -/
def attributeSpaceFindName (space : AttributeSpace) (name : String) : Option AttributeSchema :=
  space.find? fun schema => nameChars schema.name = nameChars name

/-- `attribute_space_add`, with the uuid that is drawn. -/
def attributeSpaceAdd (space : AttributeSpace) (name : String) (type : AttributeType)
    (uuid : Uuid) (beyond : String) : Option AttributeSpace :=
  if (attributeSpaceFindName space name).isSome then none
  else if !(name.toList.head?.any Char.isAlpha) then none
  else if (permTypeFromString name).isSome then none
  else some (space ++ [⟨uuid, storedName name beyond, type⟩])

/-- `attribute_space_del`. -/
def attributeSpaceDel (space : AttributeSpace) (name : String) : Option AttributeSpace :=
  (attributeSpaceFindName space name).map fun _ =>
    space.eraseP fun schema => nameChars schema.name = nameChars name

/-- The calls that change the attribute space. -/
inductive SpaceCall where
  | add (name : String) (type : AttributeType) (uuid : Uuid) (beyond : String)
  | del (name : String)

/-- One call; one that fails leaves the space. -/
def AttributeSpace.step (space : AttributeSpace) : SpaceCall → AttributeSpace
  | .add name type uuid beyond => (attributeSpaceAdd space name type uuid beyond).getD space
  | .del name => (attributeSpaceDel space name).getD space

/-- The space after the calls, starting with an empty one. -/
def AttributeSpace.build (calls : List SpaceCall) : AttributeSpace :=
  calls.foldl AttributeSpace.step []

/-! ## The names in a space -/

/-- A name that starts with a letter and is not that of a permission. -/
def AttributeName (name : String) : Prop :=
  name.toList.head?.any Char.isAlpha = true ∧ ∀ perm : Perm, name ≠ perm.toString

theorem permTypeFromString_toString (perm : Perm) :
    permTypeFromString perm.toString = some perm := by
  cases perm <;> decide

theorem length_toString_lt (perm : Perm) : perm.toString.length < attributeNameMax := by
  cases perm <;> decide

theorem attributeName_storedName {name : String} (beyond : String)
    (halpha : name.toList.head?.any Char.isAlpha = true) (hperm : permTypeFromString name = none) :
    AttributeName (storedName name beyond) := by
  unfold storedName
  split
  · refine ⟨halpha, ?_⟩
    rintro perm rfl
    rw [permTypeFromString_toString] at hperm
    cases hperm
  · next hlong =>
    refine ⟨?_, fun perm heq => ?_⟩
    · cases hname : name.toList with
      | nil => simp [hname] at halpha
      | cons c cs => simpa [nameChars, hname, attributeNameMax] using halpha
    · have hlength := congrArg String.length heq
      have hshort := length_toString_lt perm
      rw [String.length_append, String.length_ofList, nameChars, List.length_take,
        String.length_toList] at hlength
      omega

theorem attributeName_step {space : AttributeSpace} (h : ∀ schema ∈ space, AttributeName schema.name)
    (call : SpaceCall) : ∀ schema ∈ space.step call, AttributeName schema.name := by
  cases call with
  | add name type uuid beyond =>
    unfold AttributeSpace.step attributeSpaceAdd
    dsimp only
    split
    · exact h
    split
    · exact h
    split
    · exact h
    · next hfound halpha hperm =>
      intro schema hschema
      obtain hold | hnew := List.mem_append.mp hschema
      · exact h schema hold
      · obtain rfl := List.mem_singleton.mp hnew
        exact attributeName_storedName beyond (by simpa using halpha) (by simpa using hperm)
  | del name =>
    unfold AttributeSpace.step attributeSpaceDel
    dsimp only
    cases attributeSpaceFindName space name with
    | none => exact h
    | some schema => exact fun other hother => h other (List.mem_of_mem_eraseP hother)

theorem attributeName_build (calls : List SpaceCall) :
    ∀ schema ∈ AttributeSpace.build calls, AttributeName schema.name := by
  have hrun : ∀ (calls : List SpaceCall) (space : AttributeSpace),
      (∀ schema ∈ space, AttributeName schema.name) →
        ∀ schema ∈ calls.foldl AttributeSpace.step space, AttributeName schema.name := by
    intro calls
    induction calls with
    | nil => exact fun _ h => h
    | cons call calls ih => exact fun space h => ih _ (attributeName_step h call)
  exact hrun calls [] fun _ hschema => absurd hschema List.not_mem_nil

end Nexus.Abac
