import Nexus.Basic

/-!
# Cached metadata objects and their revalidation

The enclave keeps a decrypted copy of a metadata object together with the
version it was loaded at (`metadata.c`).  Below it the buffer layer remembers
the timestamp of the last read or write of the uuid (`buffer_layer.c`).  Before
a copy is used again the enclave asks the untrusted side for the current
timestamp and reloads the object if that is newer.

`Answers` is what the ocalls say about one object during one call.  Every ocall
may fail.  The functions below take the read-only path (`NEXUS_FREAD`), which
is the one the access checks use; they are generic in the object.
-/

namespace Nexus

variable {α : Type}

/-- An object as the datastore holds it. -/
structure Stored (α : Type) where
  object : α
  version : Nat
  timestamp : Nat
  deriving DecidableEq, Repr

/-- What the ocalls answer about one object during one call. -/
structure Answers (α : Type) where
  /-- `ocall_buffer_stattime`. -/
  stattime : Option Nat
  /-- `__read_object`: the ocall, the decryption and the parser. -/
  object : Option (Stored α)
  /-- What the uninitialised local `has_changed` of the caller holds. -/
  uninit : Bool

/-- `struct nexus_metadata`, with the timestamp the buffer layer keeps for its
uuid (`none` when the buffer layer has no entry). -/
structure Metadata (α : Type) where
  object : α
  version : Nat
  isInvalid : Bool
  timestamp : Option Nat
  deriving DecidableEq, Repr

/-- `nexus_metadata_load` with `NEXUS_FREAD`. -/
def nexusMetadataLoad (a : Answers α) : Option (Metadata α) :=
  a.object.map fun o =>
    { object := o.object, version := o.version, isInvalid := false,
      timestamp := some o.timestamp }

/-- `buffer_layer_revalidate`: the return value, and `*should_reload` after the
call.  A failing stat leaves `*should_reload` as it was. -/
def bufferLayerRevalidate (cached : Option Nat) (a : Answers α) (shouldReload : Bool) :
    Bool × Bool :=
  match cached with
  | none => (true, true)
  | some t =>
    match a.stattime with
    | none => (false, shouldReload)
    | some t' => (true, decide (t < t'))

/-- `nexus_metadata_has_changed`: the return value of the buffer layer is
dropped. -/
def nexusMetadataHasChanged (m : Metadata α) (a : Answers α) : Bool :=
  (bufferLayerRevalidate m.timestamp a a.uninit).2

/-- `nexus_metadata_reload`: on failure the old copy stays. -/
def nexusMetadataReload (m : Metadata α) (a : Answers α) : Metadata α × Bool :=
  match nexusMetadataLoad a with
  | none => (m, false)
  | some m' => (m', true)

/-- `nexus_metadata_revalidate` with `NEXUS_FREAD`. -/
def nexusMetadataRevalidate (m : Metadata α) (a : Answers α) : Metadata α × Bool :=
  if m.isInvalid then nexusMetadataReload m a
  else if nexusMetadataHasChanged m a then nexusMetadataReload m a
  else (m, true)

/-- The acquire functions of `runtime.c`: load the object the first time,
revalidate the kept copy afterwards. -/
def acquireMetadata (m : Option (Metadata α)) (a : Answers α) :
    Option (Metadata α) × Option (Metadata α) :=
  match m with
  | none => (nexusMetadataLoad a, nexusMetadataLoad a)
  | some m =>
    let (m', ok) := nexusMetadataRevalidate m a
    (some m', if ok then some m' else none)

/-- The timestamp of the object was asked for and answered, or not needed. -/
def statAnswered (cached : Option Nat) (a : Answers α) : Bool :=
  cached.isNone || a.stattime.isSome

/-- The same for an acquire: neither a first load nor the reload of an invalid
copy asks for the timestamp. -/
def acquireStatAnswered (m : Option (Metadata α)) (a : Answers α) : Bool :=
  match m with
  | none => true
  | some m => m.isInvalid || statAnswered m.timestamp a

end Nexus
