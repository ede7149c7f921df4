import Mathlib.Data.BitVec
import Mathlib.Tactic.NormNum
import Nexus.Lib.Digits

/-!
# Base types shared by the whole enclave model

Every metadata object of a volume is named by a 16-byte random uuid.  The
model keeps a uuid as a 128-bit word: the code only copies uuids, compares
them and prints them, and the serialised form is the 16 bytes of the word.

Ocalls and engine calls report success as `0` and failure as a non-zero `int`.
In the model such a result is a `Bool` whose value `true` stands for success,
and a call that also returns an object is an `Option`.
-/

namespace Nexus

/-- `struct nexus_uuid`: 16 bytes. -/
abbrev Uuid := BitVec 128

instance : LawfulBEq Uuid := inferInstance

theorem toNat_lt_bytes (u : BitVec 128) : u.toNat < 256 ^ 16 :=
  u.isLt.trans_eq (by norm_num)

/-- The 16 bytes of a uuid. -/
def uuidBytes (u : Uuid) : List Nat := Digits.fixed 256 16 u.toNat

/-- `struct nexus_mac`: 16 bytes. -/
abbrev Mac := BitVec 128

/-- `nexus_dirent_type_t`. -/
inductive DirentType where
  | reg
  | dir
  | lnk
  deriving DecidableEq, Repr

/-- `perm_type_t`, without the error value `PERM_UNK`. -/
inductive Perm where
  | read
  | write
  | create
  | delete
  | audit
  deriving DecidableEq, Repr

/-- `perm_type_to_string`. -/
def Perm.toString : Perm → String
  | .read => "read"
  | .write => "write"
  | .create => "create"
  | .delete => "delete"
  | .audit => "audit"

end Nexus
