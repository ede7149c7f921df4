import Mathlib.Data.List.Basic

/-!
# Stream ciphers

Bytes are added to a keystream, from some position of it on.  The same operation
encrypts and decrypts, and a stream can be handled in pieces.
-/

namespace Nexus.Stream

/-- Add the keystream, from a position on. -/
def mask (keystream : Nat → UInt8) : Nat → List UInt8 → List UInt8
  | _, [] => []
  | pos, b :: bs => (b ^^^ keystream pos) :: mask keystream (pos + 1) bs

variable {keystream : Nat → UInt8} {pos : Nat}

@[simp] theorem mask_nil : mask keystream pos [] = [] := rfl

@[simp] theorem length_mask (bs : List UInt8) : (mask keystream pos bs).length = bs.length := by
  induction bs generalizing pos with
  | nil => rfl
  | cons b bs ih => simp [mask, ih]

/-- The pieces of a stream are handled one after the other. -/
theorem mask_append (bs cs : List UInt8) :
    mask keystream pos (bs ++ cs) =
      mask keystream pos bs ++ mask keystream (pos + bs.length) cs := by
  induction bs generalizing pos with
  | nil => rfl
  | cons b bs ih =>
    simp only [List.cons_append, mask, ih, List.length_cons]
    rw [show pos + 1 + bs.length = pos + (bs.length + 1) by omega]

/-- Decryption undoes encryption. -/
@[simp] theorem mask_mask (bs : List UInt8) :
    mask keystream pos (mask keystream pos bs) = bs := by
  induction bs generalizing pos with
  | nil => rfl
  | cons b bs ih => simp [mask, ih, UInt8.xor_assoc]

theorem take_mask (n : Nat) (bs : List UInt8) :
    (mask keystream pos bs).take n = mask keystream pos (bs.take n) := by
  induction bs generalizing pos n with
  | nil => simp
  | cons b bs ih =>
    cases n with
    | zero => rfl
    | succ n => simp [mask, ih]

end Nexus.Stream
