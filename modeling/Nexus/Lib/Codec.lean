import Nexus.Lib.Digits
import Mathlib.Data.List.TakeWhile

/-!
# Byte buffers

A buffer is a list of bytes.  `le` writes a number as a little-endian integer of
a fixed width, which drops the part that does not fit.  A `Parser` reads a value
off the front of a buffer and returns what is left, or fails when the buffer is
too short.

The round-trip lemmas have one shape: a parser applied to an encoding followed
by any `rest` gives the value back together with `rest`.  Parsers of records are
chains of these, and `many_flatMap` is the rule for a run of records.
-/

abbrev Bytes := List UInt8

namespace Codec

open List

/-! ## Little-endian integers -/

/-- `n` as a little-endian integer of `w` bytes. -/
def le (w n : Nat) : Bytes := (Digits.fixed 256 w n).map UInt8.ofNat

/-- The number a little-endian integer stands for. -/
def leNat (bs : Bytes) : Nat := Nat.ofDigits 256 (bs.map UInt8.toNat)

@[simp] theorem length_le (w n : Nat) : (le w n).length = w := by simp [le]

/-- Writing an integer and reading it back keeps it modulo its width. -/
theorem leNat_le (w n : Nat) : leNat (le w n) = n % 256 ^ w := by
  have hdigits : ((Digits.fixed 256 w n).map UInt8.ofNat).map UInt8.toNat
      = Digits.fixed 256 w n := by
    rw [map_map]
    conv_rhs => rw [← map_id (Digits.fixed 256 w n)]
    refine map_congr_left fun d hd => ?_
    exact UInt8.toNat_ofNat_of_lt' (Digits.lt_of_mem_fixed (by decide) hd)
  rw [leNat, le, hdigits, Digits.ofDigits_fixed]

variable {w : Nat} {bs : Bytes}

/-- An integer of `w` bytes is read and written back as it was. -/
theorem le_leNat (h : bs.length = w) : le w (leNat bs) = bs := by
  subst h
  induction bs with
  | nil => rfl
  | cons b bs ih =>
    have hb : b.toNat < 256 := b.toNat_lt
    have hdigits : leNat (b :: bs) = b.toNat + 256 * leNat bs := rfl
    have hmod : leNat (b :: bs) % 256 = b.toNat := by omega
    have hdiv : leNat (b :: bs) / 256 = leNat bs := by omega
    have hhead : le (bs.length + 1) (leNat (b :: bs))
        = UInt8.ofNat (leNat (b :: bs) % 256) :: le bs.length (leNat (b :: bs) / 256) := rfl
    rw [length_cons, hhead, hmod, hdiv, ih, UInt8.ofNat_toNat]

theorem leNat_lt (bs : Bytes) : leNat bs < 256 ^ bs.length := by
  have hmod := leNat_le bs.length (leNat bs)
  rw [le_leNat rfl] at hmod
  rw [hmod]
  exact Nat.mod_lt _ (Nat.pow_pos (by decide))

/-! ## Parsers -/

/-- Reads a value off the front of a buffer. -/
abbrev Parser (α : Type) := Bytes → Option (α × Bytes)

/-- The next `n` bytes. -/
def bytes (n : Nat) : Parser Bytes := fun bs =>
  if n ≤ bs.length then some (bs.take n, bs.drop n) else none

/-- The next little-endian integer of `w` bytes. -/
def nat (w : Nat) : Parser Nat := fun bs =>
  (bytes w bs).map fun r => (leNat r.1, r.2)

/-- `n` values in a row. -/
def many {α : Type} (p : Parser α) : Nat → Parser (List α)
  | 0 => fun bs => some ([], bs)
  | n + 1 => fun bs => do
    let (x, bs) ← p bs
    let (xs, bs) ← many p n bs
    some (x :: xs, bs)

@[simp] theorem bytes_append (xs rest : Bytes) :
    bytes xs.length (xs ++ rest) = some (xs, rest) := by
  simp [bytes]

variable {n : Nat}

theorem bytes_append_of_length {xs : Bytes} (h : xs.length = n) (rest : Bytes) :
    bytes n (xs ++ rest) = some (xs, rest) := by
  rw [← h, bytes_append]

theorem nat_append (w n : Nat) (rest : Bytes) :
    nat w (le w n ++ rest) = some (n % 256 ^ w, rest) := by
  rw [nat, bytes_append_of_length (length_le w n), Option.map_some, leNat_le]

theorem nat_append_of_lt (h : n < 256 ^ w) (rest : Bytes) :
    nat w (le w n ++ rest) = some (n, rest) := by
  rw [nat_append, Nat.mod_eq_of_lt h]

/-- An integer that is read fits into its width. -/
theorem lt_of_nat {rest : Bytes} (h : nat w bs = some (n, rest)) : n < 256 ^ w := by
  obtain ⟨⟨field, bs'⟩, hfield, heq⟩ := Option.map_eq_some_iff.mp h
  obtain ⟨rfl, -⟩ := Prod.mk.inj heq
  have hlength : field.length = w := by
    unfold bytes at hfield
    split at hfield
    next hle =>
      cases hfield
      rw [length_take]
      omega
    next => cases hfield
  rw [← hlength]
  exact leNat_lt field

/-- A machine word of `w` bytes is read back as it was. -/
theorem nat_append_bitVec (x : BitVec (8 * w)) (rest : Bytes) :
    nat w (le w x.toNat ++ rest) = some (x.toNat, rest) := by
  refine nat_append_of_lt ?_ rest
  have hx := x.isLt
  rwa [Nat.pow_mul, show (2 : Nat) ^ 8 = 256 from rfl] at hx

/-! The widths that records have; `simp` takes a chain of reads apart with these. -/

@[simp] theorem nat_append_two (x : BitVec 16) (rest : Bytes) :
    nat 2 (le 2 x.toNat ++ rest) = some (x.toNat, rest) := nat_append_bitVec (w := 2) x rest

@[simp] theorem nat_append_four (x : BitVec 32) (rest : Bytes) :
    nat 4 (le 4 x.toNat ++ rest) = some (x.toNat, rest) := nat_append_bitVec (w := 4) x rest

@[simp] theorem nat_append_eight (x : BitVec 64) (rest : Bytes) :
    nat 8 (le 8 x.toNat ++ rest) = some (x.toNat, rest) := nat_append_bitVec (w := 8) x rest

@[simp] theorem nat_append_uint64 (x : UInt64) (rest : Bytes) :
    nat 8 (le 8 x.toNat ++ rest) = some (x.toNat, rest) := nat_append_eight x.toBitVec rest

@[simp] theorem nat_append_sixteen (x : BitVec 128) (rest : Bytes) :
    nat 16 (le 16 x.toNat ++ rest) = some (x.toNat, rest) := nat_append_bitVec (w := 16) x rest

@[simp] theorem nat_append_thirtyTwo (x : BitVec 256) (rest : Bytes) :
    nat 32 (le 32 x.toNat ++ rest) = some (x.toNat, rest) := nat_append_bitVec (w := 32) x rest

variable {α : Type}

/-- A run of records parses to the run of their values. -/
theorem many_flatMap {β : Type} {p : Parser β} {enc : α → Bytes} {val : α → β} :
    ∀ (xs : List α) (rest : Bytes),
      (∀ x ∈ xs, ∀ rest, p (enc x ++ rest) = some (val x, rest)) →
      many p xs.length (xs.flatMap enc ++ rest) = some (xs.map val, rest)
  | [], rest, _ => by simp [many]
  | x :: xs, rest, h => by
    have hx := h x (by simp) (xs.flatMap enc ++ rest)
    have hxs := many_flatMap xs rest fun y hy => h y (by simp [hy])
    simp [many, hx, hxs]

/-- A run of records that are read as they were written. -/
theorem many_records {p : Parser α} {enc : α → Bytes} {xs : List α} (hn : n = xs.length)
    (h : ∀ x ∈ xs, ∀ rest, p (enc x ++ rest) = some (x, rest)) (rest : Bytes) :
    many p n (xs.flatMap enc ++ rest) = some (xs, rest) := by
  have hmap : many p xs.length (xs.flatMap enc ++ rest) = some (xs.map id, rest) :=
    many_flatMap xs rest h
  rwa [map_id, ← hn] at hmap

/-- The records are all there is. -/
theorem many_all {p : Parser α} {enc : α → Bytes} {xs : List α} (hn : n = xs.length)
    (h : ∀ x ∈ xs, ∀ rest, p (enc x ++ rest) = some (x, rest)) :
    many p n (xs.flatMap enc) = some (xs, []) := by
  have hall := many_records hn h []
  rwa [append_nil] at hall

/-- What is read of a run of records: as many values as asked for, each of them read by the
parser. -/
theorem many_eq_some {p : Parser α} {P : α → Prop} (hp : ∀ bs x rest, p bs = some (x, rest) → P x)
    {rest : Bytes} {xs : List α} (h : many p n bs = some (xs, rest)) :
    xs.length = n ∧ ∀ x ∈ xs, P x := by
  induction n generalizing bs xs with
  | zero =>
    cases h
    exact ⟨rfl, fun _ hx => absurd hx not_mem_nil⟩
  | succ n ih =>
    simp only [many, Option.bind_eq_bind, Option.bind_eq_some_iff, Prod.exists] at h
    obtain ⟨x, bs', hx, ys, bs'', hys, hall⟩ := h
    cases hall
    obtain ⟨hlength, hmem⟩ := ih hys
    exact ⟨congrArg Nat.succ hlength, forall_mem_cons.mpr ⟨hp _ _ _ hx, hmem⟩⟩

/-! ## Writers with a limit -/

/-- Write values in a row, each into what is left of the buffer. -/
def putMany {α : Type} (put : α → Nat → Option Bytes) : List α → Nat → Option Bytes
  | [], _ => some []
  | x :: xs, left => do
    let bs ← put x left
    let rest ← putMany put xs (left - bs.length)
    some (bs ++ rest)

theorem length_flatMap_of_size {enc : α → Bytes} {size : α → Nat} {xs : List α}
    (hsize : ∀ x ∈ xs, (enc x).length = size x) :
    (xs.flatMap enc).length = (xs.map size).sum := by
  rw [length_flatMap]
  exact congrArg List.sum (map_congr_left hsize)

/-- Values that fit are written. -/
theorem putMany_of_fits {put : α → Nat → Option Bytes} {enc : α → Bytes} {size : α → Nat}
    {xs : List α} {left : Nat}
    (hput : ∀ x ∈ xs, ∀ left, size x ≤ left → put x left = some (enc x))
    (hsize : ∀ x ∈ xs, (enc x).length = size x) (hfits : (xs.map size).sum ≤ left) :
    putMany put xs left = some (xs.flatMap enc) := by
  induction xs generalizing left with
  | nil => rfl
  | cons x xs ih =>
    rw [map_cons, sum_cons] at hfits
    have hx := hput x mem_cons_self left (by omega)
    have hxs := @ih (left - (enc x).length)
      (fun y hy => hput y (mem_cons_of_mem x hy))
      (fun y hy => hsize y (mem_cons_of_mem x hy))
      (by rw [hsize x mem_cons_self]; omega)
    simp [putMany, hx, hxs]

/-! ## Strings inside fixed buffers -/

/-- The C string at the start of a buffer. -/
def cstring (bs : Bytes) : Bytes := bs.takeWhile (· ≠ 0)

/-- `bs` in a zeroed buffer of `n` bytes. -/
def padTo (n : Nat) (bs : Bytes) : Bytes := bs ++ List.replicate (n - bs.length) 0

theorem length_padTo (h : bs.length ≤ n) : (padTo n bs).length = n := by
  simp [padTo]
  omega

theorem zero_notMem_cstring (bs : Bytes) : (0 : UInt8) ∉ cstring bs := by
  intro hmem
  simpa using mem_takeWhile_imp hmem

theorem cstring_of_notMem (h : (0 : UInt8) ∉ bs) : cstring bs = bs := by
  unfold cstring
  rw [takeWhile_eq_self_iff]
  intro b hb
  have hne : b ≠ 0 := fun heq => h (heq ▸ hb)
  simpa using hne

theorem cstring_append_zero (h : (0 : UInt8) ∉ bs) (rest : Bytes) :
    cstring (bs ++ 0 :: rest) = bs := by
  unfold cstring
  rw [takeWhile_append_of_pos]
  · simp
  · intro b hb
    simp only [ne_eq, decide_eq_true_eq]
    rintro rfl
    exact h hb

/-- A string is read from its buffer as it was written, whether or not it fills it. -/
theorem cstring_padTo (h : (0 : UInt8) ∉ bs) (n : Nat) :
    cstring (padTo n bs) = bs := by
  unfold padTo
  cases n - bs.length with
  | zero =>
    rw [replicate_zero, append_nil]
    exact cstring_of_notMem h
  | succ m =>
    rw [replicate_succ]
    exact cstring_append_zero h _

end Codec
