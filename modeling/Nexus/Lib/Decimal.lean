import Mathlib.Algebra.Group.Nat.Defs
import Mathlib.Tactic.ByContra

/-!
# Decimal texts

Numbers as lists of decimal digits: when digits are the ones that the number is printed with,
and what the first digits of a number are.
-/

namespace Nexus.Decimal

open List

/-- The digits have no superfluous zeros in front. -/
def Plain (ds : List Char) : Prop := ds.head? = some '0' → ds = ['0']

instance (ds : List Char) : Decidable (Plain ds) :=
  inferInstanceAs (Decidable (ds.head? = some '0' → ds = ['0']))

theorem digitChar_toNat_sub {c : Char} (h : c.isDigit = true) :
    Nat.digitChar (c.toNat - '0'.toNat) = c ∧ c.toNat - '0'.toNat < 10 := by
  simp only [Char.isDigit, Bool.and_eq_true, decide_eq_true_eq, ge_iff_le,
    UInt32.le_iff_toNat_le] at h
  have hlow : 48 ≤ c.toNat := h.1
  have hhigh : c.toNat ≤ 57 := h.2
  have hzero : '0'.toNat = 48 := rfl
  refine ⟨Char.toNat_inj.mp ?_, by omega⟩
  rw [Nat.toNat_digitChar_of_lt_ten (by omega)]
  omega

/-- Digits after a positive number are printed as they are. -/
theorem toDigits_append_of_pos {ds : List Char} (hdigits : ∀ c ∈ ds, c.isDigit = true) {n : Nat}
    (hn : 0 < n) : Nat.toDigits 10 n ++ ds = Nat.toDigits 10 (Nat.ofDigitChars 10 ds n) := by
  induction ds generalizing n with
  | nil => rw [append_nil, Nat.ofDigitChars_nil]
  | cons c ds ih =>
    obtain ⟨hc, hds⟩ := forall_mem_cons.mp hdigits
    obtain ⟨hchar, hlt⟩ := digitChar_toNat_sub hc
    have hstep := Nat.toDigits_append_toDigits (b := 10) (n := n) (by decide) hn hlt
    rw [Nat.toDigits_of_lt_base hlt, hchar] at hstep
    rw [Nat.ofDigitChars_cons, ← ih hds (by omega), ← hstep, append_assoc,
      singleton_append]

/-- The digits of a number begin with a zero only if the number is zero. -/
theorem plain_toDigits (n : Nat) : Plain (Nat.toDigits 10 n) := by
  induction n using Nat.strongRecOn with
  | ind n ih =>
    by_cases hlt : n < 10
    · rw [Nat.toDigits_of_lt_base hlt]
      have hall : ∀ m < 10, Plain [Nat.digitChar m] := by decide
      exact hall n hlt
    · rw [Nat.toDigits_of_base_le (by decide) (by omega)]
      intro hhead
      rw [head?_append, head?_eq_some_head Nat.toDigits_ne_nil, Option.some_or,
        ← head?_eq_some_head Nat.toDigits_ne_nil] at hhead
      -- the number without its last digit is positive
      have hzero := congrArg (fun ds => Nat.ofDigitChars 10 ds 0) (ih (n / 10) (by omega) hhead)
      simp only [Nat.ofDigitChars_ten_toDigits] at hzero
      have hdigit : Nat.ofDigitChars 10 ['0'] 0 = 0 := rfl
      omega

/-- Digits are what their number is printed as exactly if they are plain. -/
theorem toDigits_ofDigitChars_iff {ds : List Char} (hne : ds ≠ [])
    (hdigits : ∀ c ∈ ds, c.isDigit = true) :
    Nat.toDigits 10 (Nat.ofDigitChars 10 ds 0) = ds ↔ Plain ds := by
  constructor
  · intro h
    rw [← h]
    exact plain_toDigits _
  · intro hplain
    obtain ⟨c, ds, rfl⟩ := exists_cons_of_ne_nil hne
    obtain ⟨hc, hds⟩ := forall_mem_cons.mp hdigits
    obtain ⟨hchar, hlt⟩ := digitChar_toNat_sub hc
    by_cases hzero : c = '0'
    · rw [hplain (by rw [hzero]; rfl)]
      rfl
    · have hpos : 0 < c.toNat - '0'.toNat := by
        by_contra hle
        have hnat : c.toNat - '0'.toNat = 0 := by omega
        rw [hnat] at hchar
        exact hzero hchar.symm
      rw [Nat.ofDigitChars_cons, Nat.mul_zero, Nat.zero_add, ← toDigits_append_of_pos hds hpos,
        Nat.toDigits_of_lt_base hlt, hchar]
      rfl

/-- Cutting the last digits of a number divides it. -/
theorem take_toDigits_div {k j n : Nat} (hk : 0 < k) (hlow : 10 ^ (k + j) ≤ 10 * n)
    (hhigh : n < 10 ^ (k + j)) : (Nat.toDigits 10 n).take k = Nat.toDigits 10 (n / 10 ^ j) := by
  induction j generalizing n with
  | zero =>
    rw [Nat.pow_zero, Nat.div_one]
    exact take_of_length_le ((Nat.length_toDigits_le_iff (by decide) hk).mpr hhigh)
  | succ j ih =>
    -- powers of ten, as multiples of the smallest one
    obtain ⟨k, rfl⟩ : ∃ k', k = k' + 1 := ⟨k - 1, by omega⟩
    have hpow : ∀ m, 10 ^ (m + 1) = 10 * 10 ^ m := fun m => by rw [Nat.pow_succ, Nat.mul_comm]
    have htop : 10 ^ (k + 1 + (j + 1)) = 10 * (10 * 10 ^ (k + j)) := by
      rw [show k + 1 + (j + 1) = k + j + 1 + 1 by omega, hpow, hpow]
    have hnext : 10 ^ (k + 1 + j) = 10 * 10 ^ (k + j) := by
      rw [show k + 1 + j = k + j + 1 by omega, hpow]
    have hle : 10 ^ k ≤ 10 ^ (k + j) := Nat.pow_le_pow_right (by decide) (by omega)
    have hpos : 0 < 10 ^ k := Nat.pow_pos (by decide)
    have hlong : k + 1 ≤ (Nat.toDigits 10 (n / 10)).length := by
      by_contra hshort
      by_cases hzero : k = 0
      · have hone := Nat.length_toDigits_pos (b := 10) (n := n / 10)
        omega
      · have hsmall := (Nat.length_toDigits_le_iff (b := 10) (n := n / 10) (k := k)
          (by decide) (by omega)).mp (by omega)
        omega
    rw [Nat.toDigits_of_base_le (by decide) (by omega), take_append_of_le_length hlong,
      ih (by omega) (by omega), Nat.div_div_eq_div_mul, ← hpow]

end Nexus.Decimal
