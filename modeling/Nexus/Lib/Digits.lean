import Mathlib.Data.Nat.Digits.Lemmas

/-!
# Fixed-width digits

The digits of a number in a base, least significant first, cut or padded to a
fixed width.  A fixed-width machine integer is written to a buffer as its
digits in base 256.
-/

namespace Digits

/-- The `w` lowest digits of `n` in base `b`, least significant first. -/
def fixed (b : Nat) : Nat → Nat → List Nat
  | 0, _ => []
  | w + 1, n => n % b :: fixed b w (n / b)

@[simp] theorem length_fixed (b w n : Nat) : (fixed b w n).length = w := by
  induction w generalizing n with
  | zero => rfl
  | succ w ih => simp [fixed, ih]

theorem lt_of_mem_fixed {b w n d : Nat} (hb : 0 < b) (hd : d ∈ fixed b w n) : d < b := by
  induction w generalizing n with
  | zero => simp [fixed] at hd
  | succ w ih =>
    rcases List.mem_cons.mp hd with rfl | hd
    · exact Nat.mod_lt _ hb
    · exact ih hd

/-- Reading the digits back gives the number modulo `b ^ w`. -/
theorem ofDigits_fixed (b w n : Nat) : Nat.ofDigits b (fixed b w n) = n % b ^ w := by
  induction w generalizing n with
  | zero => simp [fixed, Nat.mod_one]
  | succ w ih =>
    rw [fixed, Nat.ofDigits_cons, ih, Nat.pow_succ', Nat.mod_mul]

theorem ofDigits_fixed_of_lt {b w n : Nat} (hn : n < b ^ w) :
    Nat.ofDigits b (fixed b w n) = n := by
  rw [ofDigits_fixed, Nat.mod_eq_of_lt hn]

/-- Numbers below `b ^ w` with the same digits are equal. -/
theorem fixed_inj {b w m n : Nat} (hm : m < b ^ w) (hn : n < b ^ w)
    (h : fixed b w m = fixed b w n) : m = n := by
  rw [← ofDigits_fixed_of_lt hm, h, ofDigits_fixed_of_lt hn]

end Digits
