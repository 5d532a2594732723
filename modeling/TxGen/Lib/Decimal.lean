import Mathlib

set_option autoImplicit false

/-! # Decimal numbers as ASCII bytes

The digits of a number as they are written, and the number that digits stand for. -/

namespace Decimal

def digit (d : ℕ) : UInt8 := UInt8.ofNat (48 + d)

/-- The decimal digits of a number -/
def text (n : ℕ) : List UInt8 := if n = 0 then [48] else (Nat.digits 10 n).reverse.map digit

def IsDigit (byte : UInt8) : Prop := 48 ≤ byte.toNat ∧ byte.toNat ≤ 57

instance (byte : UInt8) : Decidable (IsDigit byte) := inferInstanceAs (Decidable (_ ∧ _))

/-- One more digit after a number -/
def shift (value : ℕ) (byte : UInt8) : ℕ := value * 10 + (byte.toNat - 48)

theorem toNat_digit {d : ℕ} (h : d < 10) : (digit d).toNat = 48 + d := by
  rw [digit, UInt8.toNat_ofNat']
  omega

theorem isDigit_digit {d : ℕ} (h : d < 10) : IsDigit (digit d) := by
  have := toNat_digit h
  unfold IsDigit
  omega

theorem text_ne_nil (n : ℕ) : text n ≠ [] := by
  unfold text
  split
  · simp
  · rename_i hne
    simpa using Nat.digits_ne_nil_iff_ne_zero.2 hne

theorem isDigit_of_mem_text {n : ℕ} {byte : UInt8} (h : byte ∈ text n) : IsDigit byte := by
  unfold text at h
  split at h
  · obtain rfl : byte = 48 := by simpa using h
    decide
  · obtain ⟨d, hd, rfl⟩ := List.mem_map.1 h
    exact isDigit_digit (Nat.digits_lt_base (by omega) (List.mem_reverse.1 hd))

/-- Reading the digits gives back the number. -/
theorem foldl_shift_text (n : ℕ) : (text n).foldl shift 0 = n := by
  unfold text
  split
  · rename_i hzero
    rw [hzero]
    rfl
  · have hdigits : ∀ ds : List ℕ, (∀ d ∈ ds, d < 10) →
        (ds.reverse.map digit).foldl shift 0 = Nat.ofDigits 10 ds := by
      intro ds hlt
      induction ds with
      | nil => rfl
      | cons d ds ih =>
          have hd := toNat_digit (hlt d List.mem_cons_self)
          rw [List.reverse_cons, List.map_append, List.foldl_append,
            ih fun d' hd' => hlt d' (List.mem_cons_of_mem _ hd'), Nat.ofDigits_cons]
          simp only [List.map_cons, List.map_nil, List.foldl_cons, List.foldl_nil, shift, hd]
          omega
    rw [hdigits _ fun d hd => Nat.digits_lt_base (by omega) hd, Nat.ofDigits_digits]

theorem le_shift (value : ℕ) (byte : UInt8) : value ≤ shift value byte := by
  unfold shift
  omega

/-- More digits make no smaller number. -/
theorem le_foldl_shift (value : ℕ) (bytes : List UInt8) : value ≤ bytes.foldl shift value := by
  induction bytes generalizing value with
  | nil => exact Nat.le_refl _
  | cons byte rest ih => exact (le_shift value byte).trans (ih _)

end Decimal
