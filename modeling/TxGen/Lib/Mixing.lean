import Mathlib

set_option autoImplicit false

/-! # Mixing bits

The steps that hash finalizers are made of, on words of any width: each is a bijection. -/

namespace Mixing

variable {w : ℕ}

/-- A word, combined with a right shift of itself. -/
def xorShift (k : ℕ) (x : BitVec w) : BitVec w := x ^^^ (x >>> k)

instance finiteBitVec : Finite (BitVec w) :=
  Finite.of_injective BitVec.toFin fun _ _ h => BitVec.eq_of_toFin_eq h

/-- Only zero is a right shift of itself. -/
theorem eq_zero_of_ushiftRight {k : ℕ} (hk : 0 < k) {z : BitVec w} (h : z = z >>> k) : z = 0 := by
  have hdiv : z.toNat = z.toNat / 2 ^ k := by
    conv_lhs => rw [h]
    rw [BitVec.toNat_ushiftRight, Nat.shiftRight_eq_div_pow]
  by_contra hne
  have hpos : 0 < z.toNat := Nat.pos_of_ne_zero fun h0 => hne (BitVec.eq_of_toNat_eq h0)
  have hlt : z.toNat / 2 ^ k < z.toNat := Nat.div_lt_self hpos (Nat.one_lt_two_pow hk.ne')
  omega

theorem xorShift_bijective {k : ℕ} (hk : 0 < k) : Function.Bijective (xorShift k (w := w)) := by
  refine Finite.injective_iff_bijective.1 fun x y h => ?_
  -- the difference of two words with one image is a right shift of itself
  have hself : x ^^^ y = (x ^^^ y) >>> k := by
    rw [BitVec.ushiftRight_xor_distrib, ← BitVec.xor_eq_zero_iff]
    calc x ^^^ y ^^^ (x >>> k ^^^ y >>> k)
        = xorShift k x ^^^ xorShift k y := by
          simp only [xorShift]
          ac_rfl
      _ = 0 := BitVec.xor_eq_zero_iff.2 h
  exact BitVec.xor_eq_zero_iff.1 (eq_zero_of_ushiftRight hk hself)

theorem mul_bijective {c : BitVec w} (hc : c.toNat % 2 = 1) :
    Function.Bijective fun x : BitVec w => x * c := by
  refine Finite.injective_iff_bijective.1 fun x y h => ?_
  have hcoprime : Nat.gcd (2 ^ w) c.toNat = 1 :=
    Nat.Coprime.pow_left w ((Nat.prime_two.coprime_iff_not_dvd).2 (by omega))
  have hmod : x.toNat * c.toNat ≡ y.toNat * c.toNat [MOD 2 ^ w] := by
    simpa [Nat.ModEq, BitVec.toNat_mul] using congrArg BitVec.toNat h
  have hsame := Nat.ModEq.cancel_right_of_coprime hcoprime hmod
  rw [Nat.ModEq, Nat.mod_eq_of_lt x.isLt, Nat.mod_eq_of_lt y.isLt] at hsame
  exact BitVec.eq_of_toNat_eq hsame

theorem add_bijective (c : BitVec w) : Function.Bijective fun x : BitVec w => x + c :=
  Finite.injective_iff_bijective.1 fun _ _ h => BitVec.add_left_inj _ |>.1 h

theorem xor_bijective (c : BitVec w) : Function.Bijective fun x : BitVec w => c ^^^ x :=
  Finite.injective_iff_bijective.1 fun _ _ h => (BitVec.xor_right_inj c).1 h

end Mixing
