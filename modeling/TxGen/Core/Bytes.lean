import Mathlib

set_option autoImplicit false

/-! # Bytes of numbers -/

namespace TxGen

/-- `n.to_be_bytes()`, of `size` bytes -/
def toBeBytes : ℕ → ℕ → List UInt8
  | 0, _ => []
  | size + 1, n => toBeBytes size (n / 256) ++ [UInt8.ofNat n]

theorem toBeBytes_length (size n : ℕ) : (toBeBytes size n).length = size := by
  induction size generalizing n with
  | zero => rfl
  | succ size ih => simp [toBeBytes, ih]

theorem toBeBytes_injective {size n n' : ℕ} (hn : n < 256 ^ size) (hn' : n' < 256 ^ size)
    (h : toBeBytes size n = toBeBytes size n') : n = n' := by
  induction size generalizing n n' with
  | zero => omega
  | succ size ih =>
      obtain ⟨hhigh, hlow⟩ := List.append_inj' h rfl
      rw [Nat.pow_succ] at hn hn'
      have hdiv := ih (Nat.div_lt_of_lt_mul (by omega)) (Nat.div_lt_of_lt_mul (by omega)) hhigh
      have hmod : n % 256 = n' % 256 := by
        have := congrArg UInt8.toNat (List.singleton_inj.1 hlow)
        simpa using this
      omega

end TxGen
