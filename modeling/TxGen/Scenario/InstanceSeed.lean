import TxGen.Lib.Mixing

set_option autoImplicit false

/-! # Instance seeds

Every instance of a run seeds its random number generator with a mix of the run's seed and its own
number. -/

namespace TxGen

/-- `instance_seed` -/
def instanceSeed (seed inst : BitVec 64) : BitVec 64 :=
  let value := seed ^^^ (inst + 0x9e3779b97f4a7c15#64)
  let value := (value ^^^ (value >>> 30)) * 0xbf58476d1ce4e5b9#64
  let value := (value ^^^ (value >>> 27)) * 0x94d049bb133111eb#64
  value ^^^ (value >>> 31)

/-- The generator that `run_instance` starts with. -/
def instanceRng {R : Type} (seedFromU64 : BitVec 64 → R) (runSeed inst : BitVec 64) : R :=
  seedFromU64 (instanceSeed runSeed inst)

/-- The steps after the seed and the number are combined. -/
def finalizeSeed : BitVec 64 → BitVec 64 :=
  Mixing.xorShift 31 ∘ (· * 0x94d049bb133111eb#64) ∘ Mixing.xorShift 27 ∘
    (· * 0xbf58476d1ce4e5b9#64) ∘ Mixing.xorShift 30

theorem finalizeSeed_bijective : Function.Bijective finalizeSeed := by
  have h₁ : Function.Bijective (Mixing.xorShift 30 (w := 64)) := Mixing.xorShift_bijective (by omega)
  have h₂ : Function.Bijective fun x : BitVec 64 => x * 0xbf58476d1ce4e5b9#64 :=
    Mixing.mul_bijective (by decide)
  have h₃ : Function.Bijective (Mixing.xorShift 27 (w := 64)) := Mixing.xorShift_bijective (by omega)
  have h₄ : Function.Bijective fun x : BitVec 64 => x * 0x94d049bb133111eb#64 :=
    Mixing.mul_bijective (by decide)
  have h₅ : Function.Bijective (Mixing.xorShift 31 (w := 64)) := Mixing.xorShift_bijective (by omega)
  exact h₅.comp (h₄.comp (h₃.comp (h₂.comp h₁)))

theorem instanceSeed_eq (seed inst : BitVec 64) :
    instanceSeed seed inst = finalizeSeed (seed ^^^ (inst + 0x9e3779b97f4a7c15#64)) := rfl

/-- **Instance seeds do not collide.** With one seed every number has a seed of its own, and with one
    number every seed of a run has; so two instances of a run start with the same generator only where
    `seed_from_u64` makes one generator of two seeds. -/
theorem instanceSeed_bijective :
    (∀ seed, Function.Bijective (instanceSeed seed)) ∧
      (∀ inst, Function.Bijective fun seed => instanceSeed seed inst) ∧
      ∀ {R : Type} (seedFromU64 : BitVec 64 → R), Function.Injective seedFromU64 →
        ∀ runSeed, Function.Injective (instanceRng seedFromU64 runSeed) := by
  have hinst : ∀ seed, Function.Bijective (instanceSeed seed) := by
    intro seed
    have hcomp : instanceSeed seed =
        finalizeSeed ∘ (fun x => seed ^^^ x) ∘ fun x => x + 0x9e3779b97f4a7c15#64 :=
      funext (instanceSeed_eq seed)
    rw [hcomp]
    exact finalizeSeed_bijective.comp ((Mixing.xor_bijective seed).comp (Mixing.add_bijective _))
  refine ⟨hinst, fun inst => ?_, fun seedFromU64 hrng runSeed => ?_⟩
  · have hcomp : (fun seed => instanceSeed seed inst) =
        finalizeSeed ∘ fun seed => (inst + 0x9e3779b97f4a7c15#64) ^^^ seed := by
      funext seed
      rw [instanceSeed_eq, BitVec.xor_comm, Function.comp_apply]
    rw [hcomp]
    exact finalizeSeed_bijective.comp (Mixing.xor_bijective _)
  · exact hrng.comp (hinst runSeed).injective

/-- The seeds that the program's own test compares. -/
example : instanceSeed 42 7 ≠ instanceSeed 42 8 ∧ instanceSeed 42 7 ≠ instanceSeed 43 7 := by decide

end TxGen
