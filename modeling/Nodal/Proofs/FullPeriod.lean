import Nodal.Proofs.FloatValues
import Nodal.Random

/-! # The period of the generator

The state of the generator moves by an odd constant, so it passes through all words before it comes
back to where it began; mixing takes no two states to one word. What a solver is handed are
fractions with the upper bits of a word, which 64 bits hold exactly. -/

namespace Nodal.SplitMix64

/-! ## Mixing -/

theorem eq_of_xor_shiftRight {x y k : ℕ} (hk : 0 < k) (h : x ^^^ x >>> k = y ^^^ y >>> k) :
    x = y := by
  have hself : x ^^^ y = (x ^^^ y) >>> k := by
    calc x ^^^ y = x ^^^ x >>> k ^^^ (x >>> k ^^^ y) := by
          rw [Nat.xor_assoc, Nat.xor_xor_cancel_left]
      _ = y ^^^ y >>> k ^^^ (x >>> k ^^^ y) := by rw [h]
      _ = (x ^^^ y) >>> k := by
          rw [Nat.xor_comm (x >>> k), Nat.xor_comm y (y >>> k), Nat.xor_assoc,
            Nat.xor_xor_cancel_left, Nat.xor_comm, Nat.shiftRight_xor_distrib]
  have hzero : x ^^^ y = 0 := by
    by_contra hne
    rw [Nat.shiftRight_eq_div_pow] at hself
    exact (Nat.div_lt_self (Nat.pos_of_ne_zero hne) (Nat.one_lt_two_pow hk.ne')).ne' hself
  exact Nat.xor_eq_zero_iff.1 hzero

/-- One of the shifts of `mix`. -/
def xorShift (k z : UInt64) : UInt64 := z ^^^ (z >>> k)

theorem xorShift_injective {k : UInt64} (hlow : 0 < k.toNat) (hhigh : k.toNat < 64) :
    Function.Injective (xorShift k) := by
  intro x y h
  have h := congrArg UInt64.toNat h
  simp only [xorShift, UInt64.toNat_xor, UInt64.toNat_shiftRight, Nat.mod_eq_of_lt hhigh] at h
  exact UInt64.toNat_inj.1 (eq_of_xor_shiftRight hlow h)

theorem mul_injective {c d : UInt64} (h : c * d = 1) :
    Function.Injective fun x : UInt64 => x * c := by
  intro x y hxy
  have hmul : ∀ x : UInt64, x * c * d = x := fun x => by rw [UInt64.mul_assoc, h, UInt64.mul_one]
  rw [← hmul x, ← hmul y]
  exact congrArg (· * d) hxy

theorem mix_injective : Function.Injective mix := by
  have hfirst : Function.Injective (xorShift 30) := xorShift_injective (by decide) (by decide)
  have hsecond : Function.Injective (xorShift 27) := xorShift_injective (by decide) (by decide)
  have hthird : Function.Injective (xorShift 31) := xorShift_injective (by decide) (by decide)
  -- odd factors have inverses
  have hmul₁ : Function.Injective fun x : UInt64 => x * 0xbf58476d1ce4e5b9 :=
    mul_injective (d := 0x96de1b173f119089) (by decide +kernel)
  have hmul₂ : Function.Injective fun x : UInt64 => x * 0x94d049bb133111eb :=
    mul_injective (d := 0x319642b2d24d8ec3) (by decide +kernel)
  exact fun x y h => hfirst (hmul₁ (hsecond (hmul₂ (hthird h))))

theorem mix_bijective : Function.Bijective mix := Finite.injective_iff_bijective.1 mix_injective

/-! ## Words -/

/-- The generator after a number of words. -/
def skip (g : SplitMix64) : Nat → SplitMix64
  | 0 => g
  | n + 1 => (skip g n).nextWord.2

/-- The word that comes after a number of others. -/
def word (g : SplitMix64) (n : Nat) : UInt64 := (g.skip n).nextWord.1

section Words
variable (g : SplitMix64)

theorem state_skip (n : Nat) : (g.skip n).state = g.state + UInt64.ofNat n * increment := by
  induction n with
  | zero => rw [skip, show UInt64.ofNat 0 = 0 from rfl, UInt64.zero_mul, UInt64.add_zero]
  | succ n ih =>
    rw [skip, nextWord, UInt64.ofNat_add, UInt64.ofNat_one, UInt64.add_mul, UInt64.one_mul,
      ← UInt64.add_assoc, ← ih]

theorem word_eq (n : Nat) : g.word n = mix (g.state + UInt64.ofNat (n + 1) * increment) := by
  rw [← state_skip, skip, nextWord, word, nextWord]

/-- The number of steps, modulo 2⁶⁴, that move the state by one. -/
def incrementInverse : UInt64 := 0xf1de83e19937733d

theorem increment_mul : increment * incrementInverse = 1 := by decide +kernel

/-- Words come again after as many as there are, and not before. -/
theorem word_eq_word_iff {m n : Nat} : g.word m = g.word n ↔ m ≡ n [MOD UInt64.size] := by
  rw [word_eq, word_eq, mix_injective.eq_iff, UInt64.add_right_inj,
    (mul_injective increment_mul).eq_iff, ← UInt64.toNat_inj, UInt64.toNat_ofNat',
    UInt64.toNat_ofNat']
  exact ⟨Nat.ModEq.add_right_cancel' 1, Nat.ModEq.add_right 1⟩

theorem exists_word (w : UInt64) : ∃ n < UInt64.size, g.word n = w := by
  obtain ⟨z, rfl⟩ := mix_bijective.surjective w
  refine ⟨((z - g.state) * incrementInverse - 1).toNat, UInt64.toNat_lt_size _, ?_⟩
  rw [word_eq, UInt64.ofNat_add, UInt64.ofNat_toNat, UInt64.ofNat_one, UInt64.sub_add_cancel,
    UInt64.mul_assoc, UInt64.mul_comm incrementInverse, increment_mul, UInt64.mul_one,
    UInt64.add_comm, UInt64.sub_add_cancel]

theorem existsUnique_word (w : UInt64) : ∃! n, n < UInt64.size ∧ g.word n = w := by
  obtain ⟨n, hn, rfl⟩ := g.exists_word w
  exact ⟨n, ⟨hn, rfl⟩, fun m ⟨hm, hw⟩ => (g.word_eq_word_iff.1 hw).eq_of_lt_of_lt hm hn⟩

theorem first_word_injective : Function.Injective fun seed => (ofSeed seed).word 0 := by
  intro seed other h
  simp only [word_eq, ofSeed] at h
  exact (UInt64.add_left_inj _).1 (mix_injective h)

end Words

/-! ## Fractions -/

section Fractions
open FloatOrder

theorem upper_bits_lt (w : UInt64) : (w >>> 11).toNat < 2 ^ 53 := by
  rw [UInt64.toNat_shiftRight, show (11 : UInt64).toNat % 64 = 11 from rfl,
    Nat.shiftRight_eq_div_pow]
  exact Nat.div_lt_of_lt_mul w.toNat_lt

theorem representable_fraction {k : ℤ} (hk : k.natAbs < 2 ^ 53) :
    Representable (k / 2 ^ 53 : ℚ) := by
  have hrep : Representable (k * 2 ^ (-53 : ℤ)) := representable_int hk (by decide) (by decide)
  rwa [zpow_neg, ← div_eq_mul_inv] at hrep

theorem floatValue_unit :
    floatValue? (1 / Scalar.ofWord 9007199254740992) = some (1 / 2 ^ 53) := by
  have h : floatValue? (1 / Scalar.ofWord 9007199254740992) =
      some (((2 ^ 52 : ℕ) : ℚ) * 2 ^ (-105 : ℤ)) := by
    rfl
  rw [h]
  norm_num

theorem floatValue_half : floatValue? 0.5 = some (1 / 2) := by
  have h : floatValue? 0.5 = some (((2 ^ 52 : ℕ) : ℚ) * 2 ^ (-53 : ℤ)) := by
    rfl
  rw [h]
  norm_num

variable (g : SplitMix64)

/-- The upper bits of the next word, as a fraction. -/
def fraction : ℚ := (g.nextWord.1 >>> 11).toNat / 2 ^ 53

theorem fraction_nonneg : 0 ≤ g.fraction := by
  unfold fraction
  positivity

theorem fraction_lt_one : g.fraction < 1 := by
  rw [fraction, div_lt_one (by positivity)]
  exact_mod_cast upper_bits_lt g.nextWord.1

theorem floatValue_nextFraction : floatValue? (nextFraction g).1 = some g.fraction := by
  have hlt := upper_bits_lt g.nextWord.1
  have hrep := representable_fraction (k := (g.nextWord.1 >>> 11).toNat)
    (by rwa [Int.natAbs_natCast])
  rw [Int.cast_natCast, ← mul_one_div] at hrep
  rw [fraction, ← mul_one_div]
  exact floatValue_mul (floatValue_ofWord hlt) floatValue_unit hrep

theorem floatValue_jitter :
    floatValue? (RandomSource.jitter g).1 = some (g.fraction - 1 / 2) := by
  have hlt := upper_bits_lt g.nextWord.1
  have hcentred : (((g.nextWord.1 >>> 11).toNat - 2 ^ 52 : ℤ) : ℚ) / 2 ^ 53 =
      g.fraction - 1 / 2 := by
    unfold fraction
    push_cast
    ring
  have hrep := representable_fraction (k := (g.nextWord.1 >>> 11).toNat - 2 ^ 52) (by omega)
  rw [hcentred] at hrep
  exact floatValue_sub (floatValue_nextFraction g) floatValue_half hrep

end Fractions

/-- Words come again after 2⁶⁴, each once in between, and first words differ with the seed.
Fractions are those of the upper bits of words, without rounding, and so are jitters. -/
theorem full_period :
    (∀ (g : SplitMix64) (m n : ℕ), g.word m = g.word n ↔ m ≡ n [MOD 2 ^ 64]) ∧
    (∀ (g : SplitMix64) (w : UInt64), ∃! n, n < 2 ^ 64 ∧ g.word n = w) ∧
    (Function.Injective fun seed => (ofSeed seed).nextWord.1) ∧
    ∀ g : SplitMix64, ∃ (k : ℕ) (q : ℚ),
      k = (g.nextWord.1 >>> 11).toNat ∧ k < 2 ^ 53 ∧ q = k / 2 ^ 53 ∧
      FloatOrder.floatValue? (nextFraction g).1 = some q ∧ 0 ≤ q ∧ q < 1 ∧
      FloatOrder.floatValue? (RandomSource.jitter g).1 = some (q - 1 / 2) ∧
      -(1 / 2) ≤ q - 1 / 2 ∧ q - 1 / 2 < 1 / 2 := by
  refine ⟨fun g _ _ => g.word_eq_word_iff, existsUnique_word, first_word_injective, fun g => ?_⟩
  have hnonneg := g.fraction_nonneg
  have hone := g.fraction_lt_one
  exact ⟨_, g.fraction, rfl, upper_bits_lt g.nextWord.1, rfl, floatValue_nextFraction g, hnonneg,
    hone, floatValue_jitter g, by linarith, by linarith⟩

end Nodal.SplitMix64
