import Mathlib.Data.Nat.Bitwise
import Mathlib.Data.UInt
import Mathlib.Tactic.Ring

/-! # Words in memory

A memory holds a byte at an address or is not mapped there. A word is read as its bytes, the
lowest or the highest first. A mask of the low bytes of a little-endian word, or of the high bytes
of a big-endian one, is the word with zeros for the bytes that come after. -/
namespace RamCube

abbrev Mem := Nat → Option UInt8

/-- Two bytes, the low one first. -/
def le16 (b₀ b₁ : UInt8) : UInt32 := b₀.toUInt32 + b₁.toUInt32 <<< 8

def le32 (b₀ b₁ b₂ b₃ : UInt8) : UInt32 :=
  b₀.toUInt32 + b₁.toUInt32 <<< 8 + b₂.toUInt32 <<< 16 + b₃.toUInt32 <<< 24

def be32 (b₀ b₁ b₂ b₃ : UInt8) : UInt32 := le32 b₃ b₂ b₁ b₀

namespace Mem

variable (m : Mem) (p : Nat)

def read8 : Option UInt32 := (m p).map UInt8.toUInt32

def read16 : Option UInt32 := do
  return le16 (← m p) (← m (p + 1))

/-- A word whose bytes are put together by `word`. -/
def read32 (word : UInt8 → UInt8 → UInt8 → UInt8 → UInt32) : Option UInt32 := do
  return word (← m p) (← m (p + 1)) (← m (p + 2)) (← m (p + 3))

/-- The bytes of a list are in memory one behind the other. -/
def Holds (bs : List UInt8) : Prop := ∀ i (h : i < bs.length), m (p + i) = some bs[i]

variable {m p} {bs : List UInt8}

theorem Holds.get (h : m.Holds p bs) {i : Nat} (hi : i < bs.length) : m (p + i) = some (bs.getD i 0) := by
  rw [h i hi, List.getD_eq_getElem?_getD, List.getElem?_eq_getElem hi, Option.getD_some]

theorem Holds.drop (h : m.Holds p bs) (k : Nat) : m.Holds (p + k) (bs.drop k) := by
  intro i hi
  rw [List.length_drop] at hi
  rw [Nat.add_assoc, h (k + i) (by omega), List.getElem_drop]

end Mem

theorem toNat_le32 (b₀ b₁ b₂ b₃ : UInt8) :
    (le32 b₀ b₁ b₂ b₃).toNat = b₀.toNat + 256 * b₁.toNat + 65536 * b₂.toNat + 16777216 * b₃.toNat := by
  have h0 := b₀.toNat_lt
  have h1 := b₁.toNat_lt
  have h2 := b₂.toNat_lt
  have h3 := b₃.toNat_lt
  simp only [le32, UInt32.toNat_add, UInt32.toNat_shiftLeft, UInt8.toNat_toUInt32, Nat.shiftLeft_eq]
  simp only [UInt32.reduceToNat, Nat.reduceMod, Nat.reducePow]
  omega

/-- A mask of the low bits. -/
theorem and_low {x mask : UInt32} (k : Nat) (hm : mask.toNat = 2 ^ k - 1) : (x &&& mask).toNat = x.toNat % 2 ^ k := by
  rw [UInt32.toNat_and, hm, Nat.and_two_pow_sub_one_eq_mod]

/-- A mask of the high bits. -/
theorem and_high {x mask : UInt32} (k : Nat) (hk : k ≤ 32) (hm : mask.toNat = 2 ^ 32 - 2 ^ k) :
    (x &&& mask).toNat = x.toNat / 2 ^ k * 2 ^ k := by
  have hx := x.toNat_lt
  rw [UInt32.toNat_and, hm]
  apply Nat.eq_of_testBit_eq
  intro i
  rw [Nat.testBit_and, Nat.testBit_mul_two_pow, Nat.testBit_div_two_pow]
  by_cases hi : i < k
  · have hmask : (2 ^ 32 - 2 ^ k).testBit i = false := by
      rw [show 2 ^ 32 - 2 ^ k = (2 ^ (32 - k) - 1) * 2 ^ k by
        rw [Nat.sub_mul, ← Nat.pow_add, Nat.one_mul, Nat.sub_add_cancel hk], Nat.testBit_mul_two_pow]
      simp [Nat.not_le.mpr hi]
    rw [hmask, Bool.and_false, decide_eq_false (Nat.not_le.mpr hi), Bool.false_and]
  · have hle : k ≤ i := Nat.le_of_not_lt hi
    rw [Nat.sub_add_cancel hle]
    by_cases h32 : i < 32
    · have hmask : (2 ^ 32 - 2 ^ k).testBit i = true := by
        rw [show 2 ^ 32 - 2 ^ k = (2 ^ (32 - k) - 1) * 2 ^ k by
          rw [Nat.sub_mul, ← Nat.pow_add, Nat.one_mul, Nat.sub_add_cancel hk], Nat.testBit_mul_two_pow,
          Nat.testBit_two_pow_sub_one]
        simp only [hle, decide_true, Bool.true_and, decide_eq_true_eq]
        omega
      rw [hmask, Bool.and_true, decide_eq_true hle, Bool.true_and]
    · have hzero : x.toNat.testBit i = false :=
        Nat.testBit_lt_two_pow (lt_of_lt_of_le hx (Nat.pow_le_pow_right (by decide) (by omega)))
      simp [hzero]

/-! A little-endian word through a mask of its first bytes. -/

theorem le32_and_ff (b₀ b₁ b₂ b₃ : UInt8) : le32 b₀ b₁ b₂ b₃ &&& 0xff = le32 b₀ 0 0 0 := by
  rw [← UInt32.toNat_inj, and_low 8 rfl, toNat_le32, toNat_le32]
  have h0 := b₀.toNat_lt
  simp only [UInt8.toNat_zero]
  omega

theorem le32_and_ffff (b₀ b₁ b₂ b₃ : UInt8) : le32 b₀ b₁ b₂ b₃ &&& 0xffff = le32 b₀ b₁ 0 0 := by
  rw [← UInt32.toNat_inj, and_low 16 rfl, toNat_le32, toNat_le32]
  have h0 := b₀.toNat_lt
  have h1 := b₁.toNat_lt
  simp only [UInt8.toNat_zero]
  omega

theorem le32_and_ffffff (b₀ b₁ b₂ b₃ : UInt8) : le32 b₀ b₁ b₂ b₃ &&& 0xffffff = le32 b₀ b₁ b₂ 0 := by
  rw [← UInt32.toNat_inj, and_low 24 rfl, toNat_le32, toNat_le32]
  have h0 := b₀.toNat_lt
  have h1 := b₁.toNat_lt
  have h2 := b₂.toNat_lt
  simp only [UInt8.toNat_zero]
  omega

/-! A big-endian word through a mask of its first bytes. -/

theorem be32_and_ff (b₀ b₁ b₂ b₃ : UInt8) : be32 b₀ b₁ b₂ b₃ &&& 0xff000000 = be32 b₀ 0 0 0 := by
  rw [← UInt32.toNat_inj, and_high 24 (by omega) rfl, be32, be32, toNat_le32, toNat_le32]
  have h1 := b₁.toNat_lt
  have h2 := b₂.toNat_lt
  have h3 := b₃.toNat_lt
  simp only [UInt8.toNat_zero]
  omega

theorem be32_and_ffff (b₀ b₁ b₂ b₃ : UInt8) : be32 b₀ b₁ b₂ b₃ &&& 0xffff0000 = be32 b₀ b₁ 0 0 := by
  rw [← UInt32.toNat_inj, and_high 16 (by omega) rfl, be32, be32, toNat_le32, toNat_le32]
  have h2 := b₂.toNat_lt
  have h3 := b₃.toNat_lt
  simp only [UInt8.toNat_zero]
  omega

theorem be32_and_ffffff (b₀ b₁ b₂ b₃ : UInt8) : be32 b₀ b₁ b₂ b₃ &&& 0xffffff00 = be32 b₀ b₁ b₂ 0 := by
  rw [← UInt32.toNat_inj, and_high 8 (by omega) rfl, be32, be32, toNat_le32, toNat_le32]
  have h3 := b₃.toNat_lt
  simp only [UInt8.toNat_zero]
  omega

end RamCube
