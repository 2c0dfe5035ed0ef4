import Spreadsheet.Engine.Report
import Spreadsheet.Precision
import Spreadsheet.Proofs.Decimal.Shortest

/-! # Texts of stored values
Every single-precision number is also a double, so **widening is exact**. The row grid shows a
stored value as the shortest decimal of that double, written without a power of ten; zero has no
sign, and the infinities and NaN have words. -/

namespace Spreadsheet

open Float.Model UnpackedFloat Decimal

variable {m : Nat} {e : Int} {s : Sign} {hpos : 0 < m} {value : Float32}

/-! ## Widening -/

/-- A finite single-precision number has at most 24 bits and an exponent between two bounds. -/
theorem bounds_of_unpack_single {b : BitVec Format.binary32.numBits}
    (h : UnpackedFloat.unpack .binary32 b = .finite s m e hpos) :
    m < 2 ^ 24 ∧ -149 ≤ e ∧ e ≤ 104 := by
  have hmantissa := (unpackMantissa b).isLt
  have hfull := (1#1 ++ unpackMantissa b).isLt
  have hexponent := (unpackExponent b).isLt
  change _ < 2 ^ 23 at hmantissa
  change _ < 2 ^ 24 at hfull
  change _ < 2 ^ 8 at hexponent
  have hbias : ((Format.binary32.exponentBias : Int) +
      Format.binary32.mantissaBitsWithoutImplicit) = 150 := rfl
  unfold UnpackedFloat.unpack at h
  dsimp only at h
  rw [hbias] at h
  split at h
  · split at h <;> exact nomatch h
  · rename_i hfinite
    split at h
    · rename_i hzero
      split at h
      · exact nomatch h
      · obtain ⟨-, rfl, rfl⟩ := UnpackedFloat.finite.inj h
        rw [hzero]
        exact ⟨by omega, by decide, by decide⟩
    · rename_i hzero
      have hne : (unpackExponent b).toNat ≠ 255 := fun heq => hfinite (BitVec.eq_of_toNat_eq heq)
      have hne' : (unpackExponent b).toNat ≠ 0 := fun heq => hzero (BitVec.eq_of_toNat_eq heq)
      obtain ⟨-, rfl, rfl⟩ := UnpackedFloat.finite.inj h
      exact ⟨hfull, by omega, by omega⟩

/-- The double that a single-precision number is widened to is packed from its parts. -/
theorem unpack_widen (value : Float32) : (widen value).toModel.unpack =
    UnpackedFloat.unpack .binary64 (UnpackedFloat.pack .binary64 (match value.toModel.unpack with
      | .finite sign significand exponent _ => .round .binary64 sign significand exponent
      | special => special)) := rfl

/-- **Widening is exact.** -/
theorem exists_unpack_widen (h : value.toModel.unpack = .finite s m e hpos) :
    ∃ (n : Nat) (k : Int) (hn : Canonical n k), (n * 2 ^ k : ℚ) = m * 2 ^ e ∧
      (widen value).toModel.unpack = .finite s n k hn.pos := by
  obtain ⟨hlt, hlow, hhigh⟩ := bounds_of_unpack_single h
  obtain ⟨j, hj, -, hn⟩ :=
    exists_canonical_shift hpos (hlt.trans (by decide)) (by omega : -1022 ≤ e)
  refine ⟨m * 2 ^ j, e - j, hn, mul_two_pow_mul_zpow_sub m j e, ?_⟩
  rw [unpack_widen, h]
  dsimp only
  rw [round_eq s hj hn, unpack_pack hn (by omega)]

/-- Zeros, infinities and NaN stay what they are. -/
theorem unpack_widen_of_special {special : UnpackedFloat} (h : value.toModel.unpack = special)
    (hspecial : ∀ s m e hpos, special ≠ .finite s m e hpos) :
    (widen value).toModel.unpack = special := by
  rw [unpack_widen, h]
  cases special with
  | notANumber => rfl
  | infinity s => exact unpack_pack_infinity s
  | zero s => exact unpack_pack_zero s
  | finite s m e hpos => exact absurd rfl (hspecial s m e hpos)

/-! ## Texts -/

/-- What the row grid shows for a stored value. -/
inductive Shows (value : Float32) : String → Prop
  /-- NaN is shown as a word. -/
  | nan : value.toModel.unpack = .notANumber → Shows value "NaN"
  /-- So is infinity. -/
  | infinity : value.toModel.unpack = .infinity .positive → Shows value "Infinity"
  /-- The negative infinity has a sign. -/
  | negativeInfinity : value.toModel.unpack = .infinity .negative → Shows value "-Infinity"
  /-- Neither of the two zeros has one. -/
  | zero {s : Sign} : value.toModel.unpack = .zero s → Shows value "0"
  /-- Any other number is shown as the shortest decimal of the double that is equal to it, as a
  numeral without zeros that could be left out, with a sign in front if it is negative. -/
  | finite {s : Sign} {m n places units : Nat} {e k : Int} {hpos : 0 < m} {d : Scaled}
    {text : List Char} :
    value.toModel.unpack = .finite s m e hpos → Canonical n k → (n * 2 ^ k : ℚ) = m * 2 ^ e →
      IsShortest d n k → Trimmed places units text →
      (units : ℚ) = d.coefficient * 10 ^ d.exponent * 10 ^ places →
      Shows value (Layout.signed (s == .negative) text)

/-- **A stored value is shown as it should be.** -/
theorem shows_cellText (value : Float32) : Shows value (cellText value) := by
  unfold cellText
  cases hunpack : value.toModel.unpack with
  | notANumber =>
    have hwiden := unpack_widen_of_special hunpack (by simp)
    rw [Value.ofDouble, hwiden]
    exact .nan hunpack
  | infinity s =>
    have hwiden := unpack_widen_of_special hunpack (by simp)
    rw [Value.ofDouble, hwiden]
    cases s with
    | positive => exact .infinity hunpack
    | negative => exact .negativeInfinity hunpack
  | zero s =>
    have hwiden := unpack_widen_of_special hunpack (by simp)
    rw [Value.ofDouble, hwiden]
    exact .zero hunpack
  | finite s m e hpos =>
    obtain ⟨n, k, hn, hvalue, hwiden⟩ := exists_unpack_widen hunpack
    have hshortest := Interval.isShortest_shortest (m := n) (e := k) decide_eq_true_iff hn
    obtain ⟨places, units, htrimmed, hunits⟩ := hshortest.exists_trimmed hn
    rw [Value.ofDouble, hwiden]
    exact .finite hunpack hn hvalue hshortest htrimmed hunits

example : cellText (-2.0697675) = "-2.069767475128174" := by decide +kernel

end Spreadsheet
