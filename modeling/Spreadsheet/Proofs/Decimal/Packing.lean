import Spreadsheet.Proofs.Decimal.Rounding

/-! # Doubles and their bits
A double is its bits: a sign, an exponent and a significand without its first bit. A finite double
unpacks to a canonical significand and exponent, and such a pair survives packing unless its
exponent is too large, which makes it infinite. What is packed from a number that is
**not negative** unpacks to one. -/

namespace Spreadsheet.Decimal

open Float.Model UnpackedFloat

/-! ## Unpacking -/

variable {s : Sign} {m : Nat} {e : Int} {b : BitVec Format.binary64.numBits}

/-- The first bit of a full significand is not stored. -/
theorem toNat_one_append (significand : BitVec 52) :
    (1#1 ++ significand).toNat = 2 ^ 52 + significand.toNat := by
  change 1 <<< 52 ||| significand.toNat = _
  rw [← Nat.shiftLeft_add_eq_or_of_lt significand.isLt]
  rfl

/-- Bits whose exponent is neither zero nor the greatest one have a full significand. -/
theorem unpack_full {n : Nat} (hexponent : (unpackExponent b).toNat = n + 1)
    (hn : n < 2046) :
    UnpackedFloat.unpack .binary64 b = .finite (Sign.ofBitVec (unpackSign b))
      (2 ^ 52 + (unpackMantissa b).toNat) (n - 1074)
      (Nat.add_pos_left (by decide) _) := by
  have hinfinite : unpackExponent b ≠ -1#11 := by
    intro h
    rw [h] at hexponent
    have : 2047 = n + 1 := hexponent
    omega
  have hzero : unpackExponent b ≠ 0#11 := by
    intro h
    rw [h] at hexponent
    exact nomatch hexponent
  unfold UnpackedFloat.unpack
  rw [if_neg hinfinite, if_neg hzero]
  congr 1
  · exact toNat_one_append _
  · rw [hexponent]
    change ((n + 1 : Nat) : Int) - (1023 + 52) = n - 1074
    omega

/-- Bits whose exponent is zero have the least exponent and a significand that is not full. -/
theorem unpack_least (hexponent : unpackExponent b = 0#11)
    (hsignificand : unpackMantissa b ≠ 0#52) :
    UnpackedFloat.unpack .binary64 b = .finite (Sign.ofBitVec (unpackSign b))
      (unpackMantissa b).toNat (-1074)
      ((BitVec.toNat_pos _).2 ((BitVec.pos_iff_ne_zero _).2 hsignificand)) := by
  have hinfinite : unpackExponent b ≠ -1#11 := by
    rw [hexponent]
    decide
  unfold UnpackedFloat.unpack
  rw [if_neg hinfinite, if_pos hexponent, dif_neg hsignificand, hexponent]
  rfl

/-- Bits whose exponent and significand are zero are zero. -/
theorem unpack_zero (hexponent : unpackExponent b = 0#11)
    (hsignificand : unpackMantissa b = 0#52) :
    UnpackedFloat.unpack .binary64 b =
      .zero (Sign.ofBitVec (unpackSign b)) := by
  have hinfinite : unpackExponent b ≠ -1#11 := by
    rw [hexponent]
    decide
  unfold UnpackedFloat.unpack
  rw [if_neg hinfinite, if_pos hexponent, dif_pos hsignificand]

/-- Bits with the greatest exponent are infinite or not a number. -/
theorem unpack_greatest (hexponent : unpackExponent b = -1#11) :
    UnpackedFloat.unpack .binary64 b =
      if unpackMantissa b = 0#52 then
        .infinity (Sign.ofBitVec (unpackSign b))
      else .notANumber :=
  if_pos hexponent

/-- An exponent is zero, the greatest one or between them. -/
theorem exponent_cases (exponent : BitVec 11) :
    exponent = 0#11 ∨ exponent = -1#11 ∨ ∃ n < 2046, exponent.toNat = n + 1 := by
  by_cases hzero : exponent = 0#11
  · exact .inl hzero
  · by_cases hgreatest : exponent = -1#11
    · exact .inr (.inl hgreatest)
    · have hlt := exponent.isLt
      have hne : exponent.toNat ≠ 0 := fun h => hzero (BitVec.eq_of_toNat_eq h)
      have hne' : exponent.toNat ≠ 2047 := fun h => hgreatest (BitVec.eq_of_toNat_eq h)
      exact .inr (.inr ⟨exponent.toNat - 1, by omega, by omega⟩)

/-- **A finite double unpacks to a canonical pair** whose exponent is at most 971. -/
theorem canonical_of_unpack {hpos : 0 < m}
    (h : UnpackedFloat.unpack .binary64 b = .finite s m e hpos) : Canonical m e ∧ e ≤ 971 := by
  have hsignificand := (unpackMantissa b).isLt
  change _ < 2 ^ 52 at hsignificand
  rcases exponent_cases (unpackExponent b) with hzero | hgreatest | ⟨n, hn, hexp⟩
  · by_cases hne : unpackMantissa b = 0#52
    · rw [unpack_zero hzero hne] at h
      exact nomatch h
    · rw [unpack_least hzero hne] at h
      obtain ⟨-, rfl, rfl⟩ := UnpackedFloat.finite.inj h
      exact ⟨⟨hpos, by omega, le_refl _, .inr rfl⟩, by omega⟩
  · rw [unpack_greatest hgreatest] at h
    split at h <;> exact nomatch h
  · rw [unpack_full hexp hn] at h
    obtain ⟨-, rfl, rfl⟩ := UnpackedFloat.finite.inj h
    exact ⟨⟨hpos, by omega, by omega, .inl (Nat.le_add_right _ _)⟩, by omega⟩

/-- A finite double is zero or unpacks to a significand and an exponent. -/
theorem isFinite_iff {x : Float} : x.isFinite ↔
    (∃ sign, x.toModel.unpack = .zero sign) ∨
      ∃ sign m e hpos, x.toModel.unpack = .finite sign m e hpos := by
  change x.toModel.unpack.isFinite ↔ _
  cases x.toModel.unpack with
  | notANumber | infinity => simp [UnpackedFloat.isFinite]
  | zero sign => simp [UnpackedFloat.isFinite]
  | finite sign m e hpos => simp [UnpackedFloat.isFinite, hpos]

/-! ## Packing -/

/-- The bits of a canonical pair with a full significand. -/
theorem pack_full {hpos : 0 < m} (hlow : 2 ^ 52 ≤ m) (hhigh : m < 2 ^ 53) (he : e ≤ 971) :
    UnpackedFloat.pack .binary64 (.finite s m e hpos) =
      packComponents .binary64 s (BitVec.ofNat _ (e + 1075).toNat) (BitVec.ofNat _ m) := by
  have hlog : m.log2 + 1 = Format.binary64.mantissaBits :=
    congrArg (· + 1) ((Nat.log2_eq_iff hpos.ne').2 ⟨hlow, hhigh⟩)
  have hbiased : (e + Format.binary64.exponentBias + Format.binary64.mantissaBitsWithoutImplicit) =
      e + 1075 := by
    change e + 1023 + 52 = e + 1075
    omega
  have hfits : ¬ 2 ^ Format.binary64.exponentBits ≤ (e + 1075).toNat + 1 := by
    change ¬ 2048 ≤ (e + 1075).toNat + 1
    omega
  unfold UnpackedFloat.pack
  rw [hbiased, if_neg hfits, if_pos hlog]

/-- The bits of a canonical pair with a significand that is not full. -/
theorem pack_least {hpos : 0 < m} (hm : m < 2 ^ 52) :
    UnpackedFloat.pack .binary64 (.finite s m (-1074) hpos) =
      packComponents .binary64 s 0#_ (BitVec.ofNat _ m) := by
  have hlog : ¬ m.log2 + 1 = Format.binary64.mantissaBits := by
    have := (Nat.log2_lt hpos.ne').2 hm
    change ¬ m.log2 + 1 = 53
    omega
  unfold UnpackedFloat.pack
  rw [if_neg (by decide), if_neg hlog]

/-- **A canonical pair survives packing** if its exponent is at most 971. -/
theorem unpack_pack (hm : Canonical m e) (he : e ≤ 971) :
    UnpackedFloat.unpack .binary64 (UnpackedFloat.pack .binary64 (.finite s m e hm.pos)) =
      .finite s m e hm.pos := by
  have hle := hm.le
  have hlt := hm.lt
  by_cases hfull : 2 ^ 52 ≤ m
  · rw [pack_full hfull hlt he]
    have hexponent : (BitVec.ofNat 11 (e + 1075).toNat).toNat = (e + 1074).toNat + 1 := by
      rw [BitVec.toNat_ofNat, Nat.mod_eq_of_lt (by omega)]
      omega
    have hsignificand : 2 ^ 52 + (BitVec.ofNat 52 m).toNat = m := by
      rw [BitVec.toNat_ofNat]
      omega
    rw [unpack_full (n := (e + 1074).toNat) (by rw [unpackExponent_packComponents, hexponent])
      (by omega)]
    congr 1
    · rw [unpackSign_packComponents, Sign.ofBitVec_toBitVec]
    · rw [unpackMantissa_packComponents, hsignificand]
    · omega
  · obtain rfl : e = -1074 := hm.full.resolve_left hfull
    have hsignificand : (BitVec.ofNat 52 m).toNat = m := by
      rw [BitVec.toNat_ofNat, Nat.mod_eq_of_lt (by omega)]
    have hne : BitVec.ofNat 52 m ≠ 0#52 := by
      intro h
      have hpos := hm.pos
      rw [h] at hsignificand
      exact hpos.ne hsignificand
    rw [pack_least (by omega), unpack_least (by rw [unpackExponent_packComponents])
      (by rw [unpackMantissa_packComponents]; exact hne)]
    congr 1
    · rw [unpackSign_packComponents, Sign.ofBitVec_toBitVec]
    · rw [unpackMantissa_packComponents, hsignificand]

/-- **A canonical pair whose exponent is above 971** is packed as an infinity. -/
theorem unpack_pack_of_lt (hm : Canonical m e) (he : 971 < e) :
    UnpackedFloat.unpack .binary64 (UnpackedFloat.pack .binary64 (.finite s m e hm.pos)) =
      .infinity s := by
  have hgreatest : 2 ^ Format.binary64.exponentBits ≤
      (e + Format.binary64.exponentBias +
        Format.binary64.mantissaBitsWithoutImplicit).toNat + 1 := by
    change 2048 ≤ (e + 1023 + 52).toNat + 1
    omega
  have hpack : UnpackedFloat.pack .binary64 (.finite s m e hm.pos) =
      packComponents .binary64 s (-1#11) 0#52 := by
    unfold UnpackedFloat.pack
    rw [if_pos hgreatest]
    rfl
  rw [hpack, unpack_greatest (by rw [unpackExponent_packComponents]),
    if_pos (by rw [unpackMantissa_packComponents]), unpackSign_packComponents,
    Sign.ofBitVec_toBitVec]

/-- A zero survives packing. -/
theorem unpack_pack_zero (s : Sign) :
    UnpackedFloat.unpack .binary64 (UnpackedFloat.pack .binary64 (.zero s)) = .zero s := by
  cases s <;> rfl

/-- An infinity survives packing. -/
theorem unpack_pack_infinity (s : Sign) :
    UnpackedFloat.unpack .binary64 (UnpackedFloat.pack .binary64 (.infinity s)) = .infinity s := by
  cases s <;> rfl

/-! ## Numbers that are not negative -/

/-- The number has a positive sign, infinity and zero included. -/
inductive Nonnegative : UnpackedFloat → Prop
  /-- Infinity. -/
  | infinity : Nonnegative (.infinity .positive)
  /-- Zero. -/
  | zero : Nonnegative (.zero .positive)
  /-- A finite number other than zero. -/
  | finite {m : Nat} {e : Int} (hpos : 0 < m) : Nonnegative (.finite .positive m e hpos)

/-- Bits with a positive sign unpack to a number that is not negative, unless they are NaN. -/
theorem nonnegative_unpack_packComponents {exponent : BitVec 11} {significand : BitVec 52}
    (h : exponent = -1#11 → significand = 0#52) :
    Nonnegative (UnpackedFloat.unpack .binary64
      (packComponents .binary64 .positive exponent significand)) := by
  have hsign : Sign.ofBitVec (unpackSign
      (packComponents .binary64 .positive exponent significand)) = .positive := by
    rw [unpackSign_packComponents, Sign.ofBitVec_toBitVec]
  unfold UnpackedFloat.unpack
  simp only [hsign, unpackExponent_packComponents, unpackMantissa_packComponents]
  split
  · rename_i hexponent
    rw [if_pos (h hexponent)]
    exact .infinity
  · split
    · split
      · exact .zero
      · exact .finite _
    · exact .finite _

/-- **What is packed from a number that is not negative** unpacks to one. -/
theorem Nonnegative.unpack_pack {f : UnpackedFloat} (h : Nonnegative f) :
    Nonnegative (UnpackedFloat.unpack .binary64 (UnpackedFloat.pack .binary64 f)) := by
  cases h with
  | infinity => exact nonnegative_unpack_packComponents fun _ => rfl
  | zero => exact nonnegative_unpack_packComponents fun _ => rfl
  | @finite m e hpos =>
    unfold UnpackedFloat.pack
    dsimp only
    split
    · exact nonnegative_unpack_packComponents fun _ => rfl
    · rename_i hfits
      change ¬ 2048 ≤ _ at hfits
      split
      · refine nonnegative_unpack_packComponents fun hgreatest => ?_
        have hvalue := congrArg BitVec.toNat hgreatest
        rw [BitVec.toNat_ofNat] at hvalue
        change _ % 2048 = 2047 at hvalue
        omega
      · exact nonnegative_unpack_packComponents fun hgreatest => absurd hgreatest (by decide)

end Spreadsheet.Decimal
