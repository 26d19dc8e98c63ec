import TabletopChat.Decimal.Binary
import Mathlib

/-!
# Proofs/Decimal/Bits — a double is what its shape says

A double is determined by its sign, its exponent field and its fraction field, and there is one value
only that is no number. So taking a double apart and putting it together again changes nothing.

- `ofBits_toBits`      : a double from its own bits
- `Magnitude.IsDouble` : the magnitudes of finite doubles
- `finite_of_shape`, `eq_infinity`, `eq_undefinedValue` : a double from its shape
-/

namespace TabletopChat

namespace Decimal

open Float.Model (Format)
open Float.Model.UnpackedFloat

/-! ## Three fields -/

abbrev word (s : Sign) (e : BitVec 11) (f : BitVec 52) : BitVec 64 :=
  packComponents Format.binary64 s e f

theorem toBitVec_ofBitVec (s : BitVec 1) : (Sign.ofBitVec s).toBitVec = s := by
  revert s
  decide

theorem ofBitVec_toBitVec (s : Sign) : Sign.ofBitVec s.toBitVec = s := by
  cases s <;> rfl

theorem unpackSign_word (s : Sign) (e : BitVec 11) (f : BitVec 52) :
    @unpackSign Format.binary64 (word s e f) = s.toBitVec := by
  simp only [word, packComponents, unpackSign, BitVec.extractLsb]
  ext i hi
  grind

/-- Every sixty-four bits are a sign, an exponent and a fraction. -/
theorem exists_word (b : BitVec 64) : ∃ s e f, b = word s e f := by
  refine ⟨Sign.ofBitVec (@unpackSign Format.binary64 b),
    @unpackExponent Format.binary64 b, @unpackMantissa Format.binary64 b, ?_⟩
  simp only [word, packComponents, toBitVec_ofBitVec, unpackSign, unpackExponent, unpackMantissa,
    BitVec.extractLsb]
  ext i hi
  grind

/-- The bits of a double as a number. -/
theorem toNat_word (s : Sign) (e : BitVec 11) (f : BitVec 52) :
    (word s e f).toNat = s.toBitVec.toNat * 2 ^ 63 + e.toNat * 2 ^ 52 + f.toNat := by
  have hf := f.isLt
  have he := e.isLt
  have hinner : (e ++ f).toNat = e.toNat * 2 ^ 52 + f.toNat := by
    rw [BitVec.toNat_append, ← Nat.shiftLeft_add_eq_or_of_lt hf, Nat.shiftLeft_eq]
  have hassoc : word s e f = s.toBitVec ++ (e ++ f) := by
    simp only [word, packComponents]
    ext i hi
    grind
  rw [hassoc, BitVec.toNat_append, ← Nat.shiftLeft_add_eq_or_of_lt (e ++ f).isLt, Nat.shiftLeft_eq,
    hinner]
  ring

/-! ## Putting together what was taken apart -/

/-- A double with an exponent between the least and the greatest is read with its leading bit. -/
theorem unpack_word_normal (s : Sign) {e : BitVec 11} (f : BitVec 52) (he : e ≠ -1#11) (hz : e ≠ 0#11) :
    ∃ h, unpack Format.binary64 (word s e f) =
      .finite s (2 ^ 52 + f.toNat) ((e.toNat : Int) - 1075) h := by
  have hone : (1#1 ++ f).toNat = 2 ^ 52 + f.toNat := by
    rw [BitVec.toNat_append, ← Nat.shiftLeft_add_eq_or_of_lt f.isLt, Nat.shiftLeft_eq]
    rfl
  refine ⟨by positivity, ?_⟩
  unfold unpack
  simp only [unpackMantissa_packComponents, unpackExponent_packComponents, unpackSign_word,
    ofBitVec_toBitVec, he, hz, if_false]
  congr 1

/-- The smallest doubles are read without one. -/
theorem unpack_word_subnormal (s : Sign) {f : BitVec 52} (hf : f ≠ 0#52) :
    ∃ h, unpack Format.binary64 (word s 0#11 f) = .finite s f.toNat (-1074) h := by
  have hpos : 0 < f.toNat := by
    rcases Nat.eq_zero_or_pos f.toNat with h | h
    · exact absurd (BitVec.eq_of_toNat_eq h) hf
    · exact h
  refine ⟨hpos, ?_⟩
  unfold unpack
  simp only [unpackMantissa_packComponents, unpackExponent_packComponents, unpackSign_word,
    ofBitVec_toBitVec, hf]
  rfl

/-- Packing a number with a leading bit puts its parts next to each other. -/
theorem pack_normal (s : Sign) {e : BitVec 11} (f : BitVec 52) (he : e ≠ -1#11) (h) :
    pack Format.binary64 (.finite s (2 ^ 52 + f.toNat) ((e.toNat : Int) - 1075) h) = word s e f := by
  have hf := f.isLt
  have hmax : e.toNat ≠ 2047 := fun hmax => he (BitVec.eq_of_toNat_eq hmax)
  have he := e.isLt
  have hlog : (2 ^ 52 + f.toNat).log2 = 52 := (Nat.log2_eq_iff (by omega)).mpr ⟨by omega, by omega⟩
  have hbiased : ((e.toNat : Int) - 1075 + Format.binary64.exponentBias +
      Format.binary64.mantissaBitsWithoutImplicit).toNat = e.toNat := by
    have : (Format.binary64.exponentBias : Int) = 1023 := rfl
    have : (Format.binary64.mantissaBitsWithoutImplicit : Int) = 52 := rfl
    omega
  have hfraction : BitVec.ofNat 52 (2 ^ 52 + f.toNat) = f := by
    apply BitVec.eq_of_toNat_eq
    rw [BitVec.toNat_ofNat]
    omega
  have hbits : Format.binary64.mantissaBits = 53 := rfl
  unfold pack
  simp only [hbiased, hbits, hlog, hfraction, BitVec.ofNat_toNat, BitVec.setWidth_eq]
  rw [if_neg (by omega), if_pos trivial]

/-- Packing a number without a leading bit leaves the exponent zero. -/
theorem pack_subnormal (s : Sign) (f : BitVec 52) (h) :
    pack Format.binary64 (.finite s f.toNat (-1074) h) = word s 0#11 f := by
  have hlog : f.toNat.log2 < 52 := (Nat.log2_lt (by omega)).mpr f.isLt
  have hbits : Format.binary64.mantissaBits = 53 := rfl
  have hbiased : (-1074 + (Format.binary64.exponentBias : Int) +
      Format.binary64.mantissaBitsWithoutImplicit).toNat = 1 := rfl
  unfold pack
  simp only [hbiased, hbits, BitVec.ofNat_toNat, BitVec.setWidth_eq]
  rw [if_neg (by decide), if_neg (by omega)]

/-- Reading the bits of a double and writing them again changes nothing. -/
theorem pack_unpack {b : BitVec 64} (h : Format.binary64.Valid b) :
    pack Format.binary64 (unpack Format.binary64 b) = b := by
  obtain ⟨s, e, f, rfl⟩ := exists_word b
  -- the exponent field tells infinities, small numbers and the others apart
  by_cases hmax : e = -1#11
  · subst hmax
    by_cases hfraction : f = 0#52
    · subst hfraction
      simp only [unpack, unpackMantissa_packComponents, unpackExponent_packComponents,
        unpackSign_word, ofBitVec_toBitVec, if_true]
      rfl
    · -- only one word is no number
      rw [h.eq_packedNaN unpackExponent_packComponents (by simpa using hfraction)]
      rfl
  by_cases hmin : e = 0#11
  · subst hmin
    by_cases hfraction : f = 0#52
    · subst hfraction
      cases s <;> rfl
    · obtain ⟨hpos, hunpack⟩ := unpack_word_subnormal s hfraction
      rw [hunpack, pack_subnormal]
  · obtain ⟨hpos, hunpack⟩ := unpack_word_normal s f hmax hmin
    rw [hunpack, pack_normal s f hmax]

/-- A double from its own bits. -/
theorem ofBits_toBits (x : Float) : Float.ofBits x.toBits = x := by
  obtain ⟨⟨bits, hvalid⟩⟩ := x
  have hbits : Float.Model.pack (unpack Format.binary64 bits.toBitVec) = ⟨bits, hvalid⟩ := by
    simp only [Float.Model.pack, pack_unpack hvalid]
  exact congrArg Float.ofModel hbits

/-! ## The shape of a double -/

/-- The magnitudes of finite doubles: the significand has fifty-three digits, or fewer at the least
exponent. -/
structure Magnitude.IsDouble (m : Magnitude) : Prop where
  mant_lt : m.mant < 2 ^ 53
  least_le : -1074 ≤ m.exp
  le_greatest : m.exp ≤ 971
  normal : 2 ^ 52 ≤ m.mant ∨ m.exp = -1074

theorem eq_withSign {x : Float} {neg : Bool} {bits : Nat}
    (h : x.toBits.toNat = if neg then 2 ^ 63 + bits else bits) : x = withSign neg bits := by
  have hbits : UInt64.ofNat (if neg then Nat.pow 2 63 + bits else bits) = x.toBits := by
    rw [← UInt64.ofNat_toNat (x := x.toBits), h]
    rfl
  rw [withSign, hbits, ofBits_toBits]

/-- Every double has a sign, an exponent and a fraction, from which its shape is read. -/
theorem shape_cases (x : Float) :
    ∃ neg field frac, field < 2048 ∧ frac < 2 ^ 52 ∧
      x = withSign neg (field * 2 ^ 52 + frac) ∧
      x.toBits.toNat % 2 ^ 63 = field * 2 ^ 52 + frac ∧
      shape x =
        if field = 2047 then if frac = 0 then .infinite neg else .nan
        else if field = 0 then .finite neg ⟨frac, -1074⟩
        else .finite neg ⟨2 ^ 52 + frac, (field : Int) - 1075⟩ := by
  have hlt : x.toBits.toNat < 2 ^ 64 := x.toBits.toNat_lt
  refine ⟨decide (x.toBits.toNat ≥ 2 ^ 63), x.toBits.toNat / 2 ^ 52 % 2048, x.toBits.toNat % 2 ^ 52,
    Nat.mod_lt _ (by decide), Nat.mod_lt _ (by decide), ?_, by omega, rfl⟩
  apply eq_withSign
  simp only [decide_eq_true_eq]
  split <;> omega

/-- There are two infinities only. -/
theorem eq_infinity {x : Float} {neg : Bool} (h : shape x = .infinite neg) : x = infinity neg := by
  obtain ⟨neg', field, frac, hfield, hfrac, hx, -, hshape⟩ := shape_cases x
  rw [hshape] at h
  split at h
  · split at h
    · cases h
      simp_all [infinity]
    · cases h
  · split at h <;> cases h

/-- There is only one value that is no number. -/
theorem eq_undefinedValue {x : Float} (h : shape x = .nan) : x = undefinedValue := by
  obtain ⟨neg, field, frac, -, hfrac, -, hbits, hshape⟩ := shape_cases x
  have hfields : field = 2047 ∧ frac ≠ 0 := by
    rw [hshape] at h
    split at h
    · split at h
      · cases h
      · exact ⟨‹_›, ‹_›⟩
    · split at h <;> cases h
  obtain ⟨s, e, f, hword⟩ := exists_word x.toBits.toBitVec
  have hnat : x.toBits.toNat = s.toBitVec.toNat * 2 ^ 63 + e.toNat * 2 ^ 52 + f.toNat :=
    (congrArg BitVec.toNat hword).trans (toNat_word s e f)
  have he : e = -1#11 := by
    apply BitVec.eq_of_toNat_eq
    have := e.isLt
    have := f.isLt
    change e.toNat = 2047
    omega
  have hf : f ≠ 0#52 := by
    rintro rfl
    have : (0#52 : BitVec 52).toNat = 0 := rfl
    omega
  -- one word alone is valid among those that are no number
  have hvalid := x.toModel.valid.eq_packedNaN
  change @unpackExponent Format.binary64 x.toBits.toBitVec = _ →
    @unpackMantissa Format.binary64 x.toBits.toBitVec ≠ _ → _ at hvalid
  rw [hword, unpackExponent_packComponents, unpackMantissa_packComponents] at hvalid
  have hcanonical : x.toBits = 0x7FF8000000000000 := UInt64.toBitVec_inj.mp
    ((hvalid he hf).trans rfl)
  rw [← ofBits_toBits x, hcanonical, undefinedValue]

/-- A mantissa of full length keeps its exponent. -/
theorem assemble_normal (neg : Bool) {field : Nat} (frac : Nat) (hfrac : frac < 2 ^ 52)
    (hfield : field < 2047) :
    assemble neg (2 ^ 52 + frac) ((field : Int) - 1075) = withSign neg (field * 2 ^ 52 + frac) := by
  have hlarge : ¬ 2 ^ 52 + frac < Nat.pow 2 52 := Nat.not_lt.mpr (Nat.le_add_right _ _)
  have hsmall : 2 ^ 52 + frac ≠ Nat.pow 2 53 := by
    change 2 ^ 52 + frac ≠ 2 ^ 53
    omega
  have hexp : ¬ (field : Int) - 1075 + 1075 ≥ 2047 := by omega
  have hnat : ((field : Int) - 1075 + 1075).toNat = field := by omega
  unfold assemble
  simp only [hlarge, hsmall, if_false, hexp, hnat, Nat.pow_eq, Nat.add_sub_cancel_left]

/-- A finite double is put together from its magnitude. -/
theorem finite_of_shape {x : Float} {neg : Bool} {m : Magnitude} (h : shape x = .finite neg m) :
    m.IsDouble ∧ x = assemble neg m.mant m.exp := by
  obtain ⟨neg', field, frac, hfield, hfrac, hx, -, hshape⟩ := shape_cases x
  rw [hshape] at h
  split at h
  · split at h <;> cases h
  split at h
  · rename_i hzero
    cases h
    refine ⟨⟨by change frac < _; omega, le_refl _, by change (-1074 : Int) ≤ _; omega, .inr rfl⟩, ?_⟩
    rw [hx, hzero, assemble, if_pos (by exact hfrac), Nat.zero_mul, Nat.zero_add]
  · rename_i hmax hpos
    cases h
    refine ⟨⟨by change 2 ^ 52 + frac < _; omega, by change _ ≤ (field : Int) - 1075; omega,
      by change (field : Int) - 1075 ≤ _; omega, .inl (by change _ ≤ 2 ^ 52 + frac; omega)⟩, ?_⟩
    rw [hx, assemble_normal neg frac hfrac (by omega)]

/-! ## Whole numbers -/

theorem natAbs_signed (neg : Bool) (n : Nat) : (signed neg n).natAbs = n := by
  cases neg <;> simp [signed]

/-- The numerator of a double is at most its mantissa, shifted. -/
theorem Magnitude.ratio_fst_le (m : Magnitude) : m.ratio.1 ≤ m.mant * 2 ^ m.exp.toNat := by
  unfold Magnitude.ratio
  split
  · rename_i k hk
    simp [hk]
  · exact Nat.le_mul_of_pos_right _ (Nat.two_pow_pos _)

end Decimal

end TabletopChat
