import Mathlib
import Snowbank.Proofs.Number.Double

/-!
# Whole Doubles

A double without a fractional part that is below `2 ^ 53` in size is an integer
exactly: the integer turned into a double again is the double it came from.

Converting an integer rounds its mantissa, multiplies by one and rounds again.
Nothing is lost on the way, because the mantissa of a double has all its bits in
their place already, and whatever is moved out of it is zero.

## Main definitions

* `Normal`: The mantissa fills its field.
* `Exact`: The mantissa is as long as it can be, or the exponent is least.

## Theorems

* `roundWithAccuracy_of_exact`: Rounding what is exact loses nothing.
* `ofInt_wholePart`: A whole double comes back from its integer.
-/

namespace Snowbank

variable {x : Float} {m k n : Nat} {u : UnpackedFloat}

theorem Dyadic.exists_whole (negative : Bool)
    (h : 0 ≤ -(k : Int) ∨ m % Nat.pow 2 (- -(k : Int)).toNat = 0) :
    ∃ n, m = n * 2 ^ k ∧ (Dyadic.mk negative m (-k)).whole = n := by
  unfold whole
  by_cases hzero : 0 ≤ -(k : Int)
  · have hk : k = 0 := by omega
    subst hk
    exact ⟨m, (Nat.mul_one m).symm, by rw [if_pos hzero]; exact Nat.mul_one m⟩
  · rw [if_neg hzero]
    have hmod := h.resolve_left hzero
    rw [Int.neg_neg, Int.toNat_natCast, Nat.pow_eq] at hmod ⊢
    exact ⟨m / 2 ^ k, (Nat.div_mul_cancel (Nat.dvd_of_mod_eq_zero hmod)).symm, rfl⟩

namespace Double

open Float.Model (UnpackedFloat)
open Float.Model.Format (binary64)
open Float.Model.UnpackedFloat

/-- The mantissa fills its field, and the exponent is one that doubles have. -/
structure Normal (m : Nat) (e : Int) : Prop where
  low : 2 ^ 52 ≤ m
  high : m < 2 ^ 53
  least : -1074 ≤ e
  most : e ≤ 971

section

variable {m : Nat} {e : Int}

theorem Normal.pos (h : Normal m e) : 0 < m := Nat.lt_of_lt_of_le (by decide) h.low

theorem Normal.log2_eq (h : Normal m e) : m.log2 = 52 :=
  (Nat.log2_eq_iff (Nat.ne_of_gt h.pos)).2 ⟨h.low, h.high⟩

theorem log2_mul_two_pow (hm : 0 < m) (k : Nat) : (m * 2 ^ k).log2 = m.log2 + k := by
  have hpos : 0 < 2 ^ k := Nat.two_pow_pos k
  have hbounds := (Nat.log2_eq_iff (Nat.ne_of_gt hm)).1 rfl
  rw [Nat.log2_eq_iff (Nat.ne_of_gt (Nat.mul_pos hm hpos)), Nat.add_right_comm, Nat.pow_add,
    Nat.pow_add]
  exact ⟨Nat.mul_le_mul_right _ hbounds.1, Nat.mul_lt_mul_of_pos_right hbounds.2 hpos⟩

theorem finite_congr {s t : Sign} {e f : Int} {hm : 0 < m} {hn : 0 < n} (hs : s = t)
    (hmn : m = n) (hef : e = f) : finite s m e hm = .finite t n f hn := by
  subst hs hmn hef
  rfl

theorem toNat_implicit (v : BitVec 52) : (1#1 ++ v).toNat = v.toNat + 2 ^ 52 := by
  rw [BitVec.toNat_append, ← Nat.shiftLeft_add_eq_or_of_lt v.isLt, Nat.shiftLeft_eq]
  exact Nat.add_comm _ _

theorem unpack_pack (h : Normal m e) (s : Sign) (hm : 0 < m) :
    (Float.Model.pack (.finite s m e hm)).unpack = .finite s m e hm := by
  have hleast := h.least
  have hmost := h.most
  have hlow := h.low
  have hhigh := h.high
  -- the exponent as it is stored, neither the greatest nor zero
  obtain ⟨b, hb⟩ : ∃ b : Nat, (e + 1075).toNat = b := ⟨_, rfl⟩
  have hstored : (BitVec.ofNat 11 b).toNat = b := by
    rw [BitVec.toNat_ofNat, Nat.mod_eq_of_lt (by omega)]
  have hgreatest : BitVec.ofNat 11 b ≠ -1#11 := by
    intro heq
    have := congrArg BitVec.toNat heq
    rw [hstored] at this
    simp at this
    omega
  have hzero : BitVec.ofNat 11 b ≠ 0#11 := by
    intro heq
    have := congrArg BitVec.toNat heq
    rw [hstored] at this
    simp at this
    omega
  have hpack : pack binary64 (.finite s m e hm) =
      packComponents binary64 s (BitVec.ofNat 11 b) (BitVec.ofNat 52 m) := by
    unfold pack
    have hbiased : (e + (binary64.exponentBias : Int) + (52 : Nat)).toNat = b := by
      rw [← hb]
      have : (binary64.exponentBias : Int) = 1023 := rfl
      omega
    dsimp only
    rw [hbiased, h.log2_eq, if_neg (by omega), if_pos (by rfl)]
  have hmantissa : (1#1 ++ BitVec.ofNat 52 m).toNat = m := by
    rw [toNat_implicit, BitVec.toNat_ofNat]
    omega
  change unpack binary64 (pack binary64 _) = _
  rw [hpack]
  unfold unpack
  simp only [unpackMantissa_packComponents,
    unpackExponent_packComponents, unpackSign_packComponents]
  rw [if_neg hgreatest, if_neg hzero]
  refine finite_congr ?_ hmantissa ?_
  · cases s <;> rfl
  · rw [hstored]
    have : (binary64.exponentBias : Int) = 1023 := rfl
    omega

end

section

variable {m : Nat} {e : Int}

/-- Zeros are moved out of a mantissa without a trace. -/
theorem repeat_shiftRightOne (m k : Nat) :
    Nat.repeat ExtendedMantissa.shiftRightOne k ⟨m * 2 ^ k, false, false⟩ = ⟨m, false, false⟩ := by
  induction k generalizing m with
  | zero =>
    rw [Nat.pow_zero, Nat.mul_one]
    rfl
  | succ k ih =>
    have hm : m * 2 ^ (k + 1) = m * 2 * 2 ^ k := by
      rw [Nat.pow_succ, Nat.mul_assoc, Nat.mul_comm (2 ^ k)]
    rw [Nat.repeat, hm, ih (m * 2), ExtendedMantissa.shiftRightOne]
    simp

/-- The mantissa of a double is as long as it can be, or its exponent is the least. -/
structure Exact (m : Nat) (e : Int) : Prop where
  pos : 0 < m
  high : m < 2 ^ 53
  least : -1074 ≤ e
  full : 2 ^ 52 ≤ m ∨ e = -1074

theorem Normal.exact (h : Normal m e) : Exact m e := ⟨h.pos, h.high, h.least, .inl h.low⟩

theorem Exact.targetExponent_eq (h : Exact m e) (k : Nat) :
    binary64.targetExponent (Float.Model.totalExponent (m * 2 ^ k) (e - k)) = e := by
  have hne := Nat.ne_of_gt h.pos
  have hleast := h.least
  have hhigh : m.log2 < 53 := (Nat.log2_lt hne).2 h.high
  have hfull : 52 ≤ m.log2 ∨ e = -1074 := h.full.imp_left (Nat.le_log2 hne).2
  have hbits : (binary64.mantissaBits : Int) = 53 := rfl
  have hmin : binary64.minExponent = -1074 := rfl
  rw [Float.Model.Format.targetExponent, Float.Model.totalExponent, log2_mul_two_pow h.pos, hbits,
    hmin]
  omega

theorem Exact.shiftToTargetExponent_eq (h : Exact m e) (k : Nat) :
    shiftToTargetExponent binary64 (m * 2 ^ k) (e - k) .exact = (⟨m, false, false⟩, e) := by
  have hshift : (e - (e - k)).toNat = k := by omega
  rw [shiftToTargetExponent, h.targetExponent_eq k, shiftToExponent, hshift]
  refine Prod.ext (repeat_shiftRightOne m k) ?_
  omega

theorem roundWithAccuracy_of_exact (h : Exact m e) (s : Sign) (k : Nat) :
    roundWithAccuracy binary64 s (m * 2 ^ k) (e - k) .exact = .finite s m e h.pos := by
  have hagain : shiftToTargetExponent binary64 m e .exact =
      (⟨m, false, false⟩, e) := by
    have hzero := h.shiftToTargetExponent_eq 0
    rwa [Nat.pow_zero, Nat.mul_one, Int.natCast_zero, Int.sub_zero] at hzero
  have hrounded : (ExtendedMantissa.mk m false false).roundedMantissa = m := rfl
  unfold roundWithAccuracy
  rw [h.shiftToTargetExponent_eq k]
  dsimp only
  rw [hrounded, hagain]
  exact dif_neg (Nat.ne_of_gt h.pos)

theorem round_of_normal (h : Normal (n * 2 ^ k) (-k)) :
    UnpackedFloat.round binary64 .positive n 0 = .finite .positive (n * 2 ^ k) (-k) h.pos := by
  have hleast := h.least
  have hn : 0 < n := Nat.pos_of_mul_pos_right h.pos
  have hlog : n.log2 + k = 52 := by rw [← log2_mul_two_pow hn, h.log2_eq]
  have htarget : binary64.targetExponent (Float.Model.totalExponent n 0) = -k := by
    have hbits : (binary64.mantissaBits : Int) = 53 := rfl
    have hmin : binary64.minExponent = -1074 := rfl
    rw [Float.Model.Format.targetExponent, Float.Model.totalExponent, hbits, hmin]
    omega
  have hround := roundWithAccuracy_of_exact h.exact .positive 0
  rw [Nat.pow_zero, Nat.mul_one, Int.natCast_zero, Int.sub_zero] at hround
  simp only [UnpackedFloat.round, htarget, decreaseExponent, Nat.shiftLeft_eq,
    Int.zero_sub, Int.neg_neg, Int.toNat_natCast]
  exact hround

theorem meaning_ofNat (h : Normal (n * 2 ^ k) (-k)) :
    meaning (Float.ofNat n) = .finite .positive (n * 2 ^ k) (-k) h.pos := by
  have hn : 0 < n := Nat.pos_of_mul_pos_right h.pos
  have hlt : n < 2 ^ 53 := Nat.lt_of_le_of_lt (Nat.le_mul_of_pos_right n (Nat.two_pow_pos k)) h.high
  have hfloat : meaning n.toUInt64.toFloat = .finite .positive (n * 2 ^ k) (-k) h.pos := by
    change (Float.Model.pack (UnpackedFloat.normalize binary64
      (n.toUInt64.toNat : Int) 0 .positive)).unpack = _
    have hnat : n.toUInt64.toNat = n := by rw [UInt64.toNat_ofNat', Nat.mod_eq_of_lt (by omega)]
    have hgt : compare (n : Int) 0 = .gt := Int.compare_eq_gt.2 (by omega)
    rw [hnat, UnpackedFloat.normalize, hgt]
    rw [Int.toNat_natCast, round_of_normal h, unpack_pack h]
  have hone : Float.ofNat n = n.toUInt64.toFloat * Float.ofBits 0x3FF0000000000000 := by
    change Float.ofScientific n false 0 = _
    unfold Float.ofScientific
    rw [dif_pos ⟨hlt, by decide⟩]
    rfl
  have hmul : mul binary64 (.finite .positive (n * 2 ^ k) (-k) h.pos)
      (meaning (Float.ofBits 0x3FF0000000000000)) = .finite .positive (n * 2 ^ k) (-k) h.pos :=
    roundWithAccuracy_of_exact h.exact .positive 52
  rw [hone]
  change (Float.Model.pack (mul binary64 (meaning n.toUInt64.toFloat)
    (meaning (Float.ofBits 0x3FF0000000000000)))).unpack = _
  rw [hfloat, hmul, unpack_pack h]

end

/-- The sign is that of numbers below zero. -/
def isNegative : Sign → Bool
  | .negative => true
  | .positive => false

theorem toNat_unpackMantissa (b : BitVec 64) :
    (@unpackMantissa binary64 b).toNat = b.toNat % 2 ^ 52 := by
  simp [unpackMantissa, BitVec.extractLsb_toNat]

theorem toNat_unpackExponent (b : BitVec 64) :
    (@unpackExponent binary64 b).toNat = b.toNat / 2 ^ 52 % 2 ^ 11 := by
  simp [unpackExponent, BitVec.extractLsb_toNat, Nat.shiftRight_eq_div_pow]

theorem isNegative_unpackSign (b : BitVec 64) :
    isNegative (Sign.ofBitVec (@unpackSign binary64 b)) = (b.toNat / 2 ^ 63 == 1) := by
  have hsign : (@unpackSign binary64 b).toNat = b.toNat / 2 ^ 63 := by
    have hlt : b.toNat / 2 ^ 63 < 2 := by omega
    simp [unpackSign, BitVec.extractLsb_toNat, Nat.shiftRight_eq_div_pow]
    omega
  unfold Sign.ofBitVec
  split
  next hzero =>
    rw [← hsign, hzero]
    rfl
  next hne =>
    have hlt := (@unpackSign binary64 b).isLt
    have hone : (@unpackSign binary64 b).toNat ≠ 0 :=
      fun h => hne (BitVec.eq_of_toNat_eq h)
    have heq : b.toNat / 2 ^ 63 = 1 := by omega
    rw [heq]
    rfl

/-- A finite double is a zero, a double of full precision, or one of the
    numbers around zero that have less. -/
theorem meaning_cases (h : x.isFinite) :
    (∃ s, meaning x = .zero s ∧ Dyadic.ofFloat? x = some ⟨isNegative s, 0, -1074⟩) ∨
      ∃ s m e hm, meaning x = .finite s m e hm ∧ Dyadic.ofFloat? x = some ⟨isNegative s, m, e⟩ ∧
        (Normal m e ∨ (m < 2 ^ 52 ∧ e = -1074)) := by
  obtain ⟨b, hb⟩ : ∃ b, x.toBits.toBitVec = b := ⟨_, rfl⟩
  have hm := toNat_unpackMantissa b
  have he := toNat_unpackExponent b
  have hs := isNegative_unpackSign b
  have hbias : (binary64.exponentBias : Int) = 1023 := rfl
  -- the parts are read off the bits twice, here by division
  have hread : Dyadic.ofFloat? x =
      if b.toNat / 2 ^ 52 % 2 ^ 11 == 2047 then none
      else if b.toNat / 2 ^ 52 % 2 ^ 11 == 0 then
        some ⟨b.toNat / 2 ^ 63 == 1, b.toNat % 2 ^ 52, -1074⟩
      else some ⟨b.toNat / 2 ^ 63 == 1, b.toNat % 2 ^ 52 + 2 ^ 52,
        Int.ofNat (b.toNat / 2 ^ 52 % 2 ^ 11) - 1075⟩ := by
    rw [← hb]
    rfl
  have hunpack : meaning x = unpack binary64 b := by
    rw [← hb]
    rfl
  have hfinite : (meaning x).isFinite := h
  unfold unpack at hunpack
  dsimp only at hunpack
  -- the greatest exponent is that of infinities and NaN
  by_cases hgreatest : @unpackExponent binary64 b = -1#_
  · rw [if_pos hgreatest] at hunpack
    rw [hunpack] at hfinite
    split at hfinite <;> cases hfinite
  · have hne : ¬(b.toNat / 2 ^ 52 % 2 ^ 11 == 2047) := by
      rw [beq_iff_eq, ← he]
      exact fun heq => hgreatest (BitVec.eq_of_toNat_eq heq)
    rw [if_neg hgreatest] at hunpack
    rw [if_neg hne, ← hm, ← he, ← hs] at hread
    -- with the least exponent no bit stands in front of the mantissa
    by_cases hzero : @unpackExponent binary64 b = 0#_
    · rw [if_pos hzero] at hunpack
      rw [hzero] at hread
      by_cases hnone : @unpackMantissa binary64 b = 0#_
      · rw [dif_pos hnone] at hunpack
        rw [hnone] at hread
        exact Or.inl ⟨_, hunpack, hread⟩
      · rw [dif_neg hnone] at hunpack
        refine Or.inr ⟨_, _, _, _, hunpack, ?_, Or.inr ⟨BitVec.isLt _, ?_⟩⟩
        · rw [hzero, hbias]
          exact hread
        · rw [hzero, hbias]
          rfl
    · have hpos : (@unpackExponent binary64 b).toNat ≠ 0 :=
        fun heq => hzero (BitVec.eq_of_toNat_eq heq)
      have hlt := (@unpackMantissa binary64 b).isLt
      rw [if_neg hzero] at hunpack
      rw [if_neg (fun heq => hpos (beq_iff_eq.1 heq)), ← toNat_implicit] at hread
      refine Or.inr ⟨_, _, _, _, hunpack, hread, Or.inl ⟨?_, ?_, ?_, ?_⟩⟩
      · rw [toNat_implicit]
        omega
      · rw [toNat_implicit]
        omega
      · rw [hbias]
        omega
      · rw [hbias, he]
        rw [beq_iff_eq] at hne
        omega

/-- Below `2 ^ 53` in size no zeros stand behind the mantissa. -/
theorem Normal.exponent_nonpos {s : Sign} {e : Int} {hm : 0 < m}
    (h : Normal m e) (hx : meaning x = .finite s m e hm) (hsmall : x.abs < 9007199254740992.0) :
    e ≤ 0 := by
  have habs : meaning x.abs = .finite .positive m e hm := by
    change (Float.Model.pack (meaning x).abs).unpack = _
    rw [hx]
    exact unpack_pack h .positive hm
  have hlimit : meaning 9007199254740992.0 = .finite .positive (2 ^ 52) 1 (by decide) := rfl
  rw [lt_iff, habs, hlimit, compare_positive, Option.some.injEq] at hsmall
  rcases Int.lt_trichotomy e 1 with hlt | rfl | hgt
  · omega
  · have hlt : compare m (2 ^ 52) = .lt := hsmall
    exact absurd (Nat.compare_eq_lt.1 hlt) (Nat.not_lt.2 h.low)
  · rw [Int.compare_eq_gt.2 hgt] at hsmall
    cases hsmall

theorem meaning_ofInt (h : Normal (n * 2 ^ k) (-k)) (s : Sign) :
    meaning (Float.ofInt (if isNegative s then -(n : Int) else n)) =
      .finite s (n * 2 ^ k) (-k) h.pos := by
  cases s with
  | positive => exact meaning_ofNat h
  | negative =>
    cases n with
    | zero => exact absurd h.pos (by rw [Nat.zero_mul]; exact Nat.lt_irrefl 0)
    | succ j =>
      change (Float.Model.pack (meaning (Float.ofNat (j + 1))).neg).unpack = _
      rw [meaning_ofNat h]
      exact unpack_pack h .negative h.pos

theorem ofInt_wholePart (hfinite : x.isFinite) (hwhole : isWhole x)
    (hsmall : x.abs < 9007199254740992.0) : (Float.ofInt (wholePart x) == x) := by
  rw [beq_iff]
  rcases meaning_cases hfinite with ⟨s, hx, hd⟩ | ⟨s, m, e, hm, hx, hd, hform⟩
  · have hzero : wholePart x = 0 := by
      rw [wholePart, hd]
      dsimp only
      rw [Dyadic.trunc, Dyadic.whole, Nat.zero_mul, Nat.zero_div, ite_self]
      cases s <;> rfl
    rw [hx, hzero]
    rfl
  · rw [isWhole, hd] at hwhole
    dsimp only [Dyadic.isIntegral] at hwhole
    rw [Bool.or_eq_true, decide_eq_true_iff, beq_iff_eq] at hwhole
    rcases hform with hnormal | ⟨hlow, rfl⟩
    · obtain ⟨k, rfl⟩ : ∃ k : Nat, e = -k :=
        ⟨(-e).toNat, by have := hnormal.exponent_nonpos hx hsmall; omega⟩
      -- moving the mantissa down by its zeros gives the integer
      obtain ⟨n, rfl, hn⟩ := Dyadic.exists_whole (isNegative s) hwhole
      have hpart : wholePart x = if isNegative s then -(n : Int) else n := by
        rw [wholePart, hd]
        dsimp only [Dyadic.trunc]
        rw [hn]
      rw [hpart, meaning_ofInt hnormal, hx]
      exact compare_self _ rfl
    · -- so small a number has a fractional part
      have hzero : ∀ j, 52 ≤ j → m % Nat.pow 2 j = 0 → m = 0 := by
        intro j hj hmod
        have hlt : m < 2 ^ j := Nat.lt_of_lt_of_le hlow (Nat.pow_le_pow_right (by decide) hj)
        rwa [Nat.pow_eq, Nat.mod_eq_of_lt hlt] at hmod
      rcases hwhole with hnonneg | hmod
      · exact absurd hnonneg (by decide)
      · exact absurd (hzero _ (by decide) hmod) (Nat.ne_of_gt hm)

/-- The number is not below zero. -/
def IsNonneg : UnpackedFloat → Prop
  | .infinity s => s = .positive
  | .finite s _ _ _ => s = .positive
  | _ => True

theorem isNonneg_round (m : Nat) (e : Int) (accuracy) :
    IsNonneg (roundWithAccuracy binary64 .positive m e accuracy) := by
  unfold roundWithAccuracy
  dsimp only
  split
  · exact trivial
  · exact rfl

theorem isNonneg_mul {v : UnpackedFloat} (hu : IsNonneg u) (hv : IsNonneg v) :
    IsNonneg (mul binary64 u v) := by
  cases u with
  | notANumber => exact trivial
  | zero s => cases v <;> exact trivial
  | infinity s =>
    cases hu
    cases v with
    | infinity t | finite t n f k => cases hv; exact rfl
    | _ => exact trivial
  | finite s m e h =>
    cases hu
    cases v with
    | infinity t => cases hv; exact rfl
    | finite t n f k => cases hv; exact isNonneg_round _ _ _
    | _ => exact trivial

/-- The sign is stored in a field of its own. -/
theorem isNonneg_unpack {b : BitVec 64} (h : @unpackSign binary64 b = Sign.positive.toBitVec) :
    IsNonneg (unpack binary64 b) := by
  have hsign : Sign.ofBitVec (@unpackSign binary64 b) = .positive := by
    rw [h]
    rfl
  unfold unpack
  dsimp only
  rw [hsign]
  split
  · split
    · exact rfl
    · exact trivial
  · split
    · split
      · exact trivial
      · exact rfl
    · exact rfl

theorem isNonneg_pack (h : IsNonneg u) : IsNonneg (Float.Model.pack u).unpack := by
  cases u with
  | notANumber => exact trivial
  | zero s => cases s <;> exact trivial
  | infinity s => cases h; exact isNonneg_unpack (unpackSign_packComponents _ _ _)
  | finite s m e k =>
    cases h
    refine isNonneg_unpack ?_
    change unpackSign (pack binary64 _) = _
    unfold pack
    dsimp only
    split
    · exact unpackSign_packComponents _ _ _
    · split
      · exact unpackSign_packComponents _ _ _
      · exact unpackSign_packComponents _ _ _

theorem isNonneg_ofNat (n : Nat) : IsNonneg (meaning (Float.ofNat n)) := by
  change IsNonneg (meaning (Float.ofScientific n false 0))
  by_cases h : n < 2 ^ 53 ∧ 0 ≤ 22
  · have hone : Float.ofScientific n false 0 =
        n.toUInt64.toFloat * Float.ofBits 0x3FF0000000000000 := by
      unfold Float.ofScientific
      rw [dif_pos h]
      rfl
    rw [hone]
    refine isNonneg_pack (isNonneg_mul (isNonneg_pack ?_) (isNonneg_unpack (by decide)))
    change IsNonneg (UnpackedFloat.normalize binary64 (n.toUInt64.toNat : Int) 0 .positive)
    unfold UnpackedFloat.normalize
    split
    next hlt =>
      rw [Int.compare_eq_lt] at hlt
      omega
    · exact trivial
    · exact isNonneg_round _ _ _
  · have hpack : Float.ofScientific n false 0 = ⟨Float.Model.ofScientific n 0⟩ := by
      unfold Float.ofScientific
      rw [dif_neg h]
      rfl
    rw [hpack]
    refine isNonneg_pack ?_
    unfold ofScientific
    split
    · exact trivial
    · have hsmall : ¬(0 : Int) < -(2 ^ binary64.exponentBits + n.log2) := by
        change ¬(0 : Int) < -(2 ^ 11 + n.log2)
        omega
      rw [if_neg (by decide), if_neg hsmall, if_pos (Int.le_refl 0)]
      refine isNonneg_mul ?_ ?_
      · simp [IsNonneg]
      · simp [IsNonneg]

theorem ofInt_ne_neg_one {n : Int} (h : 0 ≤ n) : (Float.ofInt n == Float.ofInt (-1)) = false := by
  obtain ⟨k, rfl⟩ := Int.eq_ofNat_of_zero_le h
  rw [Bool.eq_false_iff, Ne, beq_iff]
  intro heq
  have hk : IsNonneg (meaning (Float.ofInt k)) := isNonneg_ofNat k
  have hone : meaning (Float.ofInt (-1)) = .finite .negative (2 ^ 52) (-52) (by decide) := rfl
  rw [hone] at heq
  rcases eq_or_zero_of_compare heq with hsame | ⟨s, t, -, hzero⟩
  · rw [hsame] at hk
    cases hk
  · cases hzero

end Double

end Snowbank
