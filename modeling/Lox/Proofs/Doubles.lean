/-
  File:      Lox/Proofs/Doubles.lean
  Subject:   A double is read back from its shortest decimal.

  A double is its bits: a sign, an exponent field and a fraction.  Whether it is finite is seen from
  its magnitude, and negation changes its sign alone.  A decimal that equals a double is rounded to
  it, and trailing zeros play no part in rounding; so what `shortest` finds reads back.

  * `fields`, `exists_fields` -- the bits of a double taken apart;
  * `magnitude_lt`, `isNaN_of_magnitude`, `neg_eq` -- doubles told from their bits;
  * `nearestBits_mul`, `nearestBits_of_units` -- what rounding depends on, and where it is exact;
  * `Decimal.toFloat_trim`, `Decimal.reads_exact`, `Decimal.reads_shortest` -- decimals read back.
-/
import Lox.Decimal.Shortest
import Mathlib

namespace Lox.Double

open Float.Model (Format UnpackedFloat)
open Float.Model.UnpackedFloat

/-! ## 1. Fields -/

/-- The bits of the double with a sign, an exponent field and a fraction. -/
abbrev fields (s : Sign) (e : BitVec 11) (m : BitVec 52) : BitVec Format.binary64.numBits :=
  packComponents .binary64 s e m

/-- What the bits with these fields stand for. -/
abbrev datum (s : Sign) (e : BitVec 11) (m : BitVec 52) : UnpackedFloat :=
  UnpackedFloat.unpack .binary64 (fields s e m)

section Fields

variable (s : Sign) (e : BitVec 11) (m : BitVec 52)

theorem toNat_fields :
    (fields s e m).toNat = s.toBitVec.toNat * 2 ^ 63 + e.toNat * 2 ^ 52 + m.toNat := by
  rw [fields, packComponents, BitVec.toNat_append, BitVec.toNat_append,
    ← Nat.shiftLeft_add_eq_or_of_lt m.isLt, ← Nat.shiftLeft_add_eq_or_of_lt e.isLt,
    Nat.shiftLeft_eq, Nat.shiftLeft_eq]
  ring

/-- All bits are those of some fields. -/
theorem exists_fields (b : BitVec 64) : ∃ s e m, b = fields s e m := by
  refine ⟨.ofBitVec (.ofNat 1 (b.toNat / 2 ^ 63)), .ofNat 11 (b.toNat / 2 ^ 52),
    .ofNat 52 b.toNat, BitVec.eq_of_toNat_eq ?_⟩
  have hsign : ∀ v : BitVec 1, (Sign.ofBitVec v).toBitVec = v := by decide
  have hb := b.isLt
  simp only [toNat_fields, hsign, BitVec.toNat_ofNat]
  omega

theorem unpackSign_fields : Sign.ofBitVec (unpackSign (fields s e m)) = s := by
  have hbit : unpackSign (fields s e m) = s.toBitVec := by
    have hs := s.toBitVec.isLt
    have he := e.isLt
    have hm := m.isLt
    refine BitVec.eq_of_toNat_eq ?_
    simp only [unpackSign, BitVec.toNat_cast, BitVec.extractLsb_toNat, toNat_fields,
      Nat.shiftRight_eq_div_pow]
    omega
  rw [hbit]
  cases s <;> rfl

/-- A fraction with the bit in front of it. -/
theorem toNat_implicit : (1#1 ++ m).toNat = 2 ^ 52 + m.toNat := by
  rw [BitVec.toNat_append, ← Nat.shiftLeft_add_eq_or_of_lt m.isLt]
  rfl

theorem implicit_pos : 0 < (1#1 ++ m).toNat := by
  rw [toNat_implicit]
  omega

variable {m} in
theorem fraction_pos (h : m ≠ 0#52) : 0 < m.toNat :=
  Nat.pos_of_ne_zero fun h0 => h (BitVec.eq_of_toNat_eq h0)

theorem datum_eq : datum s e m =
    if e = -1#11 then if m = 0#52 then .infinity s else .notANumber
    else if e = 0#11 then
      if h : m = 0#52 then .zero s else .finite s m.toNat (-1074) (fraction_pos h)
    else .finite s (1#1 ++ m).toNat (e.toNat - 1075) (implicit_pos m) := by
  simp only [datum, UnpackedFloat.unpack, unpackMantissa_packComponents,
    unpackExponent_packComponents, unpackSign_fields]
  by_cases hz : e = 0#11
  · subst hz
    rfl
  · simp only [if_neg hz]
    rfl

/-- A double whose exponent field is not full is finite. -/
theorem isFinite_datum (he : e ≠ -1#11) : (datum s e m).isFinite = true := by
  rw [datum_eq, if_neg he]
  split
  · split <;> rfl
  · rfl

/-- The other sign is all that negation changes. -/
theorem neg_datum : (datum s e m).neg = datum (-s) e m := by
  rw [datum_eq, datum_eq]
  split
  · split <;> rfl
  · split
    · split <;> rfl
    · rfl

/-- A finite significand `n` in the exponent field `k` packed: a significand of 53 bits loses the
    first of them, and one of fewer bits has the field zero. -/
theorem pack_finite {n k : Nat} (hn : 0 < n) (hk : k + 1 < 2 ^ 11) :
    UnpackedFloat.pack .binary64 (.finite s n (k - 1075) hn) =
      fields s (if n.log2 = 52 then .ofNat 11 k else 0#11) (.ofNat 52 n) := by
  have hfield : ((k : Int) - 1075 + Format.binary64.exponentBias +
      Format.binary64.mantissaBitsWithoutImplicit).toNat = k := by
    show ((k : Int) - 1075 + (1023 : Nat) + (52 : Nat)).toNat = k
    omega
  have hroom : ¬ 2 ^ Format.binary64.exponentBits ≤ k + 1 := Nat.not_le_of_lt hk
  have hbits : n.log2 + 1 = Format.binary64.mantissaBits ↔ n.log2 = 52 := by
    show n.log2 + 1 = 53 ↔ _
    omega
  simp only [UnpackedFloat.pack, hfield, if_neg hroom, hbits]
  split <;> rfl

theorem pack_subnormal (hpos : 0 < m.toNat) :
    UnpackedFloat.pack .binary64 (.finite s m.toNat (-1074) hpos) = fields s 0#11 m := by
  have hlog : m.toNat.log2 ≠ 52 := by
    have := (Nat.log2_lt hpos.ne').mpr m.isLt
    omega
  have hpack := pack_finite s (k := 1) hpos (by decide)
  rw [if_neg hlog, BitVec.ofNat_toNat, BitVec.setWidth_eq] at hpack
  exact hpack

theorem pack_normal (he : e ≠ -1#11) (hpos : 0 < (1#1 ++ m).toNat) :
    UnpackedFloat.pack .binary64 (.finite s (1#1 ++ m).toNat (e.toNat - 1075) hpos) =
      fields s e m := by
  have hm := m.isLt
  have hroom : e.toNat + 1 < 2 ^ 11 := by
    have hlt := e.isLt
    have hne : e.toNat ≠ 2 ^ 11 - 1 := fun h => he (BitVec.eq_of_toNat_eq h)
    omega
  have hlog : (1#1 ++ m).toNat.log2 = 52 := by
    rw [toNat_implicit, Nat.log2_eq_iff (by omega)]
    omega
  have hfraction : BitVec.ofNat 52 (1#1 ++ m).toNat = m := by
    refine BitVec.eq_of_toNat_eq ?_
    rw [BitVec.toNat_ofNat, toNat_implicit]
    omega
  rw [pack_finite s hpos hroom, if_pos hlog, BitVec.ofNat_toNat, BitVec.setWidth_eq, hfraction]

/-- **Packing restores the bits**, those of a NaN apart. -/
theorem pack_datum (h : e = -1#11 → m = 0#52) :
    UnpackedFloat.pack .binary64 (datum s e m) = fields s e m := by
  rw [datum_eq]
  by_cases he : e = -1#11
  · rw [if_pos he, if_pos (h he), he, h he]
    rfl
  rw [if_neg he]
  split
  · rename_i hz
    subst hz
    split
    · rename_i hm
      rw [hm]
      rfl
    · exact pack_subnormal s m _
  · exact pack_normal s e m he _

end Fields

/-! ## 2. Doubles -/

variable {s : Sign} {e : BitVec 11} {m : BitVec 52} {x y : Float}

/-- Fields before the NaNs. -/
theorem special_of_le (h : e.toNat * 2 ^ 52 + m.toNat ≤ 2047 * 2 ^ 52) : e = -1#11 → m = 0#52 := by
  intro he
  have hfull : e.toNat = 2047 := congrArg BitVec.toNat he
  refine BitVec.eq_of_toNat_eq ?_
  show m.toNat = 0
  omega

theorem ext_toNat (h : x.toBits.toNat = y.toBits.toNat) : x = y := by
  have hbits : x.toBits = y.toBits := UInt64.toNat_inj.mp h
  rcases x with ⟨⟨b, hb⟩⟩
  rcases y with ⟨⟨c, hc⟩⟩
  cases hbits
  rfl

/-- The double has these fields. -/
def HasFields (x : Float) (s : Sign) (e : BitVec 11) (m : BitVec 52) : Prop :=
  x.toBits.toBitVec = fields s e m

theorem exists_hasFields (x : Float) : ∃ s e m, HasFields x s e m :=
  exists_fields x.toBits.toBitVec

namespace HasFields

theorem toNat_eq (h : HasFields x s e m) :
    x.toBits.toNat = s.toBitVec.toNat * 2 ^ 63 + e.toNat * 2 ^ 52 + m.toNat := by
  rw [← toNat_fields, ← h]
  rfl

theorem magnitude_eq (h : HasFields x s e m) : magnitude x = e.toNat * 2 ^ 52 + m.toNat := by
  have hs := s.toBitVec.isLt
  have he := e.isLt
  have hm := m.isLt
  rw [magnitude, h.toNat_eq]
  show _ % 2 ^ 63 = _
  omega

theorem datum_eq (h : HasFields x s e m) : x.toModel.unpack = datum s e m :=
  congrArg (UnpackedFloat.unpack .binary64) h

theorem neg (h : HasFields x s e m) (hm : e = -1#11 → m = 0#52) : HasFields (-x) (-s) e m := by
  show UnpackedFloat.pack .binary64 x.toModel.unpack.neg = _
  rw [h.datum_eq, neg_datum, pack_datum _ _ _ hm]

end HasFields

/-- The finite doubles lie before the infinities, and these before the NaNs. -/
theorem magnitude_cases (x : Float) :
    magnitude x < infinityBits ∧ x.toModel.unpack.isFinite = true ∨
    magnitude x = infinityBits ∧ (∃ s, x.toModel.unpack = .infinity s) ∨
    infinityBits < magnitude x ∧ x.toModel.unpack = .notANumber := by
  obtain ⟨s, e, m, h⟩ := exists_hasFields x
  rw [h.datum_eq, h.magnitude_eq, show infinityBits = 2047 * 2 ^ 52 from rfl]
  by_cases he : e = -1#11
  · have hfull : e.toNat = 2047 := congrArg BitVec.toNat he
    rw [datum_eq, if_pos he, hfull]
    by_cases hm : m = 0#52
    · rw [if_pos hm, hm]
      exact .inr (.inl ⟨rfl, s, rfl⟩)
    · have hpos := fraction_pos hm
      rw [if_neg hm]
      exact .inr (.inr ⟨by omega, rfl⟩)
  · have hlt := e.isLt
    have hne : e.toNat ≠ 2047 := fun h => he (BitVec.eq_of_toNat_eq h)
    have hm := m.isLt
    exact .inl ⟨by omega, isFinite_datum s e m he⟩

theorem magnitude_lt (hn : x.isNaN = false) (hi : x.isInf = false) :
    magnitude x < infinityBits := by
  rcases magnitude_cases x with ⟨h, -⟩ | ⟨-, s, h⟩ | ⟨-, h⟩
  · exact h
  · rw [show x.isInf = x.toModel.unpack.isInf from rfl, h] at hi
    cases hi
  · rw [show x.isNaN = x.toModel.unpack.isNaN from rfl, h] at hn
    cases hn

theorem isNaN_of_magnitude (h : magnitude x ≤ infinityBits) : x.isNaN = false := by
  rw [show x.isNaN = x.toModel.unpack.isNaN from rfl]
  rcases magnitude_cases x with ⟨-, hx⟩ | ⟨-, s, hx⟩ | ⟨hlt, -⟩
  · cases hu : x.toModel.unpack with
    | notANumber =>
        rw [hu] at hx
        cases hx
    | _ => rfl
  · rw [hx]
    rfl
  · omega

/-- The bits that are no NaN's are kept. -/
theorem toBits_ofBits {b : UInt64} (h : b.toNat ≤ infinityBits) : (Float.ofBits b).toBits = b := by
  obtain ⟨s, e, m, hb⟩ := exists_fields b.toBitVec
  have hnat : b.toNat = s.toBitVec.toNat * 2 ^ 63 + e.toNat * 2 ^ 52 + m.toNat := by
    rw [← toNat_fields, ← hb]
    rfl
  have hle : b.toNat ≤ 2047 * 2 ^ 52 := h
  show UInt64.ofBitVec
    (UnpackedFloat.pack .binary64 (UnpackedFloat.unpack .binary64 b.toBitVec)) = b
  rw [hb, pack_datum s e m (special_of_le (by omega)), ← hb]

/-- **Negation changes the sign and nothing else.** -/
theorem neg_eq (hx : magnitude x ≤ infinityBits) (hs : isNegative x = true)
    (hy : y.toBits.toNat = magnitude x) : -y = x := by
  obtain ⟨s, e, m, h⟩ := exists_hasFields y
  have hnat := h.toNat_eq
  have hle : y.toBits.toNat ≤ 2047 * 2 ^ 52 := hy ▸ hx
  have hneg := h.neg (special_of_le (by omega))
  have hflip : (-s).toBitVec.toNat = 1 - s.toBitVec.toNat := by cases s <;> rfl
  have hmagnitude : magnitude x = x.toBits.toNat % 2 ^ 63 := rfl
  have hnegative : 2 ^ 63 ≤ x.toBits.toNat := of_decide_eq_true hs
  have hlt : x.toBits.toNat < 2 ^ 64 := x.toBits.toNat_lt
  refine ext_toNat ?_
  rw [hneg.toNat_eq, hflip]
  omega

/-! ## 3. Rounding -/

theorem roundDiv_mul (num den : Nat) {c : Nat} (hc : 0 < c) :
    roundDiv (num * c) (den * c) = roundDiv num den := by
  have hlt : den * c < 2 * (num % den * c) ↔ den < 2 * (num % den) := by
    rw [← Nat.mul_assoc, Nat.mul_lt_mul_right hc]
  have heq : 2 * (num % den * c) = den * c ↔ 2 * (num % den) = den := by
    rw [← Nat.mul_assoc, Nat.mul_left_inj hc.ne']
  simp only [roundDiv, Nat.mul_div_mul_right _ _ hc, Nat.mul_mod_mul_right, hlt, heq]

/-- **Rounding depends on the quotient alone.** -/
theorem nearestBits_mul (num den : Nat) {c : Nat} (hc : 0 < c) :
    nearestBits (num * c) (den * c) = nearestBits num den := by
  have hscale : num * c * Nat.pow 2 scale = num * Nat.pow 2 scale * c := Nat.mul_right_comm ..
  simp only [nearestBits, hscale, Nat.mul_div_mul_right _ _ hc, Nat.mul_right_comm den c,
    roundDiv_mul _ _ hc]

theorem roundDiv_exact (n : Nat) {den : Nat} (h : 0 < den) : roundDiv (n * den) den = n := by
  have hdiv : n * den / den = n := Nat.mul_div_cancel n h
  have hmod : n * den % den = 0 := Nat.mul_mod_left n den
  rw [roundDiv, hdiv, hmod, if_neg (by omega)]

/-- How far a significand stands above the units is seen from its first bit, if it has 53 bits
    unless it stands at the units. -/
theorem log2_shifted {n k : Nat} (hn : n < 2 ^ 53) (hk : k = 0 ∨ 2 ^ 52 ≤ n) :
    (n * 2 ^ k).log2 - 52 = k := by
  rcases hk with rfl | hk
  · have hlog : n.log2 ≤ 52 := by
      by_cases h0 : n = 0
      · rw [h0]
        decide
      · exact Nat.le_of_lt_succ ((Nat.log2_lt h0).mpr hn)
    rw [Nat.pow_zero, Nat.mul_one]
    omega
  · have hlog : (n * 2 ^ k).log2 = 52 + k := by
      rw [Nat.log2_eq_iff (by positivity)]
      constructor
      · rw [Nat.pow_add]
        exact Nat.mul_le_mul_right _ hk
      · rw [Nat.add_right_comm, Nat.pow_add]
        exact Nat.mul_lt_mul_of_pos_right hn (by positivity)
    rw [hlog, Nat.add_sub_cancel_left]

/-- **A quotient that is a double is rounded to it.** The double has the significand `n` and stands
    `k` bits above the units. -/
theorem nearestBits_of_units {num den n k : Nat} (hden : 0 < den)
    (h : num * 2 ^ scale = n * 2 ^ k * den) (hn : n < 2 ^ 53) (hk : k = 0 ∨ 2 ^ 52 ≤ n) :
    nearestBits num den = min (k * 2 ^ 52 + n) infinityBits := by
  have hround : roundDiv (n * 2 ^ k * den) (den * 2 ^ k) = n := by
    rw [Nat.mul_assoc, Nat.mul_comm (2 ^ k) den]
    exact roundDiv_exact n (by positivity)
  simp only [nearestBits, Nat.pow_eq, h, Nat.mul_div_cancel _ hden, log2_shifted hn hk, hround]

theorem nearestBits_le (num den : Nat) : nearestBits num den ≤ infinityBits :=
  Nat.min_le_right ..

theorem toNat_nearest (num den : Nat) : (nearest num den).toBits.toNat = nearestBits num den := by
  have hle := nearestBits_le num den
  have hnat : (UInt64.ofNat (nearestBits num den)).toNat = nearestBits num den := by
    rw [UInt64.toNat_ofNat']
    exact Nat.mod_eq_of_lt (Nat.lt_of_le_of_lt hle (by decide))
  rw [nearest, toBits_ofBits (by rw [hnat]; exact hle), hnat]

theorem significand_lt (x : Float) : significand x < 2 ^ 53 := by
  have hlt : magnitude x % 2 ^ 52 < 2 ^ 52 := Nat.mod_lt _ (by decide)
  show (if magnitude x / 2 ^ 52 = 0 then magnitude x % 2 ^ 52
    else 2 ^ 52 + magnitude x % 2 ^ 52) < _
  split <;> omega

theorem significand_full (x : Float) : shift x = 0 ∨ 2 ^ 52 ≤ significand x := by
  show magnitude x / 2 ^ 52 - 1 = 0 ∨ 2 ^ 52 ≤
    if magnitude x / 2 ^ 52 = 0 then magnitude x % 2 ^ 52 else 2 ^ 52 + magnitude x % 2 ^ 52
  split <;> omega

theorem magnitude_eq_units (x : Float) : shift x * 2 ^ 52 + significand x = magnitude x := by
  show (magnitude x / 2 ^ 52 - 1) * 2 ^ 52 +
    (if magnitude x / 2 ^ 52 = 0 then magnitude x % 2 ^ 52 else 2 ^ 52 + magnitude x % 2 ^ 52) = _
  split <;> omega

end Lox.Double

namespace Lox.Decimal

open Double (magnitude nearest nearestBits infinityBits)

/-! ## 4. Decimals -/

theorem toFloat_whole (n k : Nat) : toFloat ⟨n, k⟩ = nearest (n * 10 ^ k) 1 :=
  rfl

theorem toFloat_places (n k : Nat) : toFloat ⟨n, -k⟩ = nearest n (10 ^ k) := by
  cases k with
  | zero => rw [show (-((0 : Nat) : Int)) = ((0 : Nat) : Int) from rfl, toFloat_whole, Nat.pow_zero,
      Nat.mul_one]
  | succ k => rfl

/-- Zero is the same in every place. -/
theorem toFloat_zero (e : Int) : toFloat ⟨0, e⟩ = nearest 0 1 := by
  have hzero : ∀ {den : Nat}, 0 < den → nearest 0 den = nearest 0 1 := by
    intro den hden
    have hbits := Double.nearestBits_mul 0 1 hden
    rw [Nat.zero_mul, Nat.one_mul] at hbits
    rw [nearest, hbits, nearest]
  rcases e with k | k
  · rw [Int.ofNat_eq_natCast, toFloat_whole, Nat.zero_mul]
  · exact hzero (Nat.pow_pos (by decide))

/-- A zero at the end of the digits is a place. -/
theorem toFloat_shift (n : Nat) (e : Int) : toFloat ⟨n * 10, e⟩ = toFloat ⟨n, e + 1⟩ := by
  rcases e with k | k
  · show nearest (n * 10 * 10 ^ k) 1 = nearest (n * 10 ^ (k + 1)) 1
    rw [Nat.mul_assoc, ← Nat.pow_succ']
  · have hplaces : (Int.negSucc k + 1 : Int) = -(k : Int) := by omega
    rw [hplaces, toFloat_places]
    show nearest (n * 10) (10 ^ (k + 1)) = _
    rw [nearest, Nat.pow_succ, Double.nearestBits_mul n (10 ^ k) (by decide), ← nearest]

theorem toFloat_trim (d : Decimal) : d.trim.toFloat = d.toFloat := by
  fun_induction trim d with
  | case1 d h =>
      rcases d with ⟨n, e⟩
      cases h
      rw [toFloat_zero, toFloat_zero]
  | case2 d h0 h10 ih =>
      rcases d with ⟨n, e⟩
      rw [ih, ← toFloat_shift, Nat.div_mul_cancel (Nat.dvd_of_mod_eq_zero h10)]
  | case3 => rfl

/-- Halves below one are fives of the next place. -/
theorem two_pow_mul_five_pow (n k c : Nat) :
    n * 2 ^ (k - c) * 5 ^ (c - k) * 2 ^ c = n * 2 ^ k * 10 ^ (c - k) := by
  by_cases h : k ≤ c
  · obtain ⟨i, rfl⟩ := Nat.exists_eq_add_of_le h
    rw [Nat.sub_eq_zero_of_le h, Nat.add_sub_cancel_left, Nat.pow_zero, Nat.pow_add,
      show (10 : Nat) = 5 * 2 from rfl, Nat.mul_pow]
    ring
  · obtain ⟨i, rfl⟩ := Nat.exists_eq_add_of_le (Nat.le_of_not_le h)
    rw [Nat.sub_eq_zero_of_le (Nat.le_add_right c i), Nat.add_sub_cancel_left, Nat.pow_zero,
      Nat.pow_zero, Nat.pow_add]
    ring

/-- The full expansion of a finite double reads back. -/
theorem reads_exact {x : Float} (hx : magnitude x < infinityBits) : reads x (exact x) = true := by
  have hexact : (exact x).toFloat = nearest _ _ := toFloat_places _ _
  have hunits := two_pow_mul_five_pow (Double.significand x) (Double.shift x) Double.scale
  have hbits := Double.nearestBits_of_units (Nat.pow_pos (by decide)) hunits
    (Double.significand_lt x) (Double.significand_full x)
  rw [reads, beq_iff_eq, hexact, Double.toNat_nearest]
  rw [Double.magnitude_eq_units, Nat.min_eq_left hx.le] at hbits
  exact hbits

/-- **The shortest decimal of a finite double reads back.** -/
theorem reads_shortest {x : Float} (hx : magnitude x < infinityBits) :
    reads x (shortest x) = true := by
  have htrim : ∀ d : Decimal, reads x d = true → reads x d.trim = true := by
    intro d hd
    rwa [reads, toFloat_trim]
  refine htrim _ ?_
  cases hfound : (List.range' 1 maxDigits).findSome? fun n =>
    ((exact x).neighbours ((Nat.toDigits 10 (exact x).digits).length - n)).find? (reads x) with
  | none => exact reads_exact hx
  | some d =>
      obtain ⟨n, -, hd⟩ := List.exists_of_findSome?_eq_some hfound
      exact List.find?_some hd

theorem toNat_toFloat_shortest {x : Float} (hx : magnitude x < infinityBits) :
    (shortest x).toFloat.toBits.toNat = magnitude x :=
  beq_iff_eq.mp (reads_shortest hx)

/-- **A finite double without a minus sign is what its shortest decimal stands for.** -/
theorem toFloat_shortest {x : Float} (hx : magnitude x < infinityBits)
    (hs : Double.isNegative x = false) : (shortest x).toFloat = x := by
  have hlt : ¬ 2 ^ 63 ≤ x.toBits.toNat := of_decide_eq_false hs
  refine Double.ext_toNat ?_
  rw [toNat_toFloat_shortest hx]
  exact Nat.mod_eq_of_lt (Nat.lt_of_not_le hlt)

/-- **One with a minus sign is its negation.** -/
theorem neg_toFloat_shortest {x : Float} (hx : magnitude x < infinityBits)
    (hs : Double.isNegative x = true) : -(shortest x).toFloat = x :=
  Double.neg_eq hx.le hs (toNat_toFloat_shortest hx)

theorem toNat_toFloat_le (d : Decimal) : d.toFloat.toBits.toNat ≤ infinityBits := by
  rcases d with ⟨n, k | k⟩ <;> exact (Double.toNat_nearest _ _).trans_le (Double.nearestBits_le _ _)

/-- No decimal stands for a double with a minus sign. -/
theorem isNegative_toFloat (d : Decimal) : Double.isNegative d.toFloat = false := by
  have hle := d.toNat_toFloat_le
  have hbits : infinityBits < Nat.pow 2 63 := by decide
  exact decide_eq_false (by omega)

/-- No decimal stands for a NaN. -/
theorem isNaN_toFloat (d : Decimal) : d.toFloat.isNaN = false :=
  Double.isNaN_of_magnitude ((Nat.mod_le ..).trans d.toNat_toFloat_le)

end Lox.Decimal
