/-
  File:      Lox/Proofs/Numerals.lean
  Subject:   Printed numbers read back.

  A number is printed in positional form or with a power of ten.  The first is a number of the
  language, and its value is the decimal that was printed; the second is none, but it tells the
  decimal all the same.  A minus sign in front of the first is an operator, and the value of the
  whole is the number printed.

  * `Positional` -- a sign or none, digits, a point and digits;
  * `lexeme_positional` -- a decimal in positional form is a number and stands for its double;
  * `toFloat_of_text` -- decimals that are printed alike stand for one double;
  * `numeral_writeDecimal` -- which characters a printed decimal has;
  * `Value.toList_text_of_listing` -- what is printed of a number, told from its full text;
  * `printed_numbers_read_back` -- from the printed text to the value again.
-/
import Lox.Proofs.Doubles
import Lox.Proofs.Longest
import Lox.Proofs.Parentheses
import Lox.Proofs.Reporting

namespace Lox

/-! ## 1. Digits -/

/-- One digit or more, and nothing else. -/
structure Digits (text : List Char) : Prop where
  ne_nil : text ≠ []
  isDigit : ∀ c ∈ text, c.isDigit = true

/-- A minus sign or none, digits, a point and digits. -/
def Positional (text : List Char) : Prop :=
  ∃ sign whole places, (sign = [] ∨ sign = ['-']) ∧ Digits whole ∧ Digits places ∧
    text = sign ++ whole ++ '.' :: places

theorem digits_toDigits (n : Nat) : Digits (Nat.toDigits 10 n) :=
  ⟨Nat.toDigits_ne_nil, fun _ => Nat.isDigit_of_mem_toDigits (by decide) (by decide)⟩

theorem digits_zero : Digits ['0'] :=
  ⟨List.cons_ne_nil _ _, List.forall_mem_singleton.mpr rfl⟩

theorem isDigit_of_mem_zeros {k : Nat} {c : Char} (h : c ∈ List.replicate k '0') :
    c.isDigit = true := by
  rw [List.eq_of_mem_replicate h]
  rfl

theorem Positional.not_mem {text : List Char} (h : Positional text) {c : Char}
    (hc : c.isAlpha = true) : c ∉ text := by
  obtain ⟨sign, whole, places, hsign, hwhole, hplaces, rfl⟩ := h
  have hdigit : c.isDigit = false := Piece.isDigit_of_start (by simp [Piece.startsWord, hc])
  have hnot : ∀ {ds : List Char}, Digits ds → c ∉ ds := by
    intro ds hds hmem
    rw [hds.isDigit c hmem] at hdigit
    cases hdigit
  have hminus : c ∉ sign := by
    rcases hsign with rfl | rfl
    · exact List.not_mem_nil
    · rintro hmem
      cases List.mem_singleton.mp hmem
      cases hc
  rw [List.mem_append, List.mem_append, List.mem_cons]
  rintro ((hmem | hmem) | rfl | hmem)
  · exact hminus hmem
  · exact hnot hwhole hmem
  · cases hc
  · exact hnot hplaces hmem

/-! ## 2. Decimals in positional form -/

namespace Decimal

/-- A whole number of digits and zeros. -/
theorem lexeme_whole (n k : Nat) :
    Lexeme .number (Nat.toDigits 10 n ++ List.replicate k '0') (.number (toFloat ⟨n, k⟩)) := by
  have hdigits := digits_toDigits n
  have hvalue : Nat.ofDigitChars 10 (Nat.toDigits 10 n ++ List.replicate k '0') 0 = n * 10 ^ k := by
    rw [Nat.ofDigitChars_append, Nat.ofDigitChars_ten_toDigits, Nat.ofDigitChars_replicate_zero,
      Nat.mul_comm]
  have hall : Digits (Nat.toDigits 10 n ++ List.replicate k '0') :=
    ⟨List.append_ne_nil_of_left_ne_nil hdigits.ne_nil _,
      List.forall_mem_append.mpr ⟨hdigits.isDigit, fun _ => isDigit_of_mem_zeros⟩⟩
  have hlexeme := Lexeme.whole hall.ne_nil hall.isDigit
  have hfloat : toFloat ⟨n * 10 ^ k, 0⟩ = toFloat ⟨n, k⟩ := by
    have := toFloat_whole (n * 10 ^ k) 0
    rw [Nat.pow_zero, Nat.mul_one] at this
    exact this
  rwa [hvalue, hfloat] at hlexeme

/-- Digits on both sides of the point. -/
theorem lexeme_fraction {whole places : List Char} (hw : Digits whole) (hp : Digits places)
    {n : Nat} (hn : Nat.ofDigitChars 10 (whole ++ places) 0 = n) :
    Lexeme .number (whole ++ '.' :: places) (.number (toFloat ⟨n, -places.length⟩)) :=
  hn ▸ Lexeme.fraction hw.ne_nil hw.isDigit hp.ne_nil hp.isDigit

/-- **A decimal in positional form is a number and stands for its double.** -/
theorem lexeme_positional (d : Decimal) :
    Lexeme .number (Layout.plain.positional (Nat.toDigits 10 d.digits) d.exponent)
      (.number d.toFloat) := by
  rcases d with ⟨n, k | k⟩
  · show Lexeme .number (Nat.toDigits 10 n ++ List.replicate k '0' ++ []) _
    rw [List.append_nil]
    exact lexeme_whole n k
  · have hdigits := digits_toDigits n
    have hvalue : Nat.ofDigitChars 10 (Nat.toDigits 10 n) 0 = n := Nat.ofDigitChars_ten_toDigits
    generalize Nat.toDigits 10 n = digits at hdigits hvalue ⊢
    show Lexeme .number (if k + 1 < digits.length then _ else _) _
    split
    · rename_i hlt
      have hwhole : Digits (digits.take (digits.length - (k + 1))) :=
        ⟨by simp [hdigits.ne_nil]; omega, fun c hc => hdigits.isDigit c (List.mem_of_mem_take hc)⟩
      have hplaces : Digits (digits.drop (digits.length - (k + 1))) :=
        ⟨by simp; omega, fun c hc => hdigits.isDigit c (List.mem_of_mem_drop hc)⟩
      have hlexeme := lexeme_fraction hwhole hplaces (by rw [List.take_append_drop, hvalue])
      have hlength : (digits.drop (digits.length - (k + 1))).length = k + 1 := by
        rw [List.length_drop]
        omega
      rw [hlength] at hlexeme
      exact hlexeme
    · rename_i hge
      have hplaces : Digits (List.replicate (k + 1 - digits.length) '0' ++ digits) :=
        ⟨List.append_ne_nil_of_right_ne_nil _ hdigits.ne_nil,
          List.forall_mem_append.mpr ⟨fun _ => isDigit_of_mem_zeros, hdigits.isDigit⟩⟩
      have hlexeme := lexeme_fraction digits_zero hplaces (n := n) (by
        rw [List.singleton_append, Nat.ofDigitChars_cons, Nat.ofDigitChars_append,
          Nat.ofDigitChars_replicate_zero]
        simpa using hvalue)
      have hlength : (List.replicate (k + 1 - digits.length) '0' ++ digits).length = k + 1 := by
        rw [List.length_append, List.length_replicate]
        omega
      rw [hlength] at hlexeme
      exact hlexeme

end Decimal

/-! ## 3. Decimals with a power of ten -/

namespace Layout

/-- The digits before the power of ten: a point behind the first of them if there are more. -/
def mantissa (digits : List Char) : List Char :=
  digits.take 1 ++ if digits.length ≤ 1 then [] else '.' :: digits.drop 1

theorem scientific_eq (l : Layout) (digits : List Char) (p : Int) :
    l.scientific digits p = mantissa digits ++ 'e' :: l.power p :=
  rfl

/-- A mantissa holds its digits and a point. -/
theorem mantissa_cases {digits : List Char} (h : Digits digits) :
    (∃ c, digits = [c] ∧ mantissa digits = [c]) ∨
      ∃ c d ds, digits = c :: d :: ds ∧ mantissa digits = c :: '.' :: d :: ds := by
  rcases digits with _ | ⟨c, _ | ⟨d, ds⟩⟩
  · exact absurd rfl h.ne_nil
  · exact .inl ⟨c, rfl, rfl⟩
  · exact .inr ⟨c, d, ds, rfl, rfl⟩

theorem filter_mantissa {digits : List Char} (h : Digits digits) :
    (mantissa digits).filter Char.isDigit = digits := by
  have hall := List.filter_eq_self.mpr h.isDigit
  rcases mantissa_cases h with ⟨c, rfl, hm⟩ | ⟨c, d, ds, rfl, hm⟩
  · rw [hm, hall]
  · have hc := h.isDigit c List.mem_cons_self
    rw [hm, List.filter_cons_of_pos hc, List.filter_cons_of_neg (by decide)]
    rw [List.filter_cons_of_pos hc] at hall
    exact hall

theorem mem_mantissa {digits : List Char} (h : Digits digits) :
    ∀ c ∈ mantissa digits, c.isDigit = true ∨ c = '.' := by
  rcases mantissa_cases h with ⟨c, rfl, hm⟩ | ⟨c, d, ds, rfl, hm⟩
  · rw [hm]
    exact fun x hx => .inl (h.isDigit x hx)
  · rw [hm]
    intro x hx
    rcases List.mem_cons.mp hx with rfl | hx
    · exact .inl (h.isDigit x List.mem_cons_self)
    rcases List.mem_cons.mp hx with rfl | hx
    · exact .inr rfl
    · exact .inl (h.isDigit x (List.mem_cons_of_mem c hx))

theorem mem_power {l : Layout} {p : Int} {c : Char} (h : c ∈ l.power p) :
    c.isDigit = true ∨ c ∈ ['-', '+'] := by
  rw [power, List.cons_append, List.mem_cons, List.mem_append] at h
  rcases h with rfl | h | h
  · by_cases hp : p < 0
    · rw [if_pos hp]
      exact .inr (by decide)
    · rw [if_neg hp]
      exact .inr (by decide)
  · exact .inl (isDigit_of_mem_zeros h)
  · exact .inl ((digits_toDigits _).isDigit c h)

theorem ofDigitChars_power (l : Layout) (p : Int) :
    Nat.ofDigitChars 10 (l.power p).tail 0 = p.natAbs := by
  show Nat.ofDigitChars 10 (List.replicate _ '0' ++ Nat.toDigits 10 p.natAbs) 0 = _
  rw [Nat.ofDigitChars_append, Nat.ofDigitChars_replicate_zero, Nat.mul_zero,
    Nat.ofDigitChars_ten_toDigits]

theorem power_inj {l : Layout} {p q : Int} (h : l.power p = l.power q) : p = q := by
  have habs : p.natAbs = q.natAbs := by
    rw [← l.ofDigitChars_power p, h, l.ofDigitChars_power]
  have hsign : (if p < 0 then '-' else '+') = if q < 0 then '-' else '+' := (List.cons.inj h).1
  by_cases hp : p < 0
  · by_cases hq : q < 0
    · omega
    · rw [if_pos hp, if_neg hq] at hsign
      cases hsign
  · by_cases hq : q < 0
    · rw [if_neg hp, if_pos hq] at hsign
      cases hsign
    · omega

/-- **A power of ten and the digits before it are told from their text.** -/
theorem scientific_inj {l : Layout} {n m : Nat} {p q : Int}
    (h : l.scientific (Nat.toDigits 10 n) p = l.scientific (Nat.toDigits 10 m) q) :
    n = m ∧ p = q := by
  have hne : ∀ k, 'e' ∉ mantissa (Nat.toDigits 10 k) := by
    intro k hmem
    rcases mem_mantissa (digits_toDigits k) _ hmem with h | h <;> cases h
  have hsplit : ∀ k p, (l.scientific (Nat.toDigits 10 k) p).takeWhile (· ≠ 'e') =
      mantissa (Nat.toDigits 10 k) ∧
      (l.scientific (Nat.toDigits 10 k) p).dropWhile (· ≠ 'e') = 'e' :: l.power p :=
    fun k p => takeWhile_stops (ne_of_not_mem (hne k)) (by simp)
  have hmantissa : mantissa (Nat.toDigits 10 n) = mantissa (Nat.toDigits 10 m) := by
    rw [← (hsplit n p).1, h, (hsplit m q).1]
  have hpower : 'e' :: l.power p = 'e' :: l.power q := by
    rw [← (hsplit n p).2, h, (hsplit m q).2]
  have hdigits : Nat.toDigits 10 n = Nat.toDigits 10 m := by
    rw [← filter_mantissa (digits_toDigits n), hmantissa, filter_mantissa (digits_toDigits m)]
  refine ⟨?_, power_inj (List.cons.inj hpower).2⟩
  rw [← Nat.ofDigitChars_ten_toDigits (n := n), hdigits, Nat.ofDigitChars_ten_toDigits]

/-- The exponent of the first digit of a decimal. -/
def leading (d : Decimal) : Int :=
  d.exponent + (Nat.toDigits 10 d.digits).length - 1

/-- The decimal is written positionally. -/
def Fits (l : Layout) (d : Decimal) : Prop :=
  l.least ≤ leading d ∧ leading d < l.bound

theorem writeDecimal_of_fits {l : Layout} {d : Decimal} (h : l.Fits d) :
    l.writeDecimal d = l.positional (Nat.toDigits 10 d.digits) d.exponent :=
  if_pos h

theorem writeDecimal_of_not_fits {l : Layout} {d : Decimal} (h : ¬ l.Fits d) :
    l.writeDecimal d = l.scientific (Nat.toDigits 10 d.digits) (leading d) :=
  if_neg h

theorem mem_scientific (l : Layout) (digits : List Char) (p : Int) :
    'e' ∈ l.scientific digits p := by
  rw [scientific_eq]
  exact List.mem_append_right _ List.mem_cons_self

end Layout

theorem Lexeme.number_chars {text : List Char} {v : Value} (h : Lexeme .number text v) :
    (∀ c ∈ text, c.isDigit = true ∨ c = '.') ∧ ∃ c cs, text = c :: cs ∧ c.isDigit = true := by
  cases h with
  | fixed h => cases h
  | whole hne hd =>
      obtain ⟨c, cs, rfl⟩ := List.exists_cons_of_ne_nil hne
      exact ⟨fun x hx => .inl (hd x hx), c, cs, rfl, hd c List.mem_cons_self⟩
  | @fraction digits places hne hd hne' hp =>
      obtain ⟨c, cs, rfl⟩ := List.exists_cons_of_ne_nil hne
      refine ⟨fun x hx => ?_, c, _, rfl, hd c List.mem_cons_self⟩
      rcases List.mem_append.mp hx with hx | hx
      · exact .inl (hd x hx)
      rcases List.mem_cons.mp hx with rfl | hx
      · exact .inr rfl
      · exact .inl (hp x hx)

namespace Decimal

/-- A decimal that is written positionally is written without a power of ten. -/
theorem not_mem_of_fits {d : Decimal} (h : Layout.plain.Fits d) :
    'e' ∉ Layout.plain.writeDecimal d := by
  rw [Layout.writeDecimal_of_fits h]
  intro hmem
  rcases d.lexeme_positional.number_chars.1 _ hmem with h | h <;> cases h

theorem mem_of_not_fits {l : Layout} {d : Decimal} (h : ¬ l.Fits d) : 'e' ∈ l.writeDecimal d := by
  rw [Layout.writeDecimal_of_not_fits h]
  exact l.mem_scientific _ _

/-- **Decimals that are printed alike stand for one double.** -/
theorem toFloat_of_text {d d' : Decimal}
    (h : Layout.plain.writeDecimal d = Layout.plain.writeDecimal d') : d.toFloat = d'.toFloat := by
  by_cases hd : Layout.plain.Fits d
  · by_cases hd' : Layout.plain.Fits d'
    · rw [Layout.writeDecimal_of_fits hd, Layout.writeDecimal_of_fits hd'] at h
      exact Value.number.inj (d.lexeme_positional.unique (h ▸ d'.lexeme_positional)).2
    · exact absurd (h ▸ mem_of_not_fits hd') (not_mem_of_fits hd)
  · by_cases hd' : Layout.plain.Fits d'
    · exact absurd (h ▸ mem_of_not_fits hd) (not_mem_of_fits hd')
    · rw [Layout.writeDecimal_of_not_fits hd, Layout.writeDecimal_of_not_fits hd'] at h
      obtain ⟨hdigits, hleading⟩ := Layout.scientific_inj h
      rcases d with ⟨n, e⟩
      rcases d' with ⟨n', e'⟩
      cases hdigits
      have hexponent : e = e' := by
        simp only [Layout.leading] at hleading
        omega
      rw [hexponent]

/-- **What a printed decimal looks like**: digits, the point, the mark of a power of ten and its
    signs, and of these a digit first. -/
theorem numeral_writeDecimal (d : Decimal) :
    (∀ c ∈ Layout.plain.writeDecimal d, c.isDigit = true ∨ c ∈ ['.', 'e', '-', '+']) ∧
      ∃ c cs, Layout.plain.writeDecimal d = c :: cs ∧ c.isDigit = true := by
  by_cases h : Layout.plain.Fits d
  · obtain ⟨hchars, hstart⟩ := d.lexeme_positional.number_chars
    rw [Layout.writeDecimal_of_fits h]
    refine ⟨fun c hc => (hchars c hc).imp_right ?_, hstart⟩
    rintro rfl
    exact List.mem_cons_self
  · have hdigits := digits_toDigits d.digits
    rw [Layout.writeDecimal_of_not_fits h, Layout.scientific_eq]
    constructor
    · intro c hc
      rcases List.mem_append.mp hc with hc | hc
      · refine (Layout.mem_mantissa hdigits c hc).imp_right ?_
        rintro rfl
        exact List.mem_cons_self
      rcases List.mem_cons.mp hc with rfl | hc
      · exact .inr (by decide)
      · refine (Layout.mem_power hc).imp_right fun hsign => ?_
        exact List.mem_cons_of_mem _ (List.mem_cons_of_mem _ hsign)
    · rcases Layout.mantissa_cases hdigits with ⟨c, hd, hm⟩ | ⟨c, c', cs, hd, hm⟩
      · exact ⟨c, _, by rw [hm]; rfl, hdigits.isDigit c (hd ▸ List.mem_cons_self)⟩
      · exact ⟨c, _, by rw [hm]; rfl, hdigits.isDigit c (hd ▸ List.mem_cons_self)⟩

end Decimal

/-! ## 4. Doubles -/

namespace Layout

variable {x : Float}

theorem writeChars_of_finite (l : Layout) (hn : x.isNaN = false) (hi : x.isInf = false) :
    l.writeChars x =
      (if Double.isNegative x then ['-'] else []) ++ l.writeDecimal (Decimal.shortest x) := by
  simp only [writeChars, hn, hi, Bool.false_eq_true, if_false]

/-- What has no letter in it is the text of a finite number that is written positionally. -/
theorem finite_of_positional {l : Layout} (h : Positional (l.writeChars x)) :
    x.isNaN = false ∧ x.isInf = false ∧ l.Fits (Decimal.shortest x) := by
  have hn : x.isNaN = false := by
    refine Bool.eq_false_iff.mpr fun hnan => h.not_mem (c := 'n') rfl ?_
    rw [writeChars, if_pos hnan]
    decide
  have hi : x.isInf = false := by
    refine Bool.eq_false_iff.mpr fun hinf => h.not_mem (c := 'i') rfl ?_
    rw [writeChars, if_neg (Bool.eq_false_iff.mp hn), if_pos hinf]
    exact List.mem_append_right _ (by decide)
  refine ⟨hn, hi, Classical.byContradiction fun hfits => h.not_mem (c := 'e') rfl ?_⟩
  rw [l.writeChars_of_finite hn hi]
  exact List.mem_append_right _ (Decimal.mem_of_not_fits hfits)

end Layout

/-! ## 5. What is printed and what is listed -/

/-- A decimal that is trimmed and has places does not end in a zero. -/
theorem Decimal.trim_digits (d : Decimal) : d.trim.exponent < 0 → d.trim.digits % 10 ≠ 0 := by
  fun_induction trim d with
  | case1 => exact fun hneg => absurd hneg (by decide)
  | case2 d _ _ ih => exact ih
  | case3 d _ hlast => exact fun _ => hlast

/-- A number that is written with a zero at its end is a multiple of ten. -/
theorem mod_ten_of_last {n : Nat} (h : (Nat.toDigits 10 n).getLast? = some '0') : n % 10 = 0 := by
  obtain ⟨front, hfront⟩ := List.getLast?_eq_some_iff.mp h
  rw [← Nat.ofDigitChars_ten_toDigits (n := n), hfront, Nat.ofDigitChars_append]
  show (10 * _ + 0) % 10 = 0
  omega

namespace Layout

/-- A text without the point and the zero at its end, if it ends in these. -/
def withoutPointZero (text : List Char) : List Char :=
  if ['.', '0'] <:+ text then text.take (text.length - 2) else text

theorem withoutPointZero_append (front : List Char) :
    withoutPointZero (front ++ ['.', '0']) = front := by
  rw [withoutPointZero, if_pos (List.suffix_append ..), List.length_append]
  exact List.take_left

theorem withoutPointZero_of_last {text : List Char} (h : text.getLast? ≠ some '0') :
    withoutPointZero text = text := by
  refine if_neg ?_
  rintro ⟨front, rfl⟩
  rw [List.getLast?_append] at h
  exact h rfl

/-- In positional form, a decimal with places ends in its last digit. -/
theorem getLast?_positional (l : Layout) {digits : List Char} {c : Char}
    (h : digits.getLast? = some c) (k : Nat) :
    (l.positional digits (.negSucc k)).getLast? = some c := by
  have hne : digits ≠ [] := by
    rintro rfl
    cases h
  have hpos := List.length_pos_iff.mpr hne
  show (if k + 1 < digits.length then _ else _ : List Char).getLast? = _
  split
  · have hplaces : (digits.drop (digits.length - (k + 1))).getLast? = some c := by
      rw [List.getLast?_drop, if_neg (by omega), h]
    rw [List.getLast?_append, List.getLast?_cons, hplaces]
    rfl
  · rw [List.getLast?_append, h]
    rfl

/-- A text that ends in a power of ten does not end in a point and a zero: a power has two
    characters or more, and no point. -/
theorem withoutPointZero_scientific (l : Layout) (sign digits : List Char) (p : Int) :
    withoutPointZero (sign ++ l.scientific digits p) = sign ++ l.scientific digits p := by
  refine if_neg fun hends => ?_
  have hpower : l.power p <:+ sign ++ l.scientific digits p :=
    ⟨sign ++ mantissa digits ++ ['e'], by simp [scientific_eq]⟩
  have hlength : ['.', '0'].length ≤ (l.power p).length := by
    have := List.length_pos_iff.mpr (digits_toDigits p.natAbs).ne_nil
    simp only [power, List.length_cons, List.length_append, List.length_nil]
    omega
  have hmem : '.' ∈ l.power p :=
    (List.suffix_of_suffix_length_le hends hpower hlength).subset List.mem_cons_self
  rcases mem_power hmem with hdigit | hsign
  · cases hdigit
  · exact absurd hsign (by decide)

theorem plain_writeDecimal {d : Decimal} (hd : d.exponent < 0 → d.digits % 10 ≠ 0)
    (sign : List Char) :
    sign ++ plain.writeDecimal d = withoutPointZero (sign ++ pointed.writeDecimal d) := by
  by_cases hfits : pointed.Fits d
  · have hplain : plain.Fits d := hfits
    rw [writeDecimal_of_fits hfits, writeDecimal_of_fits hplain]
    rcases d with ⟨n, k | k⟩
    · have hwhole : pointed.positional (Nat.toDigits 10 n) (.ofNat k) =
          plain.positional (Nat.toDigits 10 n) (.ofNat k) ++ ['.', '0'] := by
        rw [positional, positional, show plain.wholeTail = [] from rfl, List.append_nil]
        rfl
      rw [hwhole, ← List.append_assoc, withoutPointZero_append]
    · -- the places are kept, since the last of them is no zero
      have hlast := List.getLast?_eq_some_getLast (digits_toDigits n).ne_nil
      refine (withoutPointZero_of_last ?_).symm
      rw [List.getLast?_append, getLast?_positional _ hlast]
      intro hzero
      exact hd (Int.negSucc_lt_zero k) (mod_ten_of_last (hlast.trans hzero))
  · have hplain : ¬ plain.Fits d := hfits
    rw [writeDecimal_of_not_fits hfits, writeDecimal_of_not_fits hplain,
      withoutPointZero_scientific]
    rfl

end Layout

/-- **What is printed of a number is its full text without the `.0` of whole numbers.** -/
theorem Value.toList_text_of_listing (x : Float) :
    (number x).text.toList = Layout.withoutPointZero (number x).listing.toList := by
  show (Layout.plain.write x).toList = Layout.withoutPointZero (Layout.pointed.write x).toList
  rw [Layout.write, Layout.write, String.toList_ofList, String.toList_ofList]
  by_cases hn : x.isNaN = true
  · rw [Layout.writeChars, Layout.writeChars, if_pos hn, if_pos hn]
    exact (Layout.withoutPointZero_of_last (by decide)).symm
  by_cases hi : x.isInf = true
  · rw [Layout.writeChars, Layout.writeChars, if_neg hn, if_neg hn, if_pos hi, if_pos hi]
    refine (Layout.withoutPointZero_of_last ?_).symm
    rw [List.getLast?_append, show "inf".toList.getLast? = some 'f' from rfl]
    exact fun hlast => absurd (Option.some.inj hlast) (by decide)
  · have hn' := Bool.eq_false_iff.mpr hn
    have hi' := Bool.eq_false_iff.mpr hi
    rw [Layout.writeChars_of_finite _ hn' hi', Layout.writeChars_of_finite _ hn' hi']
    exact Layout.plain_writeDecimal (Decimal.trim_digits _) _

/-! ## 6. Printed numbers read back -/

/-- In front of a semicolon a number is cut as it is elsewhere. -/
theorem Lexeme.cut_number {text : List Char} {v : Value} (h : Lexeme .number text v)
    (rest : List Char) : Cut ⟨text, .token .number v⟩ (';' :: rest) := by
  have hstop : Stops Char.isDigit (';' :: rest) := (stops_cons ..).mpr rfl
  cases h with
  | fixed h => cases h
  | whole hne hd =>
      refine .whole hne hd hstop (fun c cs hrest => ?_) (read?_whole hne hd)
      cases hrest
  | fraction hne hd hne' hp => exact .fraction hne hd hne' hp hstop (read?_fraction hne hd hne' hp)

theorem Lexeme.pieces_number {text : List Char} {v : Value} (h : Lexeme .number text v) :
    pieces (text ++ [';']) = [⟨text, .token .number v⟩, .word .semicolon [';']] := by
  have hsemi : Cut (.word .semicolon [';']) [] := .symbol rfl
  have hrest : pieces [';'] = .word .semicolon [';'] :: pieces [] := hsemi.pieces_eq
  rw [(h.cut_number []).pieces_eq, hrest, pieces_nil]

theorem pieces_minus (rest : List Char) :
    pieces ('-' :: rest) = .word .minus ['-'] :: pieces rest := by
  have hminus : Cut (.word .minus ['-']) rest := .symbol rfl
  exact hminus.pieces_eq

/-- A number and a semicolon are a program, with a minus sign before them or without one. -/
theorem derives_number {number semi : Token} {v : Value} (hn : number.kind = .number)
    (hv : number.literal = v) (hs : semi.kind = .semicolon) :
    DerivesProgram [number, semi] [.expression (.literal v)] ∧
      ∀ minus : Token, minus.kind = .minus →
        DerivesProgram [minus, number, semi] [.expression (.unary minus (.literal v))] := by
  subst hv
  have hprimary : Derives .primary [number] (.literal number.literal) := .literal (.number hn)
  refine ⟨.cons (.expression (.of_unary (.primary hprimary)) hs) .nil, fun minus hm => ?_⟩
  exact .cons (.expression (.of_unary (.unary (.inr hm) (.primary hprimary))) hs) .nil

/-- **A finite number written positionally, with a semicolon behind it, is scanned as a program**
    that consists of one expression with this value. -/
theorem scan_number {x : Float} (hn : x.isNaN = false) (hi : x.isInf = false)
    (hfits : Layout.plain.Fits (Decimal.shortest x)) {source : String}
    (hsource : source.toList = Layout.plain.writeChars x ++ [';']) :
    (scan source).errors = [] ∧
      ∃ e, DerivesProgram (scan source).stream.tokens [.expression e] ∧
        ∀ env, e.eval env = (.ok (.number x), env) := by
  have hfinite := Double.magnitude_lt hn hi
  have hpieces := (Decimal.shortest x).lexeme_positional.pieces_number
  rw [Layout.plain.writeChars_of_finite hn hi, Layout.writeDecimal_of_fits hfits] at hsource
  cases hs : Double.isNegative x with
  | false =>
      rw [hs, if_neg Bool.false_ne_true, List.nil_append] at hsource
      rw [scan, scanFrom_eq, hsource, hpieces]
      refine ⟨rfl, _, (derives_number rfl rfl rfl).1, fun env => ?_⟩
      rw [Expr.eval, Decimal.toFloat_shortest hfinite hs]
  | true =>
      rw [hs, if_pos rfl, List.singleton_append, List.cons_append] at hsource
      rw [scan, scanFrom_eq, hsource, pieces_minus, hpieces]
      refine ⟨rfl, _, (derives_number rfl rfl rfl).2 _ rfl, fun env => ?_⟩
      rw [Expr.eval, Expr.eval]
      show (Except.ok (Value.number _), env) = _
      rw [Decimal.neg_toFloat_shortest hfinite hs]

/-- **Printed numbers read back.** Let the full text of a number be a minus sign or none, digits, a
    point and digits.  What is printed for the number, with a semicolon behind it, is then scanned
    without an error and read without a report as one expression statement, and in every scope the
    value of the expression is the number again, to the bit. -/
theorem printed_numbers_read_back (x : Float) (hx : Positional (Layout.pointed.writeChars x)) :
    let source := (Value.number x).text ++ ";"
    (scan source).errors = [] ∧
    ∃ e, (∀ r : Reporter, r.hadError = false →
        (r.read source).diagnostics = [] ∧ (r.read source).program.statements = [.expression e] ∧
          (r.read source).program.reporter = r) ∧
      ∀ env, e.eval env = (.ok (.number x), env) := by
  intro source
  obtain ⟨hn, hi, hfits⟩ := Layout.finite_of_positional hx
  have hsource : source.toList = Layout.plain.writeChars x ++ [';'] := by
    rw [String.toList_append]
    exact congrArg (· ++ [';']) String.toList_ofList
  -- both layouts write the same numbers positionally
  have hplain : Layout.plain.Fits (Decimal.shortest x) := hfits
  obtain ⟨herrors, e, hderives, heval⟩ := scan_number hn hi hplain hsource
  exact ⟨herrors, e, fun r hr => Reporter.read_of_derives hr herrors hderives, heval⟩

/-- The negative zero is printed as `-0`, and `-0;` has the value `-0` and not `0`. -/
theorem printed_numbers_read_back_zero :
    let x := Float.ofBits 0x8000000000000000
    Positional (Layout.pointed.writeChars x) ∧ (Value.number x).text = "-0" ∧
      ∃ e, (({} : Reporter).read "-0;").program.statements = [.expression e] ∧
        e.eval {} = (.ok (.number x), {}) ∧ x ≠ 0 := by
  intro x
  have hx : Positional (Layout.pointed.writeChars x) :=
    ⟨['-'], ['0'], ['0'], .inr rfl, digits_zero, digits_zero, by decide +kernel⟩
  have htext : (Value.number x).text = "-0" := by decide +kernel
  obtain ⟨-, e, hread, heval⟩ := printed_numbers_read_back x hx
  rw [htext] at hread
  exact ⟨hx, htext, e, (hread {} rfl).2.1, heval {}, by decide +kernel⟩

end Lox
