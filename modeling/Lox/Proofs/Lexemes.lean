/-
  File:      Lox/Proofs/Lexemes.lean
  Subject:   What the pieces of a source look like, said as a relation.

  `Cut p rest` holds when the piece `p` is cut off a source in front of `rest`.  Every sort of piece
  is one constructor: what it is spelled like, and what must not follow, since it would be longer
  then.

  * `Closes` -- the text of a block comment behind its opening mark, as long as it is closed;
  * `Cut` -- the pieces;
  * `Cut.next_eq`, `exists_cut` -- the relation and the function agree on all sources;
  * `Cut.pieces_eq` -- so a source is cut piece by piece;
  * `Cut.before_blank` -- in front of a blank a token is cut as it was elsewhere.
-/
import Lox.Proofs.Counting
import Mathlib

namespace Lox

open Token (Kind)

/-! ## 1. Classes of characters -/

/-- What `rest` begins with, if with anything, does not satisfy `p`. -/
def Stops (p : Char → Bool) (rest : List Char) : Prop :=
  ∀ c ∈ rest.head?, p c = false

@[simp] theorem stops_nil (p : Char → Bool) : Stops p [] :=
  fun _ h => nomatch h

@[simp] theorem stops_cons (p : Char → Bool) (c : Char) (rest : List Char) :
    Stops p (c :: rest) ↔ p c = false := by
  simp [Stops]

/-- A text that does not hold a character runs up to its first occurrence. -/
theorem ne_of_not_mem {x : Char} {cs : List Char} (h : x ∉ cs) :
    ∀ c ∈ cs, decide (c ≠ x) = true :=
  fun _ hc => decide_eq_true fun hx => h (hx ▸ hc)

namespace Piece

/-- True of the characters that no piece but an error begins with. -/
def IsUnexpected (c : Char) : Prop :=
  Kind.ofSymbol? c = none ∧ Kind.ofExtensible? c = none ∧ c ≠ '/' ∧ isBlank c = false ∧ c ≠ quote ∧
    c.isDigit = false ∧ startsWord c = false

theorem continuesWord_of_symbol {c : Char} {k : Kind} (h : Kind.ofSymbol? c = some k) :
    continuesWord c = false := by
  unfold Kind.ofSymbol? at h
  split at h
  case h_11 => cases h
  all_goals decide

theorem ofExtensible?_class {c : Char} {k : Kind × Kind} (h : Kind.ofExtensible? c = some k) :
    Kind.ofSymbol? c = none ∧ continuesWord c = false := by
  unfold Kind.ofExtensible? at h
  split at h
  case h_5 => cases h
  all_goals decide

theorem isBlank_cases {c : Char} (h : isBlank c = true) :
    c = ' ' ∨ c = '\r' ∨ c = '\t' ∨ c = '\n' := by
  simpa [isBlank, or_assoc] using h

theorem continuesWord_of_blank {c : Char} (h : isBlank c = true) : continuesWord c = false := by
  rcases isBlank_cases h with rfl | rfl | rfl | rfl <;> decide

theorem continuesWord_of_digit {c : Char} (h : c.isDigit = true) : continuesWord c = true := by
  simp [continuesWord, h]

theorem continuesWord_of_start {c : Char} (h : startsWord c = true) : continuesWord c = true := by
  simp [continuesWord, h]

/-- The characters of words and numbers are of no other class. -/
theorem continuesWord_class {c : Char} (h : continuesWord c = true) :
    Kind.ofSymbol? c = none ∧ Kind.ofExtensible? c = none ∧ c ≠ '/' ∧ isBlank c = false ∧
      c ≠ quote := by
  refine ⟨?_, ?_, ?_, ?_, ?_⟩
  · refine Option.eq_none_iff_forall_ne_some.mpr fun k hk => ?_
    rw [continuesWord_of_symbol hk] at h
    cases h
  · refine Option.eq_none_iff_forall_ne_some.mpr fun k hk => ?_
    rw [(ofExtensible?_class hk).2] at h
    cases h
  · rintro rfl
    revert h
    decide
  · refine Bool.eq_false_iff.mpr fun hb => ?_
    rw [continuesWord_of_blank hb] at h
    cases h
  · rintro rfl
    revert h
    decide

/-- No word begins with a digit. -/
theorem isDigit_of_start {c : Char} (h : startsWord c = true) : c.isDigit = false := by
  refine Bool.eq_false_iff.mpr fun hd => ?_
  simp only [startsWord, Char.isAlpha, Char.isUpper, Char.isLower, Char.isDigit, Bool.or_eq_true,
    Bool.and_eq_true, decide_eq_true_eq, ge_iff_le, UInt32.le_iff_toNat_le] at h hd
  rcases h with h | rfl
  · have hnine : '9'.val.toNat = 57 := rfl
    have hupper : 'A'.val.toNat = 65 := rfl
    have hlower : 'a'.val.toNat = 97 := rfl
    omega
  · revert hd
    decide

end Piece

/-! ## 2. Block comments -/

/-- The text closes `depth` openings of block comments, the last of them with its last mark.  Marks
    are read from left to right, and each character belongs to one of them at most. -/
inductive Closes : (depth : Nat) → List Char → Prop
  | done : Closes 0 []
  | opening {depth cs} (h : Closes (depth + 2) cs) : Closes (depth + 1) ('/' :: '*' :: cs)
  | closing {depth cs} (h : Closes depth cs) : Closes (depth + 1) ('*' :: '/' :: cs)
  | other {depth c d cs} (hm : ¬ Piece.IsMark c d) (h : Closes (depth + 1) (d :: cs)) :
      Closes (depth + 1) (c :: d :: cs)

/-- A comment that is closed ends there, whatever follows. -/
theorem Closes.commentBody_eq {depth : Nat} {body : List Char} (h : Closes depth body)
    (rest : List Char) : Piece.commentBody depth (body ++ rest) = body := by
  induction h with
  | done => simp [Piece.commentBody]
  | opening _ ih | closing _ ih => simp [Piece.commentBody, ih]
  | other hm _ ih =>
      rw [List.cons_append] at ih
      rw [List.cons_append, List.cons_append, Piece.commentBody_cons _ hm, ih]

/-- What is left of a block comment is closed, or it is all that is left of the source. -/
theorem commentBody_closes (depth : Nat) (cs : List Char) :
    Closes depth (Piece.commentBody depth cs) ∨ Piece.commentBody depth cs = cs := by
  fun_induction Piece.commentBody depth cs with
  | case1 cs => exact .inl .done
  | case2 => exact .inr rfl
  | case3 depth cs ih =>
      rcases ih with h | h
      · exact .inl (.opening h)
      · exact .inr (by rw [h])
  | case4 depth cs ih =>
      rcases ih with h | h
      · exact .inl (.closing h)
      · exact .inr (by rw [h])
  | case5 depth c cs h1 h2 ih =>
      rcases ih with h | h
      · cases cs with
        | nil => cases h
        | cons d cs =>
            have hm : ¬ Piece.IsMark c d := by
              rintro (⟨hc, rfl⟩ | ⟨hc, rfl⟩)
              · exact h1 cs hc rfl
              · exact h2 cs hc rfl
            obtain ⟨body, hbody⟩ := Piece.commentBody_head depth d cs
            rw [hbody] at h ⊢
            exact .inl (.other hm h)
      · exact .inr (by rw [h])

/-- A comment that is never closed runs to the end of the source. -/
theorem commentBody_open {body : List Char} (h : ∀ closed, closed <+: body → ¬ Closes 1 closed) :
    Piece.commentBody 1 body = body := by
  rcases commentBody_closes 1 body with hc | hc
  · obtain ⟨tail, htail⟩ := Piece.commentBody_prefix 1 body
    exact absurd hc (h _ ⟨tail, htail.symm⟩)
  · exact hc

/-! ## 3. Pieces -/

/-- The piece is cut off a source in front of `rest`. -/
inductive Cut : Piece → (rest : List Char) → Prop
  | symbol {c kind rest} (h : Kind.ofSymbol? c = some kind) : Cut (.word kind [c]) rest
  | alone {c alone extended rest} (h : Kind.ofExtensible? c = some (alone, extended))
      (hr : Stops (· = '=') rest) : Cut (.word alone [c]) rest
  | extended {c alone extended rest} (h : Kind.ofExtensible? c = some (alone, extended)) :
      Cut (.word extended [c, '=']) rest
  | slash {rest} (hr : Stops (fun c => c = '/' ∨ c = '*') rest) : Cut (.word .slash ['/']) rest
  | lineComment {body rest} (hb : '\n' ∉ body) (hr : Stops (· ≠ '\n') rest) :
      Cut ⟨'/' :: '/' :: body, .comment⟩ rest
  | blockComment {body rest} (hb : Closes 1 body) : Cut ⟨'/' :: '*' :: body, .comment⟩ rest
  /-- A block comment that is not closed runs to the end of the source. -/
  | openComment {body} (hb : ∀ closed, closed <+: body → ¬ Closes 1 closed) :
      Cut ⟨'/' :: '*' :: body, .comment⟩ []
  | blank {c rest} (h : Piece.isBlank c = true) : Cut ⟨[c], .blank⟩ rest
  | string {body rest} (hb : Piece.quote ∉ body) :
      Cut ⟨Piece.quote :: (body ++ [Piece.quote]), .token .string (.string (String.ofList body))⟩
        rest
  /-- A string that is not closed runs to the end of the source. -/
  | unclosed {body} (hb : Piece.quote ∉ body) : Cut ⟨Piece.quote :: body, .unclosed⟩ []
  | whole {digits rest value} (hne : digits ≠ []) (hd : ∀ c ∈ digits, c.isDigit = true)
      (hr : Stops Char.isDigit rest) (hp : ∀ c cs, rest = '.' :: c :: cs → c.isDigit = false)
      (hv : Decimal.read? digits = some value) :
      Cut ⟨digits, .token .number (.number value.toFloat)⟩ rest
  | fraction {digits places rest value} (hne : digits ≠ []) (hd : ∀ c ∈ digits, c.isDigit = true)
      (hne' : places ≠ []) (hp : ∀ c ∈ places, c.isDigit = true) (hr : Stops Char.isDigit rest)
      (hv : Decimal.read? (digits ++ '.' :: places) = some value) :
      Cut ⟨digits ++ '.' :: places, .token .number (.number value.toFloat)⟩ rest
  | letters {c cs rest} (hc : Piece.startsWord c = true)
      (hcs : ∀ d ∈ cs, Piece.continuesWord d = true) (hr : Stops Piece.continuesWord rest) :
      Cut (.word (Kind.ofWord (String.ofList (c :: cs))) (c :: cs)) rest
  | unexpected {c rest} (h : Piece.IsUnexpected c) : Cut ⟨[c], .unexpected c⟩ rest

/-! ## 4. The function does what the relation says -/

theorem takeWhile_stops {p : Char → Bool} {cs rest : List Char} (h : ∀ c ∈ cs, p c = true)
    (hr : Stops p rest) :
    (cs ++ rest).takeWhile p = cs ∧ (cs ++ rest).dropWhile p = rest := by
  rw [List.takeWhile_append_of_pos h, List.dropWhile_append_of_pos h]
  cases rest with
  | nil => simp
  | cons d rest =>
      have hd : p d = false := hr d rfl
      simp [hd]

theorem next_of_continuesWord {c : Char} (h : Piece.continuesWord c = true) (rest : List Char) :
    Piece.next c rest =
      if c.isDigit then Piece.ofDigit c rest
      else if Piece.startsWord c then Piece.ofLetter c rest
      else ⟨[c], .unexpected c⟩ := by
  obtain ⟨hs, he, hslash, hb, hq⟩ := Piece.continuesWord_class h
  simp only [Piece.next, hs, he, hslash, hb, hq, if_false, Bool.false_eq_true]

/-- The digits of a number, put before what stops them, are read again. -/
theorem ofDigit_eq {c : Char} {body rest : List Char} {value : Decimal}
    (ht : Piece.numberText c (body ++ rest) = c :: body)
    (hv : Decimal.read? (c :: body) = some value) :
    Piece.ofDigit c (body ++ rest) = ⟨c :: body, .token .number (.number value.toFloat)⟩ := by
  simp only [Piece.ofDigit, ht, hv]

theorem numberText_whole {c : Char} {digits rest : List Char}
    (hd : ∀ d ∈ digits, d.isDigit = true) (hr : Stops Char.isDigit rest)
    (hp : ∀ d cs, rest = '.' :: d :: cs → d.isDigit = false) :
    Piece.numberText c (digits ++ rest) = c :: digits := by
  obtain ⟨htake, hdrop⟩ := takeWhile_stops hd hr
  simp only [Piece.numberText, htake, hdrop]
  split
  · rename_i d cs
    rw [if_neg (by simp [hp d cs rfl])]
  · rfl

theorem numberText_fraction {c : Char} {digits places rest : List Char}
    (hd : ∀ d ∈ digits, d.isDigit = true) (hne : places ≠ [])
    (hp : ∀ d ∈ places, d.isDigit = true) (hr : Stops Char.isDigit rest) :
    Piece.numberText c (digits ++ '.' :: places ++ rest) = c :: (digits ++ '.' :: places) := by
  obtain ⟨d, places, rfl⟩ := List.exists_cons_of_ne_nil hne
  obtain ⟨hdigit, hplaces⟩ := List.forall_mem_cons.mp hp
  have hpoint : Stops Char.isDigit ('.' :: d :: (places ++ rest)) :=
    (stops_cons ..).mpr rfl
  obtain ⟨htake, hdrop⟩ := takeWhile_stops hd hpoint
  rw [List.append_assoc, List.cons_append, List.cons_append]
  simp only [Piece.numberText, htake, hdrop, hdigit, if_true, (takeWhile_stops hplaces hr).1,
    List.cons_append]

theorem ofSlash_stops {rest : List Char} (hr : Stops (fun c => c = '/' ∨ c = '*') rest) :
    Piece.ofSlash rest = .word .slash ['/'] := by
  cases rest with
  | nil => rfl
  | cons d rest =>
      have hd := hr d rfl
      simp only [decide_eq_false_iff_not, not_or] at hd
      simp [Piece.ofSlash, hd]

theorem ofQuote_closed {body : List Char} (hb : Piece.quote ∉ body) (rest : List Char) :
    Piece.ofQuote (body ++ Piece.quote :: rest) =
      ⟨Piece.quote :: (body ++ [Piece.quote]),
        .token .string (.string (String.ofList body))⟩ := by
  have hstop : Stops (· ≠ Piece.quote) (Piece.quote :: rest) := by simp
  obtain ⟨htake, hdrop⟩ := takeWhile_stops (ne_of_not_mem hb) hstop
  simp only [Piece.ofQuote, htake, hdrop, List.cons_append]

theorem ofQuote_open {body : List Char} (hb : Piece.quote ∉ body) :
    Piece.ofQuote body = ⟨Piece.quote :: body, .unclosed⟩ := by
  obtain ⟨htake, hdrop⟩ := takeWhile_stops (ne_of_not_mem hb) (stops_nil _)
  rw [List.append_nil] at htake hdrop
  simp only [Piece.ofQuote, htake, hdrop]

/-- **The function does what the relation says.** -/
theorem Cut.next_eq {p : Piece} {rest : List Char} (h : Cut p rest) :
    ∀ {c body}, p.text = c :: body → Piece.next c (body ++ rest) = p := by
  intro c body ht
  cases h with
  | symbol h =>
      cases ht
      simp [Piece.next, h, Piece.word]
  | alone h hr =>
      cases ht
      have hs := (Piece.ofExtensible?_class h).1
      have hhead : rest.head? ≠ some '=' := by
        intro hh
        have := hr '=' hh
        simp at this
      simp [Piece.next, hs, h, hhead]
  | extended h =>
      cases ht
      have hs := (Piece.ofExtensible?_class h).1
      simp [Piece.next, hs, h]
  | slash hr =>
      cases ht
      exact ofSlash_stops hr
  | @lineComment body _ hb hr =>
      cases ht
      have hline := (takeWhile_stops (ne_of_not_mem hb) hr).1
      show Piece.mk ('/' :: '/' :: (body ++ rest).takeWhile (· ≠ '\n')) .comment = _
      rw [hline]
  | @blockComment body _ hb =>
      cases ht
      show Piece.mk ('/' :: '*' :: Piece.commentBody 1 (body ++ rest)) .comment = _
      rw [hb.commentBody_eq rest]
  | @openComment body hb =>
      cases ht
      show Piece.mk ('/' :: '*' :: Piece.commentBody 1 (body ++ [])) .comment = _
      rw [List.append_nil, commentBody_open hb]
  | blank h =>
      cases ht
      rcases Piece.isBlank_cases h with rfl | rfl | rfl | rfl <;> rfl
  | string hb =>
      cases ht
      rw [List.append_assoc]
      exact ofQuote_closed hb rest
  | unclosed hb =>
      cases ht
      rw [List.append_nil]
      exact ofQuote_open hb
  | whole hne hd hr hp hv =>
      cases ht
      obtain ⟨hc, hbody⟩ := List.forall_mem_cons.mp hd
      rw [next_of_continuesWord (Piece.continuesWord_of_digit hc), if_pos hc]
      exact ofDigit_eq (numberText_whole hbody hr hp) hv
  | @fraction digits places _ value hne hd hne' hp hr hv =>
      obtain ⟨c', digits, rfl⟩ := List.exists_cons_of_ne_nil hne
      cases ht
      obtain ⟨hc, hdigits⟩ := List.forall_mem_cons.mp hd
      rw [next_of_continuesWord (Piece.continuesWord_of_digit hc), if_pos hc]
      exact ofDigit_eq (numberText_fraction hdigits hne' hp hr) hv
  | letters hc hcs hr =>
      cases ht
      have hd := Piece.isDigit_of_start hc
      rw [next_of_continuesWord (Piece.continuesWord_of_start hc), hd, if_neg Bool.false_ne_true,
        if_pos hc]
      simp only [Piece.ofLetter, (takeWhile_stops hcs hr).1]
  | unexpected h =>
      cases ht
      obtain ⟨hs, he, hslash, hb, hq, hd, hw⟩ := h
      simp [Piece.next, hs, he, hslash, hb, hq, hd, hw]

/-! ## 5. The relation says something about all sources -/

theorem stops_dropWhile (p : Char → Bool) (cs : List Char) : Stops p (cs.dropWhile p) := by
  have h := List.head?_dropWhile_not p cs
  intro c hc
  rw [hc] at h
  exact h

/-- The source is what is cut off its front, and the rest. -/
def Severs (c : Char) (cs : List Char) (p : Piece) : Prop :=
  ∃ rest, c :: cs = p.text ++ rest ∧ Cut p rest

theorem not_mem_takeWhile_ne (x : Char) (cs : List Char) : x ∉ cs.takeWhile (· ≠ x) := by
  intro h
  have hx := List.mem_takeWhile_imp h
  simp at hx

theorem severs_block (cs : List Char) :
    Severs '/' ('*' :: cs) ⟨'/' :: '*' :: Piece.commentBody 1 cs, .comment⟩ := by
  by_cases hc : Closes 1 (Piece.commentBody 1 cs)
  · obtain ⟨tail, htail⟩ := Piece.commentBody_prefix 1 cs
    exact ⟨tail, congrArg (fun cs => '/' :: '*' :: cs) htail, .blockComment hc⟩
  · have hall := (commentBody_closes 1 cs).resolve_left hc
    refine ⟨[], by rw [hall, List.append_nil], .openComment ?_⟩
    rintro closed ⟨tail, htail⟩ hclosed
    rw [hall] at htail hc
    have hbody := hclosed.commentBody_eq tail
    rw [htail, hall] at hbody
    exact hc (hbody ▸ hclosed)

theorem severs_slash (cs : List Char) : Severs '/' cs (Piece.ofSlash cs) := by
  unfold Piece.ofSlash
  split
  · rename_i cs
    refine ⟨cs.dropWhile (· ≠ '\n'), ?_, .lineComment (not_mem_takeWhile_ne '\n' cs)
      (stops_dropWhile _ cs)⟩
    simp only [List.cons_append, List.takeWhile_append_dropWhile]
  · exact severs_block _
  · rename_i hline hblock
    refine ⟨cs, rfl, .slash ?_⟩
    cases cs with
    | nil => exact stops_nil _
    | cons d cs =>
        rw [stops_cons, decide_eq_false_iff_not]
        rintro (rfl | rfl)
        · exact hline cs rfl
        · exact hblock cs rfl

theorem severs_quote (cs : List Char) : Severs Piece.quote cs (Piece.ofQuote cs) := by
  have hsplit : cs.takeWhile (· ≠ Piece.quote) ++ cs.dropWhile (· ≠ Piece.quote) = cs :=
    List.takeWhile_append_dropWhile
  have hbody := not_mem_takeWhile_ne Piece.quote cs
  have hstop := stops_dropWhile (· ≠ Piece.quote) cs
  unfold Piece.ofQuote
  split
  · rename_i hd
    rw [hd, List.append_nil] at hsplit
    exact ⟨[], by rw [List.append_nil, hsplit], .unclosed hbody⟩
  · rename_i q tail hd
    rw [hd, stops_cons, decide_eq_false_iff_not, Decidable.not_not] at hstop
    rw [hd, hstop] at hsplit
    refine ⟨tail, ?_, .string hbody⟩
    show _ = Piece.quote :: cs.takeWhile (· ≠ Piece.quote) ++ [Piece.quote] ++ tail
    rw [List.cons_append, List.cons_append, List.append_assoc, List.singleton_append, hsplit]

/-- Digits are read as a number. -/
theorem read?_whole {digits : List Char} (hne : digits ≠ []) (hd : ∀ c ∈ digits, c.isDigit = true) :
    Decimal.read? digits = some ⟨Nat.ofDigitChars 10 digits 0, 0⟩ := by
  obtain ⟨htake, hdrop⟩ := takeWhile_stops hd (stops_nil _)
  rw [List.append_nil] at htake hdrop
  simp [Decimal.read?, htake, hdrop, hne]

/-- Digits, a point and digits are read as a number. -/
theorem read?_fraction {digits places : List Char} (hne : digits ≠ [])
    (hd : ∀ c ∈ digits, c.isDigit = true) (hne' : places ≠ [])
    (hp : ∀ c ∈ places, c.isDigit = true) :
    Decimal.read? (digits ++ '.' :: places) =
      some ⟨Nat.ofDigitChars 10 (digits ++ places) 0, - places.length⟩ := by
  have hpoint : Stops Char.isDigit ('.' :: places) := (stops_cons ..).mpr rfl
  obtain ⟨htake, hdrop⟩ := takeWhile_stops hd hpoint
  have hall : places.all Char.isDigit = true := List.all_eq_true.mpr hp
  simp [Decimal.read?, htake, hdrop, hne, hne', hall]

/-- The text of a number, whole or with a fraction, has a value and ends where the digits end. -/
theorem severs_digit {c : Char} (hc : c.isDigit = true) (cs : List Char) :
    Severs c cs (Piece.ofDigit c cs) := by
  have hsplit : cs.takeWhile Char.isDigit ++ cs.dropWhile Char.isDigit = cs :=
    List.takeWhile_append_dropWhile
  have hdigits : ∀ d ∈ c :: cs.takeWhile Char.isDigit, d.isDigit = true :=
    List.forall_mem_cons.mpr ⟨hc, fun _ => List.mem_takeWhile_imp⟩
  have hne := List.cons_ne_nil c (cs.takeWhile Char.isDigit)
  have hstop := stops_dropWhile Char.isDigit cs
  by_cases hpoint : ∃ d tail, cs.dropWhile Char.isDigit = '.' :: d :: tail ∧ d.isDigit = true
  · obtain ⟨d, tail, hdrop, hd⟩ := hpoint
    have hplaces : ∀ x ∈ d :: tail.takeWhile Char.isDigit, x.isDigit = true :=
      List.forall_mem_cons.mpr ⟨hd, fun _ => List.mem_takeWhile_imp⟩
    have hne' := List.cons_ne_nil d (tail.takeWhile Char.isDigit)
    have hvalue := read?_fraction hne hdigits hne' hplaces
    have htext : Piece.numberText c cs =
        (c :: cs.takeWhile Char.isDigit) ++ '.' :: d :: tail.takeWhile Char.isDigit := by
      simp only [Piece.numberText, hdrop, hd, if_true]
    simp only [Piece.ofDigit, htext, hvalue]
    refine ⟨tail.dropWhile Char.isDigit, ?_, .fraction hne hdigits hne' hplaces
      (stops_dropWhile _ tail) hvalue⟩
    rw [List.append_assoc, List.cons_append, List.cons_append, List.cons_append,
      List.takeWhile_append_dropWhile, ← hdrop, hsplit]
  · have hvalue := read?_whole hne hdigits
    have htext : Piece.numberText c cs = c :: cs.takeWhile Char.isDigit := by
      unfold Piece.numberText
      split
      · rename_i d tail hdrop
        exact if_neg fun hd => hpoint ⟨d, tail, hdrop, hd⟩
      · rfl
    simp only [Piece.ofDigit, htext, hvalue]
    refine ⟨cs.dropWhile Char.isDigit, by rw [List.cons_append, hsplit],
      .whole hne hdigits hstop ?_ hvalue⟩
    intro d tail hdrop
    exact Bool.eq_false_iff.mpr fun hd => hpoint ⟨d, tail, hdrop, hd⟩

theorem severs_letter {c : Char} (hc : Piece.startsWord c = true) (cs : List Char) :
    Severs c cs (Piece.ofLetter c cs) := by
  refine ⟨cs.dropWhile Piece.continuesWord, ?_, .letters hc (fun _ => List.mem_takeWhile_imp)
    (stops_dropWhile _ cs)⟩
  exact congrArg (List.cons c) List.takeWhile_append_dropWhile.symm

/-- **The relation says what the first piece of a source is, whatever the source.** -/
theorem exists_cut (c : Char) (cs : List Char) : Severs c cs (Piece.next c cs) := by
  unfold Piece.next
  split
  · rename_i hs
    exact ⟨cs, rfl, .symbol hs⟩
  · rename_i he
    split
    · rename_i hhead
      obtain ⟨tail, rfl⟩ := List.head?_eq_some_iff.mp hhead
      exact ⟨tail, rfl, .extended he⟩
    · rename_i hhead
      refine ⟨cs, rfl, .alone he fun d hd => ?_⟩
      rw [decide_eq_false_iff_not]
      rintro rfl
      exact hhead hd
  · rename_i hs he
    split
    · rename_i hc
      rw [hc]
      exact severs_slash cs
    rename_i hslash
    split
    · rename_i hb
      exact ⟨cs, rfl, .blank hb⟩
    rename_i hblank
    split
    · rename_i hc
      rw [hc]
      exact severs_quote cs
    rename_i hquote
    split
    · rename_i hd
      exact severs_digit hd cs
    rename_i hdigit
    split
    · rename_i hw
      exact severs_letter hw cs
    rename_i hword
    exact ⟨cs, rfl, .unexpected ⟨hs, he, hslash, Bool.eq_false_iff.mpr hblank, hquote,
      Bool.eq_false_iff.mpr hdigit, Bool.eq_false_iff.mpr hword⟩⟩

theorem Cut.text_ne_nil {p : Piece} {rest : List Char} (h : Cut p rest) : p.text ≠ [] := by
  cases h with
  | whole hne => exact hne
  | fraction => simp
  | _ => exact List.cons_ne_nil _ _

/-- **A source is cut piece by piece.** -/
theorem Cut.pieces_eq {p : Piece} {rest : List Char} (h : Cut p rest) :
    pieces (p.text ++ rest) = p :: pieces rest := by
  obtain ⟨c, body, ht⟩ := List.exists_cons_of_ne_nil h.text_ne_nil
  have hnext := h.next_eq ht
  rw [ht, List.cons_append, pieces_cons (by rw [hnext, ht]), hnext]

/-- **In front of a blank a token is cut as it was elsewhere.** -/
theorem Cut.before_blank {p : Piece} {rest : List Char} (h : Cut p rest) {kind : Kind}
    {literal : Value} (hp : p.role = .token kind literal) {c : Char}
    (hc : Piece.isBlank c = true) (more : List Char) : Cut p (c :: more) := by
  have hword := Piece.continuesWord_of_blank hc
  have hdigit : Stops Char.isDigit (c :: more) := by
    rw [stops_cons]
    exact (Bool.or_eq_false_iff.mp hword).2
  cases h with
  | symbol h => exact .symbol h
  | alone h =>
      refine .alone h ((stops_cons ..).mpr ?_)
      rcases Piece.isBlank_cases hc with rfl | rfl | rfl | rfl <;> decide
  | extended h => exact .extended h
  | slash =>
      refine .slash ((stops_cons ..).mpr ?_)
      rcases Piece.isBlank_cases hc with rfl | rfl | rfl | rfl <;> decide
  | string hb => exact .string hb
  | whole hne hd _ _ hv =>
      refine .whole hne hd hdigit ?_ hv
      intro d cs hpoint
      cases hpoint
      cases hc
  | fraction hne hd hne' hplaces _ hv => exact .fraction hne hd hne' hplaces hdigit hv
  | letters hc hcs => exact .letters hc hcs ((stops_cons ..).mpr hword)
  | lineComment | blockComment | openComment | blank | unclosed | unexpected => cases hp

end Lox
