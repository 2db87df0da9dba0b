/-
  File:      Lox/Proofs/Resumption.lean
  Subject:   Where reading goes on after an error.

  The token that a failed declaration blames last is the first of those it drops.  From there on
  tokens are dropped up to the first place where a statement may begin: behind a semicolon, at a
  word that begins a statement, or at the end.  The blamed token itself is dropped in any case.

  * `Resumes` -- the places where a statement may begin;
  * `skip_isLeast` -- dropping tokens ends at the first of them;
  * `Cursor.places` -- where the tokens stand that a declaration blames;
  * `recovery_resumes_at_boundary` -- where a failed declaration leaves the cursor.
-/
import Lox.Proofs.Progress
import Lox.Proofs.Viability
import Mathlib.Order.Bounds.Basic

namespace Lox

/-! ## 1. Places where a statement may begin -/

/-- A statement may begin at the place `q`: it is the end, right behind a semicolon, or at a word
    that begins a statement. -/
def Resumes (ts : List Token) (q : Nat) : Prop :=
  q = ts.length ∨ (∃ i t, q = i + 1 ∧ ts[i]? = some t ∧ t.kind = .semicolon) ∨
    ∃ t, ts[q]? = some t ∧ t.kind ∈ statementWords

theorem Resumes.of_semicolon {ts : List Token} {i : Nat} {t : Token} (ht : ts[i]? = some t)
    (hk : t.kind = .semicolon) : Resumes ts (i + 1) :=
  .inr (.inl ⟨i, t, rfl, ht, hk⟩)

theorem Resumes.of_word {ts : List Token} {q : Nat} {t : Token} (ht : ts[q]? = some t)
    (hk : t.kind ∈ statementWords) : Resumes ts q :=
  .inr (.inr ⟨t, ht, hk⟩)

/-- Behind the first of `ts`, what stands before `ts` plays no part. -/
theorem resumes_append (us ts : List Token) {q : Nat} (hq : 1 ≤ q) :
    Resumes (us ++ ts) (q + us.length) ↔ Resumes ts q := by
  obtain ⟨n, rfl⟩ := Nat.exists_eq_add_of_le' hq
  have hlength : n + 1 + us.length = (us ++ ts).length ↔ n + 1 = ts.length := by
    rw [List.length_append]
    omega
  have hplace : ∀ i, (us ++ ts)[i + us.length]? = ts[i]? := fun i => by
    rw [List.getElem?_append_right (Nat.le_add_left _ _), Nat.add_sub_cancel]
  unfold Resumes
  rw [hlength, hplace]
  refine or_congr_right (or_congr_left ⟨?_, ?_⟩)
  · rintro ⟨i, t, hi, ht, hk⟩
    obtain rfl : n + us.length = i := by omega
    exact ⟨n, t, rfl, hplace n ▸ ht, hk⟩
  · rintro ⟨i, t, hi, ht, hk⟩
    obtain rfl : n = i := by omega
    exact ⟨n + us.length, t, by omega, (hplace n).symm ▸ ht, hk⟩

/-- **After an error the first token is dropped, and then all up to the first place where a
    statement may begin.** -/
theorem skip_isLeast (t : Token) (rest : List Token) :
    IsLeast {q | 1 ≤ q ∧ Resumes (t :: rest) q} (skip (t :: rest)) := by
  induction rest generalizing t with
  | nil => exact ⟨⟨Nat.le_refl 1, .inl rfl⟩, fun q hq => hq.1⟩
  | cons u rest ih =>
      by_cases hstop : t.kind = .semicolon ∨ u.kind ∈ statementWords
      · have hskip : skip (t :: u :: rest) = 1 := by simp [skip, skipBehind, hstop]
        rw [hskip]
        refine ⟨⟨Nat.le_refl 1, ?_⟩, fun q hq => hq.1⟩
        rcases hstop with hk | hk
        · exact Resumes.of_semicolon (i := 0) rfl hk
        · exact .of_word rfl hk
      · have hskip : skip (t :: u :: rest) = skip (u :: rest) + 1 := by
          simp [skip, skipBehind, hstop]
        obtain ⟨⟨hpos, hresumes⟩, hleast⟩ := ih u
        rw [hskip]
        refine ⟨⟨Nat.le_add_left 1 _, (resumes_append [t] _ hpos).mpr hresumes⟩, ?_⟩
        rintro q ⟨hq, hat⟩
        rcases Nat.lt_or_eq_of_le hq with hlt | rfl
        · -- a place further behind is one of the shorter list
          obtain ⟨n, rfl⟩ := Nat.exists_eq_add_of_le' hq
          have hn : 1 ≤ n := Nat.le_of_lt_succ hlt
          exact Nat.succ_le_succ (hleast ⟨hn, (resumes_append [t] _ hn).mp hat⟩)
        · rcases hat with hend | ⟨i, last, hi, hlast, hk⟩ | ⟨word, hword, hk⟩
          · simp at hend
          · obtain rfl : 0 = i := by omega
            cases hlast
            exact absurd (.inl hk) hstop
          · cases hword
            exact absurd (.inr hk) hstop

/-- What follows the tokens `us` of a failed statement is dropped in the same way. -/
theorem skip_isLeast_behind (us rest : List Token) :
    IsLeast {q | min (us.length + 1) (us ++ rest).length ≤ q ∧ Resumes (us ++ rest) q}
      (us.length + skip rest) := by
  cases rest with
  | nil =>
      rw [List.append_nil]
      refine ⟨⟨Nat.min_le_right _ _, .inl rfl⟩, fun q hq => ?_⟩
      rw [Nat.min_eq_right (Nat.le_add_right _ _)] at hq
      exact hq.1
  | cons t rest =>
      obtain ⟨⟨hpos, hresumes⟩, hleast⟩ := skip_isLeast t rest
      have hmin : min (us.length + 1) (us ++ t :: rest).length = us.length + 1 := by
        rw [List.length_append, List.length_cons]
        omega
      rw [hmin, Nat.add_comm us.length (skip (t :: rest))]
      refine ⟨⟨by omega, (resumes_append us _ hpos).mpr hresumes⟩, ?_⟩
      rintro q ⟨hq, hat⟩
      obtain ⟨n, rfl⟩ := Nat.exists_eq_add_of_le' (Nat.le_of_succ_le hq)
      have hn : 1 ≤ n := by omega
      exact Nat.add_le_add_right (hleast ⟨hn, (resumes_append us _ hn).mp hat⟩) _

/-! ## 2. Places of blamed tokens -/

namespace Cursor

/-- The cursor at the same place of the numbered stream. -/
def numbered (c : Cursor) : Cursor :=
  { c with stream := c.stream.numbered }

/-- The places of the tokens that a declaration blames, in the order of the reports.  The lines of
    the numbered stream tell them. -/
def places (c : Cursor) : List Nat :=
  (c.numbered.perform .declaration).diagnostics.map (·.line.toNat)

variable (c : Cursor)

theorem rest_numbered : c.numbered.rest.map c.stream.relined = c.rest := by
  rw [rest, List.map_drop]
  exact congrArg (List.drop c.position) c.stream.relined_tokens

theorem declaration_numbered :
    Lox.declaration c.stream.stop c.rest =
      (Lox.declaration c.stream.numbered.stop c.numbered.rest).relabel c.stream.relined := by
  rw [← declaration_relabel c.stream.relabels_relined, c.stream.relined_stop, rest_numbered]

theorem mem_all_of_rest {t : Token} (h : t ∈ c.rest ++ [c.stream.stop]) : t ∈ c.stream.all := by
  rcases List.mem_append.mp h with h | h
  · exact List.mem_append_left _ (List.mem_of_mem_drop h)
  · exact List.mem_append_right _ h

/-- The places of a declaration are those of the tokens that its diagnostics name, one by one. -/
theorem forall₂_places :
    List.Forall₂ (Diagnostic.At c.stream) (c.perform .declaration).diagnostics c.places := by
  have hblamed : ∀ e ∈ (Lox.declaration c.stream.numbered.stop c.numbered.rest).reports,
      ∃ i : Nat, c.stream.numbered.all[i]? = some e.token ∧ True := by
    intro e he
    obtain ⟨us, rest, reports, result, hrest, hread⟩ :=
      exists_readsStmt c.stream.numbered.stop c.numbered.rest
    rw [declaration_reports, hrest, hread.run_eq] at he
    have hmem := hread.blames.spares e he
    rw [← hrest] at hmem
    obtain ⟨i, hi⟩ := List.mem_iff_getElem?.mp (c.numbered.mem_all_of_rest hmem)
    exact ⟨i, hi, trivial⟩
  have hplaces := (forall₂_relined c.stream hblamed).imp fun _ _ h => h.1
  show List.Forall₂ _ ((Lox.declaration c.stream.stop c.rest).reports.map Diagnostic.syntactic) _
  rw [declaration_numbered, places]
  show List.Forall₂ _ _ (List.map _ (List.map Diagnostic.syntactic _))
  rw [List.map_map]
  exact hplaces

/-- The first token that is left behind `us` stands so many places behind the cursor. -/
theorem getElem?_front {us rest : List Token} (hc : c.Inside) (h : c.rest = us ++ rest) :
    c.stream.all[c.position + us.length]? = some (front c.stream.stop rest) := by
  unfold Inside at hc
  have hdrop : c.stream.all.drop c.position = us ++ (rest ++ [c.stream.stop]) := by
    rw [Token.Stream.all, List.drop_append_of_le_length hc, ← List.append_assoc, ← h]
    rfl
  rw [← List.getElem?_drop, hdrop, List.getElem?_append_right (Nat.le_refl _), Nat.sub_self]
  cases rest with
  | nil => rfl
  | cons t rest => rfl

variable {c}

theorem Inside.numbered (h : c.Inside) : c.numbered.Inside := by
  show c.position ≤ (c.stream.tokens.mapIdx _).length
  rw [List.length_mapIdx]
  exact h

/-- **What a failed declaration passes**: the tokens `us` in front of the one that it blames last,
    and then those that are dropped. -/
theorem Inside.passes_of_failed (hc : c.Inside) (h : (c.perform .declaration).answer = .nothing) :
    ∃ us rest, c.rest = us ++ rest ∧ c.places.getLast? = some (c.position + us.length) ∧
      (c.perform .declaration).cursor.position = c.position + (us.length + skip rest) := by
  obtain ⟨us, rest, reports, result, hrest, hread⟩ :=
    exists_readsStmt c.stream.numbered.stop c.numbered.rest
  have hd := hread.declaration_eq
  rw [← hrest] at hd
  have hanswer : ((Lox.declaration c.stream.stop c.rest).tree.map Answer.statement).getD .nothing =
      .nothing := h
  rw [c.declaration_numbered, hd] at hanswer
  cases result with
  | ok stmt => cases hanswer
  | error err =>
      have hdropped : Lox.declaration c.stream.numbered.stop c.numbered.rest =
          ⟨us.length + skip rest, reports, none⟩ := hd
      refine ⟨us.map c.stream.relined, rest.map c.stream.relined, ?_, ?_, ?_⟩
      · rw [← c.rest_numbered, hrest, List.map_append]
      · obtain ⟨inner, hreports, -, hfront⟩ := hread.blames
        have hplace : c.stream.numbered.all[c.position + us.length]? = some err.token := by
          rw [hfront err (List.mem_singleton_self err)]
          exact c.numbered.getElem?_front hc.numbered hrest
        show (((Lox.declaration c.stream.numbered.stop c.numbered.rest).reports.map
          Diagnostic.syntactic).map (·.line.toNat)).getLast? = _
        rw [hdropped, List.length_map, hreports, raised_error, List.map_append, List.map_append]
        refine List.getLast?_concat.trans (congrArg some ?_)
        exact (c.stream.getElem?_relined hplace).1
      · show c.position + (Lox.declaration c.stream.stop c.rest).used = _
        rw [c.declaration_numbered, hdropped, List.length_map,
          skip_relabel c.stream.relabels_relined]
        rfl

end Cursor

/-! ## 3. Where a failed declaration leaves the cursor -/

/-- **Recovery resumes at the first boundary behind the error.** Let a declaration fail at any place
    of any stream, and let `p` be the place of the token that it blames last.  The cursor is left at
    the first place behind `p` where a statement may begin, and at the end if the end is blamed.  So
    behind the blamed token no semicolon is passed together with what follows it, and no word that
    begins a statement is passed at all. -/
theorem recovery_resumes_at_boundary (s : Token.Stream) (r : Reporter) {n : Nat}
    (hn : n ≤ s.tokens.length)
    (hfailed : ((⟨s, n, r⟩ : Cursor).perform .declaration).answer = .nothing) :
    let c : Cursor := ⟨s, n, r⟩
    let d := c.perform .declaration
    List.Forall₂ (Diagnostic.At s) d.diagnostics c.places ∧
    ∃ p, c.places.getLast? = some p ∧
      IsLeast {q | min (p + 1) s.tokens.length ≤ q ∧ Resumes s.tokens q} d.cursor.position ∧
      (∀ i t, p < i → s.tokens[i]? = some t → t.kind = .semicolon → d.cursor.position ≤ i + 1) ∧
      ∀ i t, p < i → s.tokens[i]? = some t → t.kind ∈ statementWords → d.cursor.position ≤ i := by
  intro c d
  have hinside : c.Inside := hn
  obtain ⟨us, rest, hrest, hlast, hposition⟩ := hinside.passes_of_failed hfailed
  have htokens : s.tokens = s.tokens.take n ++ us ++ rest := by
    rw [List.append_assoc, ← hrest]
    exact (List.take_append_drop n s.tokens).symm
  have hlength : (s.tokens.take n ++ us).length = n + us.length := by
    rw [List.length_append, List.length_take, Nat.min_eq_left hn]
  have hleast := skip_isLeast_behind (s.tokens.take n ++ us) rest
  rw [← htokens, hlength, Nat.add_assoc, Nat.add_assoc, ← hposition] at hleast
  refine ⟨c.forall₂_places, n + us.length, hlast, hleast, fun i t hi ht hk => ?_,
    fun i t hi ht hk => ?_⟩
  · exact hleast.2 ⟨by omega, .of_semicolon ht hk⟩
  · exact hleast.2 ⟨by omega, .of_word ht hk⟩

/-- `1 = + 2 ) x ; y`: the sum sign is blamed, behind it the equals sign, and last the parenthesis.
    Reading goes on behind the semicolon. -/
theorem recovery_resumes_behind_semicolon :
    let one : Token := { kind := .number, lexeme := "1", literal := .number 1 }
    let eq : Token := { kind := .equal, lexeme := "=" }
    let plus : Token := { kind := .plus, lexeme := "+" }
    let two : Token := { kind := .number, lexeme := "2", literal := .number 2 }
    let paren : Token := { kind := .rightParen, lexeme := ")" }
    let x : Token := { kind := .identifier, lexeme := "x" }
    let semi : Token := { kind := .semicolon, lexeme := ";" }
    let y : Token := { kind := .identifier, lexeme := "y" }
    let s : Token.Stream := ⟨[one, eq, plus, two, paren, x, semi, y], Token.endOn 1⟩
    let c : Cursor := ⟨s, 0, {}⟩
    s.Ended ∧ (c.perform .declaration).answer = .nothing ∧ c.places = [2, 1, 4] ∧
      (c.perform .declaration).cursor.position = 7 ∧
      IsLeast {q | 5 ≤ q ∧ Resumes s.tokens q} 7 := by
  intro one eq plus two paren x semi y s c
  have hs : s.Ended := ⟨rfl, by decide⟩
  have hfailed : (c.perform .declaration).answer = .nothing := by cbv
  have hplaces : c.places = [2, 1, 4] := by cbv
  have hposition : (c.perform .declaration).cursor.position = 7 := by cbv
  obtain ⟨-, p, hp, hleast, -⟩ := recovery_resumes_at_boundary s {} (Nat.zero_le _) hfailed
  rw [hplaces] at hp
  cases hp
  exact ⟨hs, hfailed, hplaces, hposition, hposition ▸ hleast⟩

end Lox
