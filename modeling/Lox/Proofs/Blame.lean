/-
  File:      Lox/Proofs/Blame.lean
  Subject:   Which tokens are blamed for syntax errors.

  A rule that succeeds blames only tokens it has taken; a rule that fails blames, last of all, the
  first token it has left.  That token is dropped before reading goes on.  So no token is blamed
  twice, though the reports do not come in the order of the tokens: an assignment to something that
  is no name is reported only behind the errors of its value.

  * `Blames` -- the tokens that a reading may blame;
  * `Reads.blames`, `ReadsStmt.blames` -- every reading keeps to it;
  * `declarations_blame` -- all declarations together blame each token at most once;
  * `Token.Stream.numbered`, `Token.Stream.places` -- where in a stream the blamed tokens stand;
  * `no_token_blamed_twice` -- one report for one token.
-/
import Lox.Proofs.Labels
import Lox.Proofs.Reporting
import Mathlib.Data.List.Perm.Subperm
import Mathlib.Data.List.Nodup

namespace Lox

variable {stop : Token} {us rest : List Token} {reports : List SyntaxError}

/-! ## 1. Readings -/

/-- The error that a result carries, if it carries one. -/
def raised : Except SyntaxError α → List SyntaxError
  | .ok _ => []
  | .error err => [err]

@[simp] theorem raised_ok (a : α) : raised (.ok a) = [] := rfl

@[simp] theorem raised_error (err : SyntaxError) : raised (.error err : Except _ α) = [err] := rfl

@[simp] theorem raised_map (f : α → β) (result : Except SyntaxError α) :
    raised (result.map f) = raised result := by
  cases result <;> rfl

/-- The reports of a reading blame tokens that were taken, each of them once, and then, if the
    reading fails, the first token that is left. -/
def Blames (stop : Token) (us rest : List Token) (reports : List SyntaxError)
    (result : Except SyntaxError α) : Prop :=
  ∃ inner, reports = inner ++ raised result ∧ (inner.map (·.token)).Subperm us ∧
    ∀ err ∈ raised result, err.token = front stop rest

namespace Blames

theorem silent (a : α) : Blames stop us rest [] (.ok a) :=
  ⟨[], rfl, List.nil_subperm, fun _ h => nomatch h⟩

/-- An error at the first token that is left, as the only report. -/
theorem fresh (us : List Token) (cause : SyntaxError.Cause) :
    Blames stop us rest [⟨front stop rest, cause⟩]
      (.error ⟨front stop rest, cause⟩ : Except _ α) := by
  refine ⟨[], rfl, List.nil_subperm, fun err h => ?_⟩
  rw [List.mem_singleton.mp h]

/-- More tokens taken before the ones that are left. -/
theorem mono {us' : List Token} {result : Except SyntaxError α}
    (h : Blames stop us rest reports result) (hus : us.Sublist us') :
    Blames stop us' rest reports result := by
  obtain ⟨inner, hreports, hsub, hfront⟩ := h
  exact ⟨inner, hreports, hsub.trans hus.subperm, hfront⟩

/-- The result replaced by one that carries the same error. -/
theorem map {result : Except SyntaxError α} (h : Blames stop us rest reports result) (f : α → β) :
    Blames stop us rest reports (result.map f) := by
  unfold Blames
  rw [raised_map]
  exact h

/-- A success blames tokens that were taken, and others may be left. -/
theorem subperm_of_ok {a : α} (h : Blames stop us rest reports (.ok a)) :
    (reports.map (·.token)).Subperm us := by
  obtain ⟨inner, rfl, hsub, -⟩ := h
  rw [raised_ok, List.append_nil]
  exact hsub

/-- An error at the first token that is left, behind the reports of a success. -/
theorem fails {a : α} (h : Blames stop us rest reports (.ok a)) (cause : SyntaxError.Cause) :
    Blames stop us rest (reports ++ [⟨front stop rest, cause⟩])
      (.error ⟨front stop rest, cause⟩ : Except _ β) := by
  refine ⟨reports, rfl, h.subperm_of_ok, fun err herr => ?_⟩
  rw [List.mem_singleton.mp herr]

/-- A failure blames, last of all, the first token that is left. -/
theorem subperm_of_error {err : SyntaxError}
    (h : Blames stop us rest reports (.error err : Except _ α)) :
    (reports.map (·.token)).Subperm (us ++ [front stop rest]) := by
  obtain ⟨inner, rfl, hsub, hfront⟩ := h
  rw [raised_error, List.map_append, List.map_singleton, hfront err (List.mem_singleton_self err)]
  exact hsub.append (List.Subperm.refl _)

/-- A success whose reports blame tokens that were taken, each of them once. -/
theorem of_subperm (a : α) (h : (reports.map (·.token)).Subperm us) :
    Blames stop us rest reports (.ok a) :=
  ⟨reports, (List.append_nil reports).symm, h, fun _ h => nomatch h⟩

/-- A report behind those of a success, at a token that was taken before it. -/
theorem retarget {a : α} (h : Blames stop us rest reports (.ok a)) (t : Token)
    (cause : SyntaxError.Cause) (b : β) :
    Blames stop (t :: us) rest (reports ++ [⟨t, cause⟩]) (.ok b) := by
  have hswap : ((reports ++ [SyntaxError.mk t cause]).map (·.token)).Perm
      (t :: reports.map (·.token)) := by
    rw [List.map_append]
    exact List.perm_append_singleton t _
  exact .of_subperm b (hswap.subperm.trans ((List.subperm_cons t).mpr h.subperm_of_ok))

/-- A reading behind another one that succeeded: the reports of both. -/
theorem append {vs : List Token} {later : List SyntaxError} {a : α} {rest' : List Token}
    {result : Except SyntaxError β} (h : Blames stop us rest' reports (.ok a))
    (hl : Blames stop vs rest later result) :
    Blames stop (us ++ vs) rest (reports ++ later) result := by
  obtain ⟨inner, rfl, hsub, hfront⟩ := hl
  refine ⟨reports ++ inner, by rw [List.append_assoc], ?_, hfront⟩
  rw [List.map_append]
  exact h.subperm_of_ok.append hsub

end Blames

/-- **Every rule blames only tokens it has taken, each of them once, and the first token that it
    leaves if it fails.** -/
theorem Reads.blames {job : Job} {result : Except SyntaxError Expr}
    (h : Reads stop job us rest reports result) : Blames stop us rest reports result := by
  induction h with
  | literal | name | chainEnd => exact .silent _
  | @stray t rest _ =>
      have hfront : front stop (t :: rest) = t := rfl
      rw [← hfront]
      exact .fresh [] .strayOperator
  | alien => exact .fresh [] _
  | @group opening us closing rest reports e _ _ _ ih =>
      have hus := (List.sublist_append_left us [closing]).cons opening
      exact .of_subperm e.grouping (ih.subperm_of_ok.trans hus.subperm)
  | groupUnclosed _ _ _ ih => exact (ih.fails _).mono (List.sublist_cons_self _ _)
  | groupFailed _ _ ih | chainFailed _ _ ih => exact ih.mono (List.sublist_cons_self _ _)
  | prefixed _ _ ih => exact (ih.map _).mono (List.sublist_cons_self _ _)
  | unprefixed _ _ ih | steady _ _ ih | levelFailed _ ih | plain _ _ ih | targetFailed _ ih =>
      exact ih
  | @dropped r op us rest reports err later result he hs hl ihe ihl =>
      -- the stray operator is blamed once, and taken
      obtain ⟨-, -, rfl, t, others, hts, -, rfl⟩ := he.stray_error err rfl hs
      cases hts
      obtain ⟨inner, rfl, hsub, hfront⟩ := ihl.map fun _ => Expr.invalid
      exact ⟨_ :: inner, rfl, (List.subperm_cons op).mpr hsub, hfront⟩
  | level _ _ ihe ihl => exact ihe.append ihl
  | chainMore _ _ _ ihe ihl => exact (ihe.append ihl).mono (List.sublist_cons_self _ _)
  | @assigned us eq vs rest reports later n v _ _ _ ihe ihl =>
      exact ihe.append ((ihl.map (Expr.assign n)).mono (List.sublist_cons_self eq vs))
  | mistargeted _ _ _ _ ihe ihl => exact ihe.append (ihl.retarget _ _ _)
  | @valueFailed us eq vs _ _ _ _ _ _ _ _ ihe ihl =>
      exact ihe.append (ihl.mono (List.sublist_cons_self eq vs))

/-! ## 2. Statements -/

theorem ReadsStmt.blames {result : Except SyntaxError Stmt}
    (h : ReadsStmt stop us rest reports result) : Blames stop us rest reports result := by
  cases h with
  | @ended before us semi rest reports e cause make _ he _ =>
      have hus : us.Sublist (before ++ (us ++ [semi])) :=
        (List.sublist_append_left us [semi]).trans (List.sublist_append_right before _)
      exact .of_subperm (make e) (he.blames.subperm_of_ok.trans hus.subperm)
  | unended _ he _ => exact (he.blames.fails _).mono (List.sublist_append_right _ _)
  | failed _ he =>
      exact (he.blames.map (fun e => Stmt.expression e)).mono (List.sublist_append_right _ _)
  | declared => exact .silent _
  | undeclared | nameless => exact .fresh _ _

/-- A declaration blames tokens that it uses up; at the very end it may blame the end marker. -/
theorem declaration_blame (stop : Token) {ts : List Token} (hne : ts ≠ []) :
    ∃ us rest, ts = us ++ rest ∧ us ≠ [] ∧ (declaration stop ts).used = us.length ∧
      (((declaration stop ts).reports.map (·.token)).Subperm us ∨
        rest = [] ∧ ((declaration stop ts).reports.map (·.token)).Subperm (us ++ [stop])) := by
  obtain ⟨us, rest, rfl, hus, hused⟩ := declaration_progress stop hne
  refine ⟨us, rest, rfl, hus, hused, ?_⟩
  obtain ⟨vs, left, reports, result, hts, hread⟩ := exists_readsStmt stop (us ++ rest)
  have hd := hread.declaration_eq
  rw [← hts] at hd
  rw [hd] at hused ⊢
  cases result with
  | ok s =>
      obtain ⟨rfl, -⟩ := List.append_inj hts.symm hused
      exact .inl hread.blames.subperm_of_ok
  | error err =>
      have hblames := hread.blames.subperm_of_error
      cases left with
      | nil =>
          obtain ⟨rfl, rfl⟩ := List.append_inj hts.symm hused
          exact .inr ⟨rfl, hblames⟩
      | cons t others =>
          -- the blamed token is the first of those that are dropped
          have hprefix : vs ++ [t] <+: us ++ rest := ⟨others, by rw [hts, ← List.append_cons]⟩
          have hdropped : vs ++ [t] <+: us := by
            refine List.prefix_of_prefix_length_le hprefix ⟨rest, rfl⟩ ?_
            simp only [skip] at hused
            rw [List.length_append, List.length_singleton]
            omega
          exact .inl (hblames.trans hdropped.sublist.subperm)

/-- **All declarations together blame each token at most once**, the end marker included. -/
theorem declarations_blame (stop : Token) : ∀ ts : List Token,
    (((declarations stop ts).flatMap (·.reports)).map (·.token)).Subperm (ts ++ [stop])
  | [] => by simp [declarations]
  | t :: ts => by
      obtain ⟨us, rest, hts, hne, hused, hblame⟩ := declaration_blame stop (List.cons_ne_nil t ts)
      have hlt := length_lt_of_append hts hne
      rw [hts] at hused hblame ⊢
      rw [declarations_cons hne hused, List.flatMap_cons, List.map_append]
      rcases hblame with hblame | ⟨rfl, hblame⟩
      · rw [List.append_assoc]
        exact hblame.append (declarations_blame stop rest)
      · rw [List.append_nil] at hblame ⊢
        simpa [declarations] using hblame
termination_by ts => ts.length
decreasing_by exact hlt

/-! ## 3. Places -/

namespace Token.Stream

/-- The stream with every token on a line of its own: its place, counted from zero. -/
def numbered (s : Stream) : Stream where
  tokens := s.tokens.mapIdx fun i t => { t with line := i }
  stop := { s.stop with line := s.tokens.length }

/-- The token of a numbered stream with the line that its place has in `s`. -/
def relined (s : Stream) (t : Token) : Token :=
  { t with line := (s.all[t.line.toNat]?.map (·.line)).getD t.line }

/-- The places of the tokens that are blamed for syntax errors, in the order of the reports.  The
    lines of the numbered stream tell them, for the parser does not look at lines. -/
def places (s : Stream) : List Nat :=
  ((declarations s.numbered.stop s.numbered.tokens).flatMap (·.reports)).map (·.token.line.toNat)

variable (s : Stream)

theorem all_numbered : s.numbered.all = s.all.mapIdx fun i t => { t with line := i } := by
  simp [all, numbered, List.mapIdx_append]

theorem relabels_relined : Relabels s.relined :=
  ⟨fun _ => rfl, fun _ => rfl, fun _ => rfl⟩

theorem relined_stop : s.relined s.numbered.stop = s.stop := by
  simp [relined, numbered, all]

theorem relined_tokens : s.numbered.tokens.map s.relined = s.tokens := by
  refine List.ext_getElem (by simp [numbered]) fun i h _ => ?_
  have hi : i < s.tokens.length := by simpa [numbered] using h
  simp [numbered, relined, all, List.getElem?_append_left hi, hi]

/-- What is reported on a stream is what is reported on the numbered one, with the lines of the
    stream. -/
theorem reports_numbered :
    (declarations s.stop s.tokens).flatMap (·.reports) =
      ((declarations s.numbered.stop s.numbered.tokens).flatMap (·.reports)).map
        (SyntaxError.relabel s.relined) := by
  have h := declarations_relabel s.relabels_relined s.numbered.stop s.numbered.tokens
  rw [relined_stop, relined_tokens] at h
  rw [h, List.flatMap_map, List.map_flatMap]
  rfl

/-- A token of the numbered stream is on the line of its place, and there it stands in the
    stream. -/
theorem getElem?_relined {i : Nat} {t : Token} (h : s.numbered.all[i]? = some t) :
    t.line.toNat = i ∧ s.all[i]? = some (s.relined t) := by
  rw [all_numbered, List.getElem?_mapIdx] at h
  obtain ⟨u, hu, rfl⟩ := Option.map_eq_some_iff.mp h
  refine ⟨Int.toNat_natCast i, ?_⟩
  simp [relined, hu]

end Token.Stream

/-- The diagnostic is a syntax error at the token that has the place `i` in the stream. -/
def Diagnostic.At (s : Token.Stream) (d : Diagnostic) (i : Nat) : Prop :=
  ∃ e, d = .syntactic e ∧ s.all[i]? = some e.token

/-- Errors at tokens of the numbered stream name the places of these tokens, one by one, and what
    holds of all their places holds of those. -/
theorem forall₂_relined (s : Token.Stream) {es : List SyntaxError} {p : Nat → Prop}
    (h : ∀ e ∈ es, ∃ i, s.numbered.all[i]? = some e.token ∧ p i) :
    List.Forall₂ (fun d i => d.At s i ∧ p i)
      ((es.map (SyntaxError.relabel s.relined)).map Diagnostic.syntactic)
      (es.map (·.token.line.toNat)) := by
  rw [List.forall₂_map_left_iff, List.forall₂_map_left_iff, List.forall₂_map_right_iff,
    List.forall₂_same]
  intro e he
  obtain ⟨i, hi, hp⟩ := h e he
  obtain ⟨hline, hrelined⟩ := s.getElem?_relined hi
  rw [hline]
  exact ⟨⟨_, rfl, hrelined⟩, hp⟩

/-- What holds of the places of all tokens that are blamed in the numbered stream holds of the
    diagnostics of the stream, one by one. -/
theorem forall₂_places (r : Reporter) (s : Token.Stream) {p : Nat → Prop}
    (h : ∀ e ∈ (declarations s.numbered.stop s.numbered.tokens).flatMap (·.reports),
      ∃ i, s.numbered.all[i]? = some e.token ∧ p i) :
    List.Forall₂ (fun d i => d.At s i ∧ p i) (r.parse s.stop s.tokens).diagnostics s.places := by
  rw [Reporter.parse, s.reports_numbered]
  exact forall₂_relined s h

/-! ## 4. One report for one token -/

/-- The token that a diagnostic blames; a lexical error blames none. -/
def Diagnostic.token? : Diagnostic → Option Token
  | .lexical _ => none
  | .syntactic e => some e.token
  | .runtime e => some e.token

/-- True of the syntax errors that are said to be at the end. -/
def Diagnostic.isAtEnd : Diagnostic → Bool
  | .syntactic e => place e.token == " at end"
  | _ => false

theorem Diagnostic.place_eq_atEnd {t : Token} : place t = " at end" ↔ t.kind = .eof := by
  refine ⟨fun h => ?_, fun h => if_pos h⟩
  by_contra hk
  have hchars := congrArg String.toList h
  simp [place, hk] at hchars

/-- What a parse blames. -/
theorem parse_token? (r : Reporter) (stop : Token) (ts : List Token) :
    (r.parse stop ts).diagnostics.filterMap Diagnostic.token? =
      ((declarations stop ts).flatMap (·.reports)).map (·.token) := by
  rw [Reporter.parse, List.filterMap_map, ← List.filterMap_eq_map]
  rfl

/-- The lines of a numbered stream are the places of its tokens. -/
theorem Token.Stream.lines_numbered (s : Token.Stream) :
    s.numbered.all.map (·.line.toNat) = List.range s.all.length := by
  rw [s.all_numbered]
  refine List.ext_getElem (by simp) fun i _ _ => ?_
  simp

theorem Token.Stream.places_nodup (s : Token.Stream) : s.places.Nodup := by
  obtain ⟨ts, hperm, hsub⟩ := declarations_blame s.numbered.stop s.numbered.tokens
  have hlines : (ts.map (·.line.toNat)).Nodup := by
    refine (hsub.map _).nodup ?_
    change (s.numbered.all.map (·.line.toNat)).Nodup
    rw [s.lines_numbered]
    exact List.nodup_range
  have hplaces := (hperm.map (·.line.toNat)).nodup_iff.mp hlines
  rwa [List.map_map] at hplaces

/-- A parse counts no more errors than there are tokens. -/
theorem parse_errorCount_le (r : Reporter) (s : Token.Stream) :
    (r.parse s.stop s.tokens).reporter.errorCount ≤ r.errorCount + s.all.length := by
  have hblame := (declarations_blame s.stop s.tokens).length_le
  have hcount := List.countP_le_length (p := Diagnostic.isStatic)
    (l := (r.parse s.stop s.tokens).diagnostics)
  have hlength : (r.parse s.stop s.tokens).diagnostics.length =
      ((declarations s.stop s.tokens).flatMap (·.reports)).length := List.length_map _
  have hreporter : (r.parse s.stop s.tokens).reporter.errorCount = _ :=
    r.errorCount_reportAll (r.parse s.stop s.tokens).diagnostics
  rw [List.length_map] at hblame
  rw [hreporter, Token.Stream.all]
  omega

/-- A parse blames the end marker at most once. -/
theorem parse_atEnd_le {s : Token.Stream} (hs : s.Ended) (r : Reporter) :
    (r.parse s.stop s.tokens).diagnostics.countP Diagnostic.isAtEnd ≤ 1 := by
  have hblame := (declarations_blame s.stop s.tokens).countP_le (Diagnostic.place · == " at end")
  have hnone : s.tokens.countP (Diagnostic.place · == " at end") = 0 := by
    rw [List.countP_eq_zero]
    intro t ht hp
    exact hs.tokens t ht (Diagnostic.place_eq_atEnd.mp (eq_of_beq hp))
  have hall : (s.tokens ++ [s.stop]).countP (Diagnostic.place · == " at end") ≤ 1 := by
    rw [List.countP_append, hnone, Nat.zero_add]
    exact List.countP_le_length
  rw [List.countP_map] at hblame
  rw [Reporter.parse, List.countP_map]
  exact Nat.le_trans hblame hall

/-- **No token is blamed twice.** The places of the tokens blamed by one parse are pairwise
    distinct, and so are the tokens themselves where no two of the stream are equal.  So the count
    grows by no more than the number of tokens, the end marker included, and at most one error is
    reported at the end. -/
theorem no_token_blamed_twice (r : Reporter) (s : Token.Stream) (hs : s.Ended) :
    let run := r.parse s.stop s.tokens
    List.Forall₂ (Diagnostic.At s) run.diagnostics s.places ∧ s.places.Nodup ∧
      (s.all.Nodup → (run.diagnostics.filterMap Diagnostic.token?).Nodup) ∧
      run.reporter.errorCount ≤ r.errorCount + s.all.length ∧
      run.diagnostics.countP Diagnostic.isAtEnd ≤ 1 := by
  refine ⟨?_, s.places_nodup, fun hall => ?_, parse_errorCount_le r s, parse_atEnd_le hs r⟩
  · have hplaces := forall₂_places r s (p := fun _ => True) fun e he => ?_
    · exact hplaces.imp fun _ _ h => h.1
    · have hmem := (declarations_blame s.numbered.stop s.numbered.tokens).subset
        (List.mem_map_of_mem he)
      obtain ⟨i, hi⟩ := List.mem_iff_getElem?.mp hmem
      exact ⟨i, hi, trivial⟩
  · rw [parse_token?]
    obtain ⟨ts, hperm, hsub⟩ := declarations_blame s.stop s.tokens
    exact hperm.nodup_iff.mp (hsub.nodup hall)

/-- `1 = + 2`: the sum sign is blamed, behind it the equals sign, and last the end. -/
theorem no_token_blamed_twice_unended :
    let one : Token := { kind := .number, lexeme := "1", literal := .number 1 }
    let eq : Token := { kind := .equal, lexeme := "=" }
    let plus : Token := { kind := .plus, lexeme := "+" }
    let two : Token := { kind := .number, lexeme := "2", literal := .number 2 }
    let s : Token.Stream := ⟨[one, eq, plus, two], Token.endOn 1⟩
    let run := ({} : Reporter).parse s.stop s.tokens
    s.Ended ∧ s.places = [2, 1, 4] ∧ s.places.Nodup ∧ s.all.Nodup ∧
      (run.diagnostics.filterMap Diagnostic.token?).Nodup ∧ run.reporter.errorCount ≤ 5 ∧
      run.diagnostics.countP Diagnostic.isAtEnd ≤ 1 := by
  intro one eq plus two s run
  have hs : s.Ended := ⟨rfl, by decide⟩
  have hall : s.all.Nodup := by decide
  have hplaces : s.places = [2, 1, 4] := by cbv
  obtain ⟨-, hnodup, htokens, hcount, hend⟩ := no_token_blamed_twice {} s hs
  exact ⟨hs, hplaces, hnodup, hall, htokens hall, hcount, hend⟩

end Lox
