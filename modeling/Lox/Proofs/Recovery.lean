/-
  File:      Lox/Proofs/Recovery.lean
  Subject:   Recovery from errors goes statement by statement.

  A CHUNK is a stretch of tokens that ends with its only semicolon and in which no word begins a
  statement but perhaps the first; it may be wrong in any way.  However a declaration ends inside a
  chunk, it ends at the semicolon, and nothing behind the chunk plays a part in it.

  * `Chunk` -- such a stretch;
  * `Chunk.skip_eq` -- after an error the rest of a chunk is dropped, and nothing else;
  * `Chunk.declaration_eq` -- a chunk is read as if it stood alone;
  * `declarations_flatten` -- chunks one behind the other are read one by one;
  * `recovery_is_compositional` -- what the parser makes of them.
-/
import Lox.Proofs.Reporting
import Lox.Tree.Cursor

namespace Lox

variable {stop stop' : Token} {us rest : List Token} {reports : List SyntaxError}

/-! ## 1. What a statement takes and looks at -/

theorem Reads.takes_no_semicolon {job : Job} {result : Except SyntaxError Expr}
    (h : Reads stop job us rest reports result) : ∀ t ∈ us, t.kind ≠ .semicolon := by
  intro t ht hk
  have hkind := h.takes t ht
  rw [hk] at hkind
  revert hkind
  decide

theorem Opening.takes_no_semicolon {ts before : List Token} {cause : SyntaxError.Cause}
    {make : Expr → Stmt} (h : Opening ts before cause make) :
    ∀ t ∈ before, t.kind ≠ .semicolon := by
  intro t ht
  cases h with
  | expression => cases ht
  | print hw =>
      rw [List.mem_singleton.mp ht, hw]
      decide
  | var hw hn hq =>
      simp only [List.mem_cons, List.not_mem_nil, or_false] at ht
      rcases ht with rfl | rfl | rfl
      · rw [hw]; decide
      · rw [hn]; decide
      · rw [hq]; decide

/-- A statement that fails has taken no semicolon. -/
theorem ReadsStmt.takes_of_error {err : SyntaxError}
    (h : ReadsStmt stop us rest reports (.error err)) : ∀ t ∈ us, t.kind ≠ .semicolon := by
  intro t ht
  cases h with
  | unended ho he | failed ho he =>
      exact (List.mem_append.mp ht).elim (ho.takes_no_semicolon t) (he.takes_no_semicolon t)
  | undeclared hw hn =>
      simp only [List.mem_cons, List.not_mem_nil, or_false] at ht
      rcases ht with rfl | rfl
      · rw [hw]; decide
      · rw [hn]; decide
  | nameless hw =>
      rw [List.mem_singleton.mp ht, hw]
      decide

theorem Opening.congr {ts ts' before : List Token} {cause : SyntaxError.Cause}
    {make : Expr → Stmt} (h : Opening ts before cause make) (hh : ts'.head? = ts.head?) :
    Opening ts' before cause make := by
  cases h with
  | expression hf => exact .expression (hf.congr hh)
  | print hw => exact .print hw
  | var hw hn hq => exact .var hw hn hq

/-- A statement that succeeds does not look behind its semicolon. -/
theorem ReadsStmt.ok_any {s : Stmt} (h : ReadsStmt stop us rest reports (.ok s))
    (rest' : List Token) : ReadsStmt stop' us rest' reports (.ok s) := by
  cases h with
  | ended ho he hs =>
      exact .ended (ho.congr (head?_append_congr rfl)) (he.lookahead (List.cons_ne_nil _ _) rfl) hs
  | declared hw hn hs => exact .declared hw hn hs

/-- A statement that fails has looked at no more than one token. -/
theorem ReadsStmt.error_lookahead {err : SyntaxError} {rest' : List Token}
    (h : ReadsStmt stop us rest reports (.error err)) (hne : rest ≠ [])
    (hh : rest'.head? = rest.head?) : ReadsStmt stop' us rest' reports (.error err) := by
  cases h with
  | unended ho he hf =>
      rw [← front_congr stop stop' hne hh]
      exact .unended (ho.congr (head?_append_congr hh)) (he.lookahead hne hh) (hf.congr hh)
  | failed ho he => exact .failed (ho.congr (head?_append_congr hh)) (he.lookahead hne hh)
  | undeclared hw hn hf =>
      rw [← front_congr stop stop' hne hh]
      exact .undeclared hw hn (hf.congr hh)
  | nameless hw hf =>
      rw [← front_congr stop stop' hne hh]
      exact .nameless hw (hf.congr hh)

/-! ## 2. Chunks -/

/-- A stretch of tokens whose only semicolon is its last token, and in which no token but perhaps
    the first is a word that begins a statement. -/
structure Chunk (ts : List Token) : Prop where
  ends : ∃ body semi, ts = body ++ [semi] ∧ semi.kind = .semicolon ∧
    ∀ t ∈ body, t.kind ≠ .semicolon
  words : ∀ t ∈ ts.tail, t.kind ∉ statementWords

theorem Chunk.ne_nil {ts : List Token} (h : Chunk ts) : ts ≠ [] := by
  obtain ⟨body, semi, rfl, -⟩ := h.ends
  simp

/-- What is left of a chunk is a chunk. -/
theorem Chunk.suffix (h : Chunk (us ++ rest)) (hne : rest ≠ []) : Chunk rest := by
  obtain ⟨body, semi, hts, hs, hb⟩ := h.ends
  obtain ⟨tail, last, rfl⟩ := List.eq_nil_or_concat rest |>.resolve_left hne
  rw [List.concat_eq_append] at hts h ⊢
  rw [← List.append_assoc] at hts
  obtain ⟨rfl, hlast⟩ := List.append_inj' hts rfl
  cases hlast
  refine ⟨⟨tail, semi, rfl, hs, fun t ht => hb t (List.mem_append_right _ ht)⟩, fun t ht => ?_⟩
  refine h.words t ?_
  cases us with
  | nil => exact ht
  | cons u us => exact List.mem_append_right _ (List.mem_of_mem_tail ht)

/-- A semicolon taken from a chunk leaves nothing of it. -/
theorem Chunk.rest_eq_nil {semi : Token} (h : Chunk (us ++ semi :: rest))
    (hs : semi.kind = .semicolon) : rest = [] := by
  obtain ⟨body, last, hts, -, hb⟩ := h.ends
  -- with a token behind it, the semicolon would stand in the body
  rcases List.eq_nil_or_concat rest with hnil | ⟨tail, last', rfl⟩
  · exact hnil
  · rw [List.concat_eq_append, ← List.cons_append, ← List.append_assoc] at hts
    obtain ⟨rfl, -⟩ := List.append_inj' hts rfl
    exact absurd hs (hb semi (by simp))

/-! ## 3. Dropping the rest of a chunk -/

theorem skipBehind_semicolon {last : Token} (h : last.kind = .semicolon) (ts : List Token) :
    skipBehind last ts = 0 := by
  cases ts <;> simp [skipBehind, h]

theorem skipBehind_chunk {semi : Token} (hs : semi.kind = .semicolon) (rest : List Token) :
    ∀ (body : List Token) (last : Token), last.kind ≠ .semicolon →
      (∀ t ∈ body, t.kind ≠ .semicolon) → (∀ t ∈ body ++ [semi], t.kind ∉ statementWords) →
      skipBehind last (body ++ semi :: rest) = body.length + 1
  | [], last, hl, _, hw => by
      have hsemi := hw semi (by simp)
      simp [skipBehind, hl, hsemi, skipBehind_semicolon hs]
  | t :: body, last, hl, hb, hw => by
      have ht := hw t (by simp)
      have ih := skipBehind_chunk hs rest body t (hb t List.mem_cons_self)
        (fun u hu => hb u (List.mem_cons_of_mem t hu))
        (fun u hu => hw u (List.mem_cons_of_mem t hu))
      simp [skipBehind, hl, ht, ih]

/-- **After an error the rest of a chunk is dropped, and nothing behind it.** -/
theorem Chunk.skip_eq {ts : List Token} (h : Chunk ts) (rest : List Token) :
    skip (ts ++ rest) = ts.length := by
  obtain ⟨body, semi, rfl, hs, hb⟩ := h.ends
  have hw := h.words
  cases body with
  | nil => simp [skip, skipBehind_semicolon hs]
  | cons t body =>
      have hskip := skipBehind_chunk hs rest body t (hb t List.mem_cons_self)
        (fun u hu => hb u (List.mem_cons_of_mem t hu)) hw
      simp [skip, hskip]

/-! ## 4. Declarations -/

/-- **A chunk is read as if it stood alone**, to its very end. -/
theorem Chunk.declaration_eq {ts : List Token} (h : Chunk ts) (stop stop' : Token)
    (rest : List Token) :
    declaration stop (ts ++ rest) = declaration stop' ts ∧
      (declaration stop' ts).used = ts.length := by
  obtain ⟨us, left, reports, result, rfl, hread⟩ := exists_readsStmt stop' ts
  rw [hread.declaration_eq]
  cases result with
  | ok s =>
      -- a statement that succeeds has taken the semicolon
      have hleft : left = [] := by
        cases hread with
        | ended _ _ hs =>
            rw [List.append_assoc, List.append_assoc, ← List.append_assoc] at h
            exact h.rest_eq_nil hs
        | @declared word name semi _ _ _ hs =>
            have hchunk : Chunk ([word, name] ++ semi :: left) := h
            exact hchunk.rest_eq_nil hs
      subst hleft
      have hany : ReadsStmt stop us rest reports (.ok s) := hread.ok_any rest
      rw [List.append_nil, hany.declaration_eq]
      exact ⟨rfl, rfl⟩
  | error err =>
      -- one that fails has left it
      have hne : left ≠ [] := by
        rintro rfl
        obtain ⟨body, semi, hus, hs, -⟩ := h.ends
        rw [List.append_nil] at hus
        exact hread.takes_of_error semi (by simp [hus]) hs
      have hleft := h.suffix hne
      have hhead : (left ++ rest).head? = left.head? := by
        obtain ⟨t, others, rfl⟩ := List.exists_cons_of_ne_nil hne
        rfl
      have hmore : ReadsStmt stop us (left ++ rest) reports (.error err) :=
        hread.error_lookahead hne hhead
      have halone := hleft.skip_eq []
      rw [List.append_nil] at halone
      rw [List.append_assoc, hmore.declaration_eq, hleft.skip_eq rest, halone, List.length_append]
      exact ⟨rfl, rfl⟩

/-- **Chunks one behind the other are read one by one.** -/
theorem declarations_flatten (stop stop' : Token) : ∀ chunks : List (List Token),
    (∀ b ∈ chunks, Chunk b) → declarations stop chunks.flatten = chunks.map (declaration stop')
  | [], _ => by simp [declarations]
  | b :: chunks, h => by
      have hb := h b List.mem_cons_self
      obtain ⟨heq, hused⟩ := hb.declaration_eq stop stop' chunks.flatten
      rw [List.flatten_cons, declarations_cons hb.ne_nil (by rw [heq, hused]), heq, List.map_cons,
        declarations_flatten stop stop' chunks fun b' hm => h b' (List.mem_cons_of_mem b hm)]

/-! ## 5. What the parser makes of chunks -/

/-- A declaration that reports nothing has a tree. -/
theorem declaration_tree_of_clean {ts : List Token} (h : (declaration stop ts).reports = []) :
    ∃ s, (declaration stop ts).tree = some s := by
  obtain ⟨us, rest, reports, result, rfl, hread⟩ := exists_readsStmt stop ts
  rw [hread.declaration_eq] at h ⊢
  cases result with
  | ok s => exact ⟨s, rfl⟩
  | error err =>
      obtain ⟨s, hs, -⟩ := hread.derives h
      cases hs

theorem filterMap_tree_of_clean : ∀ {ds : List Declaration},
    (∀ d ∈ ds, ∃ s, d.tree = some s) → (ds.filterMap (·.tree)).map some = ds.map (·.tree)
  | [], _ => rfl
  | d :: ds, h => by
      obtain ⟨s, hs⟩ := h d List.mem_cons_self
      have ih := filterMap_tree_of_clean fun d' hm => h d' (List.mem_cons_of_mem d hm)
      simp [hs, ih]

/-- A cursor that stands before a chunk declares what it would declare of the chunk alone, and
    then stands behind it. -/
theorem Chunk.perform_declaration {before b after : List Token} (hb : Chunk b) (stop alone : Token)
    (r r' : Reporter) :
    let here : Cursor := ⟨⟨before ++ (b ++ after), stop⟩, before.length, r⟩
    let lone : Cursor := ⟨⟨b, alone⟩, 0, r'⟩
    (here.perform .declaration).cursor.position = before.length + b.length ∧
      (here.perform .declaration).answer = (lone.perform .declaration).answer ∧
      (here.perform .declaration).diagnostics = (lone.perform .declaration).diagnostics := by
  obtain ⟨heq, hused⟩ := hb.declaration_eq stop alone after
  simp only [Cursor.perform, Cursor.move, Cursor.rest, List.drop_left, List.drop_zero, heq, hused,
    and_self]

theorem parse_statements_of_report {r : Reporter} {ts : List Token}
    (h : ∃ d ∈ declarations stop ts, d.reports ≠ []) : (r.parse stop ts).statements = [] := by
  obtain ⟨d, hd, hne⟩ := h
  obtain ⟨e, others, he⟩ := List.exists_cons_of_ne_nil hne
  have hstatic : (((declarations stop ts).flatMap (·.reports)).map Diagnostic.syntactic).any
      Diagnostic.isStatic = true := by
    rw [List.any_eq_true]
    refine ⟨.syntactic e, List.mem_map_of_mem (List.mem_flatMap.mpr ⟨d, hd, ?_⟩), rfl⟩
    rw [he]
    exact List.mem_cons_self
  have hflag := r.hadError_reportAll
    (((declarations stop ts).flatMap (·.reports)).map Diagnostic.syntactic)
  rw [hstatic, Bool.or_true] at hflag
  simp only [Reporter.parse, hflag, if_pos]

/-- **Recovery from errors is compositional.** On chunks one behind the other, the parser makes one
    declaration a chunk: it begins where the chunk begins, ends where it ends, and answers and
    reports what it would on the chunk alone.  So what the parser reports is what the chunks report,
    in order; and it returns their trees if none of them reports anything, and no tree
    otherwise. -/
theorem recovery_is_compositional (stop : Token) (chunks : List (List Token))
    (h : ∀ b ∈ chunks, Chunk b) (r : Reporter) (hr : r.hadError = false) :
    (∀ alone, declarations stop chunks.flatten = chunks.map (declaration alone)) ∧
    (∀ before b after, chunks = before ++ b :: after → ∀ alone r',
      let here : Cursor := ⟨⟨chunks.flatten, stop⟩, before.flatten.length, r'⟩
      let lone : Cursor := ⟨⟨b, alone⟩, 0, r'⟩
      (here.perform .declaration).cursor.position = before.flatten.length + b.length ∧
        (here.perform .declaration).answer = (lone.perform .declaration).answer ∧
        (here.perform .declaration).diagnostics = (lone.perform .declaration).diagnostics) ∧
    (r.parse stop chunks.flatten).diagnostics =
      (chunks.flatMap fun b => (declaration stop b).reports).map .syntactic ∧
    ((∀ b ∈ chunks, (declaration stop b).reports = []) →
      (r.parse stop chunks.flatten).statements.map some =
        chunks.map fun b => (declaration stop b).tree) ∧
    ((∃ b ∈ chunks, (declaration stop b).reports ≠ []) →
      (r.parse stop chunks.flatten).statements = []) := by
  have hds := fun alone => declarations_flatten stop alone chunks h
  refine ⟨hds, ?_, ?_, fun hclean => ?_, ?_⟩
  · rintro before b after rfl alone r'
    have hb := h b (List.mem_append_right _ List.mem_cons_self)
    rw [List.flatten_append, List.flatten_cons]
    exact hb.perform_declaration stop alone r' r'
  · simp only [Reporter.parse, hds stop, List.flatMap_map]
  · have hreports : ∀ d ∈ declarations stop chunks.flatten, d.reports = [] := by
      rw [hds stop, List.forall_mem_map]
      exact hclean
    have htrees : ∀ d ∈ chunks.map (declaration stop), ∃ s, d.tree = some s := by
      rw [List.forall_mem_map]
      exact fun b hb => declaration_tree_of_clean (hclean b hb)
    rw [(parse_of_clean hr hreports).1, hds stop, filterMap_tree_of_clean htrees, List.map_map]
    rfl
  · rintro ⟨b, hb, hne⟩
    refine parse_statements_of_report ⟨declaration stop b, ?_, hne⟩
    rw [hds stop]
    exact List.mem_map_of_mem hb

/-- `var ) ; var x ;` -/
theorem recovery_after_nameless :
    let var : Token := { kind := .varWord, lexeme := "var" }
    let paren : Token := { kind := .rightParen, lexeme := ")" }
    let x : Token := { kind := .identifier, lexeme := "x" }
    let semi : Token := { kind := .semicolon, lexeme := ";" }
    let program := ({} : Reporter).parse (Token.endOn 1) [var, paren, semi, var, x, semi]
    (∀ b ∈ [[var, paren, semi], [var, x, semi]], Chunk b) ∧ ({} : Reporter).hadError = false ∧
      declarations (Token.endOn 1) [var, paren, semi, var, x, semi] =
        [⟨3, [⟨paren, .nameExpected⟩], none⟩, ⟨3, [], some (.var x none)⟩] ∧
      program.diagnostics = [.syntactic ⟨paren, .nameExpected⟩] ∧ program.statements = [] := by
  intro var paren x semi program
  have hbad : Chunk [var, paren, semi] := ⟨⟨[var, paren], semi, rfl, rfl, by decide⟩, by decide⟩
  have hgood : Chunk [var, x, semi] := ⟨⟨[var, x], semi, rfl, rfl, by decide⟩, by decide⟩
  have hchunks : ∀ b ∈ [[var, paren, semi], [var, x, semi]], Chunk b :=
    List.forall_mem_cons.mpr ⟨hbad, List.forall_mem_singleton.mpr hgood⟩
  obtain ⟨hds, -, hdiag, -, hnone⟩ :=
    recovery_is_compositional (Token.endOn 1) _ hchunks {} rfl
  exact ⟨hchunks, rfl, hds (Token.endOn 1), hdiag,
    hnone ⟨_, List.mem_cons_self, List.cons_ne_nil _ _⟩⟩

end Lox
