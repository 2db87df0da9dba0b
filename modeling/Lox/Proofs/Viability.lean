/-
  File:      Lox/Proofs/Viability.lean
  Subject:   Only tokens behind the common beginning with a program are blamed.

  Tokens are VIABLE if they begin some that are read without a report.  A reading that takes part of
  them only, and looks at the next one at most, cannot tell the difference, so it reports nothing.
  All reports therefore blame tokens behind the viable ones, even those that are made late: an
  assignment to something that is no name blames its equals sign behind all errors of its value.

  * `Viable`, `ViableStmt` -- the beginnings of what is read without a report;
  * `Viable.links`, `Viable.assigned` and others -- what a part of a rule has before it;
  * `Reads.spares`, `ReadsStmt.spares`, `declarations_spare` -- what is blamed stands behind them;
  * `shared_beginning_blameless` -- the same of two streams.
-/
import Lox.Proofs.Blame
import Lox.Proofs.Recovery

namespace Lox

variable {stop stop' : Token} {job : Job} {us rest vs ts : List Token} {reports : List SyntaxError}

/-! ## 1. Viable tokens -/

/-- The tokens begin some that the job reads without a report. -/
def Viable (stop : Token) (job : Job) (vs : List Token) : Prop :=
  ∃ ws, (job.run stop (vs ++ ws)).reports = []

/-- The tokens begin some that are read as a statement without a report. -/
def ViableStmt (stop : Token) (vs : List Token) : Prop :=
  ∃ ws, (anyStatement stop (vs ++ ws)).reports = []

/-- A reading that ends inside viable tokens is the one without a report. -/
theorem Reads.silent_of_viable {t : Token} {result : Except SyntaxError Expr}
    (h : Reads stop job us (t :: rest) reports result)
    (hv : Viable stop' job (us ++ t :: vs)) : reports = [] := by
  obtain ⟨ws, hws⟩ := hv
  have hread : Reads stop' job us (t :: (vs ++ ws)) reports result :=
    h.lookahead (List.cons_ne_nil _ _) rfl
  rw [List.append_assoc, List.cons_append, hread.run_eq] at hws
  exact hws

theorem ReadsStmt.silent_of_viable {t : Token} {result : Except SyntaxError Stmt}
    (h : ReadsStmt stop us (t :: rest) reports result)
    (hv : ViableStmt stop' (us ++ t :: vs)) : reports = [] := by
  obtain ⟨ws, hws⟩ := hv
  have hread : ReadsStmt stop' us (t :: (vs ++ ws)) reports result := by
    cases result with
    | ok s => exact h.ok_any _
    | error err => exact h.error_lookahead (List.cons_ne_nil _ _) rfl
  rw [List.append_assoc, List.cons_append, hread.run_eq] at hws
  exact hws

/-! ## 2. The parts of a rule -/

theorem Step.reports_of_andThen {s : Step α} {f : α → List Token → Step β}
    (h : (s.andThen ts f).reports = []) : s.reports = [] := by
  unfold Step.andThen at h
  split at h
  · exact (List.append_eq_nil_iff.mp h).1
  · exact h

namespace Viable

theorem group {opening : Token} (ho : opening.kind = .leftParen)
    (h : Viable stop (.rule .primary) (opening :: vs)) : Viable stop (.rule .assignment) vs := by
  obtain ⟨ws, h⟩ := h
  simp only [Job.run, List.cons_append, parse_group ho] at h
  exact ⟨ws, Step.reports_of_andThen h⟩

theorem prefixed {op : Token} (ho : op.kind ∈ unaryOperators)
    (h : Viable stop (.rule .unary) (op :: vs)) : Viable stop (.operand .unary) vs := by
  obtain ⟨ws, h⟩ := h
  simp only [Job.run, List.cons_append] at h
  rw [Rule.parse, if_pos ho] at h
  exact ⟨ws, h⟩

theorem unprefixed {t : Token} (ht : t.kind ∉ unaryOperators)
    (h : Viable stop (.rule .unary) (t :: vs)) : Viable stop (.rule .primary) (t :: vs) := by
  obtain ⟨ws, h⟩ := h
  simp only [Job.run, List.cons_append] at h
  rw [Rule.parse, if_neg ht] at h
  exact ⟨ws, h⟩

/-- An operand begins with what its rule begins with. -/
theorem rule {r : Rule} (h : Viable stop (.operand r) vs) : Viable stop (.rule r) vs := by
  obtain ⟨ws, h⟩ := h
  refine ⟨ws, ?_⟩
  simp only [Job.run] at h ⊢
  rw [operand.eq_def] at h
  dsimp only at h
  split at h
  · split at h
    · exact (List.append_eq_nil_iff.mp h).1
    · exact h
  · exact h

theorem first {l : Level} (h : Viable stop (.rule (.binary l)) vs) :
    Viable stop (.operand l.operandRule) vs := by
  obtain ⟨ws, h⟩ := h
  refine ⟨ws, ?_⟩
  simp only [Job.run] at h ⊢
  rw [Rule.parse] at h
  split at h
  · exact (List.append_eq_nil_iff.mp h).1
  · exact h

/-- Behind its first operand a level goes on with viable operators. -/
theorem links {l : Level} {t : Token} {left : Expr}
    (h : Viable stop' (.rule (.binary l)) (us ++ t :: vs))
    (he : Reads stop (.operand l.operandRule) us (t :: rest) reports (.ok left)) :
    Viable stop' (.chain l left) (t :: vs) := by
  obtain ⟨ws, h⟩ := h
  have hread : Reads stop' (.operand l.operandRule) us (t :: (vs ++ ws)) reports (.ok left) :=
    he.lookahead (List.cons_ne_nil _ _) rfl
  simp only [Job.run, List.append_assoc, List.cons_append] at h
  rw [parse_level hread.run_eq] at h
  exact ⟨ws, (List.append_eq_nil_iff.mp h).2⟩

theorem right {l : Level} {left : Expr} {op : Token} (ho : op.kind ∈ l.operators)
    (h : Viable stop (.chain l left) (op :: vs)) : Viable stop (.operand l.operandRule) vs := by
  obtain ⟨ws, h⟩ := h
  refine ⟨ws, ?_⟩
  simp only [Job.run, List.cons_append] at h ⊢
  rw [chain, if_pos ho] at h
  dsimp only at h
  split at h
  · exact (List.append_eq_nil_iff.mp h).1
  · exact h

theorem more {l : Level} {left right : Expr} {op t : Token} (ho : op.kind ∈ l.operators)
    (h : Viable stop' (.chain l left) (op :: (us ++ t :: vs)))
    (he : Reads stop (.operand l.operandRule) us (t :: rest) reports (.ok right)) :
    Viable stop' (.chain l (.binary left op right)) (t :: vs) := by
  obtain ⟨ws, h⟩ := h
  have hread : Reads stop' (.operand l.operandRule) us (t :: (vs ++ ws)) reports (.ok right) :=
    he.lookahead (List.cons_ne_nil _ _) rfl
  simp only [Job.run, List.append_assoc, List.cons_append] at h
  rw [chain_more ho hread.run_eq] at h
  exact ⟨ws, (List.append_eq_nil_iff.mp h).2⟩

theorem target (h : Viable stop (.rule .assignment) vs) :
    Viable stop (.rule (.binary .equality)) vs := by
  obtain ⟨ws, h⟩ := h
  refine ⟨ws, ?_⟩
  simp only [Job.run] at h ⊢
  cases hts : vs ++ ws with
  | nil =>
      rw [hts, Rule.parse] at h
      exact h
  | cons t others =>
      rw [hts, Rule.parse] at h
      dsimp only at h
      split at h
      · split at h
        · exact (List.append_eq_nil_iff.mp h).1
        · exact h
      · exact h

/-- An equals sign stands in viable tokens behind a name only, and before viable ones. -/
theorem assigned {eq : Token} {e : Expr} (hq : eq.kind = .equal)
    (h : Viable stop' (.rule .assignment) (us ++ eq :: vs))
    (he : Reads stop (.rule (.binary .equality)) us (eq :: rest) reports (.ok e)) :
    (∃ n, e = .name n) ∧ Viable stop' (.rule .assignment) vs := by
  obtain ⟨ws, h⟩ := h
  have hread : Reads stop' (.rule (.binary .equality)) us (eq :: (vs ++ ws)) reports (.ok e) :=
    he.lookahead (List.cons_ne_nil _ _) rfl
  simp only [Job.run, List.append_assoc, List.cons_append] at h
  rw [parse_assignment hread.run_eq hq] at h
  obtain ⟨-, h⟩ := List.append_eq_nil_iff.mp h
  -- a target that is no name would be reported, whatever its value
  obtain ⟨ws', rest', later, result, hws, hvalue⟩ :=
    exists_reads stop' (.rule .assignment) (vs ++ ws)
  have hrun : Rule.parse stop' .assignment (vs ++ ws) = ⟨ws'.length, later, result⟩ := by
    rw [hws]
    exact hvalue.run_eq
  rw [hrun] at h
  have hlater : later = [] := by
    unfold Step.assignedTo at h
    split at h
    · exact h
    · exact absurd h (by simp)
    · exact h
  obtain ⟨v, rfl, -⟩ := hvalue.derives hlater
  refine ⟨?_, ws, by rw [Job.run, hrun]; exact hlater⟩
  cases e with
  | name n => exact ⟨n, rfl⟩
  | _ => simp [Step.assignedTo] at h

end Viable

/-! ## 3. What is blamed -/

/-- The reports blame tokens of `ts` only, or the end marker behind them. -/
def Spares (stop : Token) (ts : List Token) (reports : List SyntaxError) : Prop :=
  ∀ e ∈ reports, e.token ∈ ts ++ [stop]

theorem front_mem (stop : Token) (ts : List Token) : front stop ts ∈ ts ++ [stop] := by
  cases ts <;> simp

namespace Spares

variable {later : List SyntaxError}

theorem nil : Spares stop ts [] :=
  fun _ he => nomatch he

theorem append (h : Spares stop ts reports) (hl : Spares stop ts later) :
    Spares stop ts (reports ++ later) :=
  fun e he => (List.mem_append.mp he).elim (h e) (hl e)

theorem snoc (h : Spares stop ts reports) {e : SyntaxError} (he : e.token ∈ ts ++ [stop]) :
    Spares stop ts (reports ++ [e]) :=
  h.append (List.forall_mem_singleton.mpr he)

theorem mono (h : Spares stop rest reports) (hts : rest <:+ ts) : Spares stop ts reports := by
  intro e he
  obtain ⟨before, rfl⟩ := hts
  rw [List.append_assoc]
  exact List.mem_append_right before (h e he)

end Spares

/-- A reading blames tokens that are before it. -/
theorem Blames.spares {result : Except SyntaxError α} (h : Blames stop us rest reports result) :
    Spares stop (us ++ rest) reports := by
  obtain ⟨inner, rfl, hsub, hfront⟩ := h
  intro e he
  rw [List.append_assoc]
  rcases List.mem_append.mp he with he | he
  · exact List.mem_append_left _ (hsub.subset (List.mem_map_of_mem he))
  · rw [hfront e he]
    exact List.mem_append_right us (front_mem stop rest)

/-- Either `us` takes all of `vs`, or a token of `vs` is left. -/
theorem take_cases (h : us ++ rest = vs ++ ts) :
    (∃ more, us = vs ++ more ∧ ts = more ++ rest) ∨
      ∃ t more, vs = us ++ t :: more ∧ rest = t :: (more ++ ts) := by
  rcases List.append_eq_append_iff.mp h with ⟨more, rfl, rfl⟩ | hmore
  · cases more with
    | nil => exact .inl ⟨[], by simp, by simp⟩
    | cons t more => exact .inr ⟨t, more, rfl, rfl⟩
  · exact .inl hmore

/-- What is done behind `us` blames tokens behind `us`.  So if `us` takes all of `vs`, these are
    spared anyway. -/
theorem Blames.spares_behind {ws : List Token} {result : Except SyntaxError α}
    (h : Blames stop ws rest reports result) (hts : us ++ (ws ++ rest) = vs ++ ts)
    (hv : ∀ t more, vs = us ++ t :: more → ws ++ rest = t :: (more ++ ts) →
      Spares stop ts reports) :
    Spares stop ts reports := by
  rcases take_cases hts with ⟨more, -, rfl⟩ | ⟨t, more, hvs, hrest⟩
  · exact h.spares.mono (List.suffix_append _ _)
  · exact hv t more hvs hrest

/-- The error of a failure is behind tokens inside which the failure would be silent. -/
theorem Blames.spares_error {err : SyntaxError}
    (h : Blames stop us rest reports (.error err : Except _ α)) (hts : us ++ rest = vs ++ ts)
    (hv : ∀ t more, vs = us ++ t :: more → rest = t :: (more ++ ts) → reports = []) :
    err.token ∈ ts ++ [stop] := by
  obtain ⟨inner, hreports, -, hfront⟩ := h
  rcases take_cases hts with ⟨more, -, rfl⟩ | ⟨t, more, hvs, hrest⟩
  · rw [hfront err (List.mem_singleton_self err), List.append_assoc]
    exact List.mem_append_right more (front_mem stop rest)
  · rw [hv t more hvs hrest] at hreports
    simp at hreports

theorem Reads.spares_error {err : SyntaxError} (h : Reads stop job us rest reports (.error err))
    (hts : us ++ rest = vs ++ ts) (hv : Viable stop' job vs) : err.token ∈ ts ++ [stop] := by
  refine h.blames.spares_error hts ?_
  rintro t more rfl rfl
  exact h.silent_of_viable hv

/-- What a rule reads behind a token that it takes itself spares the viable tokens if it does so on
    its own. -/
theorem Reads.spares_cons {t : Token} {outer : Job} {result : Except SyntaxError Expr}
    (he : Reads stop job us rest reports result) (hts : t :: (us ++ rest) = vs ++ ts)
    (hv : Viable stop' outer vs)
    (hstep : ∀ more, Viable stop' outer (t :: more) → Viable stop' job more)
    (ih : ∀ {vs}, us ++ rest = vs ++ ts → Viable stop' job vs → Spares stop ts reports) :
    Spares stop ts reports := by
  rcases List.cons_eq_append_iff.mp hts with ⟨rfl, rfl⟩ | ⟨more, rfl, hrest⟩
  · exact he.blames.spares.mono (List.suffix_cons t _)
  · exact ih hrest (hstep more hv)

/-- The value of an assignment spares the viable tokens if it does so on its own. -/
theorem Reads.spares_value {eq : Token} {ws : List Token} {e : Expr} {later : List SyntaxError}
    {result : Except SyntaxError Expr}
    (he : Reads stop (.rule (.binary .equality)) us (eq :: (ws ++ rest)) reports (.ok e))
    (hq : eq.kind = .equal) (hl : Reads stop (.rule .assignment) ws rest later result)
    (hts : us ++ eq :: (ws ++ rest) = vs ++ ts) (hv : Viable stop' (.rule .assignment) vs)
    (ih : ∀ {vs}, ws ++ rest = vs ++ ts → Viable stop' (.rule .assignment) vs →
      Spares stop ts later) : Spares stop ts later := by
  rw [List.append_cons] at hts
  refine hl.blames.spares_behind hts ?_
  rintro t more rfl hrest
  rw [← List.append_cons] at hv
  exact ih hrest (hv.assigned hq he).2

/-- The equals sign behind something that is no name is itself behind the viable tokens. -/
theorem Reads.spares_equals {eq : Token} {e : Expr}
    (he : Reads stop (.rule (.binary .equality)) us (eq :: rest) reports (.ok e))
    (hq : eq.kind = .equal) (hn : ∀ n, e ≠ .name n) (hts : us ++ eq :: rest = vs ++ ts)
    (hv : Viable stop' (.rule .assignment) vs) : eq ∈ ts ++ [stop] := by
  rcases take_cases hts with ⟨more, -, rfl⟩ | ⟨t, more, rfl, hrest⟩
  · simp
  · cases hrest
    obtain ⟨⟨n, hname⟩, -⟩ := hv.assigned hq he
    exact absurd hname (hn n)

/-- **A rule put before viable tokens blames what stands behind them.** -/
theorem Reads.spares {result : Except SyntaxError Expr}
    (h : Reads stop job us rest reports result) :
    ∀ {ps ts : List Token}, us ++ rest = ps ++ ts → Viable stop' job ps →
      Spares stop ts reports := by
  induction h with
  | literal | name | chainEnd => exact fun _ _ => .nil
  | stray ht =>
      intro ps ts hts hv
      exact List.forall_mem_singleton.mpr ((Reads.stray ht).spares_error hts hv)
  | alien hf =>
      intro ps ts hts hv
      exact List.forall_mem_singleton.mpr ((Reads.alien hf).spares_error hts hv)
  | @group opening us closing rest reports e ho he _ ih =>
      intro ps ts hts hv
      rw [List.cons_append, List.append_assoc, List.singleton_append] at hts
      exact he.spares_cons hts hv (fun _ => .group ho) ih
  | groupUnclosed ho he hf ih =>
      intro ps ts hts hv
      have hinner := he.spares_cons hts hv (fun _ => .group ho) ih
      exact hinner.snoc ((Reads.groupUnclosed ho he hf).spares_error hts hv)
  | groupFailed ho he ih =>
      exact fun hts hv => he.spares_cons hts hv (fun _ => .group ho) ih
  | prefixed ho he ih =>
      exact fun hts hv => he.spares_cons hts hv (fun _ => .prefixed ho) ih
  | unprefixed hf he ih =>
      intro ps ts hts hv
      cases ps with
      | nil =>
          rw [List.nil_append] at hts
          exact hts ▸ he.blames.spares
      | cons t ps =>
          rw [hts] at hf
          exact ih hts (hv.unprefixed ((atFront_cons ..).mp hf))
  | steady _ _ ih => exact fun hts hv => ih hts hv.rule
  | dropped he hs hl ihe ihl =>
      intro ps ts hts hv
      refine (ihe hts hv.rule).append (hl.spares_cons hts hv (fun more hmore => ?_) ihl)
      -- the stray operator is itself behind the viable tokens
      obtain ⟨-, -, hreports, -⟩ := he.stray_error _ rfl hs
      rw [he.silent_of_viable hmore.rule] at hreports
      cases hreports
  | level he hl ihe ihl =>
      intro ps ts hts hv
      rw [List.append_assoc] at hts
      refine (ihe hts hv.first).append (hl.blames.spares_behind hts ?_)
      rintro t more rfl hrest
      rw [hrest] at he
      exact ihl hrest (hv.links he)
  | levelFailed _ ih => exact fun hts hv => ih hts hv.first
  | @chainMore l left op us vs rest reports later right result ho he hl ihe ihl =>
      intro ps ts hts hv
      rw [List.cons_append, List.append_assoc] at hts
      have hoperand := he.spares_cons hts hv (fun _ => .right ho) ihe
      rw [← List.cons_append] at hts
      refine hoperand.append (hl.blames.spares_behind hts ?_)
      rintro t more rfl hrest
      rw [hrest] at he
      exact ihl hrest (hv.more ho he)
  | chainFailed ho he ih =>
      exact fun hts hv => he.spares_cons hts hv (fun _ => .right ho) ih
  | plain _ _ ih | targetFailed _ ih => exact fun hts hv => ih hts hv.target
  | assigned he hq hl ihe ihl | valueFailed he hq hl ihe ihl =>
      intro ps ts hts hv
      rw [List.append_assoc, List.cons_append] at hts
      exact (ihe hts hv.target).append (he.spares_value hq hl hts hv ihl)
  | mistargeted he hq hn hl ihe ihl =>
      intro ps ts hts hv
      rw [List.append_assoc, List.cons_append] at hts
      have hvalue := he.spares_value hq hl hts hv ihl
      exact (ihe hts hv.target).append (hvalue.snoc (he.spares_equals hq hn hts hv))

/-! ## 4. Statements and declarations -/

/-- Behind its opening a viable statement goes on with a viable expression. -/
theorem Opening.viable {before : List Token} {cause : SyntaxError.Cause} {make : Expr → Stmt}
    {t : Token} (ho : Opening (t :: rest) before cause make)
    (hv : ViableStmt stop (before ++ t :: vs)) : Viable stop (.rule .assignment) (t :: vs) := by
  obtain ⟨ws, h⟩ := hv
  have ho' : Opening (t :: (vs ++ ws)) before cause make := ho.congr rfl
  rw [List.append_assoc, List.cons_append, ho'.run_eq] at h
  exact ⟨ws, Step.reports_of_andThen h⟩

/-- The expression of a statement spares the viable tokens. -/
theorem Opening.spares {before : List Token} {cause : SyntaxError.Cause} {make : Expr → Stmt}
    {result : Except SyntaxError Expr} (ho : Opening (us ++ rest) before cause make)
    (he : Reads stop (.rule .assignment) us rest reports result)
    (hts : before ++ (us ++ rest) = vs ++ ts) (hv : ViableStmt stop' vs) :
    Spares stop ts reports := by
  refine he.blames.spares_behind hts ?_
  rintro t more rfl hrest
  rw [hrest] at ho
  exact he.spares hrest (ho.viable hv)

theorem ReadsStmt.spares_error {err : SyntaxError} (h : ReadsStmt stop us rest reports (.error err))
    (hts : us ++ rest = vs ++ ts) (hv : ViableStmt stop' vs) : err.token ∈ ts ++ [stop] := by
  refine h.blames.spares_error hts ?_
  rintro t more rfl rfl
  exact h.silent_of_viable hv

/-- **A statement put before viable tokens blames what stands behind them.** -/
theorem ReadsStmt.spares {result : Except SyntaxError Stmt}
    (h : ReadsStmt stop us rest reports result) (hts : us ++ rest = vs ++ ts)
    (hv : ViableStmt stop' vs) : Spares stop ts reports := by
  cases h with
  | ended ho he hs =>
      rw [List.append_assoc, List.append_assoc, List.singleton_append] at hts
      exact ho.spares he hts hv
  | unended ho he hf =>
      have herror := (ReadsStmt.unended ho he hf).spares_error hts hv
      rw [List.append_assoc] at hts
      exact (ho.spares he hts hv).snoc herror
  | failed ho he =>
      rw [List.append_assoc] at hts
      exact ho.spares he hts hv
  | declared => exact .nil
  | undeclared hw hn hf =>
      exact List.forall_mem_singleton.mpr ((ReadsStmt.undeclared hw hn hf).spares_error hts hv)
  | nameless hw hf =>
      exact List.forall_mem_singleton.mpr ((ReadsStmt.nameless hw hf).spares_error hts hv)

/-- Declarations blame tokens that are before them. -/
theorem declarations_spare_all (stop : Token) (ts : List Token) :
    Spares stop ts ((declarations stop ts).flatMap (·.reports)) :=
  fun _ he => (declarations_blame stop ts).subset (List.mem_map_of_mem he)

/-- A declaration uses up at least what is read as its statement. -/
theorem ReadsStmt.length_le_used {result : Except SyntaxError Stmt}
    (h : ReadsStmt stop us rest reports result) :
    us.length ≤ (declaration stop (us ++ rest)).used := by
  rw [h.declaration_eq]
  cases result with
  | ok s => exact Nat.le_refl _
  | error err => exact Nat.le_add_right _ _

theorem declaration_reports (stop : Token) (ts : List Token) :
    (declaration stop ts).reports = (anyStatement stop ts).reports := by
  unfold declaration
  dsimp only
  split <;> rfl

/-- A statement that takes all viable tokens, and what is declared behind it. -/
theorem ReadsStmt.declarations_spare {more : List Token} {result : Except SyntaxError Stmt}
    (h : ReadsStmt stop us rest reports result) (hne : us ++ rest ≠ [])
    (hs : Spares stop (more ++ rest) reports) :
    Spares stop (more ++ rest) ((declarations stop (us ++ rest)).flatMap (·.reports)) := by
  obtain ⟨us', rest', hts, hne', hused⟩ := declaration_progress stop hne
  have hle := h.length_le_used
  have hlater : rest' <:+ rest := by
    have hsuffix : rest' <:+ us ++ rest := ⟨us', hts.symm⟩
    refine List.suffix_of_suffix_length_le hsuffix ⟨us, rfl⟩ ?_
    have hlength := congrArg List.length hts
    rw [List.length_append, List.length_append] at hlength
    omega
  have hfirst : (declaration stop (us ++ rest)).reports = reports := by
    rw [declaration_reports, h.run_eq]
  rw [hts] at hused hfirst ⊢
  rw [declarations_cons hne' hused, List.flatMap_cons, hfirst]
  exact hs.append ((declarations_spare_all stop rest').mono
    (hlater.trans (List.suffix_append more rest)))

/-- **Declarations put before the beginning `vs` of a program blame what stands behind it.** -/
theorem declarations_spare (stop stop' : Token) {ws : List Token} (ts : List Token) :
    ∀ vs : List Token,
    (∀ d ∈ declarations stop' (vs ++ ws), d.reports = []) →
    Spares stop ts ((declarations stop (vs ++ ts)).flatMap (·.reports))
  | [], _ => declarations_spare_all stop ts
  | v :: vs, hclean => by
      have hviable : ViableStmt stop' (v :: vs) := by
        refine ⟨ws, ?_⟩
        rw [← declaration_reports]
        refine hclean _ ?_
        rw [List.cons_append, declarations]
        exact List.mem_cons_self
      obtain ⟨us, rest, reports, result, hts, hread⟩ := exists_readsStmt stop (v :: vs ++ ts)
      have hreports := hread.spares hts.symm hviable
      rcases take_cases hts.symm with ⟨more, -, rfl⟩ | ⟨t, more, hvs, rfl⟩
      · rw [hts]
        exact hread.declarations_spare (by rw [← hts]; exact List.cons_ne_nil _ _) hreports
      · -- the first statement ends inside the program: it is the program's own
        rw [hvs] at hviable
        obtain ⟨s, rfl, hs⟩ := hread.derives (hread.silent_of_viable hviable)
        have hlt := length_lt_of_append hvs hs.ne_nil
        rw [hvs, List.append_assoc] at hclean ⊢
        rw [declarations_cons hs.ne_nil (by rw [hs.declaration_eq])] at hclean ⊢
        rw [List.flatMap_cons, hs.declaration_eq]
        exact declarations_spare stop stop' ts (t :: more) fun d hd =>
          hclean d (List.mem_cons_of_mem _ hd)
termination_by vs => vs.length
decreasing_by exact hlt

/-! ## 5. Two streams -/

/-- Streams that agree up to the end marker of one of them agree altogether. -/
theorem Token.Stream.Ended.tokens_eq {s w : Token.Stream} (hs : s.Ended) (hw : w.Ended) {p : Nat}
    (hp : w.tokens.length < p) (hshared : s.all.take p = w.all.take p) : s.tokens = w.tokens := by
  have hall : w.all.take p = w.all := List.take_of_length_le (by simp [Token.Stream.all]; omega)
  rw [hall] at hshared
  have hprefix : w.tokens ++ [w.stop] <+: s.tokens ++ [s.stop] := by
    have h := List.take_prefix p s.all
    rwa [hshared] at h
  rcases List.prefix_concat_iff.mp hprefix with heq | hprefix
  · exact (List.append_inj' heq rfl).1.symm
  · have hmem := hprefix.subset (List.mem_append_right _ (List.mem_singleton_self w.stop))
    exact absurd hw.stop (hs.tokens _ hmem)

/-- What is blamed in a stream stands behind what it shares with a program. -/
theorem spares_shared {s w : Token.Stream} (hs : s.Ended) (hw : w.Ended) {p : Nat}
    (hshared : s.all.take p = w.all.take p)
    (hclean : ∀ d ∈ declarations w.stop w.tokens, d.reports = []) :
    ∀ e ∈ (declarations s.stop s.tokens).flatMap (·.reports), e.token ∈ s.all.drop p := by
  by_cases hp : p ≤ s.tokens.length ∧ p ≤ w.tokens.length
  · rw [Token.Stream.all, Token.Stream.all, List.take_append_of_le_length hp.1,
      List.take_append_of_le_length hp.2] at hshared
    rw [← List.take_append_drop p w.tokens, ← hshared] at hclean
    have hspares := declarations_spare s.stop w.stop (s.tokens.drop p) (s.tokens.take p) hclean
    rw [List.take_append_drop] at hspares
    rw [Token.Stream.all, List.drop_append_of_le_length hp.1]
    exact hspares
  · -- one of the two ends inside what they share, so they are the same
    have htokens : s.tokens = w.tokens := by
      rcases Nat.lt_or_ge w.tokens.length p with hlt | hge
      · exact hs.tokens_eq hw hlt hshared
      · exact (hw.tokens_eq hs (by omega) hshared.symm).symm
    have hderives := derivesProgram_of_clean w.stop w.tokens hclean
    rw [← htokens] at hderives
    rw [List.flatMap_eq_nil_iff.mpr (hderives.declarations_eq s.stop).1]
    exact List.forall_mem_nil _

theorem Token.Stream.Ended.numbered {s : Token.Stream} (hs : s.Ended) : s.numbered.Ended := by
  refine ⟨hs.stop, fun t ht => ?_⟩
  obtain ⟨i, hi, rfl⟩ := List.mem_mapIdx.mp ht
  exact hs.tokens s.tokens[i] (List.getElem_mem hi)

theorem Token.Stream.take_numbered {s w : Token.Stream} {p : Nat}
    (h : s.all.take p = w.all.take p) : s.numbered.all.take p = w.numbered.all.take p := by
  refine List.ext_getElem? fun i => ?_
  have hi : (s.all.take p)[i]? = (w.all.take p)[i]? := by rw [h]
  rw [List.getElem?_take, List.getElem?_take] at hi
  rw [s.all_numbered, w.all_numbered, List.getElem?_take, List.getElem?_take,
    List.getElem?_mapIdx, List.getElem?_mapIdx]
  split
  · rename_i hlt
    rw [if_pos hlt, if_pos hlt] at hi
    rw [hi]
  · rfl

/-- **Diagnostics never blame a token that a valid program could share.** If a stream agrees with
    another one, on which nothing is reported, on its first `p` tokens, then every report on it, one
    made after a recovery or about the target of an assignment included, is at a token with a place
    of at least `p`. -/
theorem shared_beginning_blameless (r r' : Reporter) (s w : Token.Stream) (hs : s.Ended)
    (hw : w.Ended) (p : Nat) (hshared : s.all.take p = w.all.take p)
    (hclean : (r'.parse w.stop w.tokens).diagnostics = []) :
    List.Forall₂ (fun d i => d.At s i ∧ p ≤ i) (r.parse s.stop s.tokens).diagnostics s.places := by
  have hnumbered : ∀ d ∈ declarations w.numbered.stop w.numbered.tokens, d.reports = [] := by
    have h := List.flatMap_eq_nil_iff.mpr (parse_diagnostics_eq_nil.mp hclean)
    rw [w.reports_numbered, List.map_eq_nil_iff] at h
    exact List.flatMap_eq_nil_iff.mp h
  refine forall₂_places r s fun e he => ?_
  have hmem := spares_shared hs.numbered hw.numbered (Token.Stream.take_numbered hshared)
    hnumbered e he
  obtain ⟨i, hi⟩ := List.mem_iff_getElem?.mp hmem
  rw [List.getElem?_drop] at hi
  exact ⟨p + i, hi, Nat.le_add_right p i⟩

/-- `1 = + 2 ;` shares its first token with `1 ;`: the sum sign is blamed, and behind it the equals
    sign. -/
theorem shared_beginning_blameless_literal :
    let one : Token := { kind := .number, lexeme := "1", literal := .number 1 }
    let eq : Token := { kind := .equal, lexeme := "=" }
    let plus : Token := { kind := .plus, lexeme := "+" }
    let two : Token := { kind := .number, lexeme := "2", literal := .number 2 }
    let semi : Token := { kind := .semicolon, lexeme := ";" }
    let s : Token.Stream := ⟨[one, eq, plus, two, semi], Token.endOn 1⟩
    let w : Token.Stream := ⟨[one, semi], Token.endOn 1⟩
    s.Ended ∧ w.Ended ∧ s.all.take 1 = w.all.take 1 ∧
      (({} : Reporter).parse w.stop w.tokens).diagnostics = [] ∧
      s.places = [2, 1] ∧
      List.Forall₂ (fun d i => d.At s i ∧ 1 ≤ i) (({} : Reporter).parse s.stop s.tokens).diagnostics
        s.places := by
  intro one eq plus two semi s w
  have hs : s.Ended := ⟨rfl, by decide⟩
  have hw : w.Ended := ⟨rfl, by decide⟩
  have hclean : (({} : Reporter).parse w.stop w.tokens).diagnostics = [] := by cbv
  have hplaces : s.places = [2, 1] := by cbv
  exact ⟨hs, hw, rfl, hclean, hplaces, shared_beginning_blameless {} {} s w hs hw 1 rfl hclean⟩

end Lox
