/-
  File:      Lox/Proofs/Rendering.lean
  Subject:   What is shown of a statement tells the statement.

  A tree is shown as a form, and its text tells the form.  The form tells the tree in turn: the word
  in front and the number of forms behind it say which sort of tree it is, and the other words are
  lexemes, which tell their tokens, or values.  Strings are left out, since they may hold anything,
  and infinite numbers, since they are shown like a name.

  * `Value.Legible`, `Value.Legible.eq_of_text` -- the values that are told from their text;
  * `Token.Spells`, `Token.Spells.sameWord` -- a word tells its token up to the line;
  * `Expr.Shown`, `Stmt.Shown` -- a tree and its form;
  * `Stmt.Shown.render_eq`, `Stmt.Shown.unique` -- the text of the form is what is rendered, and
    trees of one form differ in lines at most;
  * `Derives.shown`, `DerivesStmt.shown` -- derived trees have a form;
  * `rendering_is_faithful` -- so statements that are shown alike differ in lines at most.
-/
import Lox.Proofs.Forms
import Lox.Proofs.Labels
import Lox.Proofs.Numerals
import Lox.Proofs.Occurrence

namespace Lox

open Token (Kind)

/-! ## 1. Words -/

/-- The kinds of the tokens that a tree keeps: names and operators. -/
def keptKinds : List Kind :=
  .identifier :: (unaryOperators ++ binaryOperators)

theorem exists_word_of_spelling {kind : Kind} {word : String} (h : kind.spelling? = some word)
    (hk : kind ∈ keptKinds) : ∃ w : Form.Word, w.text = word.toList := by
  cases kind <;> cases h <;> first
    | exact Form.exists_word (by decide) (by decide)
    | exact absurd hk (by decide)

theorem Lexeme.identifier_cons {text : List Char} {v : Value} (h : Lexeme .identifier text v) :
    ∃ c cs, text = c :: cs ∧ Piece.startsWord c = true ∧
      ∀ d ∈ cs, Piece.continuesWord d = true := by
  cases h with
  | fixed h => cases h
  | identifier hc hcs => exact ⟨_, _, rfl, hc, hcs⟩

/-- **The lexemes of names and operators are words.** -/
theorem Lexeme.exists_word {kind : Kind} {text : List Char} {v : Value} (h : Lexeme kind text v)
    (hk : kind ∈ keptKinds) : ∃ w : Form.Word, w.text = text := by
  cases h with
  | fixed h => exact exists_word_of_spelling h hk
  | @identifier c cs hc hcs =>
      refine Form.exists_word (List.cons_ne_nil c cs) (List.all_eq_true.mpr fun d hd => ?_)
      have hall : ∀ d ∈ c :: cs, Piece.continuesWord d = true :=
        List.forall_mem_cons.mpr ⟨Piece.continuesWord_of_start hc, hcs⟩
      exact Form.inWord_of_class (hall d hd) (by decide)
  | whole | fraction | string => exact absurd hk (by decide)

/-! ## 2. Values -/

namespace Value

/-- The values that are told from their text: no strings, and of the numbers those that are finite
    and have no sign. -/
inductive Legible : Value → Prop
  | nil : Legible .nil
  | bool (b : Bool) : Legible (.bool b)
  | number {x : Float} (hn : x.isNaN = false) (hi : x.isInf = false)
      (hs : Double.isNegative x = false) : Legible (.number x)

section Numbers

variable {x : Float} (hn : x.isNaN = false) (hi : x.isInf = false)
  (hs : Double.isNegative x = false)

include hn hi hs

theorem toList_text_number :
    (number x).text.toList = Layout.plain.writeDecimal (Decimal.shortest x) := by
  show (Layout.plain.write x).toList = _
  rw [Layout.write, String.toList_ofList, Layout.plain.writeChars_of_finite hn hi, hs,
    if_neg Bool.false_ne_true, List.nil_append]

theorem text_number_inj {y : Float} (hn' : y.isNaN = false) (hi' : y.isInf = false)
    (hs' : Double.isNegative y = false) (h : (number x).text = (number y).text) : x = y := by
  have htext := congrArg String.toList h
  rw [toList_text_number hn hi hs, toList_text_number hn' hi' hs'] at htext
  rw [← Decimal.toFloat_shortest (Double.magnitude_lt hn hi) hs, Decimal.toFloat_of_text htext,
    Decimal.toFloat_shortest (Double.magnitude_lt hn' hi') hs']

end Numbers

namespace Legible

variable {v : Value}

/-- The text of numbers begins with a digit, and that of other values does not. -/
theorem isNumber_eq (h : v.Legible) : v.text.toList.head?.any Char.isDigit = v.isNumber := by
  cases h with
  | nil => rfl
  | bool b => cases b <;> rfl
  | @number x hn hi hs =>
      obtain ⟨c, cs, hcons, hc⟩ := (Decimal.shortest x).numeral_writeDecimal.2
      rw [toList_text_number hn hi hs, hcons]
      exact hc

/-- **A legible value is told from its text.** -/
theorem eq_of_text {v' : Value} (h : v.Legible) (h' : v'.Legible) (htext : v.text = v'.text) :
    v = v' := by
  have hnumber : v.isNumber = v'.isNumber := by rw [← h.isNumber_eq, htext, h'.isNumber_eq]
  cases h with
  | nil =>
      cases h' with
      | nil => rfl
      | bool b => cases b <;> exact absurd htext (by decide)
      | number => cases hnumber
  | bool b =>
      cases h' with
      | nil => cases b <;> exact absurd htext (by decide)
      | bool b' => cases b <;> cases b' <;> first | rfl | exact absurd htext (by decide)
      | number => cases hnumber
  | number hn hi hs =>
      cases h' with
      | nil | bool => cases hnumber
      | number hn' hi' hs' => rw [text_number_inj hn hi hs hn' hi' hs' htext]

/-- No name has the text of a legible value. -/
theorem not_identifier (h : v.Legible) {literal : Value} :
    ¬ Lexeme .identifier v.text.toList literal := by
  intro hname
  have hnumber := h.isNumber_eq
  obtain ⟨c, cs, htext, hstart, -⟩ := hname.identifier_cons
  rw [htext, show (c :: cs).head?.any Char.isDigit = c.isDigit from rfl,
    Piece.isDigit_of_start hstart] at hnumber
  cases h with
  | nil => cases ((@Lexeme.fixed .nilWord _ rfl).unique hname).1
  | bool b =>
      cases b with
      | false => cases ((@Lexeme.fixed .falseWord _ rfl).unique hname).1
      | true => cases ((@Lexeme.fixed .trueWord _ rfl).unique hname).1
  | number => cases hnumber

/-- The text of a legible value is a word. -/
theorem exists_word (h : v.Legible) : ∃ w : Form.Word, w.text = v.text.toList := by
  cases h with
  | nil => exact Form.exists_word (by decide) (by decide)
  | bool b => cases b <;> exact Form.exists_word (by decide) (by decide)
  | @number x hn hi hs =>
      obtain ⟨hchars, c, cs, hcons, -⟩ := (Decimal.shortest x).numeral_writeDecimal
      rw [toList_text_number hn hi hs]
      refine Form.exists_word (by rw [hcons]; exact List.cons_ne_nil c cs)
        (List.all_eq_true.mpr fun d hd => ?_)
      rcases hchars d hd with hdigit | hmark
      · exact Form.inWord_of_class hdigit (by decide)
      · have hmarks : ['.', 'e', '-', '+'].all Form.inWord = true := by decide
        exact List.all_eq_true.mp hmarks d hmark

end Legible

end Value

/-! ## 3. Tokens -/

/-- The token has a lexeme of its kind. -/
def Token.Spelled (t : Token) : Prop :=
  Lexeme t.kind t.lexeme.toList t.literal

/-- The token has a lexeme of its kind, and the word is this lexeme. -/
structure Token.Spells (t : Token) (w : Form.Word) : Prop where
  lexeme : t.Spelled
  text : w.text = t.lexeme.toList

theorem Token.Spelled.exists_spells {t : Token} (h : t.Spelled) (hk : t.kind ∈ keptKinds) :
    ∃ w, t.Spells w := by
  obtain ⟨w, hw⟩ := h.exists_word hk
  exact ⟨w, h, hw⟩

namespace Token.Spells

variable {t u : Token} {w : Form.Word}

/-- A word tells the kind of its token. -/
theorem kind_eq (h : t.Spells w) {kind : Kind} {literal : Value}
    (hw : Lexeme kind w.text literal) : t.kind = kind :=
  (h.lexeme.unique (h.text ▸ hw)).1

/-- **A word tells its token up to the line.** -/
theorem sameWord (h : t.Spells w) (h' : u.Spells w) : t.SameWord u := by
  have hlexeme : t.lexeme = u.lexeme := String.toList_injective (h.text.symm.trans h'.text)
  have hspelled := h'.lexeme
  rw [Spelled, ← hlexeme] at hspelled
  obtain ⟨hkind, hliteral⟩ := h.lexeme.unique hspelled
  exact ⟨hkind, hlexeme, hliteral⟩

/-- No prefix operator is spelled like the mark of a grouping. -/
theorem not_group (h : t.Spells w) (hk : t.kind ∈ unaryOperators) : w.text ≠ "group".toList := by
  intro hw
  have hgroup : Lexeme .identifier "group".toList .nil :=
    .identifier rfl (List.all_eq_true.mp rfl) (by decide)
  rw [h.kind_eq (hw ▸ hgroup)] at hk
  exact absurd hk (by decide)

/-- No operator between operands is spelled like the mark of an assignment. -/
theorem not_equals (h : t.Spells w) (hk : t.kind ∈ binaryOperators) : w.text ≠ "=".toList := by
  intro hw
  have hequal : Lexeme .equal "=".toList .nil := .fixed rfl
  rw [h.kind_eq (hw ▸ hequal)] at hk
  exact absurd hk (by decide)

/-- No name is spelled like a value. -/
theorem not_value (h : t.Spells w) (hk : t.kind = .identifier) {v : Value} (hv : v.Legible) :
    w.text ≠ v.text.toList := by
  intro hw
  have hname := h.lexeme
  rw [Spelled, ← h.text, hw, hk] at hname
  exact hv.not_identifier hname

end Token.Spells

/-! ## 4. Trees and their forms -/

/-- The expression is shown as the form. -/
inductive Expr.Shown : Expr → Form → Prop
  | literal {v w} (hv : v.Legible) (hw : w.text = v.text.toList) : Shown (.literal v) (.word w)
  | name {t w} (hk : t.kind = .identifier) (ht : t.Spells w) : Shown (.name t) (.word w)
  | unary {op e w f} (hk : op.kind ∈ unaryOperators) (ho : op.Spells w) (he : Shown e f) :
      Shown (.unary op e) (.node w [f])
  | binary {l op r w f g} (hk : op.kind ∈ binaryOperators) (ho : op.Spells w) (hl : Shown l f)
      (hr : Shown r g) : Shown (.binary l op r) (.node w [f, g])
  | grouping {e w f} (hw : w.text = "group".toList) (he : Shown e f) :
      Shown (.grouping e) (.node w [f])
  | assign {t e w u f} (hw : w.text = "=".toList) (ht : t.Spells u) (he : Shown e f) :
      Shown (.assign t e) (.node w [.word u, f])

/-- The statement is shown as the form. -/
inductive Stmt.Shown : Stmt → Form → Prop
  | expression {e w f} (hw : w.text = ";".toList) (he : e.Shown f) :
      Shown (.expression e) (.node w [f])
  | print {e w f} (hw : w.text = "print".toList) (he : e.Shown f) : Shown (.print e) (.node w [f])
  | var {t w u} (hw : w.text = "var".toList) (ht : t.Spells u) :
      Shown (.var t none) (.node w [.word u])
  | varInit {t e w u f} (hw : w.text = "var".toList) (ht : t.Spells u) (he : e.Shown f) :
      Shown (.var t (some e)) (.node w [.word u, f])

/-- What is rendered of an expression is the text of its form. -/
theorem Expr.Shown.render_eq {e : Expr} {f : Form} (h : e.Shown f) : e.render = .ok f.shown := by
  induction h with
  | literal hv hw => rw [render, Form.shown_word hw]
  | name hk ht => rw [render, Form.shown_word ht.text]
  | unary hk ho he ih =>
      rw [render, ih, ← Form.parenthesised_shown ho.text]
      rfl
  | binary hk ho hl hr ihl ihr =>
      rw [render, ihl, ihr, ← Form.parenthesised_shown ho.text]
      rfl
  | grouping hw he ih =>
      rw [render, ih, ← Form.parenthesised_shown hw]
      rfl
  | assign hw ht he ih =>
      rw [render, ih, ← Form.parenthesised_named hw ht.text]
      rfl

/-- **Expressions of one form differ in lines at most.** -/
theorem Expr.Shown.unique {e e' : Expr} {f : Form} (h : e.Shown f) (h' : e'.Shown f) (line : Int) :
    e.relabel (Token.onLine line) = e'.relabel (Token.onLine line) := by
  induction h generalizing e' with
  | literal hv hw =>
      cases h' with
      | literal hv' hw' =>
          rw [hv.eq_of_text hv' (String.toList_injective (hw.symm.trans hw'))]
      | name hk ht => exact absurd hw (ht.not_value hk hv)
  | name hk ht =>
      cases h' with
      | literal hv hw => exact absurd hw (ht.not_value hk hv)
      | name hk' ht' => rw [relabel, relabel, (ht.sameWord ht').onLine_eq]
  | unary hk ho he ih =>
      cases h' with
      | unary hk' ho' he' =>
          rw [relabel, relabel, ih he', (ho.sameWord ho').onLine_eq]
      | grouping hw he' => exact absurd hw (ho.not_group hk)
  | binary hk ho hl hr ihl ihr =>
      cases h' with
      | binary hk' ho' hl' hr' =>
          rw [relabel, relabel, ihl hl', ihr hr', (ho.sameWord ho').onLine_eq]
      | assign hw ht he => exact absurd hw (ho.not_equals hk)
  | grouping hw he ih =>
      cases h' with
      | unary hk ho he' => exact absurd hw (ho.not_group hk)
      | grouping hw' he' => rw [relabel, relabel, ih he']
  | assign hw ht he ih =>
      cases h' with
      | binary hk ho hl hr => exact absurd hw (ho.not_equals hk)
      | assign hw' ht' he' => rw [relabel, relabel, ih he', (ht.sameWord ht').onLine_eq]

theorem Stmt.Shown.render_eq {s : Stmt} {f : Form} (h : s.Shown f) : s.render = .ok f.shown := by
  cases h with
  | expression hw he =>
      rw [render, he.render_eq, ← Form.parenthesised_shown hw]
      rfl
  | print hw he =>
      rw [render, he.render_eq, ← Form.parenthesised_shown hw]
      rfl
  | var hw ht =>
      rw [render, ← Form.parenthesised_named hw ht.text]
      rfl
  | varInit hw ht he =>
      rw [render, he.render_eq, ← Form.parenthesised_named hw ht.text]
      rfl

/-- **Statements of one form differ in lines at most.** -/
theorem Stmt.Shown.unique {s s' : Stmt} {f : Form} (h : s.Shown f) (h' : s'.Shown f) (line : Int) :
    s.relabel (Token.onLine line) = s'.relabel (Token.onLine line) := by
  cases h with
  | expression hw he =>
      cases h' with
      | expression hw' he' => rw [relabel, relabel, he.unique he']
      | print hw' | var hw' => exact absurd (hw.symm.trans hw') (by decide)
  | print hw he =>
      cases h' with
      | print hw' he' => rw [relabel, relabel, he.unique he']
      | expression hw' | var hw' => exact absurd (hw.symm.trans hw') (by decide)
  | var hw ht =>
      cases h' with
      | var hw' ht' => rw [relabel, relabel, (ht.sameWord ht').onLine_eq]
      | expression hw' | print hw' => exact absurd (hw.symm.trans hw') (by decide)
  | varInit hw ht he =>
      cases h' with
      | varInit hw' ht' he' =>
          rw [relabel, relabel, (ht.sameWord ht').onLine_eq, Option.map_some, Option.map_some,
            he.unique he']

/-! ## 5. Derived trees -/

/-- The literals of an expression from left to right. -/
def Expr.literals : Expr → List Value
  | .literal v => [v]
  | .unary _ e => e.literals
  | .binary l _ r => l.literals ++ r.literals
  | .grouping e => e.literals
  | .assign _ e => e.literals
  | .name _ | .invalid | .misplaced => []

/-- The literals of a statement from left to right. -/
def Stmt.literals : Stmt → List Value
  | .expression e => e.literals
  | .print e => e.literals
  | .var _ (some e) => e.literals
  | .var _ none | .misplaced => []

/-- True of the infinite numbers. -/
def Value.isInfinite : Value → Bool
  | .number x => x.isInf
  | _ => false

/-- The value is neither a string nor an infinite number. -/
def Value.Plain (v : Value) : Prop :=
  v.isString = false ∧ v.isInfinite = false

instance (v : Value) : Decidable v.Plain :=
  inferInstanceAs (Decidable (_ ∧ _))

theorem Lexeme.number_value {text : List Char} {v : Value} (h : Lexeme .number text v) :
    ∃ d : Decimal, v = .number d.toFloat := by
  cases h with
  | fixed h => cases h
  | whole | fraction => exact ⟨_, rfl⟩

theorem Lexeme.string_value {text : List Char} {v : Value} (h : Lexeme .string text v) :
    v.isString = true := by
  cases h with
  | fixed h => cases h
  | string => rfl

/-- The plain literals of a source are legible: it has no NaN and no negative number. -/
theorem Denotes.legible {t : Token} {v : Value} (h : Denotes t v) (ht : t.Spelled)
    (hv : v.Plain) : v.Legible := by
  rw [Token.Spelled] at ht
  cases h with
  | number hk =>
      rw [hk] at ht
      obtain ⟨d, hd⟩ := ht.number_value
      rw [hd] at hv ⊢
      exact .number d.isNaN_toFloat hv.2 d.isNegative_toFloat
  | string hk =>
      rw [hk] at ht
      rw [Value.Plain, ht.string_value] at hv
      cases hv.1
  | trueWord => exact .bool true
  | falseWord => exact .bool false
  | nilWord => exact .nil

theorem literals_foldLinks : ∀ (links : List Link) (first : Expr),
    (foldLinks first links).literals = first.literals ++ links.flatMap (·.tree.literals)
  | [], first => by simp [foldLinks]
  | k :: links, first => by
      have ih := literals_foldLinks links (.binary first k.op k.tree)
      rw [List.flatMap_cons, ← List.append_assoc]
      exact ih

theorem shown_foldLinks {l : Level} : ∀ (links : List Link) {first : Expr},
    (∃ f, first.Shown f) → (∀ k ∈ links, k.op.kind ∈ l.operators ∧ k.op.Spelled) →
    (∀ k ∈ links, ∃ f, k.tree.Shown f) → ∃ f, (foldLinks first links).Shown f
  | [], _, hf, _, _ => hf
  | k :: links, first, ⟨f, hf⟩, ho, hk => by
      obtain ⟨hop, hspelled⟩ := ho k List.mem_cons_self
      have hbinary := l.operators_binary _ hop
      obtain ⟨w, hw⟩ :=
        hspelled.exists_spells (List.mem_cons_of_mem _ (List.mem_append_right _ hbinary))
      obtain ⟨g, hg⟩ := hk k List.mem_cons_self
      exact shown_foldLinks links ⟨_, .binary hbinary hw hf hg⟩
        (fun k' hm => ho k' (List.mem_cons_of_mem _ hm))
        fun k' hm => hk k' (List.mem_cons_of_mem _ hm)

/-- **A derived expression has a form**, if its tokens are lexemes and its literals are plain. -/
theorem Derives.shown {r : Rule} {ts : List Token} {e : Expr} (h : Derives r ts e)
    (ht : ∀ t ∈ ts, t.Spelled) (hv : ∀ v ∈ e.literals, v.Plain) : ∃ f, e.Shown f := by
  induction h with
  | assign hn _ _ ih =>
      obtain ⟨hname, hrest⟩ := List.forall_mem_cons.mp ht
      obtain ⟨u, hu⟩ := hname.exists_spells (hn ▸ List.mem_cons_self)
      obtain ⟨f, hf⟩ := ih (List.forall_mem_cons.mp hrest).2 hv
      exact ⟨.node ⟨"=".toList, by decide, by decide⟩ [.word u, f], .assign rfl hu hf⟩
  | unassigned _ ih | primary _ ih => exact ih ht hv
  | @chain _ _ _ _ _ links hl _ ho _ ihf ihk =>
      obtain ⟨rfl, rfl⟩ := chainRules_eq hl
      obtain ⟨htfirst, htlinks⟩ := List.forall_mem_append.mp ht
      rw [literals_foldLinks] at hv
      obtain ⟨hvfirst, hvlinks⟩ := List.forall_mem_append.mp hv
      have hlink : ∀ k ∈ links, ∀ t ∈ k.all, t.Spelled := fun k hk t hmem =>
        htlinks t (List.mem_flatMap_of_mem hk hmem)
      refine shown_foldLinks links (ihf htfirst hvfirst)
        (fun k hk => ⟨ho k hk, hlink k hk k.op List.mem_cons_self⟩) fun k hk => ?_
      exact ihk k hk (fun t hmem => hlink k hk t (List.mem_cons_of_mem _ hmem))
        fun v hmem => hvlinks v (List.mem_flatMap_of_mem hk hmem)
  | @unary op _ _ ho _ ih =>
      obtain ⟨hop, hrest⟩ := List.forall_mem_cons.mp ht
      have hunary : op.kind ∈ unaryOperators := by simpa [unaryOperators] using ho
      obtain ⟨w, hw⟩ :=
        hop.exists_spells (List.mem_cons_of_mem _ (List.mem_append_left _ hunary))
      obtain ⟨f, hf⟩ := ih hrest hv
      exact ⟨_, .unary hunary hw hf⟩
  | @literal t v hd =>
      have hlegible := hd.legible (ht t List.mem_cons_self) (hv v List.mem_cons_self)
      obtain ⟨w, hw⟩ := hlegible.exists_word
      exact ⟨_, .literal hlegible hw⟩
  | @name t hk =>
      obtain ⟨w, hw⟩ := (ht t List.mem_cons_self).exists_spells (hk ▸ List.mem_cons_self)
      exact ⟨_, .name hk hw⟩
  | group _ _ _ ih =>
      obtain ⟨-, hrest⟩ := List.forall_mem_cons.mp ht
      obtain ⟨f, hf⟩ := ih (List.forall_mem_append.mp hrest).1 hv
      exact ⟨.node ⟨"group".toList, by decide, by decide⟩ [f], .grouping rfl hf⟩

/-- **A derived statement has a form**, if its tokens are lexemes and its literals are plain. -/
theorem DerivesStmt.shown {ts : List Token} {s : Stmt} (h : DerivesStmt ts s)
    (ht : ∀ t ∈ ts, t.Spelled) (hv : ∀ v ∈ s.literals, v.Plain) : ∃ f, s.Shown f := by
  cases h with
  | var _ hn _ =>
      obtain ⟨hname, -⟩ := List.forall_mem_cons.mp (List.forall_mem_cons.mp ht).2
      obtain ⟨u, hu⟩ := hname.exists_spells (hn ▸ List.mem_cons_self)
      exact ⟨.node ⟨"var".toList, by decide, by decide⟩ [.word u], .var rfl hu⟩
  | varInit _ hn _ he _ =>
      obtain ⟨hname, hrest⟩ := List.forall_mem_cons.mp (List.forall_mem_cons.mp ht).2
      obtain ⟨u, hu⟩ := hname.exists_spells (hn ▸ List.mem_cons_self)
      obtain ⟨f, hf⟩ :=
        he.shown (List.forall_mem_append.mp (List.forall_mem_cons.mp hrest).2).1 hv
      exact ⟨.node ⟨"var".toList, by decide, by decide⟩ [.word u, f], .varInit rfl hu hf⟩
  | print _ he _ =>
      obtain ⟨f, hf⟩ := he.shown (List.forall_mem_append.mp (List.forall_mem_cons.mp ht).2).1 hv
      exact ⟨.node ⟨"print".toList, by decide, by decide⟩ [f], .print rfl hf⟩
  | expression he _ =>
      obtain ⟨f, hf⟩ := he.shown (List.forall_mem_append.mp ht).1 hv
      exact ⟨.node ⟨";".toList, by decide, by decide⟩ [f], .expression rfl hf⟩

/-! ## 6. Statements read -/

/-- A statement that is read is derived from lexemes. -/
theorem Reporter.derives_of_mem_read {r : Reporter} {source : String} {s : Stmt}
    (h : s ∈ (r.read source).program.statements) :
    ∃ ts, (∀ t ∈ ts, t.Spelled) ∧ DerivesStmt ts s := by
  -- a reading with a report has no statement
  have hflag : (r.read source).program.reporter.hadError = false := by
    refine Bool.eq_false_iff.mpr fun hflag => ?_
    have hnone : (r.read source).program.statements = [] := if_pos hflag
    rw [hnone] at h
    exact List.not_mem_nil h
  obtain ⟨hr, hclean⟩ := read_of_unflagged hflag
  obtain ⟨earlier, later, hsplit⟩ := List.append_of_mem h
  obtain ⟨us, ts, ws, htokens, -, hd, -⟩ := (read_of_clean hr hclean).split _ _ _ hsplit
  refine ⟨ts, fun t ht => ?_, hd⟩
  have hmem : t ∈ (scan source).stream.tokens := by
    rw [htokens]
    exact List.mem_append_right _ (List.mem_append_left _ ht)
  obtain ⟨rest, hcut⟩ := (pieces_tile source.toList).cut_of_mem (piece_mem_of_token hmem)
  exact hcut.lexeme rfl

/-- **What is shown of statements is faithful.** A statement is read from a source only if nothing
    was reported.  Let two statements be read so, be it from two sources, and let no literal in them
    be a string or an infinite number.  Then they can be shown, and if the same text is shown for
    both, they are equal up to the lines of their tokens: put on one line, whichever it is, they are
    the same. -/
theorem rendering_is_faithful {r r' : Reporter} {source source' : String} {s s' : Stmt}
    (hs : s ∈ (r.read source).program.statements)
    (hs' : s' ∈ (r'.read source').program.statements)
    (hv : ∀ v ∈ s.literals, v.Plain) (hv' : ∀ v ∈ s'.literals, v.Plain) :
    (∃ text, s.render = .ok text) ∧
      (s.render = s'.render →
        ∀ line, s.relabel (Token.onLine line) = s'.relabel (Token.onLine line)) := by
  obtain ⟨ts, hts, hd⟩ := Reporter.derives_of_mem_read hs
  obtain ⟨ts', hts', hd'⟩ := Reporter.derives_of_mem_read hs'
  obtain ⟨f, hf⟩ := hd.shown hts hv
  obtain ⟨f', hf'⟩ := hd'.shown hts' hv'
  refine ⟨⟨_, hf.render_eq⟩, fun h line => ?_⟩
  rw [hf.render_eq, hf'.render_eq] at h
  have htext : f.text = f'.text := String.ofList_injective (Except.ok.inj h)
  cases Form.text_inj htext
  exact hf.unique hf' line

/-- Two ways to write a number, and a subtraction of a negation on one line and on three. -/
theorem rendering_is_faithful_across_lines :
    let s := (({} : Reporter).read "print a - (-1.50);").program.statements.headD .misplaced
    let s' := (({} : Reporter).read "print\na - (\n-1.5);").program.statements.headD .misplaced
    s.render = .ok "(print (- a (group (- 1.5))))" ∧ s'.render = s.render ∧ s ≠ s' ∧
      s.relabel (Token.onLine 0) = s'.relabel (Token.onLine 0) := by
  intro s s'
  have htext : s.render = .ok "(print (- a (group (- 1.5))))" := by decide +kernel
  have htext' : s'.render = s.render := by decide +kernel
  have hs : s ∈ (({} : Reporter).read "print a - (-1.50);").program.statements := by
    decide +kernel
  have hs' : s' ∈ (({} : Reporter).read "print\na - (\n-1.5);").program.statements := by
    decide +kernel
  have hv : ∀ v ∈ s.literals, v.Plain := by decide +kernel
  have hv' : ∀ v ∈ s'.literals, v.Plain := by decide +kernel
  exact ⟨htext, htext', by decide +kernel,
    (rendering_is_faithful hs hs' hv hv').2 htext'.symm 0⟩

end Lox
