/-
  File:      Lox/Proofs/Forms.lean
  Subject:   A form is told from its text.

  A FORM is a word, or in parentheses a word and the forms behind it, with a space in front of each.
  Words hold no space and no parenthesis, and after a form there is no character of a word; so the
  text of a form tells the form, and where it ends.

  * `Form.Word`, `Form` -- words and forms;
  * `text_append_inj`, `text_inj` -- a form is told from its text;
  * `parenthesised_shown`, `parenthesised_named` -- what is put in parentheses is a form.
-/
import Lox.Proofs.Lexemes
import Lox.Tree.Basic

namespace Lox

/-! ## 1. Forms -/

namespace Form

/-- True of the characters of words: all but the space and the parentheses. -/
def inWord (c : Char) : Bool :=
  c != ' ' && c != '(' && c != ')'

/-- A word. -/
@[ext] structure Word where
  text : List Char
  ne_nil : text ≠ []
  inside : text.all inWord = true

theorem exists_word {text : List Char} (hne : text ≠ []) (h : text.all inWord = true) :
    ∃ w : Word, w.text = text :=
  ⟨⟨text, hne, h⟩, rfl⟩

/-- A class of characters that has neither the space nor the parentheses is one of words. -/
theorem inWord_of_class {p : Char → Bool} {c : Char} (hc : p c = true)
    (h : p ' ' = false ∧ p '(' = false ∧ p ')' = false) : inWord c = true := by
  have hne : ∀ {d : Char}, p d = false → (c != d) = true := by
    refine fun hd => bne_iff_ne.mpr ?_
    rintro rfl
    rw [hc] at hd
    cases hd
  rw [inWord, hne h.1, hne h.2.1, hne h.2.2]
  rfl

end Form

/-- A word, or in parentheses a word and the forms behind it. -/
inductive Form where
  | word (w : Form.Word)
  | node (head : Form.Word) (parts : List Form)

namespace Form

mutual

/-- The text of a form. -/
def text : Form → List Char
  | .word w => w.text
  | .node head parts => '(' :: (head.text ++ behind parts)

/-- The text behind the head of a form, with a space in front of each part. -/
def behind : List Form → List Char
  | [] => [')']
  | f :: fs => ' ' :: (f.text ++ behind fs)

end

/-! ## 2. Forms told from their text -/

/-- A word is told from a text that begins with it, if no character of words follows. -/
theorem Word.append_inj {w w' : Word} {r s : List Char} (hr : Stops inWord r)
    (hs : Stops inWord s) (h : w.text ++ r = w'.text ++ s) : w = w' ∧ r = s := by
  obtain ⟨htake, hdrop⟩ := takeWhile_stops (List.all_eq_true.mp w.inside) hr
  obtain ⟨htake', hdrop'⟩ := takeWhile_stops (List.all_eq_true.mp w'.inside) hs
  refine ⟨Word.ext ?_, ?_⟩
  · rw [← htake, h, htake']
  · rw [← hdrop, h, hdrop']

/-- No word begins with a parenthesis. -/
theorem Word.append_ne (w : Word) (r s : List Char) : w.text ++ r ≠ '(' :: s := by
  obtain ⟨c, cs, hw⟩ := List.exists_cons_of_ne_nil w.ne_nil
  intro h
  rw [hw] at h
  cases (List.cons.inj h).1
  exact absurd (List.all_eq_true.mp w.inside '(' (hw ▸ List.mem_cons_self)) (by decide)

theorem stops_behind (fs : List Form) (rest : List Char) : Stops inWord (behind fs ++ rest) := by
  cases fs with
  | nil => exact (stops_cons ..).mpr (by decide)
  | cons f fs => exact (stops_cons ..).mpr (by decide)

-- Both statements are by recursion on the form or the parts on the left.
mutual

/-- **A form is told from a text that begins with it**, if no character of words follows. -/
theorem text_append_inj : ∀ {f g : Form} {r s : List Char}, Stops inWord r → Stops inWord s →
    f.text ++ r = g.text ++ s → f = g ∧ r = s
  | .word w, .word w', r, s, hr, hs, h => by
      rw [text, text] at h
      obtain ⟨rfl, rfl⟩ := Word.append_inj hr hs h
      exact ⟨rfl, rfl⟩
  | .word w, .node _ _, r, s, _, _, h => by
      rw [text, text] at h
      exact absurd h (w.append_ne _ _)
  | .node _ _, .word w, r, s, _, _, h => by
      rw [text, text] at h
      exact absurd h.symm (w.append_ne _ _)
  | .node head parts, .node head' parts', r, s, _, _, h => by
      rw [text, text, List.cons_append, List.cons_append, List.append_assoc,
        List.append_assoc] at h
      obtain ⟨rfl, hbehind⟩ :=
        Word.append_inj (stops_behind _ _) (stops_behind _ _) (List.cons.inj h).2
      obtain ⟨rfl, rfl⟩ := behind_append_inj hbehind
      exact ⟨rfl, rfl⟩

theorem behind_append_inj : ∀ {fs gs : List Form} {r s : List Char},
    behind fs ++ r = behind gs ++ s → fs = gs ∧ r = s
  | [], [], r, s, h => ⟨rfl, (List.cons.inj h).2⟩
  | [], g :: gs, r, s, h => by
      rw [behind, behind] at h
      cases (List.cons.inj h).1
  | f :: fs, [], r, s, h => by
      rw [behind, behind] at h
      cases (List.cons.inj h).1
  | f :: fs, g :: gs, r, s, h => by
      rw [behind, behind, List.cons_append, List.cons_append, List.append_assoc,
        List.append_assoc] at h
      obtain ⟨rfl, hbehind⟩ :=
        text_append_inj (stops_behind _ _) (stops_behind _ _) (List.cons.inj h).2
      obtain ⟨rfl, rfl⟩ := behind_append_inj hbehind
      exact ⟨rfl, rfl⟩

end

theorem text_inj {f g : Form} (h : f.text = g.text) : f = g := by
  have happend : f.text ++ [] = g.text ++ [] := by rw [h]
  exact (text_append_inj (stops_nil _) (stops_nil _) happend).1

/-! ## 3. Forms rendered -/

/-- The text of a form as a string. -/
def shown (f : Form) : String :=
  String.ofList f.text

theorem shown_word {w : Word} {name : String} (h : w.text = name.toList) :
    (word w).shown = name := by
  rw [shown, text, h, String.ofList_toList]

theorem behind_eq : ∀ fs : List Form, behind fs = fs.flatMap (fun f => ' ' :: f.text) ++ [')']
  | [] => rfl
  | f :: fs => by
      rw [behind, behind_eq fs, List.flatMap_cons, List.cons_append, List.cons_append,
        List.append_assoc]

/-- **A word and forms put in parentheses are a form.** -/
theorem parenthesised_shown {w : Word} {mark : String} (h : w.text = mark.toList)
    (parts : List Form) : parenthesised mark (parts.map shown) = (node w parts).shown := by
  apply String.toList_injective
  rw [shown, String.toList_ofList, text, behind_eq, h]
  simp [parenthesised, String.toList_join, List.flatMap_map, shown]

/-- So are two words and forms: the second word is the first of the parts. -/
theorem parenthesised_named {w u : Word} {mark name : String} (h : w.text = mark.toList)
    (hu : u.text = name.toList) (parts : List Form) :
    parenthesised (mark ++ (" " ++ name)) (parts.map shown) =
      (node w (word u :: parts)).shown := by
  rw [← parenthesised_shown h, List.map_cons, shown_word hu]
  apply String.toList_injective
  simp [parenthesised, String.toList_join]

end Form

end Lox
