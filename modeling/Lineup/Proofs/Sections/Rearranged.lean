import Lineup.Proofs.Content

/-!
# The sections of a rearranged text

A list is left alone when a preprocessor line stands between its items, so rearranging a
file does not take an item out of a section. Preprocessor lines within the items move
with them. Where these are nested item by item, the new text has the sections of the old
one.
-/

namespace Lineup

/-- Rearranging keeps the sections of a text nested: when the seams of its lists hold
and its lists keep their sections, the preprocessor lines of the new text are nested
exactly when those of the old one are. The source text has no hash sign outside of
preprocessor lines. -/
theorem nested_reorganizeText (options : Options) (source : Text)
    (plain : ∀ token ∈ Token.lex source, token.is "#" = false)
    (seams : (Tree.parse source).top.seamsHold options source [] = true)
    (sections : (Tree.parse source).top.sectionsHold options source = true) :
    Mark.Nested (Token.sections (Token.lex (reorganizeText options source).1))
      ↔ Mark.Nested (Token.sections (Token.lex source)) := by
  have run : Token.Run true (Token.lex source) [] := Token.run_lexFrom true 0 source
  obtain ⟨tokens, printed, repeats, formed, decided⟩ :=
    (Parser.parse_file source).arranged options
    source (fun token member => ⟨plain token member, run.stands.formed token member⟩)
      run
  have text : Token.joined tokens = (reorganizeText options source).1 := by
    rw [← printed]
    exact (Tree.print_reorganize_parse options source).symm
  have read := (Token.content_lex_iff formed).mpr (decided.mp seams)
  rw [← text, Token.sections_congr read]
  have same := repeats.sections sections
  exact ⟨same.symm.nested, same.nested⟩

/-- A region within a method, a conditional section around a list, and members that
move. -/
theorem nested_reorganizeText_region :
    let source := utf8 "class C \x7b\n#if X\n\n  void B() \x7b\n#region R\n#endregion\n  \x7d\n"
      ++ utf8 "  int a;\n#endif\n\x7d\n"
    (∀ token ∈ Token.lex source, token.is "#" = false)
      ∧ (Tree.parse source).top.seamsHold {} source [] = true
      ∧ (Tree.parse source).top.sectionsHold {} source = true
      ∧ (reorganizeText {} source).1 ≠ source
      ∧ Mark.Nested (Token.sections (Token.lex (reorganizeText {} source).1)) := by
  intro source
  have plain : ∀ token ∈ Token.lex source, token.is "#" = false := by decide +kernel
  have seams : (Tree.parse source).top.seamsHold {} source [] = true := by
    decide +kernel
  have sections : (Tree.parse source).top.sectionsHold {} source = true := by
    decide +kernel
  refine ⟨plain, seams, sections, by decide +kernel, ?_⟩
  exact (nested_reorganizeText {} source plain seams sections).mpr (by decide +kernel)

/-- A conditional section that starts in one method and ends in the next is turned
around. -/
theorem nested_reorganizeText_methods :
    let source := utf8
      "class C \x7b\n  void B() \x7b\n#if X\n  \x7d\n  void A() \x7b\n#endif\n  \x7d\n\x7d\n"
    (∀ token ∈ Token.lex source, token.is "#" = false)
      ∧ (Tree.parse source).top.seamsHold {} source [] = true
      ∧ (Tree.parse source).top.sectionsHold {} source = false
      ∧ Mark.Nested (Token.sections (Token.lex source))
      ∧ ¬ Mark.Nested (Token.sections (Token.lex (reorganizeText {} source).1)) := by
  decide +kernel

-- The seams matter as well: of two members on one line, the first one becomes the last,
-- and the preprocessor line behind them does not start a line any more.
example : let source := utf8 "class C \x7b\n#if X\n\n  int b; int a;\n#endif\n\x7d\n"
    (Tree.parse source).top.sectionsHold {} source = true
      ∧ Mark.Nested (Token.sections (Token.lex source))
      ∧ ¬ Mark.Nested (Token.sections (Token.lex (reorganizeText {} source).1)) := by
  decide +kernel

end Lineup
