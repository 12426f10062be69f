/-
Module: LoxLang.Proofs.Outline.Sketch
Purpose: Outlines as trees of labels.  A line of an outline begins with one of a few words and says
  in the rest what is special to its node.  No word begins another one, so a line tells its word;
  and the depths of the lines tell which line belongs below which.
Main exports: Heading, Label, Label.text_injective, Sketch, Sketch.lines, Sketch.linesAll_injective
-/
import LoxLang.Program.Outline

namespace LoxLang

/-! ### Labels -/

/-- What a line of an outline begins with. -/
inductive Heading where
  | program
  | expression | print | declare | block | branch | loop | ret | function | classDecl
  | literal | read | assign | unary | binary | logical | grouping | call | get | set | receiver
  | superMethod
  | condition | thenBranch | elseBranch | body | callee | arguments
deriving DecidableEq

namespace Heading

/-- How a heading is written. -/
def text : Heading → String
  | program => "Program:"
  | expression => "ExpressionStatement:"
  | print => "Print:"
  | declare => "Var: "
  | block => "Block:"
  | branch => "If:"
  | loop => "While:"
  | ret => "Return:"
  | function => "Fun: "
  | classDecl => "Class: "
  | literal => "Literal: "
  | read => "Variable: "
  | assign => "Assign: "
  | unary => "Unary: "
  | binary => "Binary: "
  | logical => "Logical: "
  | grouping => "Grouping:"
  | call => "Call:"
  | get => "Get: "
  | set => "Set: "
  | receiver => "This"
  | superMethod => "Super: "
  | condition => "Condition:"
  | thenBranch => "Then:"
  | elseBranch => "Else:"
  | body => "Body:"
  | callee => "Callee:"
  | arguments => "Arguments:"

/-- Whether a line stands for no node but for a part of one, or for the whole program. -/
def isSection : Heading → Bool
  | program | condition | thenBranch | elseBranch | body | callee | arguments => true
  | _ => false

/-- All headings. -/
def all : List Heading :=
  [program, expression, print, declare, block, branch, loop, ret, function, classDecl, literal,
    read, assign, unary, binary, logical, grouping, call, get, set, receiver, superMethod,
    condition, thenBranch, elseBranch, body, callee, arguments]

theorem mem_all (heading : Heading) : heading ∈ all := by
  cases heading <;> decide

/-- No heading begins another one. -/
theorem eq_of_prefix {heading other : Heading}
    (begins : heading.text.toList <+: other.text.toList) : heading = other := by
  have apart : ∀ heading ∈ all, ∀ other ∈ all,
      heading.text.toList <+: other.text.toList → heading = other := by
    decide +kernel
  exact apart heading heading.mem_all other other.mem_all begins

/-- A heading begins with a capital letter and stays on its line. -/
theorem capital (heading : Heading) :
    (∃ c rest, heading.text.toList = c :: rest ∧ c.isUpper = true) ∧
      '\n' ∉ heading.text.toList := by
  have plain : ∀ heading ∈ all, heading.text.toList.head?.any Char.isUpper = true ∧
      '\n' ∉ heading.text.toList := by
    decide +kernel
  obtain ⟨begins, noNewline⟩ := plain heading heading.mem_all
  refine ⟨?_, noNewline⟩
  cases isText : heading.text.toList with
  | nil =>
      rw [isText] at begins
      cases begins
  | cons c rest =>
      rw [isText] at begins
      exact ⟨c, rest, rfl, begins⟩

end Heading

/-- What a line of an outline says: its heading and what is special to its node. -/
structure Label where
  heading : Heading
  detail : String := ""
deriving DecidableEq

namespace Label

/-- How a label is written. -/
def text (label : Label) : String :=
  label.heading.text ++ label.detail

/-- A label tells its heading and its detail. -/
theorem text_injective {label other : Label} (same : label.text = other.text) : label = other := by
  obtain ⟨heading, detail⟩ := label
  obtain ⟨headingOther, detailOther⟩ := other
  have characters := congrArg String.toList same
  rw [text, text, String.toList_append, String.toList_append] at characters
  have begins : heading.text.toList <+: headingOther.text.toList ++ detailOther.toList :=
    ⟨detail.toList, characters⟩
  obtain rfl : heading = headingOther := by
    obtain shorter | longer := List.prefix_or_prefix_of_prefix begins (List.prefix_append ..)
    · exact Heading.eq_of_prefix shorter
    · exact (Heading.eq_of_prefix longer).symm
  have sameDetail : detail = detailOther :=
    String.toList_injective (List.append_cancel_left characters)
  rw [sameDetail]

/-- A label begins with a capital letter. -/
theorem capital (label : Label) :
    ∃ c rest, label.text.toList = c :: rest ∧ c.isUpper = true := by
  obtain ⟨c, rest, isText, isUpper⟩ := label.heading.capital.1
  refine ⟨c, rest ++ label.detail.toList, ?_, isUpper⟩
  rw [text, String.toList_append, isText, List.cons_append]

theorem oneLine {label : Label} (detail : '\n' ∉ label.detail.toList) :
    '\n' ∉ label.text.toList := by
  rw [text, String.toList_append, List.mem_append, not_or]
  exact ⟨label.heading.capital.2, detail⟩

end Label

/-! ### Sketches -/

/-- An outline as a tree: a label, and the outlines of what stands below it. -/
inductive Sketch where
  | mk (label : Label) (below : List Sketch)

namespace Sketch

/-- What the first line of a sketch says. -/
def label : Sketch → Label
  | mk label _ => label

mutual
/-- The lines of a sketch whose first line stands at `depth`. -/
def lines (depth : Nat) : Sketch → List OutlineLine
  | mk label below => ⟨depth, label.text⟩ :: linesAll (depth + 1) below

/-- The lines of several sketches, one after the other. -/
def linesAll (depth : Nat) : List Sketch → List OutlineLine
  | [] => []
  | sketch :: rest => sketch.lines depth ++ linesAll depth rest
end

mutual
/-- The labels of a sketch, from top to bottom. -/
def labels : Sketch → List Label
  | mk label below => label :: labelsAll below

/-- The labels of several sketches, one after the other. -/
def labelsAll : List Sketch → List Label
  | [] => []
  | sketch :: rest => sketch.labels ++ labelsAll rest
end

/-- A part of a node, which has a heading and nothing to say itself. -/
def part (heading : Heading) (below : List Sketch) : Sketch :=
  mk { heading := heading } below

theorem part_injective {heading : Heading} {sketch other : Sketch}
    (same : part heading [sketch] = part heading [other]) : sketch = other :=
  (List.cons.inj (mk.inj same).2).1

/-- The labels of a sketch that stand for nodes. -/
def nodes (sketch : Sketch) : List Label :=
  sketch.labels.filter fun label => !label.heading.isSection

/-- The labels of several sketches that stand for nodes. -/
def nodesAll (sketches : List Sketch) : List Label :=
  (labelsAll sketches).filter fun label => !label.heading.isSection

theorem nodes_mk {label : Label} (isNode : label.heading.isSection = false)
    (below : List Sketch) : (mk label below).nodes = label :: nodesAll below := by
  rw [nodes, labels, List.filter_cons_of_pos (by rw [isNode]; rfl), nodesAll]

theorem nodes_part (heading : Heading) (isSection : heading.isSection = true)
    (below : List Sketch) : (part heading below).nodes = nodesAll below := by
  rw [nodes, part, labels, List.filter_cons_of_neg (by simp [isSection]), nodesAll]

@[simp] theorem nodesAll_nil : nodesAll [] = [] := rfl

@[simp] theorem nodesAll_cons (sketch : Sketch) (rest : List Sketch) :
    nodesAll (sketch :: rest) = sketch.nodes ++ nodesAll rest := by
  rw [nodesAll, labelsAll, List.filter_append, nodes, nodesAll]

theorem lines_one (depth : Nat) (label : Label) (sketch : Sketch) :
    (mk label [sketch]).lines depth = ⟨depth, label.text⟩ :: sketch.lines (depth + 1) := by
  rw [lines, linesAll, linesAll, List.append_nil]

theorem lines_two (depth : Nat) (label : Label) (first second : Sketch) :
    (mk label [first, second]).lines depth =
      ⟨depth, label.text⟩ :: (first.lines (depth + 1) ++ second.lines (depth + 1)) := by
  rw [lines, linesAll, linesAll, linesAll, List.append_nil]

mutual
/-- Every line of a sketch says one label. -/
theorem label_lines (depth : Nat) :
    ∀ sketch : Sketch, (sketch.lines depth).map (·.label) = sketch.labels.map Label.text
  | mk label below => by
      rw [lines, labels, List.map_cons, List.map_cons, label_linesAll (depth + 1) below]

theorem label_linesAll (depth : Nat) :
    ∀ sketches : List Sketch,
      (linesAll depth sketches).map (·.label) = (labelsAll sketches).map Label.text
  | [] => rfl
  | sketch :: rest => by
      rw [linesAll, labelsAll, List.map_append, List.map_append, label_lines depth sketch,
        label_linesAll depth rest]
end

/-- Whether lines begin with one that does not stand below a depth, if there is any. -/
def Outside (depth : Nat) : List OutlineLine → Prop
  | [] => True
  | line :: _ => line.depth ≤ depth

theorem Outside.linesAll {depth : Nat} {rest : List OutlineLine} (outside : Outside depth rest)
    (sketches : List Sketch) : Outside (depth + 1) (linesAll (depth + 1) sketches ++ rest) := by
  cases sketches with
  | nil =>
      cases rest with
      | nil => trivial
      | cons line rest => exact Nat.le_succ_of_le outside
  | cons sketch others =>
      cases sketch
      exact Nat.le_refl _

theorem Outside.ne_linesAll {depth : Nat} {rest : List OutlineLine} (outside : Outside depth rest)
    (sketch : Sketch) (others : List Sketch) (more : List OutlineLine) :
    rest ≠ Sketch.linesAll (depth + 1) (sketch :: others) ++ more := by
  rintro rfl
  cases sketch
  exact Nat.not_succ_le_self depth outside

mutual
/-- The lines of a sketch, followed by lines that do not stand below it, tell the sketch. -/
theorem lines_injective (depth : Nat) {rest more : List OutlineLine}
    (outside : Outside depth rest) (outsideToo : Outside depth more) :
    ∀ sketch other : Sketch, sketch.lines depth ++ rest = other.lines depth ++ more →
      sketch = other ∧ rest = more
  | mk label below, mk labelOther belowOther, same => by
      rw [lines, lines, List.cons_append, List.cons_append] at same
      obtain ⟨sameLine, sameBelow⟩ := List.cons.inj same
      obtain rfl := Label.text_injective (OutlineLine.mk.inj sameLine).2
      obtain ⟨rfl, sameRest⟩ :=
        linesAll_injective depth outside outsideToo below belowOther sameBelow
      exact ⟨rfl, sameRest⟩

/-- The lines of several sketches, followed by lines that stand further out, tell the sketches. -/
theorem linesAll_injective (depth : Nat) {rest more : List OutlineLine}
    (outside : Outside depth rest) (outsideToo : Outside depth more) :
    ∀ sketches others : List Sketch,
      linesAll (depth + 1) sketches ++ rest = linesAll (depth + 1) others ++ more →
        sketches = others ∧ rest = more
  | [], [], same => ⟨rfl, same⟩
  | [], _ :: _, same => absurd same (outside.ne_linesAll _ _ _)
  | _ :: _, [], same => absurd same.symm (outsideToo.ne_linesAll _ _ _)
  | sketch :: sketches, other :: others, same => by
      rw [linesAll, linesAll, List.append_assoc, List.append_assoc] at same
      obtain ⟨rfl, sameRest⟩ := lines_injective (depth + 1) (outside.linesAll sketches)
        (outsideToo.linesAll others) sketch other same
      obtain ⟨rfl, sameMore⟩ :=
        linesAll_injective depth outside outsideToo sketches others sameRest
      exact ⟨rfl, sameMore⟩
end

end Sketch

end LoxLang
