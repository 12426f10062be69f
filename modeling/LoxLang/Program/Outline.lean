/-
Module: LoxLang.Program.Outline
Purpose: The outline of a program: one line for every node of its tree, indented by depth, with
  section lines that separate the parts of conditionals, loops and calls.
Main exports: OutlineLine, Expr.outline, Stmt.outline, Program.outline, Outline.render
-/
import LoxLang.Program.Tree

namespace LoxLang

/-- One line of an outline: how deep it stands below the first line, and what it says. -/
structure OutlineLine where
  depth : Nat
  label : String
deriving DecidableEq, Repr, Inhabited

namespace Expr

variable {ρ : Type}

mutual
/-- The outline of an expression whose first line stands at `depth`. -/
def outline (depth : Nat) : Expr ρ → List OutlineLine
  | literal value => [⟨depth, "Literal: " ++ value.listing⟩]
  | read name _ => [⟨depth, "Variable: " ++ name.text⟩]
  | assign name _ value => ⟨depth, "Assign: " ++ name.text⟩ :: value.outline (depth + 1)
  | unary op _ operand => ⟨depth, "Unary: " ++ op.spelling⟩ :: operand.outline (depth + 1)
  | binary left op _ right =>
      ⟨depth, "Binary: " ++ op.spelling⟩ ::
        (left.outline (depth + 1) ++ right.outline (depth + 1))
  | logical left op right =>
      ⟨depth, "Logical: " ++ op.spelling⟩ ::
        (left.outline (depth + 1) ++ right.outline (depth + 1))
  | grouping inner => ⟨depth, "Grouping:"⟩ :: inner.outline (depth + 1)
  | call callee [] _ =>
      ⟨depth, "Call:"⟩ :: ⟨depth + 1, "Callee:"⟩ :: callee.outline (depth + 2)
  | call callee (first :: rest) _ =>
      ⟨depth, "Call:"⟩ :: ⟨depth + 1, "Callee:"⟩ ::
        (callee.outline (depth + 2) ++
          ⟨depth + 1, "Arguments:"⟩ :: (first.outline (depth + 2) ++ outlineAll (depth + 2) rest))
  | get object name => ⟨depth, "Get: " ++ name.text⟩ :: object.outline (depth + 1)
  | set object name value =>
      ⟨depth, "Set: " ++ name.text⟩ ::
        (object.outline (depth + 1) ++ value.outline (depth + 1))
  | receiver _ _ => [⟨depth, "This"⟩]
  | superMethod _ _ method => [⟨depth, "Super: " ++ method.text⟩]

/-- The outlines of several expressions, one after the other. -/
def outlineAll (depth : Nat) : List (Expr ρ) → List OutlineLine
  | [] => []
  | expression :: rest => expression.outline depth ++ outlineAll depth rest
end

/-- The outline of an expression that may be missing. -/
def outlineOpt (depth : Nat) : Option (Expr ρ) → List OutlineLine
  | none => []
  | some expression => expression.outline depth

end Expr

/-- The line that introduces a class. -/
def classLabel {ρ : Type} (name : Ident) : Option (Ident × ρ) → String
  | none => "Class: " ++ name.text
  | some (superclass, _) => "Class: " ++ name.text ++ " < " ++ superclass.text

/-- The line that introduces a function or method. -/
def functionLabel (name : Ident) (parameters : List Ident) : String :=
  "Fun: " ++ name.text ++ "(" ++ ", ".intercalate (parameters.map (·.text)) ++ ")"

namespace Stmt

variable {ρ : Type}

mutual
/-- The outline of a statement whose first line stands at `depth`. -/
def outline (depth : Nat) : Stmt ρ → List OutlineLine
  | expression value => ⟨depth, "ExpressionStatement:"⟩ :: value.outline (depth + 1)
  | print value => ⟨depth, "Print:"⟩ :: value.outline (depth + 1)
  | declare name initializer =>
      ⟨depth, "Var: " ++ name.text⟩ :: Expr.outlineOpt (depth + 1) initializer
  | block body => ⟨depth, "Block:"⟩ :: outlineAll (depth + 1) body
  | branch condition thenBranch none =>
      ⟨depth, "If:"⟩ :: ⟨depth + 1, "Condition:"⟩ ::
        (condition.outline (depth + 2) ++
          ⟨depth + 1, "Then:"⟩ :: thenBranch.outline (depth + 2))
  | branch condition thenBranch (some elseBranch) =>
      ⟨depth, "If:"⟩ :: ⟨depth + 1, "Condition:"⟩ ::
        (condition.outline (depth + 2) ++
          ⟨depth + 1, "Then:"⟩ ::
            (thenBranch.outline (depth + 2) ++
              ⟨depth + 1, "Else:"⟩ :: elseBranch.outline (depth + 2)))
  | loop condition body =>
      ⟨depth, "While:"⟩ :: ⟨depth + 1, "Condition:"⟩ ::
        (condition.outline (depth + 2) ++
          ⟨depth + 1, "Body:"⟩ :: body.outline (depth + 2))
  | ret _ value => ⟨depth, "Return:"⟩ :: Expr.outlineOpt (depth + 1) value
  | function declaration => outlineFunction depth declaration
  | classDecl name superclass methods =>
      ⟨depth, classLabel name superclass⟩ :: outlineMethods (depth + 1) methods

/-- The outline of a function. -/
def outlineFunction (depth : Nat) : Function ρ → List OutlineLine
  | .mk name parameters body =>
      ⟨depth, functionLabel name parameters⟩ :: outlineAll (depth + 1) body

/-- The outlines of the methods of a class. -/
def outlineMethods (depth : Nat) : List (Function ρ) → List OutlineLine
  | [] => []
  | method :: rest => outlineFunction depth method ++ outlineMethods depth rest

/-- The outlines of several statements, one after the other. -/
def outlineAll (depth : Nat) : List (Stmt ρ) → List OutlineLine
  | [] => []
  | statement :: rest => statement.outline depth ++ outlineAll depth rest
end

end Stmt

/-- The outline of a program. -/
def Program.outline {ρ : Type} (program : Program ρ) : List OutlineLine :=
  ⟨0, "Program:"⟩ :: Stmt.outlineAll 1 program

/-- How an outline is indented: the text put in front of a line once for each level, and the level
before the first line.  A level below zero indents by nothing. -/
structure OutlineStyle where
  indent : String := "  "
  initial : Int := -1
deriving Repr

namespace OutlineStyle

/-- What stands in front of a line at the given depth.  No text is put together where there is none
to repeat, so that deep outlines without indentation stay cheap. -/
def margin (style : OutlineStyle) (depth : Nat) : String :=
  if style.indent.isEmpty then ""
  else String.join (List.replicate (style.initial + 1 + depth).toNat style.indent)

/-- An outline as text. -/
def render (style : OutlineStyle) (lines : List OutlineLine) : String :=
  String.join (lines.map fun line => style.margin line.depth ++ line.label ++ "\n")

end OutlineStyle

end LoxLang
