/-
Module: LoxLang.Proofs.Outline.Tree
Purpose: The outline of a program is a sketch of its tree.  Every node has a label of its own, which
  one line says; the other lines are the headings of the parts of conditionals, loops and calls.
Main exports: Expr.label, Stmt.label, Program.nodes, Program.sketch, Program.outline_eq,
  Program.nodes_sketch
-/
import LoxLang.Proofs.Outline.Sketch

namespace LoxLang

/-- The part of a call that lists its arguments, if it has any. -/
def Sketch.arguments : List Sketch → List Sketch
  | [] => []
  | first :: rest => [part .arguments (first :: rest)]

/-! ### Expressions -/

namespace Expr

variable {ρ : Type}

/-- What a node says about itself. -/
def label : Expr ρ → Label
  | literal value => { heading := .literal, detail := value.listing }
  | read name _ => { heading := .read, detail := name.text }
  | assign name _ _ => { heading := .assign, detail := name.text }
  | unary op _ _ => { heading := .unary, detail := op.spelling }
  | binary _ op _ _ => { heading := .binary, detail := op.spelling }
  | logical _ op _ => { heading := .logical, detail := op.spelling }
  | grouping _ => { heading := .grouping }
  | call _ _ _ => { heading := .call }
  | get _ name => { heading := .get, detail := name.text }
  | set _ name _ => { heading := .set, detail := name.text }
  | receiver _ _ => { heading := .receiver }
  | superMethod _ _ method => { heading := .superMethod, detail := method.text }

mutual
/-- What the nodes of an expression say about themselves, each before the nodes in it. -/
def nodes : Expr ρ → List Label
  | node@(literal _) => [node.label]
  | node@(read _ _) => [node.label]
  | node@(assign _ _ value) => node.label :: value.nodes
  | node@(unary _ _ operand) => node.label :: operand.nodes
  | node@(binary left _ _ right) => node.label :: (left.nodes ++ right.nodes)
  | node@(logical left _ right) => node.label :: (left.nodes ++ right.nodes)
  | node@(grouping inner) => node.label :: inner.nodes
  | node@(call callee arguments _) => node.label :: (callee.nodes ++ nodesAll arguments)
  | node@(get object _) => node.label :: object.nodes
  | node@(set object _ value) => node.label :: (object.nodes ++ value.nodes)
  | node@(receiver _ _) => [node.label]
  | node@(superMethod _ _ _) => [node.label]

/-- What the nodes of several expressions say about themselves. -/
def nodesAll : List (Expr ρ) → List Label
  | [] => []
  | expression :: rest => expression.nodes ++ nodesAll rest
end

mutual
/-- The sketch of an expression. -/
def sketch : Expr ρ → Sketch
  | node@(literal _) => .mk node.label []
  | node@(read _ _) => .mk node.label []
  | node@(assign _ _ value) => .mk node.label [value.sketch]
  | node@(unary _ _ operand) => .mk node.label [operand.sketch]
  | node@(binary left _ _ right) => .mk node.label [left.sketch, right.sketch]
  | node@(logical left _ right) => .mk node.label [left.sketch, right.sketch]
  | node@(grouping inner) => .mk node.label [inner.sketch]
  | node@(call callee arguments _) =>
      .mk node.label (.part .callee [callee.sketch] :: Sketch.arguments (sketchAll arguments))
  | node@(get object _) => .mk node.label [object.sketch]
  | node@(set object _ value) => .mk node.label [object.sketch, value.sketch]
  | node@(receiver _ _) => .mk node.label []
  | node@(superMethod _ _ _) => .mk node.label []

/-- The sketches of several expressions. -/
def sketchAll : List (Expr ρ) → List Sketch
  | [] => []
  | expression :: rest => expression.sketch :: sketchAll rest
end

/-- What the nodes of an expression that may be missing say about themselves. -/
def nodesOpt : Option (Expr ρ) → List Label
  | none => []
  | some expression => expression.nodes

/-- The sketch of an expression that may be missing. -/
def sketchOpt : Option (Expr ρ) → List Sketch
  | none => []
  | some expression => [expression.sketch]

mutual
/-- The outline of an expression is its sketch. -/
theorem outline_eq (depth : Nat) : ∀ e : Expr ρ, e.outline depth = e.sketch.lines depth
  | literal _ => rfl
  | read _ _ => rfl
  | assign _ _ value => by
      rw [outline, sketch, Sketch.lines_one, outline_eq _ value]
      rfl
  | unary _ _ operand => by
      rw [outline, sketch, Sketch.lines_one, outline_eq _ operand]
      rfl
  | binary left _ _ right => by
      rw [outline, sketch, Sketch.lines_two, outline_eq _ left, outline_eq _ right]
      rfl
  | logical left _ right => by
      rw [outline, sketch, Sketch.lines_two, outline_eq _ left, outline_eq _ right]
      rfl
  | grouping inner => by
      rw [outline, sketch, Sketch.lines_one, outline_eq _ inner]
      rfl
  | call callee [] _ => by
      rw [outline, sketch, sketchAll, Sketch.arguments, Sketch.lines_one, Sketch.part,
        Sketch.lines_one, outline_eq _ callee]
      rfl
  | call callee (first :: rest) _ => by
      rw [outline, sketch, sketchAll, Sketch.arguments, Sketch.lines_two, Sketch.part,
        Sketch.lines_one, Sketch.part, Sketch.lines, Sketch.linesAll, outline_eq _ callee,
        outline_eq _ first, outlineAll_eq _ rest]
      rfl
  | get object _ => by
      rw [outline, sketch, Sketch.lines_one, outline_eq _ object]
      rfl
  | set object _ value => by
      rw [outline, sketch, Sketch.lines_two, outline_eq _ object, outline_eq _ value]
      rfl
  | receiver _ _ => rfl
  | superMethod _ _ _ => rfl

/-- The outlines of several expressions are their sketches. -/
theorem outlineAll_eq (depth : Nat) :
    ∀ es : List (Expr ρ), outlineAll depth es = Sketch.linesAll depth (sketchAll es)
  | [] => rfl
  | e :: rest => by
      rw [outlineAll, sketchAll, Sketch.linesAll, outline_eq depth e, outlineAll_eq depth rest]
end

@[simp] theorem nodes_mk_label (e : Expr ρ) (below : List Sketch) :
    (Sketch.mk e.label below).nodes = e.label :: Sketch.nodesAll below :=
  Sketch.nodes_mk (by cases e <;> rfl) below

@[simp] theorem nodesAll_arguments (sketches : List Sketch) :
    Sketch.nodesAll (Sketch.arguments sketches) = Sketch.nodesAll sketches := by
  cases sketches with
  | nil => rfl
  | cons first rest =>
      rw [Sketch.arguments, Sketch.nodesAll_cons, Sketch.nodes_part _ rfl, Sketch.nodesAll_nil,
        List.append_nil]

mutual
/-- The labels in a sketch of an expression that stand for nodes are those of its nodes. -/
theorem nodes_sketch : ∀ e : Expr ρ, e.sketch.nodes = e.nodes
  | literal _ => rfl
  | read _ _ => rfl
  | assign _ _ value => by simp [sketch, nodes, nodes_sketch value]
  | unary _ _ operand => by simp [sketch, nodes, nodes_sketch operand]
  | binary left _ _ right => by simp [sketch, nodes, nodes_sketch left, nodes_sketch right]
  | logical left _ right => by simp [sketch, nodes, nodes_sketch left, nodes_sketch right]
  | grouping inner => by simp [sketch, nodes, nodes_sketch inner]
  | call callee arguments _ => by
      simp [sketch, nodes, Sketch.nodes_part .callee rfl, nodes_sketch callee,
        nodesAll_sketchAll arguments]
  | get object _ => by simp [sketch, nodes, nodes_sketch object]
  | set object _ value => by simp [sketch, nodes, nodes_sketch object, nodes_sketch value]
  | receiver _ _ => rfl
  | superMethod _ _ _ => rfl

/-- The labels in sketches of expressions that stand for nodes are those of their nodes. -/
theorem nodesAll_sketchAll : ∀ es : List (Expr ρ), Sketch.nodesAll (sketchAll es) = nodesAll es
  | [] => rfl
  | e :: rest => by
      rw [sketchAll, Sketch.nodesAll_cons, nodesAll, nodes_sketch e, nodesAll_sketchAll rest]
end

theorem outlineOpt_eq (depth : Nat) (e : Option (Expr ρ)) :
    outlineOpt depth e = Sketch.linesAll depth (sketchOpt e) := by
  cases e with
  | none => rfl
  | some e =>
      rw [outlineOpt, sketchOpt, Sketch.linesAll, Sketch.linesAll, List.append_nil, outline_eq]

theorem nodes_sketchOpt (e : Option (Expr ρ)) : Sketch.nodesAll (sketchOpt e) = nodesOpt e := by
  cases e with
  | none => rfl
  | some e => simp [sketchOpt, nodesOpt, nodes_sketch e]

end Expr

/-! ### Statements -/

/-- What a class says about itself besides its heading. -/
def classDetail {ρ : Type} (name : Ident) : Option (Ident × ρ) → String
  | none => name.text
  | some (superclass, _) => name.text ++ " < " ++ superclass.text

/-- What a function says about itself besides its heading. -/
def functionDetail (name : Ident) (parameters : List Ident) : String :=
  name.text ++ "(" ++ ", ".intercalate (parameters.map (·.text)) ++ ")"

/-- What a function says about itself. -/
def Function.label {ρ : Type} (function : Function ρ) : Label where
  heading := .function
  detail := functionDetail function.name function.parameters

namespace Stmt

variable {ρ : Type}

/-- What a node says about itself.  The node of a function stands for the statement that declares
it. -/
def label : Stmt ρ → Label
  | expression _ => { heading := .expression }
  | print _ => { heading := .print }
  | declare name _ => { heading := .declare, detail := name.text }
  | block _ => { heading := .block }
  | branch _ _ _ => { heading := .branch }
  | loop _ _ => { heading := .loop }
  | ret _ _ => { heading := .ret }
  | function declaration => declaration.label
  | classDecl name superclass _ =>
      { heading := .classDecl, detail := classDetail name superclass }

mutual
/-- What the nodes of a statement say about themselves, each before the nodes in it. -/
def nodes : Stmt ρ → List Label
  | node@(expression value) => node.label :: value.nodes
  | node@(print value) => node.label :: value.nodes
  | node@(declare _ initializer) => node.label :: Expr.nodesOpt initializer
  | node@(block body) => node.label :: nodesAll body
  | node@(branch condition thenBranch none) =>
      node.label :: (condition.nodes ++ thenBranch.nodes)
  | node@(branch condition thenBranch (some elseBranch)) =>
      node.label :: (condition.nodes ++ (thenBranch.nodes ++ elseBranch.nodes))
  | node@(loop condition body) => node.label :: (condition.nodes ++ body.nodes)
  | node@(ret _ value) => node.label :: Expr.nodesOpt value
  | function declaration => nodesFunction declaration
  | node@(classDecl _ _ methods) => node.label :: nodesMethods methods

/-- What the nodes of a function say about themselves. -/
def nodesFunction : Function ρ → List Label
  | node@(.mk _ _ body) => node.label :: nodesAll body

/-- What the nodes of methods say about themselves. -/
def nodesMethods : List (Function ρ) → List Label
  | [] => []
  | method :: rest => nodesFunction method ++ nodesMethods rest

/-- What the nodes of several statements say about themselves. -/
def nodesAll : List (Stmt ρ) → List Label
  | [] => []
  | statement :: rest => statement.nodes ++ nodesAll rest
end

mutual
/-- The sketch of a statement. -/
def sketch : Stmt ρ → Sketch
  | node@(expression value) => .mk node.label [value.sketch]
  | node@(print value) => .mk node.label [value.sketch]
  | node@(declare _ initializer) => .mk node.label (Expr.sketchOpt initializer)
  | node@(block body) => .mk node.label (sketchAll body)
  | node@(branch condition thenBranch none) =>
      .mk node.label
        [.part .condition [condition.sketch], .part .thenBranch [thenBranch.sketch]]
  | node@(branch condition thenBranch (some elseBranch)) =>
      .mk node.label
        [.part .condition [condition.sketch], .part .thenBranch [thenBranch.sketch],
          .part .elseBranch [elseBranch.sketch]]
  | node@(loop condition body) =>
      .mk node.label [.part .condition [condition.sketch], .part .body [body.sketch]]
  | node@(ret _ value) => .mk node.label (Expr.sketchOpt value)
  | function declaration => sketchFunction declaration
  | node@(classDecl _ _ methods) => .mk node.label (sketchMethods methods)

/-- The sketch of a function. -/
def sketchFunction : Function ρ → Sketch
  | node@(.mk _ _ body) => .mk node.label (sketchAll body)

/-- The sketches of methods. -/
def sketchMethods : List (Function ρ) → List Sketch
  | [] => []
  | method :: rest => sketchFunction method :: sketchMethods rest

/-- The sketches of several statements. -/
def sketchAll : List (Stmt ρ) → List Sketch
  | [] => []
  | statement :: rest => statement.sketch :: sketchAll rest
end

theorem classLabel_eq (name : Ident) (superclass : Option (Ident × ρ)) :
    classLabel name superclass =
      Label.text { heading := .classDecl, detail := classDetail name superclass } := by
  rcases superclass with - | ⟨superclass, binding⟩
  · rfl
  · simp only [classLabel, Label.text, Heading.text, classDetail, String.append_assoc]

theorem functionLabel_eq (name : Ident) (parameters : List Ident) :
    functionLabel name parameters =
      Label.text { heading := .function, detail := functionDetail name parameters } := by
  simp only [functionLabel, Label.text, Heading.text, functionDetail, String.append_assoc]

mutual
/-- The outline of a statement is its sketch. -/
theorem outline_eq (depth : Nat) : ∀ s : Stmt ρ, s.outline depth = s.sketch.lines depth
  | expression value => by
      rw [outline, sketch, Sketch.lines_one, Expr.outline_eq]
      rfl
  | print value => by
      rw [outline, sketch, Sketch.lines_one, Expr.outline_eq]
      rfl
  | declare _ initializer => by
      rw [outline, sketch, Sketch.lines, Expr.outlineOpt_eq]
      rfl
  | block body => by
      rw [outline, sketch, Sketch.lines, outlineAll_eq _ body]
      rfl
  | branch condition thenBranch none => by
      rw [outline, sketch, Sketch.lines_two, Sketch.part, Sketch.lines_one, Sketch.part,
        Sketch.lines_one, Expr.outline_eq, outline_eq _ thenBranch]
      rfl
  | branch condition thenBranch (some elseBranch) => by
      simp only [outline, sketch, Sketch.lines, Sketch.linesAll, Sketch.part, Expr.outline_eq,
        outline_eq _ thenBranch, outline_eq _ elseBranch, List.append_nil, List.cons_append]
      rfl
  | loop condition body => by
      rw [outline, sketch, Sketch.lines_two, Sketch.part, Sketch.lines_one, Sketch.part,
        Sketch.lines_one, Expr.outline_eq, outline_eq _ body]
      rfl
  | ret _ value => by
      rw [outline, sketch, Sketch.lines, Expr.outlineOpt_eq]
      rfl
  | function declaration => by rw [outline, sketch, outlineFunction_eq _ declaration]
  | classDecl _ _ methods => by
      rw [outline, sketch, Sketch.lines, classLabel_eq, outlineMethods_eq _ methods]
      rfl

/-- The outline of a function is its sketch. -/
theorem outlineFunction_eq (depth : Nat) :
    ∀ f : Function ρ, outlineFunction depth f = (sketchFunction f).lines depth
  | .mk _ _ body => by
      rw [outlineFunction, sketchFunction, Sketch.lines, functionLabel_eq, outlineAll_eq _ body]
      rfl

/-- The outlines of methods are their sketches. -/
theorem outlineMethods_eq (depth : Nat) :
    ∀ methods : List (Function ρ),
      outlineMethods depth methods = Sketch.linesAll depth (sketchMethods methods)
  | [] => rfl
  | method :: rest => by
      rw [outlineMethods, sketchMethods, Sketch.linesAll, outlineFunction_eq _ method,
        outlineMethods_eq _ rest]

/-- The outlines of several statements are their sketches. -/
theorem outlineAll_eq (depth : Nat) :
    ∀ body : List (Stmt ρ), outlineAll depth body = Sketch.linesAll depth (sketchAll body)
  | [] => rfl
  | s :: rest => by
      rw [outlineAll, sketchAll, Sketch.linesAll, outline_eq _ s, outlineAll_eq _ rest]
end

@[simp] theorem nodes_mk_label (s : Stmt ρ) (below : List Sketch) :
    (Sketch.mk s.label below).nodes = s.label :: Sketch.nodesAll below :=
  Sketch.nodes_mk (by cases s <;> rfl) below

mutual
/-- The labels in a sketch of a statement that stand for nodes are those of its nodes. -/
theorem nodes_sketch : ∀ s : Stmt ρ, s.sketch.nodes = s.nodes
  | expression value => by simp [sketch, nodes, Expr.nodes_sketch]
  | print value => by simp [sketch, nodes, Expr.nodes_sketch]
  | declare _ initializer => by simp [sketch, nodes, Expr.nodes_sketchOpt]
  | block body => by simp [sketch, nodes, nodesAll_sketchAll body]
  | branch _ thenBranch none => by
      simp [sketch, nodes, Sketch.nodes_part .condition rfl, Sketch.nodes_part .thenBranch rfl,
        Expr.nodes_sketch, nodes_sketch thenBranch]
  | branch _ thenBranch (some elseBranch) => by
      simp [sketch, nodes, Sketch.nodes_part .condition rfl, Sketch.nodes_part .thenBranch rfl,
        Sketch.nodes_part .elseBranch rfl, Expr.nodes_sketch, nodes_sketch thenBranch,
        nodes_sketch elseBranch]
  | loop _ body => by
      simp [sketch, nodes, Sketch.nodes_part .condition rfl, Sketch.nodes_part .body rfl,
        Expr.nodes_sketch, nodes_sketch body]
  | ret _ value => by simp [sketch, nodes, Expr.nodes_sketchOpt]
  | function declaration => by rw [sketch, nodes, nodes_sketchFunction declaration]
  | classDecl _ _ methods => by simp [sketch, nodes, nodesMethods_sketchMethods methods]

/-- The labels in a sketch of a function that stand for nodes are those of its nodes. -/
theorem nodes_sketchFunction : ∀ f : Function ρ, (sketchFunction f).nodes = nodesFunction f
  | .mk _ _ body => by
      rw [sketchFunction, nodesFunction, Sketch.nodes_mk rfl, nodesAll_sketchAll body]

/-- The labels in sketches of methods that stand for nodes are those of their nodes. -/
theorem nodesMethods_sketchMethods :
    ∀ methods : List (Function ρ),
      Sketch.nodesAll (sketchMethods methods) = nodesMethods methods
  | [] => rfl
  | method :: rest => by
      rw [sketchMethods, nodesMethods, Sketch.nodesAll_cons, nodes_sketchFunction method,
        nodesMethods_sketchMethods rest]

/-- The labels in sketches of statements that stand for nodes are those of their nodes. -/
theorem nodesAll_sketchAll :
    ∀ body : List (Stmt ρ), Sketch.nodesAll (sketchAll body) = nodesAll body
  | [] => rfl
  | s :: rest => by
      rw [sketchAll, Sketch.nodesAll_cons, nodesAll, nodes_sketch s, nodesAll_sketchAll rest]
end

end Stmt

/-! ### Programs -/

/-- What the nodes of a program say about themselves, each before the nodes in it. -/
def Program.nodes {ρ : Type} (program : Program ρ) : List Label :=
  Stmt.nodesAll program

/-- The sketch of a program. -/
def Program.sketch {ρ : Type} (program : Program ρ) : Sketch :=
  .part .program (Stmt.sketchAll program)

theorem Program.outline_eq {ρ : Type} (program : Program ρ) :
    program.outline = program.sketch.lines 0 := by
  rw [outline, Stmt.outlineAll_eq]
  rfl

theorem Program.nodes_sketch {ρ : Type} (program : Program ρ) :
    program.sketch.nodes = program.nodes := by
  rw [sketch, Sketch.nodes_part _ rfl, Stmt.nodesAll_sketchAll, nodes]

end LoxLang
