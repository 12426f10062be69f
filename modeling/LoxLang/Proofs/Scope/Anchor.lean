/-
Module: LoxLang.Proofs.Scope.Anchor
Purpose: How far out `this` and `super` are.  In code that stands in one method, outside of other
  classes, every `this` is bound as many scopes out as there are between it and the method, and
  every `super` one scope further.
Main exports: Reference.Anchored, Expr.Anchored, Stmt.Anchored, Expr.anchored_of_right, Stmt.anchored_of_right
-/
import LoxLang.Proofs.Scope.Binding

namespace LoxLang

/-- Whether a reference, if it is `this`, is bound a number of scopes out and, if it is `super`, one
more. -/
def Reference.Anchored (distance : Nat) (reference : Reference Distance) : Prop :=
  (reference.kind = .receiver → reference.binding = some distance) ∧
    (reference.kind = .superMethod → reference.binding = some (distance + 1))

/-- Whether every `this` and `super` in an expression is bound to the same scopes, a number of
scopes out. -/
def Expr.Anchored (distance : Nat) (e : Expr Distance) : Prop :=
  ∀ reference ∈ e.references, reference.Anchored distance

namespace Stmt

mutual
/-- Whether every `this` and `super` in a statement is bound to the same scopes, a number of scopes
out from the statement.  The methods of other classes have their own. -/
def Anchored (distance : Nat) : Stmt Distance → Prop
  | expression value => value.Anchored distance
  | print value => value.Anchored distance
  | declare _ initializer => ∀ e ∈ initializer, e.Anchored distance
  | block body => AnchoredAll (distance + 1) body
  | branch condition thenBranch none =>
      condition.Anchored distance ∧ thenBranch.Anchored distance
  | branch condition thenBranch (some elseBranch) =>
      condition.Anchored distance ∧ thenBranch.Anchored distance ∧ elseBranch.Anchored distance
  | loop condition body => condition.Anchored distance ∧ body.Anchored distance
  | ret _ value => ∀ e ∈ value, e.Anchored distance
  | function declaration => AnchoredFunction distance declaration
  | classDecl _ _ _ => True

/-- The body of a function is one scope further in. -/
def AnchoredFunction (distance : Nat) : Function Distance → Prop
  | .mk _ _ body => AnchoredAll (distance + 1) body

def AnchoredAll (distance : Nat) : List (Stmt Distance) → Prop
  | [] => True
  | statement :: rest => statement.Anchored distance ∧ AnchoredAll distance rest
end

end Stmt

/-! ### Right binding anchors -/

namespace Expr

mutual
/-- All of an expression is seen from where it stands. -/
theorem sight_of_mem_places {sight : Sight} {place : Place} :
    ∀ {e : Expr Distance}, place ∈ e.places sight → place.sight = sight
  | literal _, member => nomatch member
  | read _ _, member => by
      cases List.mem_singleton.1 member
      rfl
  | assign _ _ value, member => by
      rcases List.mem_cons.1 member with rfl | inValue
      · rfl
      · exact sight_of_mem_places inValue
  | unary _ _ operand, member => sight_of_mem_places (e := operand) member
  | binary left _ _ right, member => by
      rcases List.mem_append.1 member with inLeft | inRight
      · exact sight_of_mem_places inLeft
      · exact sight_of_mem_places inRight
  | logical left _ right, member => by
      rcases List.mem_append.1 member with inLeft | inRight
      · exact sight_of_mem_places inLeft
      · exact sight_of_mem_places inRight
  | grouping inner, member => sight_of_mem_places (e := inner) member
  | call callee arguments _, member => by
      rcases List.mem_append.1 member with inCallee | inArguments
      · exact sight_of_mem_places inCallee
      · exact sight_of_mem_placesAll inArguments
  | get object _, member => sight_of_mem_places (e := object) member
  | set object _ value, member => by
      rcases List.mem_append.1 member with inObject | inValue
      · exact sight_of_mem_places inObject
      · exact sight_of_mem_places inValue
  | receiver _ _, member => by
      cases List.mem_singleton.1 member
      rfl
  | superMethod _ _ _, member => by
      cases List.mem_singleton.1 member
      rfl

theorem sight_of_mem_placesAll {sight : Sight} {place : Place} :
    ∀ {es : List (Expr Distance)}, place ∈ placesAll sight es → place.sight = sight
  | [], member => nomatch member
  | e :: rest, member => by
      rcases List.mem_append.1 member with inFirst | inRest
      · exact sight_of_mem_places inFirst
      · exact sight_of_mem_placesAll inRest
end

/-- An expression that is bound rightly is anchored where `this` is seen. -/
theorem anchored_of_right {sight : Sight} {distance : Nat} {e : Expr Distance}
    (right : Throughout Place.Right (e.places sight))
    (found : sight.distance? "this" = some distance) : e.Anchored distance := by
  intro reference member
  rw [← e.places_references sight] at member
  obtain ⟨place, isPlace, isReference⟩ := List.mem_filterMap.1 member
  have isRight := right place isPlace
  have isSight := sight_of_mem_places isPlace
  rcases place with ⟨sight', node⟩
  cases isSight
  cases node with
  | declaration name => cases isReference
  | use other =>
      cases isReference
      constructor
      · intro isReceiver
        simp only [Place.Right, Reference.Right, isReceiver] at isRight
        obtain ⟨own, isBound, isOwn⟩ := isRight
        rw [isBound, ← found, isOwn]
      · intro isSuper
        simp only [Place.Right, Reference.Right, isSuper] at isRight
        obtain ⟨own, isBound, -, isOwn⟩ := isRight
        cases isOwn.symm.trans found
        exact isBound

end Expr

namespace Stmt

/-- Declaring a variable does not change where `this` is. -/
theorem distanceIn_this_extend {layers : List Layer} {s : Stmt Distance}
    (unreserved : ∀ name, s.declared? = some name → name.Unreserved) :
    distanceIn (s.extend layers) "this" = distanceIn layers "this" := by
  unfold extend
  cases isDeclared : s.declared? with
  | none => rfl
  | some name => exact distanceIn_declareInnermost (unreserved name isDeclared).1.symm

theorem declared_of_right {layers : List Layer} {s : Stmt Distance}
    (right : Throughout Place.Right (s.places layers)) (name : Ident)
    (isDeclared : s.declared? = some name) : name.Unreserved := by
  cases s with
  | declare other initializer =>
      cases isDeclared
      exact (throughout_cons.1 right).1
  | function declaration =>
      cases isDeclared
      exact (throughout_cons.1 right).1
  | classDecl other superclass methods =>
      cases isDeclared
      cases superclass <;> exact (throughout_cons.1 right).1
  | _ => cases isDeclared

mutual
/-- A statement that is bound rightly is anchored where `this` is seen. -/
theorem anchored_of_right {layers : List Layer} {distance : Nat} :
    ∀ {s : Stmt Distance}, Throughout Place.Right (s.places layers) →
      distanceIn layers "this" = some distance → s.Anchored distance
  | expression value, right, found => Expr.anchored_of_right right found
  | print value, right, found => Expr.anchored_of_right right found
  | declare name none, _, _ => fun _ isSome => nomatch isSome
  | declare name (some e), right, found => by
      obtain ⟨unreserved, inValue⟩ := throughout_cons.1 right
      intro other isSome
      cases isSome
      apply Expr.anchored_of_right inValue
      exact (distanceIn_declareInnermost unreserved.1.symm).trans found
  | block body, right, found => by
      apply anchoredAll_of_right right
      rw [distanceIn_cons, found]
      rfl
  | branch condition thenBranch none, right, found => by
      obtain ⟨inCondition, inThen⟩ := throughout_append.1 right
      exact ⟨Expr.anchored_of_right inCondition found, anchored_of_right inThen found⟩
  | branch condition thenBranch (some elseBranch), right, found => by
      obtain ⟨inBoth, inElse⟩ := throughout_append.1 right
      obtain ⟨inCondition, inThen⟩ := throughout_append.1 inBoth
      exact ⟨Expr.anchored_of_right inCondition found, anchored_of_right inThen found,
        anchored_of_right inElse found⟩
  | loop condition body, right, found => by
      obtain ⟨inCondition, inBody⟩ := throughout_append.1 right
      exact ⟨Expr.anchored_of_right inCondition found, anchored_of_right inBody found⟩
  | ret _ none, _, _ => fun _ isSome => nomatch isSome
  | ret _ (some e), right, found => by
      intro other isSome
      cases isSome
      exact Expr.anchored_of_right right found
  | function declaration, right, found => by
      obtain ⟨unreserved, inFunction⟩ := throughout_cons.1 right
      apply anchoredFunction_of_right inFunction
      exact (distanceIn_declareInnermost unreserved.1.symm).trans found
  | classDecl _ _ _, _, _ => trivial

theorem anchoredFunction_of_right {layers : List Layer} {distance : Nat} :
    ∀ {declaration : Function Distance},
      Throughout Place.Right (placesFunction layers declaration) →
      distanceIn layers "this" = some distance → AnchoredFunction distance declaration
  | .mk name parameters body, right, found => by
      obtain ⟨unreserved, inBody⟩ := throughout_append.1 right
      apply anchoredAll_of_right inBody
      have noParameter : (Layer.ofFunction (.mk name parameters body)).declares "this" = false := by
        simp only [Layer.declares, Layer.ofFunction, Function.parameters, decide_eq_false_iff_not,
          List.mem_map, not_exists, not_and]
        intro parameter member
        exact (unreserved _ (List.mem_map_of_mem member)).1
      rw [distanceIn_cons, noParameter, found]
      rfl

theorem anchoredAll_of_right {layers : List Layer} {distance : Nat} :
    ∀ {body : List (Stmt Distance)}, Throughout Place.Right (placesAll layers body) →
      distanceIn layers "this" = some distance → AnchoredAll distance body
  | [], _, _ => trivial
  | s :: rest, right, found => by
      obtain ⟨inFirst, inRest⟩ := throughout_append.1 right
      refine ⟨anchored_of_right inFirst found, anchoredAll_of_right inRest ?_⟩
      rw [distanceIn_this_extend (declared_of_right inFirst)]
      exact found
end

end Stmt

end LoxLang
