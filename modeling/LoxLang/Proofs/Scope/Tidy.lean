/-
Module: LoxLang.Proofs.Scope.Tidy
Purpose: What binding relies on in a program that has been read: no name that a keyword has is
  declared or assigned to, and the parts of branches and loops are not declarations.  Every
  program read from a text without errors is tidy.
Main exports: Expr.Tidy, Stmt.Tidy, Stmt.TidyAll, scan_proper, Program.tidy_of_parse
-/
import LoxLang.Proofs.Parser.Program
import LoxLang.Proofs.Scope.Place
import LoxLang.Token.Scanner

namespace LoxLang

/-! ### Tidy trees -/

namespace Expr

mutual
/-- Whether an expression assigns to no name that a keyword has. -/
def Tidy : Expr Unit → Prop
  | literal _ => True
  | read _ _ => True
  | assign name _ value => name.Unreserved ∧ value.Tidy
  | unary _ _ operand => operand.Tidy
  | binary left _ _ right => left.Tidy ∧ right.Tidy
  | logical left _ right => left.Tidy ∧ right.Tidy
  | grouping inner => inner.Tidy
  | call callee arguments _ => callee.Tidy ∧ TidyAll arguments
  | get object _ => object.Tidy
  | set object _ value => object.Tidy ∧ value.Tidy
  | receiver _ _ => True
  | superMethod _ _ _ => True

/-- Whether all expressions of a list are tidy. -/
def TidyAll : List (Expr Unit) → Prop
  | [] => True
  | e :: rest => e.Tidy ∧ TidyAll rest
end

/-- Whether an expression that may be missing is tidy. -/
def TidyOpt : Option (Expr Unit) → Prop
  | none => True
  | some e => e.Tidy

end Expr

namespace Stmt

mutual
/-- Whether a statement declares and assigns to no name that a keyword has, and has no declaration
for a branch or for the body of a loop. -/
def Tidy : Stmt Unit → Prop
  | expression value => value.Tidy
  | print value => value.Tidy
  | declare name initializer => name.Unreserved ∧ Expr.TidyOpt initializer
  | block body => TidyAll body
  | branch condition thenBranch none =>
      condition.Tidy ∧ thenBranch.Tidy ∧ thenBranch.declared? = none
  | branch condition thenBranch (some elseBranch) =>
      condition.Tidy ∧ thenBranch.Tidy ∧ thenBranch.declared? = none ∧ elseBranch.Tidy ∧
        elseBranch.declared? = none
  | loop condition body => condition.Tidy ∧ body.Tidy ∧ body.declared? = none
  | ret _ value => Expr.TidyOpt value
  | function declaration => declaration.name.Unreserved ∧ TidyFunction declaration
  | classDecl name _ methods => name.Unreserved ∧ TidyMethods methods

/-- Whether the parameters and the body of a function are tidy. -/
def TidyFunction : Function Unit → Prop
  | .mk _ parameters body => (∀ name ∈ parameters, name.Unreserved) ∧ TidyAll body

/-- Whether all methods of a class are tidy. -/
def TidyMethods : List (Function Unit) → Prop
  | [] => True
  | method :: rest => TidyFunction method ∧ TidyMethods rest

/-- Whether all statements of a list are tidy. -/
def TidyAll : List (Stmt Unit) → Prop
  | [] => True
  | s :: rest => s.Tidy ∧ TidyAll rest
end

end Stmt

/-! ### Tame tokens -/

/-- Whether no identifier among tokens is spelled like `this` or `super`. -/
def Tame (ts : List Token) : Prop :=
  ∀ token ∈ ts, token.kind = .identifier → token.ident.Unreserved

@[simp] theorem tame_nil : Tame [] := by
  intro token member
  cases member

@[simp] theorem tame_cons {token : Token} {ts : List Token} :
    Tame (token :: ts) ↔ (token.kind = .identifier → token.ident.Unreserved) ∧ Tame ts := by
  simp [Tame]

@[simp] theorem tame_append {ts us : List Token} : Tame (ts ++ us) ↔ Tame ts ∧ Tame us := by
  constructor
  · intro tame
    constructor
    · intro token member
      exact tame token (List.mem_append_left us member)
    · intro token member
      exact tame token (List.mem_append_right ts member)
  · intro tame token member
    cases List.mem_append.1 member with
    | inl left => exact tame.1 token left
    | inr right => exact tame.2 token right

/-! ### Trees spelled by tame tokens -/

variable {limit : ArgumentLimit}

mutual
theorem Expr.Spelled.tidy :
    ∀ {level : Level} {e : Expr Unit} {ts : List Token}, Expr.Spelled limit level e ts →
      Tame ts → e.Tidy
  | _, _, _, .relax _ tight, tame => tight.tidy tame
  | _, _, _, .assign isName _ spelled, tame => by
      simp only [tame_cons] at tame
      exact ⟨tame.1 isName, spelled.tidy tame.2.2⟩
  | _, _, _, .set target _ _ _ spelled, tame => by
      simp only [tame_append, tame_cons] at tame
      exact ⟨target.tidy tame.1, spelled.tidy tame.2.2.2.2⟩
  | _, _, _, .logical _ _ first second, tame => by
      simp only [tame_append, tame_cons] at tame
      exact ⟨first.tidy tame.1, second.tidy tame.2.2⟩
  | _, _, _, .binary _ _ first second, tame => by
      simp only [tame_append, tame_cons] at tame
      exact ⟨first.tidy tame.1, second.tidy tame.2.2⟩
  | _, _, _, .unary _ spelled, tame => spelled.tidy (tame_cons.1 tame).2
  | _, _, _, .call function _ spelled _ _, tame => by
      simp only [tame_append, tame_cons] at tame
      exact ⟨function.tidy tame.1, spelled.tidy tame.2.2.1⟩
  | _, _, _, .get target _ _, tame => target.tidy (tame_append.1 tame).1
  | _, _, _, .literal _, _ => trivial
  | _, _, _, .read _, _ => trivial
  | _, _, _, .receiver _, _ => trivial
  | _, _, _, .superMethod _ _ _, _ => trivial
  | _, _, _, .grouping _ spelled _, tame => by
      simp only [tame_append, tame_cons] at tame
      exact spelled.tidy tame.2.1

theorem Expr.SpelledAll.tidy :
    ∀ {es : List (Expr Unit)} {ts : List Token}, Expr.SpelledAll limit es ts → Tame ts →
      Expr.TidyAll es
  | _, _, .none, _ => trivial
  | _, _, .one spelled, tame => ⟨spelled.tidy tame, trivial⟩
  | _, _, .more spelled _ others, tame => by
      simp only [tame_append, tame_cons] at tame
      exact ⟨spelled.tidy tame.1, others.tidy tame.2.2⟩
end

theorem Expr.SpelledOpt.tidy {value : Option (Expr Unit)} {ts : List Token}
    (spelled : Expr.SpelledOpt limit value ts) (tame : Tame ts) : Expr.TidyOpt value := by
  cases spelled with
  | none => trivial
  | some spelled => exact spelled.tidy tame

theorem Stmt.VariableSpelled.tidy {s : Stmt Unit} {ts : List Token}
    (spelled : Stmt.VariableSpelled limit s ts) (tame : Tame ts) : s.Tidy := by
  cases spelled with
  | bare isName _ => exact ⟨(tame_cons.1 tame).1 isName, trivial⟩
  | initialized isName _ value _ =>
      simp only [tame_append, tame_cons] at tame
      exact ⟨tame.1 isName, value.tidy tame.2.2.1⟩

theorem Stmt.InitializerSpelled.tidy {first : Option (Stmt Unit)} {ts : List Token}
    (spelled : Stmt.InitializerSpelled limit first ts) (tame : Tame ts) :
    ∀ s ∈ first, s.Tidy := by
  intro s isFirst
  cases spelled with
  | none _ => cases isFirst
  | declare _ declaration =>
      cases isFirst
      exact declaration.tidy (tame_cons.1 tame).2
  | expression value _ =>
      cases isFirst
      exact value.tidy (tame_append.1 tame).1

theorem Separated.unreserved {names : List Ident} {ts : List Token}
    (separated : Separated Ident.Spelled names ts) (tame : Tame ts) :
    ∀ name ∈ names, name.Unreserved := by
  have single : ∀ {name : Ident} {us : List Token}, Ident.Spelled name us → Tame us →
      name.Unreserved := by
    intro name us spelled tame
    rcases spelled with ⟨token, isName, rfl, rfl⟩
    exact (tame_cons.1 tame).1 isName
  induction separated with
  | none => intro name member; cases member
  | one spelled =>
      intro name member
      cases List.mem_singleton.1 member
      exact single spelled tame
  | more spelled _ _ ih =>
      intro name member
      simp only [tame_append, tame_cons] at tame
      cases List.mem_cons.1 member with
      | inl same =>
          subst same
          exact single spelled tame.1
      | inr later => exact ih tame.2.2 name later

theorem Stmt.Spelled.declared?_eq_none {isOpen : Bool} {s : Stmt Unit} {ts : List Token}
    (spelled : Stmt.Spelled limit isOpen s ts) : s.declared? = none := by
  cases spelled with
  | @forLoop _ _ _ _ _ initializer _ increment =>
      cases initializer <;> cases increment <;> rfl
  | _ => rfl

/-- The loop that a `for` loop stands for is as tidy as its parts. -/
theorem Stmt.tidy_forLoop {initializer : Option (Stmt Unit)} {condition increment : Option (Expr Unit)}
    {body : Stmt Unit} (first : ∀ s ∈ initializer, s.Tidy) (second : Expr.TidyOpt condition)
    (third : Expr.TidyOpt increment) (inner : body.Tidy) (statement : body.declared? = none) :
    (Stmt.forLoop initializer condition increment body).Tidy := by
  have guarded : (condition.getD (.literal (.bool true))).Tidy := by
    cases condition with
    | none => trivial
    | some e => exact second
  have repeating : (match increment with
      | none => Stmt.loop (condition.getD (.literal (.bool true))) body
      | some step =>
          .loop (condition.getD (.literal (.bool true))) (.block [body, .expression step])).Tidy := by
    cases increment with
    | none => exact ⟨guarded, inner, statement⟩
    | some step => exact ⟨guarded, ⟨inner, third, trivial⟩, rfl⟩
  cases initializer with
  | none => cases increment <;> exact repeating
  | some s => cases increment <;> exact ⟨first s rfl, repeating, trivial⟩

mutual
theorem Stmt.Spelled.tidy :
    ∀ {isOpen : Bool} {s : Stmt Unit} {ts : List Token}, Stmt.Spelled limit isOpen s ts →
      Tame ts → s.Tidy
  | _, _, _, .expression spelled _, tame => spelled.tidy (tame_append.1 tame).1
  | _, _, _, .print _ spelled _, tame => by
      simp only [tame_append, tame_cons] at tame
      exact spelled.tidy tame.2.1
  | _, _, _, .ret _ spelled _, tame => by
      simp only [tame_append, tame_cons] at tame
      exact spelled.tidy tame.2.1
  | _, _, _, .loop _ _ spelled _ inner, tame => by
      simp only [tame_append, tame_cons] at tame
      exact ⟨spelled.tidy tame.2.2.1, inner.tidy tame.2.2.2.2, inner.declared?_eq_none⟩
  | _, _, _, .forLoop _ _ first second _ third _ inner, tame => by
      simp only [tame_append, tame_cons] at tame
      rcases tame with ⟨-, -, tameFirst, tameSecond, -, tameThird, -, tameBody⟩
      exact Stmt.tidy_forLoop (first.tidy tameFirst) (second.tidy tameSecond)
        (third.tidy tameThird) (inner.tidy tameBody) inner.declared?_eq_none
  | _, _, _, .ifThen _ _ spelled _ first, tame => by
      simp only [tame_append, tame_cons] at tame
      exact ⟨spelled.tidy tame.2.2.1, first.tidy tame.2.2.2.2, first.declared?_eq_none⟩
  | _, _, _, .ifElse _ _ spelled _ first _ second, tame => by
      simp only [tame_append, tame_cons] at tame
      rcases tame with ⟨-, -, tameCondition, -, tameThen, -, tameElse⟩
      exact ⟨spelled.tidy tameCondition, first.tidy tameThen, first.declared?_eq_none,
        second.tidy tameElse, second.declared?_eq_none⟩
  | _, _, _, .block _ inner _, tame => by
      simp only [tame_append, tame_cons] at tame
      exact inner.tidy tame.2.1

theorem Stmt.Declared.tidy :
    ∀ {isOpen : Bool} {s : Stmt Unit} {ts : List Token}, Stmt.Declared limit isOpen s ts →
      Tame ts → s.Tidy
  | _, _, _, .statement spelled, tame => spelled.tidy tame
  | _, _, _, .declare _ spelled, tame => spelled.tidy (tame_cons.1 tame).2
  | _, _, _, .function _ spelled, tame => spelled.tidy (tame_cons.1 tame).2
  | _, _, _, .classDecl _ isName _ _ spelled _, tame => by
      simp only [tame_append, tame_cons] at tame
      exact ⟨tame.2.1 isName, spelled.tidy tame.2.2.2.2.1⟩

theorem Stmt.DeclaredAll.tidy :
    ∀ {body : List (Stmt Unit)} {ts : List Token}, Stmt.DeclaredAll limit body ts → Tame ts →
      Stmt.TidyAll body
  | _, _, .nil, _ => trivial
  | _, _, .cons first others, tame =>
      ⟨first.tidy (tame_append.1 tame).1, others.tidy (tame_append.1 tame).2⟩

theorem Function.Spelled.tidy :
    ∀ {declaration : Function Unit} {ts : List Token}, Function.Spelled limit declaration ts →
      Tame ts → declaration.name.Unreserved ∧ Stmt.TidyFunction declaration
  | _, _, .mk isName _ spelled _ _ _ inner _, tame => by
      simp only [tame_append, tame_cons] at tame
      rcases tame with ⟨unreserved, -, tameNames, -, -, tameBody, -⟩
      exact ⟨unreserved isName, spelled.unreserved tameNames, inner.tidy tameBody⟩

theorem Function.SpelledAll.tidy :
    ∀ {methods : List (Function Unit)} {ts : List Token}, Function.SpelledAll limit methods ts →
      Tame ts → Stmt.TidyMethods methods
  | _, _, .nil, _ => trivial
  | _, _, .cons first others, tame =>
      ⟨(first.tidy (tame_append.1 tame).1).2, others.tidy (tame_append.1 tame).2⟩
end

/-! ### Scanned tokens -/

/-- A word that is not a keyword is not spelled like one. -/
theorem Kind.unreserved_of_ofWord {word : String} (isName : Kind.ofWord word = .identifier) :
    word ≠ "this" ∧ word ≠ "super" := by
  constructor
  · intro same
    subst same
    exact absurd isName (by decide)
  · intro same
    subst same
    exact absurd isName (by decide)

namespace Cursor

theorem readNumber_kind (first : Char) (cursor : Cursor) :
    (cursor.readNumber first).1.kind = .number := by
  unfold readNumber
  split
  split <;> rfl

theorem readString_kind {cursor following : Cursor} {token : Token}
    (read : cursor.readString = (.ok token, following)) : token.kind = .string := by
  unfold readString at read
  split at read
  split at read
  · simp at read
  · simp only [Prod.mk.injEq, Except.ok.injEq] at read
    rw [← read.1]

theorem readMark_kind {first : Char} {cursor following : Cursor} {token : Token}
    (read : cursor.readMark first = (.ok token, following)) : token.kind ≠ .identifier := by
  have marks : ∀ {kind : Kind}, Kind.ofMark? first = some kind → kind ≠ .identifier := by
    intro kind isMark
    unfold Kind.ofMark? at isMark
    split at isMark <;> cases isMark <;> decide
  have comparisons : ∀ {alone withEqual : Kind},
      Kind.ofComparison? first = some (alone, withEqual) →
        alone ≠ .identifier ∧ withEqual ≠ .identifier := by
    intro alone withEqual isComparison
    unfold Kind.ofComparison? at isComparison
    split at isComparison <;> cases isComparison <;> decide
  unfold readMark at read
  split at read
  · rename_i isMark
    cases read
    exact marks isMark
  · rename_i isComparison
    split at read
    · cases read
      exact (comparisons isComparison).2
    · cases read
      exact (comparisons isComparison).1
  · cases read

/-- An identifier is never spelled like a keyword. -/
theorem readToken_unreserved {first : Char} {cursor following : Cursor} {token : Token}
    (read : cursor.readToken first = (.ok token, following)) (isName : token.kind = .identifier) :
    token.ident.Unreserved := by
  unfold readToken at read
  split at read
  · simp only [readWord, Prod.mk.injEq, Except.ok.injEq] at read
    rw [← read.1] at isName ⊢
    exact Kind.unreserved_of_ofWord isName
  · split at read
    · have isNumber := readNumber_kind first cursor
      simp only [Prod.mk.injEq, Except.ok.injEq] at read
      rw [read.1, isName] at isNumber
      cases isNumber
    · split at read
      · rw [readString_kind read] at isName
        cases isName
      · exact absurd isName (readMark_kind read)

end Cursor

theorem Scanner.nextFrom_unreserved (cursor : Cursor) (errors : Array LexicalError)
    (isName : (nextFrom cursor errors).1.kind = .identifier) :
    (nextFrom cursor errors).1.ident.Unreserved := by
  fun_induction nextFrom cursor errors with
  | case1 => cases isName
  | case2 cursor errors first following read token rest found =>
      exact Cursor.readToken_unreserved found isName
  | case3 cursor errors first following read error rest found ih => exact ih isName

/-- Draining a scan puts the end in front of the tokens that were there already and of others that
are not the end. -/
theorem Scanner.drainOnto_spec (seen : List Token) (cursor : Cursor)
    (errors : Array LexicalError) (inside : ∀ token ∈ seen, token.kind ≠ .eof)
    (tame : Tame seen) :
    ∃ last others, (drainOnto seen cursor errors).1 = last :: others ∧ last.kind = .eof ∧
      (∀ token ∈ others, token.kind ≠ .eof) ∧ Tame (last :: others) := by
  fun_induction drainOnto seen cursor errors with
  | case1 seen cursor errors token rest found read stop =>
      simp only [read, stop, ↓reduceDIte]
      refine ⟨token, seen, rfl, stop, inside, tame_cons.2 ⟨?_, tame⟩⟩
      intro isName
      rw [stop] at isName
      cases isName
  | case2 seen cursor errors token rest found read goesOn ih =>
      simp only [read, goesOn, ↓reduceDIte]
      apply ih
      · intro other member
        cases List.mem_cons.1 member with
        | inl same => exact same ▸ goesOn
        | inr older => exact inside other older
      · have unreserved := nextFrom_unreserved cursor errors
        rw [read] at unreserved
        exact tame_cons.2 ⟨unreserved, tame⟩

/-- The tokens of a text end once, and no identifier among them is spelled like a keyword. -/
theorem scan_proper (source : String) : EndsOnce (scan source).tokens ∧ Tame (scan source).tokens := by
  obtain ⟨last, others, drained, isEnd, inside, tame⟩ :=
    Scanner.drainOnto_spec [] (Cursor.ofString source) #[] (fun _ member => nomatch member) tame_nil
  have same : (scan source).tokens = others.reverse ++ [last] := by
    have tokens : (scan source).tokens =
        (Scanner.drainOnto [] (Cursor.ofString source) #[]).1.reverse := rfl
    rw [tokens, drained, List.reverse_cons]
  rw [same]
  constructor
  · apply endsOnce_append_eof isEnd
    intro token member
    exact inside token (List.mem_reverse.1 member)
  · intro token member
    apply tame token
    simpa [or_comm] using member

/-- A program that is read from a text without an error is tidy. -/
theorem Program.tidy_of_parse {room : Nat} {source : String} {program : Program.Plain}
    (read : (parseWithin room limit (scan source).tokens).program = .ok program)
    (clean : (parseWithin room limit (scan source).tokens).errors = #[]) :
    Stmt.TidyAll program := by
  obtain ⟨ends, tame⟩ := scan_proper source
  obtain ⟨taken, rest, split, declared⟩ := parseWithin_clean ends read clean
  rw [split] at tame
  exact declared.tidy (tame_append.1 tame).1

end LoxLang
