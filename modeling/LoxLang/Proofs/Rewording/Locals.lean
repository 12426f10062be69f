/-
Module: LoxLang.Proofs.Rewording.Locals
Purpose: The names of local variables do not matter.  If a local variable or parameter of an
  accepted source is renamed at all its places to a word that does not occur in the source, the new
  source is accepted, its references are bound as before, and a run of it shows the same.
Main exports: scan_identifiers_nodup, Accepts.renameable, Accepts.rename, Session.rename_local
-/
import LoxLang.Proofs.Parser.Boundary
import LoxLang.Proofs.Parser.Names
import LoxLang.Proofs.Rewording.Binding
import LoxLang.Proofs.Rewording.Parsing
import LoxLang.Proofs.Rewording.Session
import LoxLang.Proofs.Rewording.Variable

namespace LoxLang

/-! ### Places of identifiers -/

/-- No two identifiers of a text stand at one place. -/
theorem scan_identifiers_nodup (source : String) :
    ((identifiers (scan source).tokens).map Ident.position).Nodup := by
  refine scan_picked_nodup (fun token name isName => ?_) (fun _ => rfl) source
  unfold Token.name? at isName
  split at isName <;> cases isName
  rfl

namespace Accepts

variable {config : Config} {room : Room} {source other : String} {plain : Program.Plain}
  {program : Program Distance} {new : String}

/-- The names of an accepted program are identifiers of its source, none of them taken twice. -/
theorem names (accepts : Accepts config room source plain program) :
    (program.mentions.map Mention.name).Subperm (identifiers (scan source).tokens) := by
  rw [Program.names_of_bind accepts.bound]
  exact Program.names_of_parse (scan_proper source).1 accepts.parsed

/-- Every name of an accepted program is a token of its source. -/
theorem token_of_mention (accepts : Accepts config room source plain program)
    {mention : Mention Distance} (isMention : mention ∈ program.mentions) :
    ∃ token ∈ (scan source).tokens, token.kind = .identifier ∧ token.ident = mention.name :=
  mem_identifiers.1 (accepts.names.subset (List.mem_map_of_mem isMention))

/-- The names of an accepted program stand at different places. -/
theorem mentions_apart (accepts : Accepts config room source plain program) :
    ∀ mention ∈ program.mentions, ∀ other ∈ program.mentions,
      mention.name.position = other.name.position → mention = other := by
  have different : (program.mentions.map fun mention => mention.name.position).Nodup := by
    obtain ⟨listed, permuted, sublist⟩ := accepts.names
    have nodup := (scan_identifiers_nodup source).sublist (sublist.map Ident.position)
    rw [(permuted.map Ident.position).nodup_iff, List.map_map] at nodup
    exact nodup
  intro mention isMention other isOther same
  exact List.inj_on_of_nodup_map different isMention isOther same

/-- A local variable of an accepted program can be renamed to any name that does not occur in the
source. -/
theorem renameable (accepts : Accepts config room source plain program)
    (isName : Lexeme .identifier new.toList)
    (fresh : ∀ token ∈ (scan source).tokens, token.lexeme ≠ new)
    {declaration : Mention Distance} (declared : declaration ∈ program.mentions)
    (isLocal : declaration.isLocal = true) : Renameable program declaration new where
  declared := declared
  isLocal := isLocal
  placed := Program.placed_of_bind accepts.bound
  apart := accepts.mentions_apart
  fresh := by
    intro mention isMention
    obtain ⟨token, isToken, -, isMentioned⟩ := accepts.token_of_mention isMention
    rw [← isMentioned]
    exact fresh token isToken
  unreserved := by
    obtain ⟨token, isToken, isIdentifier, isDeclared⟩ := accepts.token_of_mention declared
    rw [← isDeclared]
    exact (scan_proper source).2 token isToken isIdentifier
  unreservedNew := by
    obtain ⟨-, -, -, -, -, isWord⟩ := isName.of_identifier
    rw [String.ofList_toList] at isWord
    exact Kind.unreserved_of_ofWord isWord

/-- The places of a variable are those of tokens that spell its name. -/
theorem token_of_occurrence (accepts : Accepts config room source plain program)
    {declaration : Mention Distance} (declared : declaration ∈ program.mentions) :
    ∀ place ∈ program.occurrences declaration.name, ∃ token ∈ (scan source).tokens,
      token.position = place ∧ token.kind = .identifier ∧
        token.lexeme = declaration.name.text := by
  have spelled : ∀ mention ∈ program.mentions, mention.name.text = declaration.name.text →
      ∃ token ∈ (scan source).tokens, token.position = mention.name.position ∧
        token.kind = .identifier ∧ token.lexeme = declaration.name.text := by
    intro mention isMention isText
    obtain ⟨token, isToken, isIdentifier, isMentioned⟩ := accepts.token_of_mention isMention
    rw [← isMentioned] at isText ⊢
    exact ⟨token, isToken, rfl, isIdentifier, isText⟩
  intro place isPlace
  rw [Program.occurrences, List.mem_cons, List.mem_map] at isPlace
  rcases isPlace with rfl | ⟨mention, isReference, rfl⟩
  · exact spelled declaration declared rfl
  · obtain ⟨isMention, refers⟩ := List.mem_filter.1 isReference
    exact spelled mention isMention (Mention.text_of_refersTo refers)

/-- Renaming a local variable at all its places gives a source that is accepted, and every reference
in it is bound at the same distance as before. -/
theorem rename (accepts : Accepts config room source plain program)
    {declaration : Mention Distance} (renameable : Renameable program declaration new)
    (isName : Lexeme .identifier new.toList)
    (respells : Respells (program.occurrences declaration.name) declaration.name.text new source
      other) :
    ∃ move : Position → Position, (∀ position, (move position).line = position.line) ∧
      Accepts config room other
        (plain.map (Stmt.reword (.respelling (program.occurrences declaration.name) new move)))
        (program.map
          (Stmt.reword (.respelling (program.occurrences declaration.name) new move))) := by
  obtain ⟨move, body, last, end_, sameLine, isTokens, isOther⟩ := scan_respell isName respells
    accepts.scanned (accepts.token_of_occurrence renameable.declared)
  refine ⟨move, sameLine, by rw [isOther], ?_, ?_, ?_⟩
  · have ends := (scan_proper source).1
    have endsOther := (scan_proper other).1
    have parsed := accepts.parsed
    rw [isTokens] at ends parsed
    rw [isOther] at endsOther ⊢
    -- the tokens are those of the old source with other words, but the end may stand elsewhere
    have moved := Program.parseWithin_reword_clean
      (.respelling (program.occurrences declaration.name) new move) ends parsed
    have endsMoved := ends.reword (.respelling (program.occurrences declaration.name) new move)
    rw [List.map_append, List.map_singleton] at moved endsMoved
    exact Program.parseWithin_end endsMoved (endsOther.drop (List.cons_ne_nil _ _)) moved
  · rw [Program.fits, ← Stmt.rewordAll_eq_map, Stmt.fitsAll_reword]
    exact accepts.fits
  · rw [Program.bind_reword (by rw [accepts.bound])
      (by rw [accepts.bound]; exact renameable.consistent move), accepts.bound]

end Accepts

/-! ### Runs -/

namespace Session

/-- Local variables can be renamed.  In any session, however it has got where it is, take a source
that is accepted, a local variable or parameter in it, and a name that does not occur in the source.
If the variable is renamed where it is declared and wherever a reference is bound to the scope that
introduces it, the new source is accepted as well and its references have the same distances, and a
run of it prints the same, ends in the same way, with the same error on the same line if there is
one, and leaves global variables behind that look the same. -/
theorem rename_local {config : Config} {clock : Nat → Float} {history : List Command}
    {source new : String} {room : Room} {program : Program Distance} {name : Ident}
    (available : ((start config clock).performAll history).room = .ok room)
    (analyzed : (analyze ((start config clock).performAll history).config room source).program =
      .ok program)
    (isLocal : name ∈ program.locals) (isName : Lexeme .identifier new.toList)
    (fresh : ∀ token ∈ (scan source).tokens, token.lexeme ≠ new) :
    let session := (start config clock).performAll history
    let places := program.occurrences name
    (∃ other, Respells places name.text new source other) ∧
      ∀ other, Respells places name.text new source other →
        (∃ twin, (analyze session.config room other).program = .ok twin ∧
          twin.references.map Reference.bound = program.references.map Reference.bound) ∧
        (session.run other).2.stdout = (session.run source).2.stdout ∧
        (session.run other).2.ending = (session.run source).2.ending ∧
        (session.run other).1.shown = (session.run source).1.shown := by
  intro session places
  obtain ⟨plain, accepts⟩ := analyze_eq_ok.1 analyzed
  obtain ⟨declaration, declared, localToo, rfl⟩ := Program.mem_locals.1 isLocal
  have renameable := accepts.renameable isName fresh declared localToo
  refine ⟨exists_respells _ _ _ isName, fun other respells => ?_⟩
  obtain ⟨move, sameLine, acceptsToo⟩ := accepts.rename renameable isName respells
  have ran : Ran (start config clock) (history ++ [.run source]) session source room program :=
    ⟨⟨history, [], rfl, rfl⟩, available, analyzed⟩
  obtain ⟨events, isRun⟩ := run_of_accepts available accepts
  obtain ⟨eventsOther, isOther⟩ := run_of_accepts available acceptsToo
  have ofRun := ran.ofRun
  have alike : Running Eq #[] _ [] session.machine _ := ran.sessionSound.alike (fun _ => rfl) #[]
  rw [Array.empty_append] at alike
  rw [isRun] at ofRun
  have shows : Shows Eq #[] (session.runBound room program events)
      (session.runBound room _ eventsOther) :=
    runBound_shows (fun position => (sameLine position).symm) (renameable.consistent move) alike
      ofRun
  refine ⟨⟨_, analyze_eq_ok.2 ⟨_, acceptsToo⟩, ?_⟩, ?_, ?_, ?_⟩
  · rw [Program.references, ← Stmt.rewordAll_eq_map]
    exact Stmt.boundAll_reword _ program
  · rw [isRun, isOther, Outcome.stdout, shows.output, Array.empty_append]
    rfl
  · rw [isRun, isOther]
    exact shows.ending.eq
  · rw [isRun, isOther]
    exact shows.globals

/-- A block that reads a global variable, declares a local one with the same name and uses it. -/
def sampleBlock : String :=
  "{ print a; var a = b; { a = a + b; print a; } }"

/-- The block as it is bound. -/
def sampleBound : Program Distance :=
  let name text column : Ident := ⟨text, ⟨1, column⟩⟩
  [.block
    [.print (.read (name "a" 9) none),
      .declare (name "a" 16) (some (.read (name "b" 20) none)),
      .block
        [.expression (.assign (name "a" 25) (some 1)
          (.binary (.read (name "a" 29) (some 1)) .add ⟨1, 31⟩ (.read (name "b" 33) none))),
        .print (.read (name "a" 42) (some 1))]]]

/-- The block with another name for the local variable. -/
def sampleRenamed : String :=
  "{ print a; var c = b; { c = c + b; print c; } }"

theorem rename_local_sample :
    let session := (start {} fun _ => 0).performAll [.run "var a = \"x\"; var b = \"y\";"]
    let declared : Ident := ⟨"a", ⟨1, 16⟩⟩
    session.room = .ok ⟨25000, 25000⟩ ∧
      (analyze session.config ⟨25000, 25000⟩ sampleBlock).program = .ok sampleBound ∧
      declared ∈ sampleBound.locals ∧
      Respells (sampleBound.occurrences declared) "a" "c" sampleBlock sampleRenamed ∧
      (session.run sampleRenamed).2.stdout = (session.run sampleBlock).2.stdout ∧
      (session.run sampleRenamed).2.ending = (session.run sampleBlock).2.ending ∧
      (session.run sampleRenamed).1.shown = (session.run sampleBlock).1.shown := by
  intro session declared
  have available : session.room = .ok ⟨25000, 25000⟩ := by
    rw [room, config_performAll]
    rfl
  have analyzed : (analyze session.config ⟨25000, 25000⟩ sampleBlock).program =
      .ok sampleBound := by
    rw [config_performAll]
    with_unfolding_all rfl
  have isLocal : declared ∈ sampleBound.locals := by decide
  have isName : Lexeme .identifier "c".toList := by
    have isWord : Kind.ofWord (.ofList ['c']) = .identifier := by decide
    exact isWord ▸ .word (by decide) (fun _ member => nomatch member)
  have words : (scan sampleBlock).tokens.map Token.lexeme =
      ["\x7b", "print", "a", ";", "var", "a", "=", "b", ";", "\x7b", "a", "=", "a", "+", "b", ";",
        "print", "a", ";", "\x7d", "\x7d", ""] := by
    with_unfolding_all rfl
  have fresh : ∀ token ∈ (scan sampleBlock).tokens, token.lexeme ≠ "c" := by
    intro token member
    have isWord := List.mem_map_of_mem (f := Token.lexeme) member
    rw [words] at isWord
    intro same
    rw [same] at isWord
    exact absurd isWord (by decide)
  have renames : Respells (sampleBound.occurrences declared) "a" "c" sampleBlock sampleRenamed := by
    unfold Respells
    decide +kernel
  obtain ⟨-, all⟩ := rename_local available analyzed isLocal isName fresh
  exact ⟨available, analyzed, isLocal, renames, (all _ renames).2⟩

end Session

end LoxLang
