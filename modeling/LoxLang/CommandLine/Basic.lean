/-
Module: LoxLang.CommandLine.Basic
Purpose: What the command line does: it loads a configuration, finds the source, and lists,
  outlines, checks or runs it.  Without a source it reads and runs one line after the other.
  Files are looked up through a function, so that everything here is independent of where they
  come from.
Main exports: FileContent, Transcript, converse, Plan, plan, Plan.transcript
-/
import LoxLang.CommandLine.Options
import LoxLang.Program.Outline
import LoxLang.Session.Basic

namespace LoxLang

/-! ### Files -/

/-- What a file name leads to. -/
inductive FileContent where
  | missing
  | directory
  /-- The name goes on below something that is not a directory. -/
  | belowFile
  | nameTooLong
  /-- No file can have such a name. -/
  | unnameable
  | bytes (content : ByteArray)

/-- Why a source cannot be read, in the words of the operating system. -/
def FileContent.complaint? (name : String) : FileContent → Option String
  | missing => some s!"[Errno 2] No such file or directory: {Text.quoted name}"
  | directory => some s!"[Errno 21] Is a directory: {Text.quoted name}"
  | belowFile => some s!"[Errno 20] Not a directory: {Text.quoted name}"
  | nameTooLong => some s!"[Errno 36] File name too long: {Text.quoted name}"
  | unnameable | bytes _ => none

/-- Text as it is read from a file or a terminal: line ends of every kind become newlines. -/
def readText (text : String) : String :=
  String.ofList (normalize text.toList)

/-- The lines of a text, each with the newline that ends it. -/
def splitLines (text : String) : List String :=
  let (lines, last) := text.toList.foldl
    (fun (state : List String × List Char) c =>
      if c = '\n' then (String.ofList (c :: state.2).reverse :: state.1, [])
      else (state.1, c :: state.2))
    ([], [])
  (if last.isEmpty then lines else String.ofList last.reverse :: lines).reverse

/-! ### Results -/

/-- How a command ends. -/
inductive CommandEnd where
  | exit (code : Nat)
  | escaped (escape : Escape)
  /-- The source is not encoded as text. -/
  | undecodable
  /-- The prompt cannot be encoded as text. -/
  | unencodable
  /-- No file can have the name of the source. -/
  | unnameable
  /-- The configuration is nested too deeply to be read. -/
  | configTooDeep
  /-- A source was announced that is not there. -/
  | sourceAbsent
deriving Repr, Inhabited

/-- What a command has shown, and how it ended. -/
structure Transcript where
  stdout : String := ""
  events : List Event := []
  ending : CommandEnd
deriving Inhabited

namespace Transcript

/-- The transcript of a step of a session. -/
def ofOutcome (outcome : Outcome) : Transcript :=
  { stdout := outcome.stdout
    events := outcome.events
    ending :=
      match outcome.ending with
      | .escaped escape => .escaped escape
      | ending => .exit ending.exitCode }

/-- The transcript with events that came before. -/
def after (events : List Event) (transcript : Transcript) : Transcript :=
  { transcript with events := events ++ transcript.events }

/-- The text reported. -/
def stderr (verbose : Bool) (transcript : Transcript) : String :=
  Event.render verbose transcript.events

end Transcript

/-! ### Modes -/

/-- Lists the tokens of a source. -/
def listTokens (source : String) : Transcript :=
  let scanned := scan source
  let errors := scanned.errors.toList
  { stdout := String.join (scanned.tokens.map fun token => token.listing ++ "\n")
    events := errors.map (fun error => .trace (.lexicalError error))
      ++ errors.map fun error => .report error.text
    ending := .exit (if errors.isEmpty then ExitCode.ok else ExitCode.rejected) }

/-- The outline that the command line shows. -/
def outlineStyle : OutlineStyle :=
  { indent := "| " }

/-- The transcript of a source that is given up before anything is shown of it. -/
def giveUp (events : List Event) : Ending → Transcript
  | .escaped escape => { events := events, ending := .escaped escape }
  | ending => { events := events ++ [.report overflowText], ending := .exit ending.exitCode }

/-- Outlines a source, or reports the errors found while reading it. -/
def outlineSource (session : Session) (source : String) : Transcript :=
  match session.room with
  | .error ending => giveUp [] ending
  | .ok room =>
      let reading := readSource session.config room source
      match reading.program with
      | .error ending => giveUp reading.events ending
      | .ok program =>
          if reading.errors.isEmpty then
            { stdout := outlineStyle.render program.outline
              events := reading.events
              ending := .exit ExitCode.ok }
          else
            { events := reading.events ++ reading.errors.map fun error => .report error.text
              ending := .exit ExitCode.rejected }

/-- Does with a source what the mode says. -/
def perform (session : Session) (source : String) : Mode → Transcript
  | .lex => listTokens source
  | .parse => outlineSource session source
  | .check => .ofOutcome (session.check source)
  | .run => .ofOutcome (session.run source).2

/-- What the mode does with a source that is not there.  Tokens can be listed without any room, so
only then the limits are not looked at. -/
def performAbsent (session : Session) : Mode → Transcript
  | .lex => { ending := .sourceAbsent }
  | .parse =>
      match session.room with
      | .error ending => giveUp [] ending
      | .ok _ => { ending := .sourceAbsent }
  | .check | .run =>
      match session.room with
      | .error ending => .ofOutcome (Session.refuse ending)
      | .ok _ => { ending := .sourceAbsent }

/-- Reads and runs one line after the other, with a prompt before each and a newline at the end.
Errors do not end the conversation. -/
def converse (prompt : String) (session : Session) : List String → Transcript
  | [] => { stdout := prompt ++ "\n", ending := .exit ExitCode.ok }
  | line :: rest =>
      let (following, outcome) := session.run line
      match outcome.ending with
      | .escaped escape =>
          { stdout := prompt ++ outcome.stdout
            events := outcome.events
            ending := .escaped escape }
      | _ =>
          let later := converse prompt following rest
          { stdout := prompt ++ outcome.stdout ++ later.stdout
            events := outcome.events ++ later.events
            ending := later.ending }

/-! ### The command line -/

/-- What is left to do once configuration and source have been found. -/
inductive Plan where
  /-- Nothing: the command is over. -/
  | finished (transcript : Transcript)
  /-- Lines are to be read and run; some events have happened already. -/
  | interactive (session : Session) (opening : List Event)

/-- An option whose value is empty counts as not given. -/
def given : Option String → Option String
  | some "" => none
  | other => other

/-- The configuration in a file, if it can be loaded. -/
def loadConfig : FileContent → Except JsonFault Config
  | .bytes content =>
      match String.fromUTF8? content with
      | some text => Config.ofJson text
      | none => .error .malformed
  | _ => .error .malformed

/-- Does with the content of a file what the mode says. -/
def performFile (session : Session) (name : String) (mode : Mode) (content : FileContent) :
    Transcript :=
  match content with
  | .bytes data =>
      match String.fromUTF8? data with
      | none => { ending := .undecodable }
      | some text => perform session (readText text) mode
  | .unnameable => { ending := .unnameable }
  | other =>
      let complaint := (other.complaint? name).getD ""
      { events := [.report s!"Error reading file: {complaint}"]
        ending := .exit ExitCode.noInput }

/-- Finds the source and does with it what the mode says. -/
def planSource (options : Options) (read : String → FileContent) (session : Session)
    (opening : List Event) : Plan :=
  match given options.filePath, options.source with
  | some name, _ =>
      let opening := opening ++ [.trace (.sourceFile name)]
      .finished ((performFile session name options.mode (read name)).after opening)
  | none, some (.text source) => .finished ((perform session source options.mode).after opening)
  | none, some .absent => .finished ((performAbsent session options.mode).after opening)
  | none, none => .interactive session opening

/-- Loads the configuration, finds the source, and does with it what the mode says.  A
configuration that cannot be loaded comes before a source that cannot be read. -/
def plan (options : Options) (read : String → FileContent) (clock : Nat → Float) : Plan :=
  match given options.configPath with
  | none => planSource options read (.start {} clock) []
  | some name =>
      let opening := [.trace (.configFile name)]
      match loadConfig (read name) with
      | .ok config => planSource options read (.start config clock) opening
      | .error .tooDeep => .finished { events := opening, ending := .configTooDeep }
      | .error .malformed =>
          .finished
            { events := opening ++ [.report "Failed to load config:"]
              ending := .exit ExitCode.usage }

/-- All that a command shows, given what is typed into it. -/
def Plan.transcript (input : String) : Plan → Transcript
  | finished transcript => transcript
  | interactive session opening =>
      match session.config.prompt with
      | none => { events := opening, ending := .unencodable }
      | some prompt => (converse prompt session (splitLines (readText input))).after opening

end LoxLang
