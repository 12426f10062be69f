/-
Module: LoxLang.Main
Purpose: The program itself: it hands the arguments, the files they name and the lines typed to
  the command line, and shows what comes back.
Main exports: main
-/
import LoxLang.CommandLine.Basic

namespace LoxLang.Main

/-- Reads a file, telling apart the reasons why a name may not lead to one. -/
def readFile (name : String) : IO FileContent := do
  try
    return .bytes (← IO.FS.readBinFile name)
  catch
    | .inappropriateType _ code _ => return if code = 21 then .directory else .belowFile
    | .invalidArgument _ code _ => return if code = 36 then .nameTooLong else .unnameable
    | _ => return .missing

/-- Shows what a command has printed and reported, and gives its exit code. -/
def present (verbose : Bool) (transcript : Transcript) : IO UInt32 := do
  IO.print transcript.stdout
  IO.eprint (transcript.stderr verbose)
  match transcript.ending with
  | .exit code => return code.toUInt32
  | _ => return 1

/-- Reads and runs lines until there are no more. -/
partial def talk (verbose : Bool) (prompt : String) (input : IO.FS.Stream) (session : Session) :
    IO UInt32 := do
  IO.print prompt
  (← IO.getStdout).flush
  let line ← input.getLine
  if line.isEmpty then
    IO.println ""
    return 0
  else
    let (following, outcome) := session.run (readText line)
    let transcript := Transcript.ofOutcome outcome
    let code ← present verbose transcript
    match transcript.ending with
    | .exit _ => talk verbose prompt input following
    | _ => return code

/-- The time in seconds, one microsecond later at each reading. -/
def clockFrom (start : Nat) (reading : Nat) : Float :=
  start.toFloat / 1000 + reading.toFloat / 1000000

/-- Runs the command line. -/
def run (arguments : List String) : IO UInt32 := do
  match Options.ofArguments arguments with
  | .error usage =>
      IO.eprintln "usage: lox [-h] [-c CONFIG] [-v] [-f FILE | -s STRING] [-l | -p | -t]"
      return usage.exitCode.toUInt32
  | .ok options =>
      let names := ([options.configPath, options.filePath].filterMap given).eraseDups
      let contents ← names.mapM fun name => return (name, ← readFile name)
      let read (name : String) : FileContent := (contents.lookup name).getD .missing
      let start ← IO.monoMsNow
      match plan options read (clockFrom start) with
      | .finished transcript => present options.verbose transcript
      | .interactive session opening =>
          IO.eprint (Event.render options.verbose opening)
          match session.config.prompt with
          | none => return 1
          | some prompt => talk options.verbose prompt (← IO.getStdin) session

end LoxLang.Main

/-- The entry point of the program. -/
def main (arguments : List String) : IO UInt32 :=
  LoxLang.Main.run arguments
