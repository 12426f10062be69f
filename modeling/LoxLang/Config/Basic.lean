/-
Module: LoxLang.Config.Basic
Purpose: What can be configured: the largest number of arguments, how deeply programs may nest
  and recurse, and the prompt of the interactive mode.
Main exports: LimitFault, RecursionLimit, StackSize, Config, Config.ofEntries?, Config.ofJson
-/
import LoxLang.Config.Setting
import LoxLang.Program.SyntaxError

namespace LoxLang

/-- Why a setting cannot be used as a limit. -/
inductive LimitFault where
  | notWhole
  /-- The number does not fit into a word of the machine. -/
  | outOfRange
  | tooSmall
deriving DecidableEq, Repr, Inhabited

namespace Setting

/-- A number, if it fits into a signed word of the given number of bits. -/
def fitting (bits : Nat) (value : Int) : Except LimitFault Int :=
  let half : Int := twoPow (bits - 1)
  if -half ≤ value && value < half then .ok value else .error .outOfRange

/-- A setting as a whole number in a signed word of the given number of bits. -/
def toWord (bits : Nat) : Setting → Except LimitFault Int
  | integer value => fitting bits value
  | bool true => fitting bits 1
  | bool false => fitting bits 0
  | _ => .error .notWhole

end Setting

/-- The depth limit as a configuration may give it.  What cannot be used is accepted until a
program is to be run. -/
inductive RecursionLimit where
  | depth (limit : Nat)
  | unusable (fault : LimitFault)
deriving DecidableEq, Repr, Inhabited

/-- How many levels of nesting are allowed in one activity. -/
structure Room where
  /-- Levels of nesting while a program is read and in the tree that results. -/
  nesting : Nat
  /-- Levels of nested evaluation while a program runs, calls included. -/
  evaluation : Nat
deriving DecidableEq, Repr, Inhabited

namespace RecursionLimit

/-- The room a depth limit leaves.  The limit counts finer steps than levels of nesting, so each
level is given several of them.  The two bounds keep what the limit asks for within what a machine
can hold; they matter only for limits in the millions. -/
def room (limit : Nat) : Room :=
  { nesting := min (limit / 4) 500000, evaluation := min (limit / 4) 2000000 }

/-- The least depth that the beginning and end of a step take. -/
def leastDepth : Nat := 16

/-- Reads a depth limit from a setting: a positive number in a word of 32 bits. -/
def ofSetting (setting : Setting) : RecursionLimit :=
  match setting.toWord 32 with
  | .error fault => unusable fault
  | .ok limit => if 0 < limit then depth limit.toNat else unusable .tooSmall

end RecursionLimit

/-- Reads a limit on arguments from a setting. -/
def ArgumentLimit.ofSetting : Setting → ArgumentLimit
  | .integer limit => count limit
  | .decimal limit => fraction limit
  | .bool limit => flag limit
  | _ => incomparable

/-- The size of the stack of the machine as a configuration may give it.  As with the depth limit, what
cannot be used is accepted until a program is to be run.  A size that can be used makes no
difference. -/
inductive StackSize where
  | usable
  | unusable (fault : LimitFault)
  /-- The size is a proper one, but there is no machine with that much memory. -/
  | unavailable
deriving DecidableEq, Repr, Inhabited

namespace StackSize

/-- The least size of a stack other than zero, which stands for the usual size. -/
def least : Int := 32768

/-- The sizes from here on are not available. -/
def supply : Int := twoPow 35

/-- Reads the size of a stack from a setting: a number in a word of 64 bits. -/
def ofSetting (setting : Setting) : StackSize :=
  match setting.toWord 64 with
  | .error fault => unusable fault
  | .ok size =>
      if size = 0 then usable
      else if size < least then unusable .tooSmall
      else if size < supply then usable
      else unavailable

end StackSize

/-- A configuration. -/
structure Config where
  argumentLimit : ArgumentLimit := .count 255
  recursionLimit : RecursionLimit := .depth 100000
  stackSize : StackSize := .usable
  /-- The prompt, unless it is a text that cannot be shown. -/
  prompt : Option String := some "> "
deriving Repr, Inhabited

namespace Config

/-- Changes one setting; a key that does not exist gives nothing. -/
def set? (config : Config) (key : String) (value : Setting) : Option Config :=
  match key with
  | "max_arguments" => some { config with argumentLimit := .ofSetting value }
  | "recursion_limit" => some { config with recursionLimit := .ofSetting value }
  | "thread_stack_size" => some { config with stackSize := .ofSetting value }
  | "prompt" => some { config with prompt := value.text? }
  | _ => none

/-- The configuration with the given settings. -/
def ofEntries? (entries : List (Text.Loose × Setting)) : Option Config :=
  entries.foldlM
    (fun config entry => entry.1.toString?.bind fun key => config.set? key entry.2) {}

/-- The configuration written in a JSON text, which must hold a record. -/
def ofJson (text : String) : Except JsonFault Config :=
  match Setting.ofJson text with
  | .error fault => .error fault
  | .ok (.record entries) => Setting.orMalformed (ofEntries? entries)
  | .ok _ => .error .malformed

end Config

end LoxLang
