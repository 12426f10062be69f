/-
Module: LoxLang.CommandLine.Options
Purpose: Understanding the arguments of the command line.  Options have a short and a long name;
  long names may be shortened as long as they stay unambiguous, values follow in the next
  argument or are attached, and short options without value can be written together.
Main exports: Flag, Mode, SourceText, Options, UsageEnd, Options.ofArguments
-/
import LoxLang.Text.DecimalDigit

namespace LoxLang

/-! ### Options -/

/-- The options of the command line. -/
inductive Flag where
  | help
  | config
  | verbose
  | file
  | string
  | lex
  | parse
  | check
deriving DecidableEq, Repr, Inhabited

namespace Flag

/-- All options, in the order in which their names are listed. -/
def all : List Flag :=
  [help, config, verbose, file, string, lex, parse, check]

/-- The letter of an option. -/
def letter : Flag → Char
  | help => 'h'
  | config => 'c'
  | verbose => 'v'
  | file => 'f'
  | string => 's'
  | lex => 'l'
  | parse => 'p'
  | check => 't'

/-- The long name of an option, without its dashes. -/
def longName : Flag → String
  | help => "help"
  | config => "config"
  | verbose => "verbose"
  | file => "file"
  | string => "string"
  | lex => "lex"
  | parse => "parse"
  | check => "check"

/-- Whether an option is followed by a value. -/
def takesValue : Flag → Bool
  | config | file | string => true
  | _ => false

/-- Options of one group exclude each other. -/
def group : Flag → Option Nat
  | file | string => some 0
  | lex | parse | check => some 1
  | _ => none

/-- Whether two options exclude each other. -/
def excludes (left right : Flag) : Bool :=
  left ≠ right && left.group.isSome && left.group = right.group

/-- The option with a given letter. -/
def ofLetter? (c : Char) : Option Flag :=
  all.find? fun flag => flag.letter = c

/-- The option with a given long name. -/
def ofLongName? (name : List Char) : Option Flag :=
  all.find? fun flag => flag.longName.toList = name

/-- The options whose long name starts in a given way. -/
def withLongStart (start : List Char) : List Flag :=
  all.filter fun flag => start.isPrefixOf flag.longName.toList

end Flag

/-! ### Arguments -/

/-- What an argument looks like on its own. -/
inductive Argument where
  /-- Not an option. -/
  | plain (text : String)
  /-- Two dashes: nothing after it is an option. -/
  | separator
  /-- An option; `short` says how it was written, and a text may be attached to it. -/
  | option (flag : Flag) (short : Bool) (attached : Option (List Char))
  /-- It looks like an option but is none. -/
  | unknown
  /-- A shortened long name that stands for several options. -/
  | ambiguous
deriving Repr, Inhabited

namespace Argument

/-- Splits at the first equals sign. -/
def splitAtEquals (text : List Char) : List Char × Option (List Char) :=
  match text.dropWhile (· ≠ '=') with
  | [] => (text, none)
  | _ :: value => (text.takeWhile (· ≠ '='), some value)

/-- An argument that begins with two dashes. -/
def ofLong (text : String) (name : List Char) : Argument :=
  let (start, attached) := splitAtEquals name
  match Flag.ofLongName? start with
  | some flag => option flag false attached
  | none =>
      match Flag.withLongStart start with
      | [flag] => option flag false attached
      | _ :: _ :: _ => ambiguous
      | [] => if text.contains ' ' then plain text else unknown

/-- A text without the newline at its end, if there is one. -/
def withoutNewline (text : List Char) : List Char :=
  if text.getLast? = some '\n' then text.dropLast else text

/-- Whether a text after a dash is a decimal number: digits, or a point with digits after it.  The
digits may be those of any script, and a newline may follow. -/
def isNumber (text : List Char) : Bool :=
  let number := withoutNewline text
  match number.dropWhile Text.isDecimalDigit with
  | [] => !number.isEmpty
  | '.' :: places => !places.isEmpty && places.all Text.isDecimalDigit
  | _ => false

/-- An argument that begins with a single dash and goes on with `first`.  An equals sign right after
the letter of an option does not belong to the text attached to it. -/
def ofShort (text : String) (first : Char) (rest : List Char) : Argument :=
  match Flag.ofLetter? first, rest with
  | some flag, [] => option flag true none
  | some flag, '=' :: value => option flag true (some value)
  | some flag, attached => option flag true (some attached)
  | none, _ =>
      if isNumber (first :: rest) || text.contains ' ' then plain text else unknown

/-- What an argument looks like.  A dash alone, a negative number, and what holds a space and
starts like no option are not options. -/
def ofText (text : String) : Argument :=
  match text.toList with
  | ['-', '-'] => separator
  | '-' :: '-' :: name => ofLong text name
  | '-' :: first :: rest => ofShort text first rest
  | _ => plain text

/-- What the arguments look like; after a separator all are plain. -/
def ofTexts : List String → List Argument
  | [] => []
  | text :: rest =>
      match ofText text with
      | separator => separator :: rest.map plain
      | other => other :: ofTexts rest

/-- Whether an argument is a shortened name that stands for several options. -/
def isAmbiguous : Argument → Bool
  | ambiguous => true
  | _ => false

end Argument

/-! ### Understanding -/

/-- What is to be done with the source. -/
inductive Mode where
  | run
  | lex
  | parse
  | check
deriving DecidableEq, Repr, Inhabited

/-- A source given on the command line itself. -/
inductive SourceText where
  | text (source : String)
  /-- There is an option for a source, but no text that could be one. -/
  | absent
deriving Repr, Inhabited

/-- What the command line asks for. -/
structure Options where
  configPath : Option String := none
  filePath : Option String := none
  source : Option SourceText := none
  verbose : Bool := false
  mode : Mode := .run
deriving Repr, Inhabited

/-- Why nothing is run: help was asked for, or the arguments are wrong. -/
inductive UsageEnd where
  | help
  | wrong
deriving DecidableEq, Repr, Inhabited

/-- The exit code of a command line that runs nothing. -/
def UsageEnd.exitCode : UsageEnd → Nat
  | help => 0
  | wrong => 2

/-- What has been understood so far: the options asked for, the flags seen, and whether there was
an argument that means nothing. -/
structure Understanding where
  options : Options := {}
  seen : List Flag := []
  stray : Bool := false
deriving Repr, Inhabited

namespace Understanding

/-- The options with one more of them; the last of several values counts.  A file name that is
nothing counts as not given. -/
def setFlag (options : Options) (value : Option String) : Flag → Options
  | .help => options
  | .config => { options with configPath := value }
  | .verbose => { options with verbose := true }
  | .file => { options with filePath := value }
  | .string => { options with source := some ((value.map .text).getD .absent) }
  | .lex => { options with mode := .lex }
  | .parse => { options with mode := .parse }
  | .check => { options with mode := .check }

/-- Takes an option, with its value if it has one. -/
def take (understanding : Understanding) (flag : Flag) (value : Option String) :
    Except UsageEnd Understanding :=
  if understanding.seen.any flag.excludes then
    .error .wrong
  else if flag = .help then
    .error .help
  else
    .ok { understanding with
      options := setFlag understanding.options value flag
      seen := flag :: understanding.seen }

/-- Takes options without value, in order. -/
def takeAll (understanding : Understanding) : List Flag → Except UsageEnd Understanding
  | [] => .ok understanding
  | flag :: rest =>
      match understanding.take flag none with
      | .error usage => .error usage
      | .ok following => following.takeAll rest

/-- What one argument stands for: options without value, then perhaps an option that takes a value
with the text attached to it. -/
structure Cluster where
  flags : List Flag
  valued : Option (Flag × Option (List Char)) := none
deriving Repr

/-- An option that nothing is attached to, after others. -/
def Cluster.bare (flags : List Flag) (flag : Flag) : Cluster :=
  if flag.takesValue then { flags := flags.reverse, valued := some (flag, none) }
  else { flags := (flag :: flags).reverse }

/-- Takes apart short options written together.  What is attached to an option that takes no value
has to be options again. -/
def cluster? (flags : List Flag) (flag : Flag) : List Char → Option Cluster
  | [] => if flag.takesValue then some { flags := flags.reverse, valued := some (flag, some []) }
      else none
  | c :: rest =>
      if flag.takesValue then
        some { flags := flags.reverse, valued := some (flag, some (c :: rest)) }
      else
        match Flag.ofLetter? c, rest with
        | none, _ => none
        | some following, [] => some (.bare (flag :: flags) following)
        | some following, rest => cluster? (flag :: flags) following rest

/-- What one argument stands for; nothing if a text is attached where none can be. -/
def clusterOf? (flag : Flag) (short : Bool) : Option (List Char) → Option Cluster
  | none => some (.bare [] flag)
  | some attached => if short || flag.takesValue then cluster? [] flag attached else none

/-- The value that an attached text gives: two dashes stand for no value at all. -/
def attachedValue (text : List Char) : Option String :=
  if text = ['-', '-'] then none else some (String.ofList text)

/-- Takes what one argument stands for.  If its last option takes a value that is not attached,
the value is the given next argument. -/
def takeCluster (understanding : Understanding) (cluster : Cluster) (next : Option String) :
    Except UsageEnd Understanding :=
  match understanding.takeAll cluster.flags with
  | .error usage => .error usage
  | .ok following =>
      match cluster.valued, next with
      | none, _ => .ok following
      | some (flag, some attached), _ => following.take flag (attachedValue attached)
      | some (flag, none), some value => following.take flag (some value)
      | some (_, none), none => .error .wrong

/-- Whether the value of the last option has to come from the next argument. -/
def Cluster.needsNext (cluster : Cluster) : Bool :=
  match cluster.valued with
  | some (_, none) => true
  | _ => false

/-- Goes through the arguments in order.  Arguments that mean nothing are passed over; they count
as wrong at the end. -/
def consume (understanding : Understanding) : List Argument → Except UsageEnd Understanding
  | [] => .ok understanding
  | .option flag short attached :: rest =>
      match clusterOf? flag short attached with
      | none => .error .wrong
      | some cluster =>
          if cluster.needsNext then
            match rest with
            | .plain value :: rest =>
                match understanding.takeCluster cluster (some value) with
                | .error usage => .error usage
                | .ok following => following.consume rest
            | _ => .error .wrong
          else
            match understanding.takeCluster cluster none with
            | .error usage => .error usage
            | .ok following => following.consume rest
  | _ :: rest => { understanding with stray := true }.consume rest

end Understanding

/-- The options that arguments ask for. -/
def Options.ofArguments (arguments : List String) : Except UsageEnd Options :=
  let shapes := Argument.ofTexts arguments
  if shapes.any Argument.isAmbiguous then
    .error .wrong
  else
    match Understanding.consume {} shapes with
    | .error usage => .error usage
    | .ok understanding =>
        if understanding.stray then .error .wrong else .ok understanding.options

end LoxLang
