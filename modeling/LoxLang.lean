import LoxLang.CommandLine.Basic
import LoxLang.CommandLine.Options
import LoxLang.Config.Basic
import LoxLang.Config.Setting
import LoxLang.Decimal.Layout
import LoxLang.Decimal.Shortest
import LoxLang.Heap.Bindings
import LoxLang.Heap.Forest
import LoxLang.Heap.Value
import LoxLang.Literal
import LoxLang.Machine.Basic
import LoxLang.Machine.Eval
import LoxLang.Main
import LoxLang.Number
import LoxLang.Program.Binding
import LoxLang.Program.Outline
import LoxLang.Program.Parser.Basic
import LoxLang.Program.Parser.Expression
import LoxLang.Program.Parser.Statement
import LoxLang.Program.SyntaxError
import LoxLang.Program.Tree
import LoxLang.Proofs.Depth.Basic
import LoxLang.Proofs.Depth.Parsing
import LoxLang.Proofs.Depth.Running
import LoxLang.Proofs.Depth.Session
import LoxLang.Proofs.Heap.Walk
import LoxLang.Proofs.Layout.Analysis
import LoxLang.Proofs.Layout.Placeless
import LoxLang.Proofs.Layout.Running
import LoxLang.Proofs.Layout.Session
import LoxLang.Proofs.Looping.Binding
import LoxLang.Proofs.Looping.Evaluation
import LoxLang.Proofs.Looping.Likeness
import LoxLang.Proofs.Looping.Parsing
import LoxLang.Proofs.Looping.Running
import LoxLang.Proofs.Looping.Session
import LoxLang.Proofs.Looping.Sharing
import LoxLang.Proofs.Looping.Tree
import LoxLang.Proofs.Number.Numeral
import LoxLang.Proofs.Number.Packing
import LoxLang.Proofs.Number.Printing
import LoxLang.Proofs.Number.Reading
import LoxLang.Proofs.Number.Rounding
import LoxLang.Proofs.Number.Shortest
import LoxLang.Proofs.Number.Writing
import LoxLang.Proofs.Outline.Constant
import LoxLang.Proofs.Outline.Determined
import LoxLang.Proofs.Outline.Naming
import LoxLang.Proofs.Outline.Sketch
import LoxLang.Proofs.Outline.Spelling
import LoxLang.Proofs.Outline.Text
import LoxLang.Proofs.Outline.Tree
import LoxLang.Proofs.Parser.Beginning
import LoxLang.Proofs.Parser.Boundary
import LoxLang.Proofs.Parser.Declaration
import LoxLang.Proofs.Parser.Expression
import LoxLang.Proofs.Parser.Grammar
import LoxLang.Proofs.Parser.Names
import LoxLang.Proofs.Parser.Phrase
import LoxLang.Proofs.Parser.Program
import LoxLang.Proofs.Parser.Progress
import LoxLang.Proofs.Parser.Recognition
import LoxLang.Proofs.Parser.Recovery
import LoxLang.Proofs.Parser.Resumption
import LoxLang.Proofs.Parser.RoundTrip
import LoxLang.Proofs.Return.Activation
import LoxLang.Proofs.Return.Agreement
import LoxLang.Proofs.Return.Throwing
import LoxLang.Proofs.Rewording.Below
import LoxLang.Proofs.Rewording.Binding
import LoxLang.Proofs.Rewording.Heap
import LoxLang.Proofs.Rewording.Locals
import LoxLang.Proofs.Rewording.Parsing
import LoxLang.Proofs.Rewording.Pieces
import LoxLang.Proofs.Rewording.Respelling
import LoxLang.Proofs.Rewording.Running
import LoxLang.Proofs.Rewording.Session
import LoxLang.Proofs.Rewording.Variable
import LoxLang.Proofs.Run.Assignment
import LoxLang.Proofs.Run.Change
import LoxLang.Proofs.Run.Construction
import LoxLang.Proofs.Run.Deed
import LoxLang.Proofs.Run.Discipline
import LoxLang.Proofs.Run.Division
import LoxLang.Proofs.Run.Forest
import LoxLang.Proofs.Run.Globals
import LoxLang.Proofs.Run.Heap
import LoxLang.Proofs.Run.History
import LoxLang.Proofs.Run.Inventory
import LoxLang.Proofs.Run.Lasting
import LoxLang.Proofs.Run.Lexical
import LoxLang.Proofs.Run.Mirror
import LoxLang.Proofs.Run.Order
import LoxLang.Proofs.Run.Parts
import LoxLang.Proofs.Run.Receiver
import LoxLang.Proofs.Run.Resolution
import LoxLang.Proofs.Run.Safety
import LoxLang.Proofs.Run.Sound
import LoxLang.Proofs.Run.Task
import LoxLang.Proofs.Run.Unfolding
import LoxLang.Proofs.Run.Upkeep
import LoxLang.Proofs.Scope.Binding
import LoxLang.Proofs.Scope.Clean
import LoxLang.Proofs.Scope.Composition
import LoxLang.Proofs.Scope.Distinct
import LoxLang.Proofs.Scope.Illegal
import LoxLang.Proofs.Scope.Mention
import LoxLang.Proofs.Scope.Place
import LoxLang.Proofs.Scope.Spot
import LoxLang.Proofs.Scope.Table
import LoxLang.Proofs.Scope.Tidy
import LoxLang.Proofs.Scope.Traversal
import LoxLang.Proofs.Source.Lookahead
import LoxLang.Proofs.Source.Passing
import LoxLang.Proofs.Source.Reading
import LoxLang.Proofs.Token.Blotting
import LoxLang.Proofs.Token.Following
import LoxLang.Proofs.Token.Lexeme
import LoxLang.Proofs.Token.Partition
import LoxLang.Proofs.Token.Place
import LoxLang.Proofs.Token.Rendering
import LoxLang.Proofs.Token.Scanning
import LoxLang.Session.Basic
import LoxLang.Session.Event
import LoxLang.Source.Cursor
import LoxLang.Source.Reader
import LoxLang.Text.DecimalDigit
import LoxLang.Text.Loose
import LoxLang.Text.Printable
import LoxLang.Text.Quoted
import LoxLang.Token.Basic
import LoxLang.Token.Scanner
