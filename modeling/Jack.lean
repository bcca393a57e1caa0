import Jack.Main
import Jack.Vm.Decode
import Jack.Proofs.Grammar.Rules
import Jack.Proofs.Grammar.Code
import Jack.Proofs.Grammar.Script
import Jack.Proofs.Parse.Complete
import Jack.Proofs.Parse.Sound
import Jack.Proofs.Compile.Kinds
import Jack.Proofs.Compile.Effect
import Jack.Proofs.Compile.Statements
import Jack.Proofs.Compile.Classes
import Jack.Proofs.Grammar.Unique
import Jack.Proofs.Compile.Translation
import Jack.Proofs.Vm.Balance
import Jack.Proofs.Grammar.Meaning
import Jack.Proofs.Vm.Execution
import Jack.Proofs.Compile.Preservation
import Jack.Proofs.Parse.Prefix
import Jack.Proofs.Compile.Mismatch
import Jack.Proofs.Source.Window
import Jack.Proofs.Vm.Segments
import Jack.Proofs.Token.Tokenization
import Jack.Proofs.Compile.Names
import Jack.Proofs.Vm.RoundTrip
import Jack.Proofs.Vm.Control
import Jack.Proofs.Compile.Numbering
import Jack.Proofs.Compile.Independence
import Jack.Proofs.Symbol.History
import Jack.Proofs.Compile.Recording
import Jack.Proofs.Compile.Terminals
import Jack.Proofs.Token.Layout
import Jack.Proofs.Compile.Dependence
import Jack.Proofs.Compile.Excerpt
import Jack.Proofs.Command.Schedule
import Jack.Proofs.Token.Junction
import Jack.Proofs.Vm.Linewise
import Jack.Proofs.Vm.NormalForm
import Jack.Proofs.Compile.Options
import Jack.Proofs.Token.Markup
import Jack.Proofs.Command.Files
import Jack.Proofs.Command.Stream
import Jack.Proofs.Command.Directory
import Jack.Proofs.Compile.Caret
import Jack.Proofs.Token.Integers
import Jack.Proofs.Source.Cursor
import Jack.Proofs.Token.Characters
import Jack.Proofs.Token.Indexed
