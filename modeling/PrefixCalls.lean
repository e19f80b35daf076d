import PrefixCalls.CommandLine.Command
import PrefixCalls.CommandLine.Outcome
import PrefixCalls.CommandLine.Request
import PrefixCalls.Compilation
import PrefixCalls.Diagnostic
import PrefixCalls.Grammar
import PrefixCalls.Json.Basic
import PrefixCalls.Json.Encode
import PrefixCalls.Main
import PrefixCalls.Proofs.Alike
import PrefixCalls.Proofs.Arguments
import PrefixCalls.Proofs.Bytes
import PrefixCalls.Proofs.Caret
import PrefixCalls.Proofs.CaretColumn
import PrefixCalls.Proofs.Channels
import PrefixCalls.Proofs.Concatenation
import PrefixCalls.Proofs.Cursor
import PrefixCalls.Proofs.Decoding
import PrefixCalls.Proofs.EarliestRefusal
import PrefixCalls.Proofs.Envelope
import PrefixCalls.Proofs.Extension
import PrefixCalls.Proofs.JsonLayout
import PrefixCalls.Proofs.JsonReader
import PrefixCalls.Proofs.JsonRoundTrip
import PrefixCalls.Proofs.LaidOver
import PrefixCalls.Proofs.Layout
import PrefixCalls.Proofs.Legality
import PrefixCalls.Proofs.LongestLexeme
import PrefixCalls.Proofs.Messages
import PrefixCalls.Proofs.MisplacedStatement
import PrefixCalls.Proofs.Nesting
import PrefixCalls.Proofs.Reading
import PrefixCalls.Proofs.Relayout
import PrefixCalls.Proofs.Results
import PrefixCalls.Proofs.Shaping
import PrefixCalls.Proofs.Snapshots
import PrefixCalls.Proofs.Stages
import PrefixCalls.Proofs.Symbols
import PrefixCalls.Proofs.Tiling
import PrefixCalls.Proofs.Trace
import PrefixCalls.Proofs.Truth
import PrefixCalls.Proofs.Words
import PrefixCalls.Source.Basic
import PrefixCalls.Source.Read
import PrefixCalls.Target.Basic
import PrefixCalls.Target.Write
import PrefixCalls.Text
import PrefixCalls.Token.Basic
import PrefixCalls.Token.Scan
