import MarkerLex.Main
import MarkerLex.Token.Json
import MarkerLex.Config.Json
import MarkerLex.Proofs.Reading
import MarkerLex.Proofs.Run
import MarkerLex.Proofs.PullOrder
import MarkerLex.Proofs.Plain
import MarkerLex.Proofs.Comment
import MarkerLex.Proofs.StringLiteral
import MarkerLex.Proofs.TextStep
import MarkerLex.Proofs.Coverage
import MarkerLex.Proofs.Lawful
import MarkerLex.Proofs.Decoding
import MarkerLex.Proofs.Stripped
import MarkerLex.Proofs.ByteSource
import MarkerLex.Proofs.Escapes
import MarkerLex.Proofs.Nesting
import MarkerLex.Proofs.Unsettled
import MarkerLex.Proofs.CutOff
import MarkerLex.Proofs.PrefixStability
import MarkerLex.Proofs.Requests
import MarkerLex.Proofs.Composition
import MarkerLex.Proofs.Leniency
import MarkerLex.Proofs.HandOver
import MarkerLex.Proofs.Rejoining
import MarkerLex.Proofs.Json.Values
import MarkerLex.Proofs.Json.Blocks
import MarkerLex.Proofs.Json.RoundTrip
import MarkerLex.Proofs.Shadowing
import MarkerLex.Proofs.Alike
import MarkerLex.Proofs.Beginnings
import MarkerLex.Proofs.Closable
import MarkerLex.Proofs.Matching
import MarkerLex.Proofs.NestingLimit
import MarkerLex.Proofs.CommentLevels
import MarkerLex.Proofs.CommentTree
import MarkerLex.Proofs.StepBound
import MarkerLex.Proofs.Conservation
import MarkerLex.Proofs.TreeReading
import MarkerLex.Proofs.Offsets
import MarkerLex.Proofs.Lines
import MarkerLex.Proofs.Context
import MarkerLex.Proofs.Pointing
import MarkerLex.Proofs.Quoting
import MarkerLex.Proofs.TokenLine
import MarkerLex.Proofs.Output
import MarkerLex.Proofs.Advancing
import MarkerLex.Proofs.Measures
import MarkerLex.Proofs.Events
