import PatternPool.Text.Blank
import PatternPool.Text.Utf8
import PatternPool.Text.Cut
import PatternPool.Rule
import PatternPool.Json.Reader
import PatternPool.Json.Printer
import PatternPool.Disk
import PatternPool.ValueFile
import PatternPool.Random.Source
import PatternPool.Random.Uniform
import PatternPool.Report
import PatternPool.Config.Json
import PatternPool.Session
import PatternPool.Config.Toml
import PatternPool.Main
import PatternPool.Proofs.Rule.RoundTrip
import PatternPool.Proofs.Draw.Language
import PatternPool.Proofs.Draw.Checked
import PatternPool.Proofs.Draw.Limit
import PatternPool.Proofs.Draw.Agreement
import PatternPool.Proofs.Draw.Location
import PatternPool.Proofs.Draw.Kinds
import PatternPool.Proofs.Rule.Faults
import PatternPool.Proofs.Rule.Prefixes
import PatternPool.Proofs.Draw.Loads
import PatternPool.Proofs.Session.Snapshot
import PatternPool.Proofs.Session.History
import PatternPool.Proofs.Rule.Seam
import PatternPool.Proofs.Draw.Concatenation
import PatternPool.Proofs.Config
import PatternPool.Proofs.Draw.Reachable
import PatternPool.Proofs.Draw.Uniform
import PatternPool.Proofs.Text.Utf8
import PatternPool.Proofs.Draw.Dangling
import PatternPool.Proofs.Text.Decoding
import PatternPool.Proofs.Text.Lines
import PatternPool.Proofs.ValueFile.Text
import PatternPool.Proofs.ValueFile.Layout
import PatternPool.Proofs.Registry.Build
import PatternPool.Proofs.Json.Grammar
import PatternPool.Proofs.Json.Numeral
import PatternPool.Proofs.Json.Strings
import PatternPool.Proofs.Json.Lexing
import PatternPool.Proofs.Json.Reading
import PatternPool.Proofs.Json.Printing
import PatternPool.Proofs.ValueFile.Json
import PatternPool.Proofs.Config.Build
import PatternPool.Proofs.Draw.Sampled
import PatternPool.Proofs.Session.Batch
import PatternPool.Proofs.CommandLine
import PatternPool.Proofs.Path
import PatternPool.Proofs.Config.Format
import PatternPool.Proofs.Config.Document
import PatternPool.Proofs.Config.RoundTrip
