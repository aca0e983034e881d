import Stencil.Alias
import Stencil.Chain
import Stencil.CommandLine.Arguments
import Stencil.CommandLine.Run
import Stencil.Config
import Stencil.Config.Decode
import Stencil.Config.Load
import Stencil.Corpus
import Stencil.Cursor
import Stencil.Data.Json
import Stencil.Data.Toml.Digits
import Stencil.Data.Toml.Document
import Stencil.Data.Toml.Item
import Stencil.Data.Toml.Moment
import Stencil.Data.Toml.Quoted
import Stencil.Data.Toml.Scalar
import Stencil.Data.Value
import Stencil.Engine
import Stencil.Error
import Stencil.Family
import Stencil.Files
import Stencil.Format
import Stencil.Main
import Stencil.Mode
import Stencil.Path
import Stencil.Proofs.Sequence.Cross
import Stencil.Proofs.Sequence.Lockstep
import Stencil.Random.ChaCha
import Stencil.Random.Generator
import Stencil.Region
import Stencil.Roster
import Stencil.Sequence
import Stencil.State
import Stencil.Strategy
import Stencil.Substitution
import Stencil.Template
import Stencil.Text.Blank
import Stencil.Text.Casing
import Stencil.Text.Casing.Mapping
import Stencil.Text.Casing.Property
import Stencil.Text.Lines
import Stencil.Text.Search
import Stencil.TextOp
import Stencil.Transform
import Stencil.Wordlist
import Stencil.Workbench
import Stencil.Proofs.Except
import Stencil.Proofs.Markup.Document
import Stencil.Proofs.Markup.Scan
import Stencil.Proofs.Markup.Heading
import Stencil.Proofs.Markup.Draws
import Stencil.Proofs.Markup.Rounds
import Stencil.Proofs.Markup.Parse
import Stencil.Proofs.Markup.Holes
import Stencil.Proofs.Markup.Render
import Stencil.Proofs.Sequence.Ending
import Stencil.Proofs.Sequence.Turns
import Stencil.Proofs.Markup.Splice
import Stencil.Proofs.Markup.Leftover
import Stencil.Proofs.Markup.Unclosed
import Stencil.Proofs.Markup.Bystander
import Stencil.Proofs.Sequence.Holding
import Stencil.Proofs.Engine.Run
import Stencil.Proofs.Engine.Output
import Stencil.Proofs.Markup.Vanish
import Stencil.Proofs.Engine.Leak
import Stencil.Proofs.Engine.Ending
import Stencil.Proofs.Transform.Elements
import Stencil.Proofs.Transform.Independence
import Stencil.Proofs.Transform.Reading
import Stencil.Proofs.Sequence.Dealing
import Stencil.Proofs.Sequence.Combinations
import Stencil.Proofs.Engine.Emissions
import Stencil.Proofs.Engine.Counting
import Stencil.Proofs.Engine.Shuffling
import Stencil.Proofs.Sequence.Completeness
import Stencil.Proofs.Sequence.Simulation
import Stencil.Proofs.Engine.Labels
import Stencil.Proofs.CommandLine.Records
import Stencil.Proofs.Engine.History
import Stencil.Proofs.CommandLine.Limit
import Stencil.Proofs.Transform.Ranges
import Stencil.Proofs.Transform.Edits
import Stencil.Proofs.Markup.Sharing
import Stencil.Proofs.Markup.Refusal
import Stencil.Proofs.Sequence.Leftovers
import Stencil.Proofs.Transform.Placeholders
import Stencil.Proofs.Transform.Registry
import Stencil.Proofs.Config.Building
import Stencil.Proofs.Engine.Reordering
import Stencil.Proofs.Engine.Preview
import Stencil.Proofs.Sequence.Restarts
import Stencil.Proofs.Text.Words
import Stencil.Proofs.Text.Keywords
import Stencil.Proofs.Text.Bytes
import Stencil.Proofs.Markup.Offsets
