import MailMerge.Text.Quoted
import MailMerge.Text.Blank
import MailMerge.Text.Digit
import MailMerge.Text.Identifier
import MailMerge.Text.LowerCase
import MailMerge.Text.Xml
import MailMerge.Number.Decimal
import MailMerge.Number.Binary64
import MailMerge.Calendar.Moment
import MailMerge.Calendar.Reading
import MailMerge.Value
import MailMerge.Phrase
import MailMerge.Placeholder.Grammar
import MailMerge.Document.Walk
import MailMerge.Storage.FileSystem
import MailMerge.Storage.Script
import MailMerge.DataMap
import MailMerge.Document.Splice
import MailMerge.Document.Filling
import MailMerge.Digest.Sha256
import MailMerge.Symbol.Drawing
import MailMerge.Cache.AssetCache
import MailMerge.Cache.Provision
import MailMerge.Record.Host
import MailMerge.Record.Settings
import MailMerge.Record.Request
import MailMerge.Resolution.Engine
import MailMerge.Generation.Generator
import MailMerge.Json.Reader
import MailMerge.Record.Schema
import MailMerge.CommandLine.Run
import MailMerge.Main
import MailMerge.Proofs.Placeholder.Piece
import MailMerge.Proofs.Placeholder.Substitution
import MailMerge.Proofs.Document.Splicing
import MailMerge.Proofs.Placeholder.Token
import MailMerge.Proofs.Document.Injection
import MailMerge.Proofs.Resolution.Keys
import MailMerge.Proofs.Resolution.Texts
import MailMerge.Proofs.Storage.Running
import MailMerge.Proofs.Resolution.Pictures
import MailMerge.Proofs.Storage.Locate
import MailMerge.Proofs.Resolution.Threading
import MailMerge.Proofs.Cache.Entries
import MailMerge.Proofs.Resolution.Idempotence
import MailMerge.Proofs.Cache.Confinement
import MailMerge.Proofs.Resolution.Confinement
import MailMerge.Proofs.Generation.Running
import MailMerge.Proofs.Generation.Scratch
import MailMerge.Proofs.Generation.Stages
import MailMerge.Proofs.Generation.Converting
import MailMerge.Proofs.Generation.Atomicity
import MailMerge.Proofs.Placeholder.Grammar
import MailMerge.Proofs.Calendar.Ordinal
import MailMerge.Proofs.Resolution.Written
import MailMerge.Proofs.Calendar.Zones
import MailMerge.Proofs.Calendar.Faults
import MailMerge.Proofs.Resolution.Answers
import MailMerge.Proofs.Cache.Keys
import MailMerge.Proofs.Cache.Keeping
import MailMerge.Proofs.Cache.Serving
import MailMerge.Proofs.Storage.Discipline
import MailMerge.Proofs.Cache.Sharing
import MailMerge.Proofs.Cache.Racing
import MailMerge.Proofs.Cache.Wholeness
import MailMerge.Proofs.Cache.Company
import MailMerge.Proofs.Cache.Asking
import MailMerge.Proofs.Cache.Minding
import MailMerge.Proofs.Spelling.Agreement
import MailMerge.Proofs.Spelling.Meaning
import MailMerge.Proofs.Number.Printing
import MailMerge.Proofs.Resolution.Legality
import MailMerge.Proofs.Generation.Faults
import MailMerge.Proofs.Generation.Template
import MailMerge.Proofs.Generation.Jobs
import MailMerge.Proofs.Generation.Phases
import MailMerge.Proofs.Generation.Concurrency
import MailMerge.Proofs.Document.Edits
import MailMerge.Proofs.Resolution.Secrecy
import MailMerge.Proofs.Document.Visits
import MailMerge.Proofs.Document.Reach
import MailMerge.Proofs.Document.Pictures
import MailMerge.Proofs.Document.Reading
import MailMerge.Proofs.Document.Placing
import MailMerge.Proofs.Document.Showing
import MailMerge.Proofs.Document.Lacking
import MailMerge.Proofs.Document.Links
import MailMerge.Proofs.CommandLine.Exits
import MailMerge.Proofs.Placeholder.Places
import MailMerge.Proofs.Resolution.Inline
import MailMerge.Proofs.Cache.Promises
import MailMerge.Proofs.Spelling.Fraction
import MailMerge.Proofs.Spelling.Refusal
import MailMerge.Proofs.Generation.Naming
import MailMerge.Proofs.Storage.Shedding
import MailMerge.Proofs.Cache.Sweeping
import MailMerge.Proofs.Cache.Pacing
import MailMerge.Proofs.Resolution.Symbols
import MailMerge.Proofs.Placeholder.Finding
import MailMerge.Proofs.Calendar.Localization
import MailMerge.Proofs.Calendar.Shapes
import MailMerge.Proofs.Calendar.Written
import MailMerge.Proofs.Calendar.IsoForm
import MailMerge.Proofs.Calendar.Rereading
import MailMerge.Proofs.Text.Within
import MailMerge.Proofs.Calendar.Characters
import MailMerge.Proofs.Placeholder.Expression
import MailMerge.Proofs.Resolution.Characters
import MailMerge.Proofs.Resolution.Embedded
import MailMerge.Proofs.Number.Nearest
import MailMerge.Proofs.Symbol.Drawing
import MailMerge.Proofs.Symbol.Sampling
import MailMerge.Proofs.Document.Order
import MailMerge.Proofs.Resolution.Images
