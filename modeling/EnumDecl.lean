import EnumDecl.Enumeration.History
import EnumDecl.Identifier.Shape
import EnumDecl.Main
import EnumDecl.Source.Normal
import EnumDecl.Source.Scan
import EnumDecl.Value.Form
import EnumDecl.Proofs.Decimal
import EnumDecl.Proofs.Name
import EnumDecl.Proofs.Suffix
import EnumDecl.Proofs.Adding
import EnumDecl.Proofs.Equality
import EnumDecl.Proofs.Sameness
import EnumDecl.Proofs.Invariant
import EnumDecl.Proofs.Codec
import EnumDecl.Proofs.Rebuild
import EnumDecl.Proofs.Settling
import EnumDecl.Proofs.Floating
import EnumDecl.Proofs.FloatText
import EnumDecl.Proofs.Json.Number
import EnumDecl.Proofs.Json.Text
import EnumDecl.Proofs.Data
import EnumDecl.Proofs.Json.Value
import EnumDecl.Proofs.Reread
import EnumDecl.Proofs.Redump
import EnumDecl.Proofs.Json.RoundTrip
import EnumDecl.Proofs.Source.Outline
import EnumDecl.Proofs.Source.Quotation
import EnumDecl.Proofs.Source.Literal
import EnumDecl.Proofs.Source.Spelling
import EnumDecl.Proofs.Source.Layout
import EnumDecl.Proofs.Source.Containment
import EnumDecl.Proofs.Granted
import EnumDecl.Proofs.Source.Growth
import EnumDecl.Proofs.Source.WellFormed
import EnumDecl.Proofs.Source.Lines
import EnumDecl.Proofs.Source.Reading
import EnumDecl.Proofs.OneLine
import EnumDecl.Proofs.Source.Relayout
import EnumDecl.Proofs.Source.Determined
import EnumDecl.Proofs.FileTree
import EnumDecl.Proofs.Source.Faults
import EnumDecl.Proofs.Saving
import EnumDecl.Proofs.Deciding
import EnumDecl.Proofs.Renaming
import EnumDecl.Proofs.Batch
import EnumDecl.Proofs.Policy
import EnumDecl.Proofs.Yaml.Character
import EnumDecl.Proofs.Yaml.Double
import EnumDecl.Proofs.Yaml.Runs
import EnumDecl.Proofs.Yaml.Plain
import EnumDecl.Proofs.Yaml.Single
import EnumDecl.Proofs.Yaml.Number
import EnumDecl.Proofs.Yaml.Float
import EnumDecl.Proofs.Yaml.Scan
import EnumDecl.Proofs.Yaml.Token
import EnumDecl.Proofs.Yaml.Part
import EnumDecl.Proofs.Yaml.Written
import EnumDecl.Proofs.Yaml.Carried
import EnumDecl.Proofs.Yaml.Library
import EnumDecl.Proofs.Yaml.RoundTrip
import EnumDecl.Proofs.Naming
import EnumDecl.Proofs.Exact
import EnumDecl.Proofs.Capped
import EnumDecl.Proofs.Numbering
import EnumDecl.Proofs.Chain
import EnumDecl.Proofs.Source.Verbatim
import EnumDecl.Proofs.Reporting
import EnumDecl.Proofs.Source.Nesting
