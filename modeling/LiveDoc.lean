import LiveDoc.Binary64.Basic
import LiveDoc.Binary64.Round
import LiveDoc.Binary64.Shortest
import LiveDoc.Binary64.Text
import LiveDoc.CommandLine.Options
import LiveDoc.CommandLine.Run
import LiveDoc.Configuration
import LiveDoc.Constraint.Basic
import LiveDoc.Constraint.Check
import LiveDoc.Constraint.Entry
import LiveDoc.Declaration.Attribute
import LiveDoc.Declaration.Class
import LiveDoc.Declaration.Error
import LiveDoc.Declaration.Module
import LiveDoc.Declaration.Order
import LiveDoc.File
import LiveDoc.FileTree
import LiveDoc.Identifier
import LiveDoc.Json.Basic
import LiveDoc.Json.Literal
import LiveDoc.Json.Reader
import LiveDoc.Json.Token
import LiveDoc.Live.Attribute
import LiveDoc.Live.Check
import LiveDoc.Live.Class
import LiveDoc.Live.Construct
import LiveDoc.Live.Equality
import LiveDoc.Live.Error
import LiveDoc.Live.Module
import LiveDoc.Live.Text
import LiveDoc.Live.ToJson
import LiveDoc.Live.Value
import LiveDoc.Loader.Document
import LiveDoc.Loader.Import
import LiveDoc.Loader.Search
import LiveDoc.Loader.System
import LiveDoc.Main
import LiveDoc.Program.Basic
import LiveDoc.Program.Constant
import LiveDoc.Program.Listing
import LiveDoc.Program.OfModule
import LiveDoc.Proofs.ParentOrder
import LiveDoc.Proofs.Traversal
import LiveDoc.Table
import LiveDoc.Template.Basic
import LiveDoc.Template.Reader
import LiveDoc.Template.Render
import LiveDoc.Text.Alphanumeric
import LiveDoc.Text.Numeral
import LiveDoc.Text.Printable
import LiveDoc.Text.Quoted
import LiveDoc.Text.Split
import LiveDoc.Proofs.TopLevel
import LiveDoc.Proofs.Reading
import LiveDoc.Proofs.Linking
import LiveDoc.Proofs.Validation
import LiveDoc.Proofs.Fields
import LiveDoc.Proofs.Construction
import LiveDoc.Proofs.Ancestry
import LiveDoc.Proofs.CallTemplate
import LiveDoc.Proofs.CanonicalTemplate
import LiveDoc.Proofs.WellFormed
import LiveDoc.Proofs.Acceptance
import LiveDoc.Proofs.Places
import LiveDoc.Proofs.Evolution
import LiveDoc.Proofs.Phases
import LiveDoc.Proofs.Rendering
import LiveDoc.Proofs.Freshness
import LiveDoc.Proofs.Loading
import LiveDoc.Proofs.LinkFaults
import LiveDoc.Proofs.Dialects
import LiveDoc.Proofs.Correspondence
import LiveDoc.Proofs.Keywords
import LiveDoc.Proofs.Relocation
import LiveDoc.Proofs.Renewal
import LiveDoc.Proofs.FoundRecord
import LiveDoc.Proofs.NominalKinds
import LiveDoc.Proofs.EntryMeaning
import LiveDoc.Proofs.ModuleNames
import LiveDoc.Proofs.Literals
import LiveDoc.Proofs.RoundTrip
import LiveDoc.Proofs.Answers
import LiveDoc.Proofs.Outliving
import LiveDoc.Proofs.ParentsFirst
import LiveDoc.Proofs.DeclarationOrder
import LiveDoc.Proofs.Assignments
import LiveDoc.Proofs.LostArguments
import LiveDoc.Proofs.Defaults
import LiveDoc.Proofs.LinkedPrograms
import LiveDoc.Proofs.SharedAttributes
import LiveDoc.Proofs.DefaultText
import LiveDoc.Proofs.NearestDouble
import LiveDoc.Proofs.ShortLiterals
import LiveDoc.Proofs.IntegerRanges
import LiveDoc.Proofs.Equality
import LiveDoc.Proofs.EqualityChains
import LiveDoc.Proofs.WholeNumbers
import LiveDoc.Proofs.HeldRanges
import LiveDoc.Proofs.JsonForms
import LiveDoc.Proofs.ConstantText
import LiveDoc.Proofs.NumberText
import LiveDoc.Proofs.TextKinds
import LiveDoc.Proofs.Probing
import LiveDoc.Proofs.Settings
import LiveDoc.Proofs.Cycles
import LiveDoc.Proofs.Arguments
import LiveDoc.Proofs.SuffixOptions
