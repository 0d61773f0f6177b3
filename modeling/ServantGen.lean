import ServantGen.Text.Ascii
import ServantGen.Text.Split
import ServantGen.Text.Blank
import ServantGen.Text.Words
import ServantGen.Text.Numeral
import ServantGen.Power
import ServantGen.Double
import ServantGen.Json.Basic
import ServantGen.Json.Printer
import ServantGen.Json.Reader
import ServantGen.Http
import ServantGen.DataType
import ServantGen.Route
import ServantGen.Model
import ServantGen.Operation
import ServantGen.Api.Basic
import ServantGen.Naming.Convention
import ServantGen.Naming.Scope
import ServantGen.Target
import ServantGen.Naming.Book
import ServantGen.Schema
import ServantGen.Code
import ServantGen.Haskell.Lexical
import ServantGen.Document.Site
import ServantGen.Document.Pointer
import ServantGen.Document.Reading
import ServantGen.Diagnostic
import ServantGen.Lowering.State
import ServantGen.Lowering.Properties
import ServantGen.Lowering.Types
import ServantGen.Lowering.Models
import ServantGen.Lowering.Operations
import ServantGen.Lowering.Run
import ServantGen.Api.Encode
import ServantGen.Api.Decode
import ServantGen.Render.Template
import ServantGen.Render.Plan
import ServantGen.Haskell.TypeText
import ServantGen.Haskell.Package
import ServantGen.Haskell.Endpoint
import ServantGen.Haskell.ApiModule
import ServantGen.Haskell.Declaration
import ServantGen.Haskell.TypesModule
import ServantGen.Output.WrittenPath
import ServantGen.Output.FileTree
import ServantGen.Output.FileSystem
import ServantGen.Output.Sink
import ServantGen.Pipeline
import ServantGen.Generation
import ServantGen.Report.Basic
import ServantGen.Report.Check
import ServantGen.Report.Inspect
import ServantGen.Report.Generate
import ServantGen.Settings
import ServantGen.Yaml.Spot
import ServantGen.Yaml.Tag
import ServantGen.Yaml.Scalar
import ServantGen.Yaml.Token
import ServantGen.Yaml.Node
import ServantGen.Yaml.Value
import ServantGen.Document.Source
import ServantGen.Toml.Value
import ServantGen.Toml.Reader
import ServantGen.Settings.Reading
import ServantGen.Targets
import ServantGen.CommandLine.Arguments
import ServantGen.CommandLine.Help
import ServantGen.CommandLine.Run
import ServantGen.Main
import ServantGen.Proofs.Route.Steps
import ServantGen.Proofs.Lowering.Contract
import ServantGen.Proofs.Outcomes
import ServantGen.Proofs.Route.Fidelity
import ServantGen.Proofs.Closure.Inventory
import ServantGen.Proofs.Closure.Schemas
import ServantGen.Proofs.Closure.Api
import ServantGen.Proofs.Document.Sites
import ServantGen.Proofs.Lowering.Calls
import ServantGen.Proofs.Lowering.Agenda
import ServantGen.Proofs.Lowering.Termination
import ServantGen.Proofs.Building
import ServantGen.Proofs.Generation
import ServantGen.Proofs.Json.Keys
import ServantGen.Proofs.Lowering.Questions
import ServantGen.Proofs.Ledger.Namings
import ServantGen.Proofs.Ledger.Books
import ServantGen.Proofs.Ledger.Schemas
import ServantGen.Proofs.Ledger.Models
import ServantGen.Proofs.Ledger.Operations
import ServantGen.Proofs.Ledger.Api
import ServantGen.Proofs.Ledger.Order
import ServantGen.Proofs.Text.Characters
import ServantGen.Proofs.Code
import ServantGen.Proofs.Haskell.Packages
import ServantGen.Proofs.Haskell.Names
import ServantGen.Proofs.Haskell.Modules
import ServantGen.Proofs.Haskell.Files
import ServantGen.Proofs.Lowering.References
import ServantGen.Proofs.Haskell.Groups
import ServantGen.Proofs.Haskell.UrlInstances
import ServantGen.Proofs.Haskell.UrlTypes
import ServantGen.Proofs.Haskell.Lexemes
import ServantGen.Proofs.Haskell.Phrases
import ServantGen.Proofs.Haskell.Words
import ServantGen.Proofs.Haskell.Tokens
import ServantGen.Proofs.Haskell.Handlers
import ServantGen.Proofs.Haskell.Declarations
import ServantGen.Proofs.Haskell.ReadableModule
import ServantGen.Proofs.Haskell.ApiLines
import ServantGen.Proofs.Haskell.Server
import ServantGen.Proofs.Haskell.Spelling
import ServantGen.Proofs.Haskell.Literals
import ServantGen.Proofs.Haskell.HandedNames
import ServantGen.Proofs.Haskell.WrittenLines
import ServantGen.Proofs.Haskell.Imports
import ServantGen.Proofs.Haskell.TypeDeclarations
import ServantGen.Proofs.Haskell.TypesText
import ServantGen.Proofs.Haskell.TypeReaders
import ServantGen.Proofs.Haskell.FieldLabels
import ServantGen.Proofs.Haskell.TypeScope
import ServantGen.Proofs.Haskell.CapturedNames
import ServantGen.Proofs.Haskell.SharedNames
import ServantGen.Proofs.Haskell.InterfaceTypes
import ServantGen.Proofs.Haskell.EnumTexts
import ServantGen.Proofs.Lowering.TwoRuns
import ServantGen.Proofs.Lowering.Appending
import ServantGen.Proofs.Renaming.Operations
import ServantGen.Proofs.Document.Chains
import ServantGen.Proofs.Lowering.InlineDepth
import ServantGen.Proofs.Haskell.Documentation
import ServantGen.Proofs.Output.Writing
import ServantGen.Proofs.Report.Preview
import ServantGen.Proofs.Document.Addresses
import ServantGen.Proofs.Document.Overrides
import ServantGen.Proofs.Lowering.Thorough
import ServantGen.Proofs.Lowering.LeftOut
import ServantGen.Proofs.Lowering.Flattening
import ServantGen.Proofs.Route.NormalForm
import ServantGen.Proofs.Lowering.Optionality
import ServantGen.Proofs.Lowering.Unions
import ServantGen.Proofs.Haskell.UnionTags
import ServantGen.Proofs.Lowering.SinglePart
import ServantGen.Proofs.Models.Reachability
import ServantGen.Proofs.Api.TagGroups
import ServantGen.Proofs.Haskell.StringLiterals
import ServantGen.Proofs.Haskell.TypeSyntax
import ServantGen.Proofs.Text.Numerals
import ServantGen.Proofs.Naming.Requests
import ServantGen.Proofs.Haskell.Identifiers
import ServantGen.Proofs.Lowering.Statuses
import ServantGen.Proofs.Haskell.PackageHeader
import ServantGen.Proofs.Haskell.Comments
import ServantGen.Proofs.Naming.Casings
import ServantGen.Proofs.Naming.Histories
import ServantGen.Proofs.Output.Containment
import ServantGen.Proofs.Haskell.TypesLayout
