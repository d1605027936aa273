import ClusterConfig.Cluster.Basic
import ClusterConfig.Cluster.Loading
import ClusterConfig.Cluster.Merge
import ClusterConfig.Cluster.Printing
import ClusterConfig.Cluster.Reading
import ClusterConfig.CommandLine.Inputs
import ClusterConfig.CommandLine.Options
import ClusterConfig.CommandLine.Outcome
import ClusterConfig.CommandLine.Request
import ClusterConfig.Commands
import ClusterConfig.Decimal.Binary64
import ClusterConfig.Decimal.Shortest
import ClusterConfig.Documents.Reading
import ClusterConfig.Encryption.Decryptor
import ClusterConfig.Encryption.Envelope
import ClusterConfig.Encryption.Program
import ClusterConfig.Files.Path
import ClusterConfig.Files.Tree
import ClusterConfig.Json.Basic
import ClusterConfig.Json.MergePatch
import ClusterConfig.Json.Patch
import ClusterConfig.Json.Path
import ClusterConfig.Json.Pointer
import ClusterConfig.Json.Printer
import ClusterConfig.Json.Reader
import ClusterConfig.Json.StrategicMerge
import ClusterConfig.Labels
import ClusterConfig.Machine.Base
import ClusterConfig.Machine.Synthesis
import ClusterConfig.Main
import ClusterConfig.Members
import ClusterConfig.Network.Address
import ClusterConfig.Network.DnsName
import ClusterConfig.Network.International
import ClusterConfig.Network.Range
import ClusterConfig.Network.Url
import ClusterConfig.Output.ClientConfig
import ClusterConfig.Output.Compilation
import ClusterConfig.Output.IgnoreFile
import ClusterConfig.Patch.Application
import ClusterConfig.Patch.LooseOp
import ClusterConfig.Patch.Reference
import ClusterConfig.Patch.ReferencePaths
import ClusterConfig.Patch.Shape
import ClusterConfig.Secrets.Bundle
import ClusterConfig.Template.Builtins.Arguments
import ClusterConfig.Template.Builtins.Filters
import ClusterConfig.Template.Builtins.Functions
import ClusterConfig.Template.Builtins.Lists
import ClusterConfig.Template.Builtins.Numbers
import ClusterConfig.Template.Builtins.Tests
import ClusterConfig.Template.Builtins.Texts
import ClusterConfig.Template.Evaluation
import ClusterConfig.Template.Expression
import ClusterConfig.Template.Fields
import ClusterConfig.Template.Normal
import ClusterConfig.Template.Operators
import ClusterConfig.Template.Reading.Expressions
import ClusterConfig.Template.Reading.Statements
import ClusterConfig.Template.Token
import ClusterConfig.Template.Value
import ClusterConfig.Text.Base64
import ClusterConfig.Text.Blank
import ClusterConfig.Text.Case
import ClusterConfig.Text.Comment
import ClusterConfig.Text.Digits
import ClusterConfig.Text.Lines
import ClusterConfig.Text.Printable
import ClusterConfig.Text.Quoted
import ClusterConfig.Text.Search
import ClusterConfig.Validation.Cluster
import ClusterConfig.Validation.Endpoint
import ClusterConfig.Validation.Issue
import ClusterConfig.Validation.Settings
import ClusterConfig.Variables.Bindings
import ClusterConfig.Variables.EnvFile
import ClusterConfig.Variables.Expansion
import ClusterConfig.Version.Contract
import ClusterConfig.Version.Semantic
import ClusterConfig.Version.Support
import ClusterConfig.Yaml.Cursor
import ClusterConfig.Yaml.Document
import ClusterConfig.Yaml.Encoding
import ClusterConfig.Yaml.Graph
import ClusterConfig.Yaml.Node
import ClusterConfig.Yaml.Plain
import ClusterConfig.Yaml.Printer
import ClusterConfig.Yaml.Scalar
import ClusterConfig.Yaml.Source
import ClusterConfig.Yaml.Token
import ClusterConfig.Yaml.TokenStream
import ClusterConfig.Yaml.Value
import ClusterConfig.Yaml.Writing
import ClusterConfig.Proofs.Documents.Members
import ClusterConfig.Proofs.Documents.Unordered
import ClusterConfig.Proofs.Documents.Places
import ClusterConfig.Proofs.Nodes.Isolation
import ClusterConfig.Proofs.Patches.Edits
import ClusterConfig.Proofs.Patches.Moves
import ClusterConfig.Proofs.Patches.Inverses
import ClusterConfig.Proofs.Patches.Atomicity
import ClusterConfig.Proofs.Patches.Conversion
import ClusterConfig.Proofs.Patches.Checked
import ClusterConfig.Proofs.Patches.Strategic
import ClusterConfig.Proofs.Patches.KeyedLists
import ClusterConfig.Proofs.Patches.KeyedItems
import ClusterConfig.Proofs.Patches.Directives
import ClusterConfig.Proofs.Patches.KeyedMerge
import ClusterConfig.Proofs.Patches.Repeated
import ClusterConfig.Proofs.Patches.MergePatches
import ClusterConfig.Proofs.Validation.MergedSettings
import ClusterConfig.Proofs.Validation.Kinds
import ClusterConfig.Proofs.Validation.Conflicts
import ClusterConfig.Proofs.Validation.RepeatedNames
import ClusterConfig.Proofs.Decimal.Rounding
import ClusterConfig.Proofs.Yaml.Scanning
import ClusterConfig.Proofs.Yaml.PlainText
import ClusterConfig.Proofs.Yaml.QuotedText
import ClusterConfig.Proofs.Yaml.LiteralText
import ClusterConfig.Proofs.Yaml.Strings
import ClusterConfig.Proofs.Yaml.Numerals
import ClusterConfig.Proofs.Yaml.Layout
import ClusterConfig.Proofs.Yaml.DocumentTokens
import ClusterConfig.Proofs.Yaml.Composing
import ClusterConfig.Proofs.Yaml.RoundTrip
import ClusterConfig.Proofs.Variables.Expressions
import ClusterConfig.Proofs.Variables.Table
import ClusterConfig.Proofs.Variables.Kept
import ClusterConfig.Proofs.Text.StrippedLines
import ClusterConfig.Proofs.Variables.Places
import ClusterConfig.Proofs.Yaml.StrippedDocuments
import ClusterConfig.Proofs.Output.Confined
import ClusterConfig.Proofs.Nodes.EmittedLabels
import ClusterConfig.Proofs.Nodes.CheckedTemplates
import ClusterConfig.Proofs.Validation.CheckedValues
import ClusterConfig.Proofs.Nodes.CompiledClusters
import ClusterConfig.Proofs.Output.ChangedFiles
import ClusterConfig.Proofs.Output.Generation
import ClusterConfig.Proofs.Output.KeptCredentials
import ClusterConfig.Proofs.Yaml.WrittenNodes
import ClusterConfig.Proofs.Output.StableCredentials
import ClusterConfig.Proofs.Cluster.Layers
import ClusterConfig.Proofs.Cluster.Precedence
import ClusterConfig.Proofs.Labels.QualifiedNames
import ClusterConfig.Proofs.Network.DnsNames
import ClusterConfig.Proofs.Network.Octets
import ClusterConfig.Proofs.Commands.Selection
import ClusterConfig.Proofs.CommandLine.UnnamedOptions
import ClusterConfig.Proofs.Commands.References
import ClusterConfig.Proofs.Yaml.TypedData
import ClusterConfig.Proofs.Cluster.WrittenFields
import ClusterConfig.Proofs.Cluster.RoundTrip
import ClusterConfig.Proofs.Patches.OneByOne
import ClusterConfig.Proofs.Nodes.SharedIdentity
import ClusterConfig.Proofs.Nodes.TemplatedTaints
import ClusterConfig.Proofs.Nodes.InstallTarget
import ClusterConfig.Proofs.Patches.ReferencePlaces
import ClusterConfig.Proofs.Text.StableStripping
import ClusterConfig.Proofs.Variables.Composition
import ClusterConfig.Proofs.Text.Parts
import ClusterConfig.Proofs.Variables.EntryLines
import ClusterConfig.Proofs.Variables.Sources
import ClusterConfig.Proofs.Variables.WrittenValues
import ClusterConfig.Proofs.Version.Contracts
import ClusterConfig.Proofs.Network.Ranges
import ClusterConfig.Proofs.Validation.Endpoints
import ClusterConfig.Proofs.Templates.FieldDots
import ClusterConfig.Proofs.Output.IgnoreFiles
import ClusterConfig.Proofs.Validation.ElementPaths
import ClusterConfig.Proofs.Validation.ReportedElements
import ClusterConfig.Proofs.Documents.MemberPaths
