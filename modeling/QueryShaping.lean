import QueryShaping.CommandLine.Arguments
import QueryShaping.CommandLine.LogFilter
import QueryShaping.CommandLine.Path
import QueryShaping.CommandLine.Run
import QueryShaping.Data.Decimal
import QueryShaping.Data.Decoding
import QueryShaping.Data.Json
import QueryShaping.Data.Tree
import QueryShaping.Data.Yaml.Node
import QueryShaping.Data.Yaml.Scalar
import QueryShaping.Data.Yaml.Spot
import QueryShaping.Data.Yaml.Token
import QueryShaping.Document.Definition
import QueryShaping.Document.Name
import QueryShaping.Document.Selection
import QueryShaping.Document.TypeSystem
import QueryShaping.Document.Value
import QueryShaping.Document.Written
import QueryShaping.Fragments
import QueryShaping.Graft.Document
import QueryShaping.Graft.Merge
import QueryShaping.ListQuery.Location
import QueryShaping.ListQuery.Narrowing
import QueryShaping.ListQuery.Provision
import QueryShaping.ListQuery.Request
import QueryShaping.Main
import QueryShaping.Proofs.AppendOnly
import QueryShaping.Proofs.ColumnsKept
import QueryShaping.Proofs.CustomLeavesKept
import QueryShaping.Proofs.FieldPaths
import QueryShaping.Proofs.FragmentGroups
import QueryShaping.Proofs.GraftMismatch
import QueryShaping.Proofs.GraftSequence
import QueryShaping.Proofs.Grafting
import QueryShaping.Proofs.GraftingFiles
import QueryShaping.Proofs.IdentityKept
import QueryShaping.Proofs.ItemsExactly
import QueryShaping.Proofs.Location
import QueryShaping.Proofs.MergeContents
import QueryShaping.Proofs.MergeSequence
import QueryShaping.Proofs.Merging
import QueryShaping.Proofs.NarrowedAgain
import QueryShaping.Proofs.Narrowing
import QueryShaping.Proofs.NarrowingFrame
import QueryShaping.Proofs.NothingAdded
import QueryShaping.Proofs.NothingDoubled
import QueryShaping.Proofs.Occurrence
import QueryShaping.Proofs.Paths
import QueryShaping.Proofs.PathsKept
import QueryShaping.Proofs.Places
import QueryShaping.Proofs.Provision
import QueryShaping.Proofs.Reach
import QueryShaping.Proofs.RecordForms
import QueryShaping.Proofs.Recording
import QueryShaping.Proofs.References
import QueryShaping.Proofs.Remains
import QueryShaping.Proofs.RequestedNames
import QueryShaping.Proofs.Searching
import QueryShaping.Proofs.SettingsForms
import QueryShaping.Proofs.Sweep
import QueryShaping.Proofs.SweepStable
import QueryShaping.Proofs.Trimming
import QueryShaping.Proofs.Validity
import QueryShaping.Proofs.Walking
import QueryShaping.Proofs.WhatIsRead
import QueryShaping.Settings
import QueryShaping.Source.Diagnostic
import QueryShaping.Source.Grammar
import QueryShaping.Source.Reading
import QueryShaping.Source.Rule
import QueryShaping.Source.Token
import QueryShaping.Source.TypeSystemGrammar
import QueryShaping.Sweep
import QueryShaping.Text.Blank
import QueryShaping.Text.Invisible
import QueryShaping.Text.Numeral
import QueryShaping.Text.Quoted
import QueryShaping.Text.StringLiteral
import QueryShaping.Text.Surrogate
import QueryShaping.Text.Width
import QueryShaping.Walk
