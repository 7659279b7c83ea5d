import ContractDocs.Arguments
import ContractDocs.Artifact
import ContractDocs.Build
import ContractDocs.Command
import ContractDocs.Contract
import ContractDocs.Decimal.Double
import ContractDocs.Decimal.Shortest
import ContractDocs.Declaration
import ContractDocs.Failure
import ContractDocs.Files.Error
import ContractDocs.Files.Scan
import ContractDocs.Files.Tree
import ContractDocs.Host.Basic
import ContractDocs.Host.Memory
import ContractDocs.Json.Numeral
import ContractDocs.Json.Printer
import ContractDocs.Json.Reader
import ContractDocs.Json.Record
import ContractDocs.Json.Shape
import ContractDocs.Json.Value
import ContractDocs.Link
import ContractDocs.Log
import ContractDocs.Lookup
import ContractDocs.Main
import ContractDocs.Natspec
import ContractDocs.Node.Basic
import ContractDocs.Node.Decode
import ContractDocs.Node.Kind
import ContractDocs.Override
import ContractDocs.Page
import ContractDocs.Path
import ContractDocs.Proofs.AbiBlock
import ContractDocs.Proofs.BaseLinks
import ContractDocs.Proofs.CommentLines
import ContractDocs.Proofs.ConcurrentWrites
import ContractDocs.Proofs.ContractLinks
import ContractDocs.Proofs.DepthLevels
import ContractDocs.Proofs.DocumentOrder
import ContractDocs.Proofs.FileChanges
import ContractDocs.Proofs.FileTree
import ContractDocs.Proofs.FirstBranch
import ContractDocs.Proofs.HostMemory
import ContractDocs.Proofs.IndependentPaths
import ContractDocs.Proofs.JoinedComments
import ContractDocs.Proofs.JsonReadBack
import ContractDocs.Proofs.JsonRecords
import ContractDocs.Proofs.KeyedLists
import ContractDocs.Proofs.Levels
import ContractDocs.Proofs.LinkLines
import ContractDocs.Proofs.LoadFailure
import ContractDocs.Proofs.LoadOrder
import ContractDocs.Proofs.LoadedArtifacts
import ContractDocs.Proofs.Loading
import ContractDocs.Proofs.LocatedNodes
import ContractDocs.Proofs.NodeEncoding
import ContractDocs.Proofs.OverrideAnchors
import ContractDocs.Proofs.OverrideGraph
import ContractDocs.Proofs.OverrideLabels
import ContractDocs.Proofs.OverrideNesting
import ContractDocs.Proofs.OverridePaths
import ContractDocs.Proofs.OverrideStability
import ContractDocs.Proofs.OverrideStack
import ContractDocs.Proofs.OverrideTermination
import ContractDocs.Proofs.OverrideWalk
import ContractDocs.Proofs.OverridingNodes
import ContractDocs.Proofs.OwnDefinition
import ContractDocs.Proofs.PageFiles
import ContractDocs.Proofs.PagePaths
import ContractDocs.Proofs.PathNames
import ContractDocs.Proofs.Preorder
import ContractDocs.Proofs.PrintedComments
import ContractDocs.Proofs.SettingKeys
import ContractDocs.Proofs.ShownFunctions
import ContractDocs.Proofs.SingleLines
import ContractDocs.Proofs.TemplateFilling
import ContractDocs.Proofs.Texts
import ContractDocs.Proofs.TidyPages
import ContractDocs.Proofs.TomlTables
import ContractDocs.Settings.Basic
import ContractDocs.Settings.Decode
import ContractDocs.Settings.Load
import ContractDocs.Site
import ContractDocs.Text.Blank
import ContractDocs.Text.Case
import ContractDocs.Text.Lines
import ContractDocs.Text.Lower
import ContractDocs.Text.Replace
import ContractDocs.Text.Word
import ContractDocs.Toml.Lexeme
import ContractDocs.Toml.Marker
import ContractDocs.Toml.Reader
import ContractDocs.Toml.Value
import ContractDocs.Walk.Levels
import ContractDocs.Walk.Preorder
import ContractDocs.Walk.Weight
