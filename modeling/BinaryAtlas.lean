import BinaryAtlas.Calls.Graph
import BinaryAtlas.Calls.Json
import BinaryAtlas.Calls.Trace
import BinaryAtlas.Config
import BinaryAtlas.Config.Json
import BinaryAtlas.Directive.Basic
import BinaryAtlas.Directive.Scanner
import BinaryAtlas.Dump.Basic
import BinaryAtlas.Dump.Delta
import BinaryAtlas.Dump.Json
import BinaryAtlas.Dump.Line
import BinaryAtlas.Export.Json
import BinaryAtlas.Export.Kind
import BinaryAtlas.Export.Record
import BinaryAtlas.Fault
import BinaryAtlas.Json.Basic
import BinaryAtlas.Json.Shape
import BinaryAtlas.Json.Spelling
import BinaryAtlas.Json.Token
import BinaryAtlas.Json.Tree
import BinaryAtlas.Namespace
import BinaryAtlas.Nearest
import BinaryAtlas.Program.Basic
import BinaryAtlas.Program.Comments
import BinaryAtlas.Program.Declarations
import BinaryAtlas.Program.Load
import BinaryAtlas.Program.Places
import BinaryAtlas.Proofs.AddressDeltas
import BinaryAtlas.Proofs.ArrayNames
import BinaryAtlas.Proofs.AsciiText
import BinaryAtlas.Proofs.BufferedLines
import BinaryAtlas.Proofs.CallCursor
import BinaryAtlas.Proofs.CallEdges
import BinaryAtlas.Proofs.CallGraph
import BinaryAtlas.Proofs.CallOrder
import BinaryAtlas.Proofs.CallRuns
import BinaryAtlas.Proofs.CanonicalDeltas
import BinaryAtlas.Proofs.CommentRequests
import BinaryAtlas.Proofs.Comments
import BinaryAtlas.Proofs.DeclarationOrder
import BinaryAtlas.Proofs.Declarations
import BinaryAtlas.Proofs.Declared
import BinaryAtlas.Proofs.Deltas
import BinaryAtlas.Proofs.DirectiveScan
import BinaryAtlas.Proofs.DirectiveText
import BinaryAtlas.Proofs.DumpBlocks
import BinaryAtlas.Proofs.DumpReading
import BinaryAtlas.Proofs.ExportDocuments
import BinaryAtlas.Proofs.FoundDirectives
import BinaryAtlas.Proofs.JsonTexts
import BinaryAtlas.Proofs.JsonTrees
import BinaryAtlas.Proofs.KeyPaths
import BinaryAtlas.Proofs.LateDirectives
import BinaryAtlas.Proofs.LoadOrder
import BinaryAtlas.Proofs.LoadedFunctions
import BinaryAtlas.Proofs.LoadedPlaces
import BinaryAtlas.Proofs.LoadedSymbols
import BinaryAtlas.Proofs.LoadedTypes
import BinaryAtlas.Proofs.MemberDirectives
import BinaryAtlas.Proofs.NamespaceLinks
import BinaryAtlas.Proofs.NamespaceMembers
import BinaryAtlas.Proofs.NamespaceOrder
import BinaryAtlas.Proofs.NamespaceTree
import BinaryAtlas.Proofs.NamespaceWalk
import BinaryAtlas.Proofs.NearestPlaces
import BinaryAtlas.Proofs.NumberAttributes
import BinaryAtlas.Proofs.PlaceRecords
import BinaryAtlas.Proofs.References
import BinaryAtlas.Proofs.RegionSizes
import BinaryAtlas.Proofs.ReplacedDump
import BinaryAtlas.Proofs.Replacement
import BinaryAtlas.Proofs.Resolution
import BinaryAtlas.Proofs.ResolveAll
import BinaryAtlas.Proofs.SameComments
import BinaryAtlas.Proofs.Sizes
import BinaryAtlas.Proofs.SpelledNumbers
import BinaryAtlas.Proofs.SpelledTypes
import BinaryAtlas.Proofs.Standing
import BinaryAtlas.Proofs.StoreHistory
import BinaryAtlas.Proofs.SymbolOwners
import BinaryAtlas.Proofs.TextOrder
import BinaryAtlas.Proofs.TraceLines
import BinaryAtlas.Proofs.TypedefConflicts
import BinaryAtlas.Proofs.VisitOrders
import BinaryAtlas.Routine
import BinaryAtlas.Routine.Json
import BinaryAtlas.Symbol
import BinaryAtlas.Symbol.Json
import BinaryAtlas.Text.Blank
import BinaryAtlas.Text.Combining
import BinaryAtlas.Text.Numeral
import BinaryAtlas.Text.Printable
import BinaryAtlas.Text.Quoted
import BinaryAtlas.Text.Unassigned
import BinaryAtlas.Text.Utf8
import BinaryAtlas.TypeGraph.Builtin
import BinaryAtlas.TypeGraph.Entity
import BinaryAtlas.TypeGraph.Kind
import BinaryAtlas.TypeGraph.KindJson
import BinaryAtlas.TypeGraph.Name
import BinaryAtlas.TypeGraph.Resolve
import BinaryAtlas.TypeGraph.Size
import BinaryAtlas.TypeGraph.Store
import BinaryAtlas.TypeKey
import BinaryAtlas.TypeKey.Json
