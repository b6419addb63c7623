import RpcCatalog.Main
import RpcCatalog.Proofs.Catalog.Origin
import RpcCatalog.Proofs.Grammar.RoundTrip
import RpcCatalog.Proofs.Resolution
import RpcCatalog.Proofs.Extraction.SyntaxFailure
import RpcCatalog.Proofs.Catalog.Unreadable
import RpcCatalog.Proofs.Extraction.DiscoveryOrder
import RpcCatalog.Proofs.Grammar.Spelling
import RpcCatalog.Proofs.Grammar.Tokens
import RpcCatalog.Proofs.Grammar.Decomposition
import RpcCatalog.Proofs.Grammar.CommentEnd
import RpcCatalog.Proofs.Grammar.Chunks
import RpcCatalog.Proofs.Grammar.CatchAll
import RpcCatalog.Proofs.Grammar.Bodies
import RpcCatalog.Proofs.Grammar.Naming
import RpcCatalog.Proofs.Extraction.Methods
import RpcCatalog.Proofs.Catalog.Types
import RpcCatalog.Proofs.Extraction.Input
import RpcCatalog.Proofs.Extraction.Likeness
import RpcCatalog.Proofs.Extraction.Atomicity
import RpcCatalog.Proofs.Extraction.Repetition
import RpcCatalog.Proofs.Extraction.Leniency
import RpcCatalog.Proofs.Extraction.Position
import RpcCatalog.Proofs.Growth
import RpcCatalog.Proofs.References
import RpcCatalog.Proofs.DottedNames
import RpcCatalog.Proofs.Keys
import RpcCatalog.Proofs.Conversion
import RpcCatalog.Proofs.Text
import RpcCatalog.Proofs.CommentText
import RpcCatalog.Proofs.AbsoluteNames
import RpcCatalog.Proofs.Scan
import RpcCatalog.Proofs.SymbolTable.PackageOverrides
import RpcCatalog.Proofs.SymbolTable.TypeHistory
import RpcCatalog.Proofs.Descriptor
import RpcCatalog.Proofs.CommandLine
