import RowStore.Main
import RowStore.Proofs.PageCanonical
import RowStore.Proofs.PoolCapacity
import RowStore.Proofs.PoolRecency
import RowStore.Proofs.PoolRefinement
import RowStore.Proofs.TableGrowth
import RowStore.Proofs.FlushDurability
import RowStore.Proofs.ScanFidelity
import RowStore.Proofs.TableWrites
import RowStore.Proofs.TableIsolation
import RowStore.Proofs.CommandRuns
import RowStore.Proofs.PageAcceptance
import RowStore.Proofs.FirstFit
import RowStore.Proofs.ScanCoverage
import RowStore.Proofs.ScanGrowth
import RowStore.Proofs.ScanRestart
import RowStore.Proofs.ScanProtocol
import RowStore.Proofs.DirtyTags
import RowStore.Proofs.FlushOrder
import RowStore.Proofs.FailedInsert
import RowStore.Proofs.SharedHandles
import RowStore.Proofs.PageEdits
import RowStore.Proofs.TableGeometry
import RowStore.Proofs.InfoAndScan
import RowStore.Proofs.CommandEdits
import RowStore.Proofs.PageLayout
import RowStore.Proofs.CatalogNumbers
import RowStore.Proofs.SchemaText
import RowStore.Proofs.PathSpellings
import RowStore.Proofs.CacheNodes
import RowStore.Proofs.PageSlots
