import FacetIndex.Association.Stored
import FacetIndex.Main
import FacetIndex.OrdinalSet.Words
import FacetIndex.OrdinalSet.Cursor
import FacetIndex.Dimension.Shared
import FacetIndex.Proofs.Dialogue
import FacetIndex.Proofs.Memoisation
import FacetIndex.Proofs.OrdinalSet
import FacetIndex.Proofs.Label
import FacetIndex.Proofs.Memory
import FacetIndex.Proofs.Resolution
import FacetIndex.Proofs.Indexer
import FacetIndex.Proofs.Routing
import FacetIndex.Proofs.Counting
import FacetIndex.Proofs.DrillDown
import FacetIndex.Proofs.Admission
import FacetIndex.Proofs.History
import FacetIndex.Proofs.Numbering
import FacetIndex.Proofs.OrdinalWords
import FacetIndex.Proofs.Agreement
import FacetIndex.Proofs.Replay
import FacetIndex.Proofs.PathGrammar
import FacetIndex.Proofs.MemberDrillDown
import FacetIndex.Proofs.Blobs
import FacetIndex.Proofs.Run
import FacetIndex.Proofs.Refusal
import FacetIndex.Proofs.OrdinalCanonical
import FacetIndex.Proofs.Json
import FacetIndex.Proofs.StoredSettings
import FacetIndex.Proofs.AssociationRecords
import FacetIndex.Proofs.AskingOnce
import FacetIndex.Proofs.Growth
import FacetIndex.Proofs.Reordering
import FacetIndex.Proofs.Printable
import FacetIndex.Proofs.ShownTerms
import FacetIndex.Proofs.Exhaustion
import FacetIndex.Proofs.Skipping
import FacetIndex.Proofs.Renumbering
import FacetIndex.Proofs.Outage
import FacetIndex.Proofs.ByteOrder
import FacetIndex.Proofs.Streams
import FacetIndex.Proofs.Widening
import FacetIndex.Proofs.Truncation
import FacetIndex.Proofs.PathPrefix
import FacetIndex.Proofs.TypedPaths
import FacetIndex.Proofs.SettingsHistory
import FacetIndex.Proofs.Hexadecimal
import FacetIndex.Proofs.ShownBlobs
