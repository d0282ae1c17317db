import Keyset.Store
import Keyset.Release
import Keyset.Proofs.Walk.Exact
import Keyset.Proofs.Walk.Later
import Keyset.Proofs.Walk.Persistent
import Keyset.Proofs.Walk.Ends
import Keyset.Proofs.Walk.Missing
import Keyset.Proofs.Query.Numbered
import Keyset.Proofs.Query.Rejected
import Keyset.Proofs.Query.Cursor
import Keyset.Proofs.Query.CursorPage
import Keyset.Proofs.Query.Seek
import Keyset.Proofs.Query.Stored
import Keyset.Proofs.Listing
import Keyset.Proofs.RowOrder.Stable
import Keyset.Proofs.Boundary.Damaged
import Keyset.Proofs.Documents
import Keyset.Proofs.Request
import Keyset.Proofs.Policy
import Keyset.Proofs.Predicate.Display
import Keyset.Proofs.RowOrder.Preorder
import Keyset.Proofs.Definition
import Keyset.Proofs.Store
