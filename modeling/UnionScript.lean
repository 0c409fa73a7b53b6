import UnionScript.Main
import UnionScript.Proofs.Reach
import UnionScript.Proofs.Preorder
import UnionScript.Proofs.Loading
import UnionScript.Proofs.Reloading
import UnionScript.Proofs.Decorated
import UnionScript.Proofs.ExitStatus
import UnionScript.Proofs.Coverage
import UnionScript.Proofs.Budget
import UnionScript.Proofs.Locality
import UnionScript.Proofs.Descent
import UnionScript.Proofs.Reference
import UnionScript.Proofs.Writing
import UnionScript.Proofs.Returning
import UnionScript.Proofs.Isolation
import UnionScript.Proofs.Filing
import UnionScript.Proofs.RootScope
import UnionScript.Proofs.Limits
import UnionScript.Proofs.Grouping
import UnionScript.Proofs.Rereading
import UnionScript.Proofs.Binding
import UnionScript.Proofs.Misplacing
import UnionScript.Proofs.Climbing
import UnionScript.Proofs.Resuming
import UnionScript.Proofs.Signatures
import UnionScript.Proofs.Remarks
import UnionScript.Proofs.Spacing
import UnionScript.Proofs.Applications
import UnionScript.Proofs.Views
import UnionScript.Proofs.Carets
import UnionScript.Proofs.ErrorPlaces
