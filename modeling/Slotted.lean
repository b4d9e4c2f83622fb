import Slotted.Action.History
import Slotted.Datum.World
import Slotted.Proofs.HashSet.Structure
import Slotted.Proofs.HashSet.Refinement
import Slotted.Proofs.TreeSet.Structure
import Slotted.Proofs.TreeSet.Refinement
import Slotted.Proofs.HashMap.Refinement
import Slotted.Proofs.TreeMap.Refinement
import Slotted.Proofs.Handles
import Slotted.Proofs.Reserve
import Slotted.Proofs.Safety
import Slotted.Proofs.Recovery
import Slotted.Proofs.Refusal
import Slotted.Proofs.Lockstep
import Slotted.Proofs.HashSet.Hashless
import Slotted.Proofs.Churn
import Slotted.Proofs.TreeSet.Depth
import Slotted.Proofs.TreeSet.Navigation
import Slotted.Proofs.TreeSet.Renaming
import Slotted.Proofs.Walks
import Slotted.Proofs.Limit
import Slotted.Proofs.TreeSet.Neighbours
import Slotted.Proofs.Rekeying
import Slotted.Proofs.HashSet.Rehashing
import Slotted.Proofs.Equality
import Slotted.Proofs.HashSet.Width
import Slotted.Proofs.HashSet.Verdict
import Slotted.Proofs.TreeSet.Verdict
import Slotted.Proofs.Sizes
import Slotted.Proofs.Store.Moves
import Slotted.Proofs.Reentry
