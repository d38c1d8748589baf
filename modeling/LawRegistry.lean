import LawRegistry.History
import LawRegistry.Ids
import LawRegistry.Publication
import LawRegistry.Claims
import LawRegistry.Sovereignty
import LawRegistry.Lib.Simulation
import LawRegistry.View
import LawRegistry.Refinement
import LawRegistry.Lib.Regex
import LawRegistry.Sdk.Packages
import LawRegistry.Sdk.Path
import LawRegistry.Sdk.Connection
import LawRegistry.Sdk.Addressing
import LawRegistry.Sdk.Provenance
import LawRegistry.Sdk.Interleaving
import LawRegistry.Commutation
import LawRegistry.Accounting
import LawRegistry.Sdk.Naming
import LawRegistry.Lib.Nesting
import LawRegistry.Reentrancy
import LawRegistry.ByName
import LawRegistry.Lib.Forward
import LawRegistry.Sdk.Clients
import LawRegistry.EventLog
import LawRegistry.AccountingL1
import LawRegistry.Lib.Slices
import LawRegistry.Observation
import LawRegistry.Separation
import LawRegistry.Lib.Checks
import LawRegistry.Reasons
import LawRegistry.Lib.Renaming
import LawRegistry.Symmetry
import LawRegistry.Lib.Peeling
import LawRegistry.Reachability
import LawRegistry.Migration
import LawRegistry.Lib.CallOut
