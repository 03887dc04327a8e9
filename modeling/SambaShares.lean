import SambaShares.Planning
import SambaShares.Document.Builtin
import SambaShares.Manager
import SambaShares.Service.StandIn
import SambaShares.Settings.Files
import SambaShares.Invocation.Run
import SambaShares.Main
import SambaShares.Proofs.Planning.ReadBack
import SambaShares.Proofs.Planning.FreeLines
import SambaShares.Proofs.Planning.Namesakes
import SambaShares.Proofs.Planning.Repeats
import SambaShares.Proofs.Planning.Undo
import SambaShares.Proofs.Planning.Positions
import SambaShares.Proofs.Share.Last
import SambaShares.Proofs.Service.Units
import SambaShares.Proofs.Manager.Backup
import SambaShares.Proofs.Manager.Refinement
import SambaShares.Proofs.Manager.Serializable
import SambaShares.Proofs.Invocation.Status
import SambaShares.Proofs.Store.Order
import SambaShares.Proofs.Store.Retention
import SambaShares.Proofs.Settings.Files
import SambaShares.Proofs.Settings.Mode
