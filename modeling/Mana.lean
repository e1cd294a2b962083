import Mana.Lib.Machine
import Mana.Lib.Assoc
import Mana.Lib.Scatter
import Mana.Lib.Removal
import Mana.Lib.Sum
import Mana.Collective.Kvdb
import Mana.Collective.Clock
import Mana.Collective.Drain
import Mana.Collective.Steps
import Mana.Collective.Requests
import Mana.Collective.Eras
import Mana.Collective.Clocks
import Mana.Collective.Lockstep
import Mana.Collective.Agreement
import Mana.Collective.Sections
import Mana.Collective.Safety
import Mana.Collective.Needed
import Mana.Collective.Programs
import Mana.Collective.Progress
import Mana.Comm.Handles
import Mana.Comm.Moves
import Mana.Comm.Invariant
import Mana.Comm.Liveness
import Mana.P2p.Envelope
import Mana.P2p.Proc
import Mana.P2p.Drain
import Mana.P2p.Moves
import Mana.P2p.Stage
import Mana.P2p.Guard
import Mana.P2p.Conserve
import Mana.P2p.Count
import Mana.P2p.Classify
import Mana.P2p.Dummy
import Mana.P2p.RecvBuffer
import Mana.P2p.Quiet
import Mana.P2p.Outcome
import Mana.P2p.Matching
import Mana.Lib.Chain
import Mana.VirtId.Table
import Mana.VirtId.Shape
import Mana.VirtId.History
import Mana.Lib.RefCount
import Mana.VirtId.Desc
import Mana.VirtId.Release
import Mana.VirtId.Refs
import Mana.VirtId.TypeMap
import Mana.VirtId.Rank
import Mana.VirtId.TypeSound
import Mana.VirtId.TypeRestart
import Mana.VirtId.CommRestart
import Mana.VirtId.RequestRestart
import Mana.Lib.Meeting
import Mana.VirtId.CommOrder
import Mana.LowerHalf.Closed
import Mana.P2p.Unblocked
import Mana.Lib.Format
import Mana.P2p.Delivery
import Mana.P2p.Records
import Mana.VirtId.CommFree
import Mana.VirtId.Sends
import Mana.VirtId.Testall
import Mana.Lib.Interact
import Mana.Lib.Ranges
import Mana.LowerHalf.Blocks
import Mana.VirtId.Files
import Mana.LowerHalf.Arena
import Mana.LowerHalf.ArenaSound
import Mana.Collective.Targets
import Mana.LowerHalf.Collectives
import Mana.LowerHalf.Leaving
import Mana.LowerHalf.Waiting
import Mana.LowerHalf.Deadlock
import Mana.Lib.Partition
import Mana.Plugin.Filter
import Mana.LowerHalf.Sbrk
import Mana.LowerHalf.Restore
import Mana.P2p.SendrecvReplace
import Mana.LowerHalf.Fixed
import Mana.Lib.Probing
import Mana.VirtId.Constants
import Mana.VirtId.Fortran
import Mana.Lib.Links
import Mana.VirtId.PendingLog
import Mana.VirtId.PendingList
import Mana.Plugin.Signals
import Mana.Attr.Store
import Mana.Attr.Outcome
import Mana.Attr.Keyvals
import Mana.Attr.Callbacks
import Mana.Lib.Layout
import Mana.LowerHalf.CopyStack
import Mana.LowerHalf.Reserve
import Mana.Plugin.Saved
import Mana.Plugin.GnuHash
