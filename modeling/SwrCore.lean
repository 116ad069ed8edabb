import SwrCore.Model.Machine
import SwrCore.Cell.React
import SwrCore.Library.Trace
import SwrCore.Cell.Project
import SwrCore.Cell.Sound
import SwrCore.Shell.Run
import SwrCore.Shell.Invariant
import SwrCore.Shell.Flight
import SwrCore.Model.Client
import SwrCore.Shell.Snapshots
import SwrCore.Shell.Invalidation
import SwrCore.Cell.Alarm
import SwrCore.Shell.Timers
import SwrCore.Library.UndoSlot
import SwrCore.Shell.Rollback
import SwrCore.Library.LatestWins
import SwrCore.Client.Run
import SwrCore.Cell.Content
import SwrCore.Client.Channel
import SwrCore.Client.Waiters
import SwrCore.Client.Provenance
import SwrCore.Client.Errors
import SwrCore.Client.Freshness
import SwrCore.Shell.OneFlight
import SwrCore.Shell.Pinned
import SwrCore.Client.Handles
import SwrCore.Shell.Idle
import SwrCore.Shell.Subscribers
import SwrCore.Shell.Refresh
import SwrCore.Shell.Writes
import SwrCore.Client.Optimistic
import SwrCore.Cell.View
import SwrCore.Cell.Lockstep
import SwrCore.Shell.Sharing
import SwrCore.Shell.Isolation
import SwrCore.Model.Erased
import SwrCore.Client.Sorting
import SwrCore.Client.Typing
import SwrCore.Shell.Window
import SwrCore.Shell.Undo
import SwrCore.Shell.Closing
import SwrCore.Shell.Throttle
import SwrCore.Shell.Retention
import SwrCore.Model.Retry
import SwrCore.Retry.Schedule
import SwrCore.Retry.Tasks
import SwrCore.Library.Drain
import SwrCore.Client.Load
import SwrCore.Client.Draining
import SwrCore.Client.Accounts
import SwrCore.Client.Progress
import SwrCore.Client.Cycle
import SwrCore.Host.Ownership
import SwrCore.Host.Shutdown
import SwrCore.Library.Follower
import SwrCore.Host.Query
import SwrCore.Client.Answers
import SwrCore.Client.Forget
import SwrCore.Client.Session
import SwrCore.Client.Informed
import SwrCore.Shell.Immutable
import SwrCore.Shell.Junk
import SwrCore.Client.Convergence
import SwrCore.Host.Browser
import SwrCore.Shell.Supply
import SwrCore.Client.Stale
