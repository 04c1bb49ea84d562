import Muster.Config.Import
import Muster.Config.RelativeDir
import Muster.Config.Spec
import Muster.Config.StackFile
import Muster.Config.StackRows
import Muster.Config.StackSync
import Muster.Config.Values
import Muster.Events.Alerts
import Muster.Events.EventLog
import Muster.Events.Feed
import Muster.Holder.Bystanders
import Muster.Holder.ByteQueue
import Muster.Holder.Codec
import Muster.Holder.Ends
import Muster.Holder.Frames
import Muster.Holder.Holding
import Muster.Holder.Kept
import Muster.Holder.LogReader
import Muster.Holder.Logged
import Muster.Holder.NewestStart
import Muster.Holder.Outboxes
import Muster.Holder.Pointwise
import Muster.Holder.Protocol
import Muster.Holder.PtyRunner
import Muster.Holder.Puts
import Muster.Holder.QueueSteps
import Muster.Holder.Reader
import Muster.Holder.Rests
import Muster.Holder.ScreenGate
import Muster.Holder.Served
import Muster.Holder.Server
import Muster.Holder.Signals
import Muster.Holder.Sizes
import Muster.Holder.Snapshot
import Muster.Holder.Tending
import Muster.Holder.Unseen
import Muster.Holder.Wire
import Muster.Lib.Acts
import Muster.Lib.BigEndian
import Muster.Lib.Evict
import Muster.Lib.Extract
import Muster.Lib.Latest
import Muster.Lib.Machine
import Muster.Lib.Newest
import Muster.Lib.Newtype
import Muster.Lib.NumberedRows
import Muster.Lib.SortedMap
import Muster.Lib.Source
import Muster.Lib.Split
import Muster.Lib.Table
import Muster.Lib.Tally
import Muster.Lib.Transducer
import Muster.Log.FailingIo
import Muster.Log.Files
import Muster.Log.Generations
import Muster.Log.LogFollower
import Muster.Log.OpenRace
import Muster.Log.RotatingLog
import Muster.Log.Span
import Muster.Os.ChildGroup
import Muster.Service.ClientStops
import Muster.Service.EditNotices
import Muster.Service.IdleMirror
import Muster.Service.IdleStops
import Muster.Service.Occupancy
import Muster.Service.OutputTap
import Muster.Service.Project
import Muster.Service.Reports
import Muster.Service.Runtime
import Muster.Service.ShellRecord
import Muster.Service.StoreRecorder
import Muster.Service.TapRing
import Muster.Service.TapScan
import Muster.Store.Coordination
import Muster.Store.EntryPages
import Muster.Store.LockRows
import Muster.Store.TodoRows
import Muster.Supervisor.Adopter
import Muster.Supervisor.Adoptions
import Muster.Supervisor.Connections
import Muster.Supervisor.Domain
import Muster.Supervisor.EarlyOutput
import Muster.Supervisor.Holdings
import Muster.Supervisor.Launches
import Muster.Supervisor.Lifecycle
import Muster.Supervisor.Moves
import Muster.Supervisor.Promises
import Muster.Supervisor.Rows
import Muster.Supervisor.Runs
import Muster.Supervisor.Settles
import Muster.Supervisor.Shape
import Muster.Supervisor.Slot
import Muster.Supervisor.Stops
import Muster.Supervisor.System
import Muster.Supervisor.Unsupervised
import Muster.Terminal.Keyboard
import Muster.Terminal.KeyboardTracker
import Muster.Terminal.LineDrawing
import Muster.Terminal.LogLine
import Muster.Terminal.Pen
import Muster.Terminal.Reading
import Muster.Terminal.Renderer
import Muster.Terminal.Rendering
import Muster.Terminal.Repaint
import Muster.Terminal.RepaintLength
import Muster.Terminal.ScreenText
import Muster.Terminal.Sgr
import Muster.Workspace.DetachScanner
