import Dib.Lib.Run
import Dib.Lib.Progress
import Dib.Lib.Population
import Dib.Lib.Framing
import Dib.Lib.CString
import Dib.Lib.Buffer
import Dib.Lib.Memory
import Dib.Lib.Lines
import Dib.Lib.Thread
import Dib.Lib.Chain
import Dib.Lib.Keyed
import Dib.Lib.Numeral
import Dib.Lib.Replace
import Dib.Slots.Tests
import Dib.Slots.Connections
import Dib.Slots.Descriptors
import Dib.Slots.Wakeups
import Dib.Slots.Service
import Dib.Slots.Availability
import Dib.Wire.Message
import Dib.Wire.Client
import Dib.Wire.Daemon
import Dib.Wire.Delivery
import Dib.Wire.Reencode
import Dib.Wire.Receive
import Dib.Wire.Ending
import Dib.Handlers.Model
import Dib.Handlers.Verdict
import Dib.Handlers.Cleanup
import Dib.Handlers.Course
import Dib.Handlers.Xml
import Dib.Handlers.Status
import Dib.Handlers.Collected
import Dib.Handlers.Rounds
import Dib.Handlers.Pacing
import Dib.Libs.Model
import Dib.Libs.Balance
import Dib.Libs.Race
import Dib.Registry.Model
import Dib.Registry.GroupFile
import Dib.Registry.Daemon
import Dib.Registry.Dangling
import Dib.Registry.Names
import Dib.Registry.Declared
import Dib.Registry.Contents
import Dib.Registry.Format
import Dib.Registry.Import
import Dib.Registry.Added
import Dib.Registry.Parts
import Dib.Registry.Unloads
import Dib.Registry.Loads
import Dib.Libs.Safety
import Dib.Registry.Expansion
import Dib.Registry.Buffers
import Dib.Registry.Blocks
import Dib.Registry.Exec
import Dib.Registry.Places
import Dib.Registry.Survival
import Dib.Registry.Conf
import Dib.Registry.Paths
import Dib.Registry.Calls
import Dib.Registry.Startup
import Dib.Registry.Leaks
import Dib.Registry.Operations
import Dib.Registry.Comments
import Dib.Registry.GroupComments
import Dib.Args.Model
import Dib.Args.Options
import Dib.Args.WellFormed
import Dib.Args.Passed
import Dib.Args.CommandLine
import Dib.Args.Order
import Dib.Args.Utilities
import Dib.Args.Numbers
import Dib.Args.Colons
import Dib.Args.Times
import Dib.Args.Startup
import Dib.Args.Stepping
import Dib.Args.Lookups
import Dib.Handlers.Deadline
import Dib.Threads.Model
import Dib.Threads.Cancel
import Dib.Threads.Clients
import Dib.Threads.Record
import Dib.Threads.Handlers
import Dib.Exchange.Answer
import Dib.Exchange.Remote
import Dib.Exchange.Session
import Dib.Exchange.Agreement
import Dib.Exchange.LogRead
