import LinuxApp.Lib.System
import LinuxApp.Lib.CInt
import LinuxApp.Lib.Ring
import LinuxApp.Lib.Fifo
import LinuxApp.Lib.Lifetime
import LinuxApp.Core.DataTypes
import LinuxApp.Core.MsgQueue
import LinuxApp.Lib.Monitor
import LinuxApp.Core.QueueThreads
import LinuxApp.Core.QueueInvariant
import LinuxApp.Core.Linearizable
import LinuxApp.Core.WakeUp
import LinuxApp.Drivers.Posix
import LinuxApp.Drivers.RpmsgDriver
import LinuxApp.Drivers.Descriptors
import LinuxApp.Drivers.Framing
import LinuxApp.Drivers.RecvMsg
import LinuxApp.App.State
import LinuxApp.App.Steps
import LinuxApp.App.Threads
import LinuxApp.App.SharedQueue
import LinuxApp.App.Lifecycle
import LinuxApp.App.Device
import LinuxApp.App.Telemetry
import LinuxApp.App.Shutdown
import LinuxApp.Drivers.Counters
import LinuxApp.Drivers.MessageStats
import LinuxApp.Drivers.DevPath
import LinuxApp.App.DeviceUse
import LinuxApp.App.Progress
import LinuxApp.App.Stop
import LinuxApp.App.Exit
import LinuxApp.App.Console
import LinuxApp.App.Datagrams
import LinuxApp.Drivers.Errors
import LinuxApp.Drivers.LinkStats
import LinuxApp.App.Idle
