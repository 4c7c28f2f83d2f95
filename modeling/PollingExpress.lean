import PollingExpress.Framework.System
import PollingExpress.Framework.Chain
import PollingExpress.Framework.Heap
import PollingExpress.Framework.History
import PollingExpress.Framework.Rendezvous
import PollingExpress.Kernel.Task
import PollingExpress.Kernel.Main
import PollingExpress.Kernel.ReadyHeap
import PollingExpress.Kernel.Containers
import PollingExpress.Kernel.Moves
import PollingExpress.Kernel.Partition
import PollingExpress.Kernel.Fairness
import PollingExpress.Kernel.Idle
import PollingExpress.Kernel.Interrupts
import PollingExpress.Kernel.Stranded
import PollingExpress.Kernel.Errors
import PollingExpress.Kernel.Copy
import PollingExpress.Kernel.Messages
import PollingExpress.Kernel.Exchange
import PollingExpress.Kernel.Protocol
import PollingExpress.Framework.Fifo
import PollingExpress.Track.Basic
import PollingExpress.Nav.Segments
import PollingExpress.Nav.Segmentation
import PollingExpress.Nav.Cut
import PollingExpress.Nav.Server
import PollingExpress.Framework.Ownership
import PollingExpress.Nav.Reservations
import PollingExpress.Nav.Desk
import PollingExpress.Nav.World
import PollingExpress.Nav.Coupling
import PollingExpress.Nav.Handover
import PollingExpress.Nav.NextTask
import PollingExpress.Nav.Driving
import PollingExpress.Nav.Answers
import PollingExpress.Nav.Distance
import PollingExpress.Common.Heap
import PollingExpress.Train.Server
import PollingExpress.Train.Schedule
import PollingExpress.Train.Switches
import PollingExpress.Dispatch.Server
import PollingExpress.Dispatch.Answers
import PollingExpress.Clock.Server
import PollingExpress.Clock.Lists
import PollingExpress.Clock.Delays
import PollingExpress.Common.Hashtable
import PollingExpress.Name.Server
import PollingExpress.Name.Registry
import PollingExpress.Framework.SharedLine
import PollingExpress.Uart.Com2Tx
import PollingExpress.Uart.Com2TxTenures
import PollingExpress.Uart.Com1Server
import PollingExpress.Uart.Com1Line
import PollingExpress.Uart.Com1Pacing
import PollingExpress.Uart.Com1Reads
import PollingExpress.Uart.Com2Rx
import PollingExpress.Uart.Getc
import PollingExpress.Track.Names
import PollingExpress.Shell.Tokenizer
import PollingExpress.Shell.Editor
import PollingExpress.Shell.Commands
import PollingExpress.Shell.Lines
import PollingExpress.Framework.ShortestPath
import PollingExpress.Search.Dijkstra
import PollingExpress.Search.Settling
import PollingExpress.Track.Mirror
import PollingExpress.Track.BufferNodes
import PollingExpress.Search.Turns
import PollingExpress.Nav.Paths
import PollingExpress.Nav.Turnarounds
import PollingExpress.Nav.Drivable
import PollingExpress.Nav.Capacity
import PollingExpress.Common.HeapRuns
import PollingExpress.Kernel.ReadyQueue
import PollingExpress.Train.Sensors
import PollingExpress.Drive.SquareRoot
import PollingExpress.Drive.Neutron
import PollingExpress.Drive.Straightpath
import PollingExpress.Drive.Switching
import PollingExpress.Drive.FindTime
import PollingExpress.Drive.Stopping
import PollingExpress.Drive.Lag
import PollingExpress.Shell.Planner
import PollingExpress.Shell.Planning
import PollingExpress.Shell.Requests
import PollingExpress.Framework.Machine
import PollingExpress.Common.Memory
import PollingExpress.Common.RawBuffer
import PollingExpress.Common.Strings
import PollingExpress.Kernel.IdlePercentage
import PollingExpress.Print.Format
import PollingExpress.Print.Numbers
import PollingExpress.Print.Pieces
import PollingExpress.Print.Sinks
import PollingExpress.Framework.Sessions
import PollingExpress.Print.Terminal
import PollingExpress.Nav.PathWorker
import PollingExpress.Nav.Progress
import PollingExpress.Shell.Station
import PollingExpress.Framework.Closure
import PollingExpress.Search.Spurs
import PollingExpress.Track.Boards
import PollingExpress.Nav.Boards
import PollingExpress.Drive.Fleet
import PollingExpress.Drive.Journeys
import PollingExpress.Drive.Pace
