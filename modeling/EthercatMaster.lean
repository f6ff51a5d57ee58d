import EthercatMaster.Library.Machine
import EthercatMaster.Arith
import EthercatMaster.Pdo
import EthercatMaster.Motion.Types
import EthercatMaster.Motion.Units
import EthercatMaster.Motion.Trajectory
import EthercatMaster.Motion.Process
import EthercatMaster.Motion.Api
import EthercatMaster.Motion.System
import EthercatMaster.Motion.Step
import EthercatMaster.Motion.Invariant
import EthercatMaster.Motion.Reachable
import EthercatMaster.Motion.Mailbox
import EthercatMaster.Motion.Target
import EthercatMaster.Motion.Parameters
import EthercatMaster.Motion.Settling
import EthercatMaster.Motion.Pause
import EthercatMaster.Motion.Reciprocation
import EthercatMaster.Motion.RecipRun
import EthercatMaster.Library.ConstantJerk
import EthercatMaster.Motion.Profile
import EthercatMaster.Library.Rounding
import EthercatMaster.Motion.Execution
import EthercatMaster.Library.Bytes
import EthercatMaster.Library.RingBuffer
import EthercatMaster.Library.BoundedQueue
import EthercatMaster.Soem.Nicdrv
import EthercatMaster.Soem.Frames
import EthercatMaster.Soem.RxQueue
import EthercatMaster.Soem.Datagram
import EthercatMaster.Soem.Processdata
import EthercatMaster.Soem.Send
import EthercatMaster.Soem.Turn
import EthercatMaster.Soem.Receive
import EthercatMaster.Soem.Confirm
import EthercatMaster.Soem.Index
import EthercatMaster.Soem.Bounds
import EthercatMaster.Soem.Readstate
import EthercatMaster.Soem.Osal
import EthercatMaster.Library.Layout
import EthercatMaster.Soem.ConfigMap
import EthercatMaster.Master.Check
import EthercatMaster.Master.Exchange
import EthercatMaster.Master.OwnReply
import EthercatMaster.Master.WorkingCounter
import EthercatMaster.Master.Enable
import EthercatMaster.Master.Loop
import EthercatMaster.Master.Reenable
import EthercatMaster.Library.Past
import EthercatMaster.Master.Sequence
import EthercatMaster.Master.FaultReset
import EthercatMaster.Master.CspConfirm
import EthercatMaster.Library.Streak
import EthercatMaster.Master.Bringup
import EthercatMaster.Master.RequestOp
import EthercatMaster.Master.Overlay
import EthercatMaster.Master.StaleState
import EthercatMaster.Host.Protocol
import EthercatMaster.Host.Command
import EthercatMaster.Host.Server
import EthercatMaster.Host.Listener
import EthercatMaster.Host.Connection
import EthercatMaster.Host.Frames
import EthercatMaster.Host.Sockets
import EthercatMaster.Host.Isolation
import EthercatMaster.Master.PortMonitor
import EthercatMaster.Master.Restart
import EthercatMaster.Gpt
import EthercatMaster.Master.StartupTolerance
import EthercatMaster.Motion.Start
import EthercatMaster.Library.Significand
import EthercatMaster.Motion.Precision
import EthercatMaster.Library.NewtonRoots
import EthercatMaster.Motion.Roots
import EthercatMaster.Motion.PlannedSpeed
import EthercatMaster.Library.Forest
import EthercatMaster.Soem.Topology
import EthercatMaster.Soem.Dc
import EthercatMaster.Soem.DcStep
import EthercatMaster.Soem.DcList
import EthercatMaster.Soem.Propagation
import EthercatMaster.Soem.ErrorList
import EthercatMaster.Library.Loop
import EthercatMaster.Soem.Mbx
import EthercatMaster.Soem.Coe
import EthercatMaster.Soem.SdoServer
import EthercatMaster.Soem.SdoSlave
import EthercatMaster.Soem.SdoDownload
import EthercatMaster.Soem.SdoUpload
import EthercatMaster.Library.Yields
import EthercatMaster.Soem.PdoMap
import EthercatMaster.Soem.PdoDictionary
import EthercatMaster.Soem.PdoAccess
import EthercatMaster.Master.Servosetup
import EthercatMaster.Library.Packing
import EthercatMaster.Soem.Segments
import EthercatMaster.Soem.Wire
import EthercatMaster.Soem.SentFrames
import EthercatMaster.Soem.Esc
import EthercatMaster.Soem.EscMapping
import EthercatMaster.Soem.Passing
import EthercatMaster.Master.ImageExchange
import EthercatMaster.Master.SystemTime
