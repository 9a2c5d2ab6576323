import ModemTester.Process
import ModemTester.Listening
import ModemTester.Library.OrderedMap
import ModemTester.Master.MasterPinger
import ModemTester.Master.PingerBooks
import ModemTester.Master.PingerRecovery
import ModemTester.Master.EchoAccounting
import ModemTester.Library.LossyChannel
import ModemTester.ResultCodec
import ModemTester.Link.Composition
import ModemTester.Link.SessionOrder
import ModemTester.Link.ModeAgreement
import ModemTester.Link.EndOfMode
import ModemTester.Link.EarlyAcks
import ModemTester.Link.Resync
import ModemTester.Library.Framing
import ModemTester.Link.ResultWindow
import ModemTester.Link.ResultAuthenticity
import ModemTester.Link.ResultGuard
import ModemTester.Link.ResultSafety
import ModemTester.Link.ResultExposure
import ModemTester.Master.PingerCheck
import ModemTester.Master.EchoVerdict
import ModemTester.WaitingTimers
import ModemTester.Library.Ledger
import ModemTester.Master.MasterController
import ModemTester.Script.EventsScript
import ModemTester.Script.ScriptLaw
import ModemTester.Script.ScriptSilence
import ModemTester.Master.ActivityTimers
import ModemTester.StreamOwnership
import ModemTester.Threads.Transitions
import ModemTester.Threads.IoThread
import ModemTester.Library.WaitGraph
import ModemTester.Threads.PoolLock
import ModemTester.Remote.ThroughputTally
import ModemTester.Remote.ThroughputResults
import ModemTester.Threads.RunnablePool
import ModemTester.Remote.RemoteReads
import ModemTester.Remote.ReadBoundaries
import ModemTester.Link.PingPath
import ModemTester.Link.ThroughputTest
import ModemTester.Link.CleanHandshake
import ModemTester.Link.SessionData
import ModemTester.Link.SessionEchoes
import ModemTester.Link.Shutdown
import ModemTester.Threads.PoolDrain
import ModemTester.MainPrograms
import ModemTester.Master.PingerReports
import ModemTester.Master.ControllerTimer
import ModemTester.Threads.PoolInstance
import ModemTester.Script.ScriptedSessions
import ModemTester.Link.ReadingLink
import ModemTester.Master.ControlledLink
import ModemTester.Link.Draining
