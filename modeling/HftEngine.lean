import HftEngine.Proofs.PriceTime
import HftEngine.Proofs.OrderLimits
import HftEngine.Proofs.OrderLifecycle
import HftEngine.Proofs.KillSwitch
import HftEngine.Proofs.ComponentRestore
import HftEngine.Proofs.Digest
import HftEngine.Proofs.Recovery
import HftEngine.Proofs.FramePath
import HftEngine.Proofs.RingQueue
import HftEngine.Proofs.ReferenceEngine
import HftEngine.Proofs.SessionRuns
import HftEngine.Proofs.Retransmit
import HftEngine.Proofs.JournalScan
import HftEngine.Proofs.OrderIndices
import HftEngine.Proofs.RouteTable
import HftEngine.Proofs.Sharding
import HftEngine.Proofs.EventStream
import HftEngine.Proofs.Watermarks
import HftEngine.Proofs.EngineAdmission
import HftEngine.Proofs.EngineRecovery
import HftEngine.Proofs.CommandGen
import HftEngine.Core.SoakEvents
import HftEngine.Core.SoakRouted
import HftEngine.Lib.SlotBag
import HftEngine.Proofs.SoakEvents
import HftEngine.Proofs.SoakMirror
import HftEngine.Proofs.SoakSound
