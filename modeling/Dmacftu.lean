import Dmacftu.Lib.Runs
import Dmacftu.Lib.CInt
import Dmacftu.Lib.Ring
import Dmacftu.Lib.Loop
import Dmacftu.Lib.Ledger
import Dmacftu.Lib.CopyEngine
import Dmacftu.Lib.BlockCopy
import Dmacftu.Lib.Pool
import Dmacftu.Lib.CText
import Dmacftu.Lib.Transfers
import Dmacftu.Lib.Awk
import Dmacftu.Lib.Borders
import Dmacftu.Lib.CDouble
import Dmacftu.Lib.Doubling
import Dmacftu.Lib.Condvar
import Dmacftu.Lib.Links
import Dmacftu.Lib.Script
import Dmacftu.Lib.Cyclic
import Dmacftu.CircularBuffer
import Dmacftu.RingConcurrent
import Dmacftu.Pin
import Dmacftu.DmaCopy
import Dmacftu.UserCopy
import Dmacftu.Uaccess
import Dmacftu.TraceLoss
import Dmacftu.Dmaengine
import Dmacftu.DmaengineInv
import Dmacftu.Policy
import Dmacftu.Priority
import Dmacftu.SharedPolicy
import Dmacftu.Recorded
import Dmacftu.Allotment
import Dmacftu.FreshStart
import Dmacftu.PolicyCopy
import Dmacftu.Session
import Dmacftu.Cache
import Dmacftu.CacheSlots
import Dmacftu.Msg
import Dmacftu.Band
import Dmacftu.InFlight
import Dmacftu.BandRuns
import Dmacftu.BandSlices
import Dmacftu.WriteIntent
import Dmacftu.BandIntent
import Dmacftu.Reported
import Dmacftu.AddressSpace
import Dmacftu.Chunks
import Dmacftu.ChunkMemory
import Dmacftu.Retries
import Dmacftu.ModuleInit
import Dmacftu.TraceDriver
import Dmacftu.TraceDaemon
import Dmacftu.SparseFile
import Dmacftu.SparseSize
import Dmacftu.SparseLines
import Dmacftu.CopyFile
import Dmacftu.RecordMeasures
import Dmacftu.Summary
import Dmacftu.Recording
import Dmacftu.WriteLoop
import Dmacftu.MsgDaemon
import Dmacftu.BenchThreads
import Dmacftu.BenchDaemons
import Dmacftu.MeasuresFile
import Dmacftu.StartBarrier
import Dmacftu.Ioat
import Dmacftu.IoatPrep
import Dmacftu.IoatInv
import Dmacftu.IoatCleanup
import Dmacftu.IoatSubmit
import Dmacftu.IoatRuns
import Dmacftu.IoatOrder
import Dmacftu.IoatDoorbell
import Dmacftu.IoatWatchdog
import Dmacftu.IoatPool
import Dmacftu.IoatPoll
import Dmacftu.IoatMemory
import Dmacftu.IoatRestart
import Dmacftu.IoatMappings
import Dmacftu.IoatSuspend
import Dmacftu.IoatSelfTest
import Dmacftu.Hotplug
import Dmacftu.HotplugRuns
