import AspKernel.Basic
import AspKernel.Lib.Heap
import AspKernel.Lib.Links
import AspKernel.Lib.Queue
import AspKernel.State
import AspKernel.Task
import AspKernel.TimeEvent
import AspKernel.Wait
import AspKernel.Service
import AspKernel.Mutex
import AspKernel.TaskManage
import AspKernel.TaskRefer
import AspKernel.TaskSync
import AspKernel.SysManage
import AspKernel.TaskExcept
import AspKernel.Cyclic
import AspKernel.Alarm
import AspKernel.Semaphore
import AspKernel.EventFlag
import AspKernel.DataQueue
import AspKernel.PriDataQ
import AspKernel.Mailbox
import AspKernel.MemPFix
import AspKernel.System
import AspKernel.Lib.Run
import AspKernel.Run
import AspKernel.SchedInv
import AspKernel.TimeEventInv
import AspKernel.HeapAccess
import AspKernel.TimerInv
import AspKernel.CoreInv
import AspKernel.WaitInv
import AspKernel.TaskOps
import AspKernel.ObjOps
import AspKernel.Frame
import AspKernel.Move
import AspKernel.Effect
import AspKernel.EffectObj
import AspKernel.RunInv
import AspKernel.Checks
import AspKernel.BootInv
import AspKernel.Keep
import AspKernel.TaskFrame
import AspKernel.Fair
import AspKernel.MutexInv
import AspKernel.Lib.FreeList
import AspKernel.Exist
import AspKernel.WaitEnd
import AspKernel.RestInv
import AspKernel.Create
import AspKernel.Reach
import AspKernel.Precedence
import AspKernel.MutexReach
import AspKernel.Inert
import AspKernel.CreateReach
import AspKernel.Serve
import AspKernel.SemInv
import AspKernel.FlgInv
import AspKernel.Comm
import AspKernel.DtqInv
import AspKernel.PdqInv
import AspKernel.MbxInv
import AspKernel.Clock
import AspKernel.FlagScan
import AspKernel.Lefttim
import AspKernel.Utm
import AspKernel.Interrupt
import AspKernel.IsrInv
import AspKernel.Variants
import AspKernel.Lib.Prog
import AspKernel.Lib.Token
import AspKernel.Serial
import AspKernel.LogBuffer
import AspKernel.Syslog
import AspKernel.TraceLog
import AspKernel.Lib.Window
import AspKernel.Lib.Numeral
import AspKernel.LogOutput
import AspKernel.Vasyslog
import AspKernel.Histogram
import AspKernel.SerialInv
import AspKernel.SerialSnd
import AspKernel.SerialLost
import AspKernel.SerialLine
import AspKernel.MessageBuf
import AspKernel.MbfRing
import AspKernel.MbfInv
import AspKernel.MbfStep
import AspKernel.MbfCall
import AspKernel.MbfRun
import AspKernel.Code
import AspKernel.Cmsis
import AspKernel.SysArch
import AspKernel.Thread
import AspKernel.ThreadInv
import AspKernel.TimeBase
import AspKernel.ThreadWait
import AspKernel.ThreadTurn
import AspKernel.Protect
import AspKernel.CmsisSem
import AspKernel.IdFile
import AspKernel.Csv
import AspKernel.CsvEnds
import AspKernel.Quote
import AspKernel.RemoveComment
import AspKernel.MacroArith
import AspKernel.MacroSeq
import AspKernel.OutputFile
import AspKernel.Cfg1Out
import AspKernel.MacroEval
import AspKernel.MacroMean
import AspKernel.MacroStack
import AspKernel.PreprocessExpand
import AspKernel.SRecord
import AspKernel.SRecordImage
import AspKernel.TextIterator
import AspKernel.TextAppend
import AspKernel.DomainId
import AspKernel.PriLevel
import AspKernel.TexInv
import AspKernel.TexDeliver
import AspKernel.MpfInv
import AspKernel.Lib.RoundUp
import AspKernel.Lib.Ownership
import AspKernel.MallocInv
import AspKernel.MallocSize
import AspKernel.Lib.WordMem
import AspKernel.Lib.Dlist
import AspKernel.Lib.SizeClass
import AspKernel.Lib.BitScan
import AspKernel.Tlsf
import AspKernel.TlsfMap
import AspKernel.TlsfIndex
import AspKernel.TlsfFind
import AspKernel.TlsfBlocks
import AspKernel.TlsfHole
import AspKernel.TlsfMerge
import AspKernel.TlsfCalls
import AspKernel.TlsfRealloc
import AspKernel.TlsfInit
import AspKernel.TlsfOwn
import AspKernel.TlsfStore
import AspKernel.TlsfServe
import AspKernel.TlsfRun
import AspKernel.Kmm
import AspKernel.KmmRun
