import Alliance.CK.GraphRuns
import Alliance.CK.SignalNesting
import Alliance.CK.SignalOrder
import Alliance.CK.SchedFairness
import Alliance.CK.SchedReads
import Alliance.CK.SchedPolicy
import Alliance.CK.References
import Alliance.CK.ResourceTraps
import Alliance.CK.ResourceLists
import Alliance.CK.ResourceFailures
import Alliance.CK.ResourceStubs
import Alliance.CK.KernelMappings
import Alliance.CK.PageLookup
import Alliance.CK.PageCopy
import Alliance.CK.UnloadMapping
import Alliance.CK.TableAccounting
import Alliance.CK.FPU
import Alliance.CK.ShMemRights
import Alliance.CK.ShMemDestroy
import Alliance.CK.ShMemRemap
import Alliance.CK.PhysRegion
import Alliance.CK.HeapAddress
import Alliance.CK.Capacity
import Alliance.KL.FreeListChunks
import Alliance.KL.FreeListRuns
import Alliance.KL.FreeListRegion
import Alliance.KL.FreeListOrder
import Alliance.CK.MemorySizes
import Alliance.CK.BootMemory
import Alliance.CK.Console
import Alliance.KL.BitmapAlloc
import Alliance.KL.BitmapHint
import Alliance.KL.QueueRuns
import Alliance.KL.QueueTable
import Alliance.KL.MemorySet
import Alliance.KL.StringLength
import Alliance.KL.StringNumCopy
import Alliance.KL.Msg
import Alliance.KL.Exec
import Alliance.KL.ExecBounds
import Alliance.KL.ExecVisits
import Alliance.KL.ExecTable
import Alliance.KL.ExecShared
import Alliance.KL.ExecHandles
import Alliance.KL.ExecReloc
import Alliance.KL.ExecLink
import Alliance.KL.ExecBSS
import Alliance.KL.ExecPostLoad
import Alliance.KL.ExecContents
import Alliance.KL.ExecContentsProof
import Alliance.SORB.LibIPC
import Alliance.SORB.IPCBuffer
import Alliance.SORB.SendSync
import Alliance.SORB.ORB
import Alliance.SORB.IDLHeader
import Alliance.LM.InitString
import Alliance.LM.Load
import Alliance.ABL.Memory
import Alliance.ABL.LoadELF
import Alliance.ABL.Modules
import Alliance.ABL.ScriptProof
import Alliance.ABL.SmpProof
import Alliance.IOSK.Attributes
import Alliance.IOSK.Session
import Alliance.IOSK.SystemConfig
import Alliance.Monitor.ParPortProof
import Alliance.Monitor.ProfilerProof
import Alliance.Monitor.GdbSession
