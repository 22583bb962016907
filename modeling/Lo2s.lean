import Lo2s.CctxBalance
import Lo2s.MergeExact
import Lo2s.MemoryMapLastWins
import Lo2s.MemoryMapOffset
import Lo2s.RingbufFifo
import Lo2s.SampleStream
import Lo2s.BioPairing
import Lo2s.ForkInheritance
import Lo2s.ThreadAttribution
import Lo2s.ProcessTree
import Lo2s.PosixHandles
import Lo2s.PosixPipeline
import Lo2s.EventDelivery
import Lo2s.TracepointBuffers
import Lo2s.TracepointTypes
import Lo2s.GpuNames
import Lo2s.TraceeDeath
import Lo2s.EventLookup
import Lo2s.UserspaceCounters
import Lo2s.TracepointMetrics
import Lo2s.OpenmpNesting
import Lo2s.PluginData
import Lo2s.DwarfCache
import Lo2s.PerfMapBounds
import Lo2s.KallsymsExact
import Lo2s.CallChain
import Lo2s.MergeProcess
import Lo2s.KernelReorder
import Lo2s.PollMonitor
import Lo2s.ApplyMask
import Lo2s.SysfsEventAttr
import Lo2s.EventAvailability
import Lo2s.CounterSums
import Lo2s.MetricsLineUp
import Lo2s.RegionGroups
import Lo2s.CpuLists
import Lo2s.RangeOrder
import Lo2s.EmplaceThreads
import Lo2s.TraceReading
import Lo2s.ConnectionLimits
