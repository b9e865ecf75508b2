import RPerf.Agent.JitMethods
import RPerf.Agent.TopTable
import RPerf.Agent.Trigger
import RPerf.Agent.Wrapper
import RPerf.Code.ReadWindow
import RPerf.Decode.BlockStack
import RPerf.Decode.BufferSafety
import RPerf.Decode.CtcDelta
import RPerf.Decode.CycleCount
import RPerf.Decode.DeferredTip
import RPerf.Decode.FupEvents
import RPerf.Decode.InsnSpacing
import RPerf.Decode.LastIp
import RPerf.Decode.Resync
import RPerf.Decode.TntForms
import RPerf.Decode.TscWrap
import RPerf.Packets.Cyc
import RPerf.Packets.LastPsb
import RPerf.Packets.ReadBounds
import RPerf.Queues.Divisors
import RPerf.Queues.PerfTime
import RPerf.Queues.Stranded
import RPerf.Queues.Synthesis
import RPerf.Queues.TraceBuffers
import RPerf.Record.BackwardRing
import RPerf.Record.Rounds
import RPerf.Samples.Reads
import RPerf.Samples.Swapped
import RPerf.Session.AllocLimit
import RPerf.Session.PipeStream
import RPerf.Symbols.Maps
import RPerf.Symbols.PerfMap
import RPerf.Threads.CallChain
import RPerf.Threads.CallReturns
import RPerf.X86.Truncation
