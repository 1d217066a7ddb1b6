import AscendKernel.Library.MaskedCopy
import AscendKernel.Core.Tensor
import AscendKernel.Library.Chunks
import AscendKernel.Library.PaddedRow
import AscendKernel.Library.RoundedSum
import AscendKernel.Library.Word
import AscendKernel.Core.Host
import AscendKernel.Theory.RowLoop
import AscendKernel.Theory.Tiling
import AscendKernel.Theory.Launch
import AscendKernel.Theory.Footprint
import AscendKernel.Theory.Addressing
import AscendKernel.Theory.Operator
import AscendKernel.Theory.RowBalance
import AscendKernel.Core.Step
import AscendKernel.Theory.Step
import AscendKernel.Library.SlotCache
import AscendKernel.Theory.LargeBatch
import AscendKernel.Theory.Invariant
import AscendKernel.Theory.Relational
import AscendKernel.Theory.Balance
import AscendKernel.Core.Reference
import AscendKernel.Theory.Reference
import AscendKernel.Library.TaggedCache
import AscendKernel.Theory.Soundness
import AscendKernel.Theory.RowLaw
import AscendKernel.Theory.Schedule
import AscendKernel.Theory.Session
import AscendKernel.Theory.SessionPairs
import AscendKernel.Library.Interleave
import AscendKernel.Core.Blocks
import AscendKernel.Theory.Interleaving
import AscendKernel.Library.Confluence
import AscendKernel.Library.BufferQueue
import AscendKernel.Core.Queues
import AscendKernel.Theory.Queues
import AscendKernel.Core.Helloworld
import AscendKernel.Theory.Helloworld
import AscendKernel.Theory.HelloworldUnits
import AscendKernel.Theory.FlatCopy
import AscendKernel.Theory.Layout
import AscendKernel.Core.AvgPool
import AscendKernel.Library.Rounding
import AscendKernel.Library.Windows
import AscendKernel.Theory.PoolArguments
import AscendKernel.Theory.PoolSize
import AscendKernel.Theory.PoolWindows
import AscendKernel.Theory.PoolReference
import AscendKernel.Library.Ledger
import AscendKernel.Core.NpuCommand
import AscendKernel.Theory.NpuObjects
import AscendKernel.Theory.NpuCommand
import AscendKernel.Core.PoolCommand
import AscendKernel.Theory.PoolCommand
import AscendKernel.Library.ListRow
import AscendKernel.Core.Correctness
import AscendKernel.Theory.Correctness
import AscendKernel.Theory.TestInputs
import AscendKernel.Theory.Recovery
