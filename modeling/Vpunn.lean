import Vpunn.Lib.MachineInt
import Vpunn.Lib.Consecutive
import Vpunn.Lib.Window
import Vpunn.Lib.Runs
import Vpunn.Lib.Recency
import Vpunn.Lib.Strided
import Vpunn.Lib.Rounding
import Vpunn.Lib.FieldOrder
import Vpunn.Lib.Fnv
import Vpunn.Lib.ListSchedule
import Vpunn.Lib.ExactFill
import Vpunn.Lib.BalancedParts
import Vpunn.Lib.Rectangle
import Vpunn.Lib.MinElement
import Vpunn.Lib.WrappingCounter
import Vpunn.Lib.Lines
import Vpunn.Lib.Threads
import Vpunn.Lib.Buffer
import Vpunn.Lib.Rows
import Vpunn.Lib.Taps
import Vpunn.Types
import Vpunn.Floats
import Vpunn.Tensor
import Vpunn.Cycles
import Vpunn.Ranges
import Vpunn.RangeIteration
import Vpunn.Schedule
import Vpunn.Cache
import Vpunn.CacheKeys
import Vpunn.CacheThreads
import Vpunn.PriorityProvider
import Vpunn.Csv.FileHandler
import Vpunn.Csv.RoundTrip
import Vpunn.Dpu.Operation
import Vpunn.Dpu.WorkloadOrder
import Vpunn.Dpu.WorkloadHash
import Vpunn.Dpu.PostProcess
import Vpunn.Dpu.NNCostProvider
import Vpunn.Dpu.CostModel
import Vpunn.Dpu.Transparency
import Vpunn.Inference.Blas
import Vpunn.Inference.Kernels
import Vpunn.Inference.Model
import Vpunn.Inference.Rows
import Vpunn.Inference.Batches
import Vpunn.Dpu.Batch
import Vpunn.Dpu.SanitizedCost
import Vpunn.Dpu.Theoretical
import Vpunn.Dma.Types
import Vpunn.Dma.Transformer
import Vpunn.Dma.StridedCost
import Vpunn.Dma.Fidelity
import Vpunn.Dma.Footprint
import Vpunn.Dma.RoundTrip
import Vpunn.Dma.Legacy
import Vpunn.Dma.KeyOrder
import Vpunn.Dma.CostModel
import Vpunn.Shave.Workload
import Vpunn.Shave.WorkloadOrder
import Vpunn.Shave.CostModel
import Vpunn.Shave.Providers
import Vpunn.Shave.CalcSubblk
import Vpunn.Layer.Axis
import Vpunn.Layer.Overlap
import Vpunn.Layer.Halo
import Vpunn.Layer.Channels
import Vpunn.Layer.Sanitize
import Vpunn.Layer.SplitAcrossTiles
import Vpunn.Layer.ShavePreSplit
import Vpunn.Layer.LayerCycles
import Vpunn.Layer.Strategies
import Vpunn.Layer.ValidatedCycles
import Vpunn.Validation.ValidValues
import Vpunn.Validation.Validators
import Vpunn.Validation.DeviceVPU4
import Vpunn.Validation.Geometry
import Vpunn.Validation.SplitClosure
import Vpunn.Validation.TensorSizes
import Vpunn.Validation.MemorySize
import Vpunn.Validation.SufficientMemory
import Vpunn.Tiling.EfficiencyBasedSplitter
import Vpunn.Tiling.EfficiencyOptimality
import Vpunn.Tiling.EfficiencyRemainder
import Vpunn.Tiling.TilingPrimitives
import Vpunn.Tiling.SplitPool
import Vpunn.Tiling.DimensionTiler
import Vpunn.Tiling.ZTiling
import Vpunn.Tiling.HWTiling
import Vpunn.Tiling.WorkloadCostEvaluator
import Vpunn.Tiling.DPUTiler
import Vpunn.Tiling.AcceptedSplit
import Vpunn.Tiling.TransparentSplit
