import JelloVM.Library.OpenAddressing
import JelloVM.Object
import JelloVM.Heap
import JelloVM.ObjectTable
import JelloVM.ObjectMap
import JelloVM.Library.ByteMemory
import JelloVM.Library.Logged
import JelloVM.ObjectProbe
import JelloVM.Types
import JelloVM.Box
import JelloVM.Ops.Arith
import JelloVM.Ops.Scalar
import JelloVM.Ops.Container
import JelloVM.Ops.Bytes
import JelloVM.Frame
import JelloVM.Exc
import JelloVM.Control
import JelloVM.ExecLoop
import JelloVM.InlineAgree
import JelloVM.Check
import JelloVM.Library.AreaStack
import JelloVM.FrameStack
import JelloVM.RegSpec
import JelloVM.Ret
import JelloVM.OpSpec.Scalar
import JelloVM.OpSpec.Container
import JelloVM.Validated
import JelloVM.Run
import JelloVM.Layers
import JelloVM.Handlers
import JelloVM.TryDepth
import JelloVM.PcInside
import JelloVM.Payload
import JelloVM.Delivery
import JelloVM.Pending
import JelloVM.Fuel
import JelloVM.Spill
import JelloVM.Library.BlockCopy
import JelloVM.SelfCall
import JelloVM.Framed
import JelloVM.Jit.Ir
import JelloVM.Jit.Sites
import JelloVM.Jit.NativeFuel
import JelloVM.Library.X64
import JelloVM.Jit.Emit
import JelloVM.Jit.EmitSpec
import JelloVM.Jit.Scalar
import JelloVM.Jit.Cache
import JelloVM.Jit.Elide
import JelloVM.Jit.HelperAgree
import JelloVM.Jit.Helpers
import JelloVM.Channel
import JelloVM.Division
import JelloVM.Limits
import JelloVM.Slots
import JelloVM.SlotStore
import JelloVM.Jit.ModuleCaches
import JelloVM.Library.MarkSweep
import JelloVM.Gc
import JelloVM.Collect
import JelloVM.GcAlloc
import JelloVM.Recycled
import JelloVM.FreeList
import JelloVM.FreshElem
import JelloVM.ObjectHeader
import JelloVM.ProtoCache
import JelloVM.StaticKey
import JelloVM.LoaderOut
import JelloVM.LoaderPool
import JelloVM.Library.X64Decode
import JelloVM.Jit.Encoders
import JelloVM.Jit.EncoderTable
import JelloVM.Library.Ieee
import JelloVM.Conversions
import JelloVM.Libs.Date
import JelloVM.Boot
import JelloVM.Libs.Unicode
import JelloVM.Libs.UnicodeOps
import JelloVM.Libs.Md5
import JelloVM.Libs.Regexp
import JelloVM.Jdll.Abi
import JelloVM.BytesCodec
import JelloVM.Library.Subgoals
import JelloVM.Numeric
import JelloVM.Equality
import JelloVM.EqualityLaws
import JelloVM.Share
import JelloVM.HalfFloat
import JelloVM.Library.Fitting
import JelloVM.Library.Utf16
import JelloVM.Utostr
import JelloVM.Library.Printf
import JelloVM.Uvszprintf
import JelloVM.FrameSteps
import JelloVM.FrameRuns
import JelloVM.FrameAlign
import JelloVM.FrameLoop
import JelloVM.ArgPassing
import JelloVM.Builds
import JelloVM.Library.Recogniser
import JelloVM.LoaderModule
import JelloVM.LoaderRoundTrip
import JelloVM.ThreadRuns
import JelloVM.Finalizers
import JelloVM.Jit.EmitFunc
import JelloVM.Jit.EmitItems
import JelloVM.Jit.SiteFlow
import JelloVM.Pacing
import JelloVM.Jit.NativeRuns
