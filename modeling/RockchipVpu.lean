import RockchipVpu.Base.Word
import RockchipVpu.Base.Transition
import RockchipVpu.Base.Simulation
import RockchipVpu.Base.Service
import RockchipVpu.Base.BufferPool
import RockchipVpu.Base.PoolContents
import RockchipVpu.Base.CallTree
import RockchipVpu.Base.FailFast
import RockchipVpu.Base.Ledger
import RockchipVpu.Base.RuntimePm
import RockchipVpu.Base.RegisterFile
import RockchipVpu.Base.BitField
import RockchipVpu.Base.Scan
import RockchipVpu.Format.Types
import RockchipVpu.Format.Variants
import RockchipVpu.Format.Encoder
import RockchipVpu.Format.Session
import RockchipVpu.Format.Consistent
import RockchipVpu.Format.Kind
import RockchipVpu.Format.Lock
import RockchipVpu.Format.TryFmt
import RockchipVpu.Format.Framesizes
import RockchipVpu.Format.Stable
import RockchipVpu.Format.Enumerate
import RockchipVpu.Format.History
import RockchipVpu.Queue.Buffer
import RockchipVpu.Queue.Node
import RockchipVpu.Queue.Safety
import RockchipVpu.Queue.CodecOps
import RockchipVpu.Decoder.Ioctls
import RockchipVpu.Decoder.Session
import RockchipVpu.Decoder.CodecOps
import RockchipVpu.Decoder.Lock
import RockchipVpu.Decoder.TryFmt
import RockchipVpu.Decoder.Framesizes
import RockchipVpu.Decoder.Buffers
import RockchipVpu.Decoder.Enumerate
import RockchipVpu.Hw.Regs
import RockchipVpu.Hw.JpegEnc
import RockchipVpu.Hw.Program
import RockchipVpu.Hw.Geometry
import RockchipVpu.Hw.Fetch
import RockchipVpu.Job.Finish
import RockchipVpu.Job.Accounting
import RockchipVpu.Job.Race
import RockchipVpu.Job.Ownership
import RockchipVpu.Job.HandlerCalls
import RockchipVpu.Job.ExactlyOnce
import RockchipVpu.Job.Atomic
import RockchipVpu.Device.Probe
import RockchipVpu.Device.Balance
import RockchipVpu.Device.ProbeErrors
import RockchipVpu.Device.Lifetime
import RockchipVpu.Device.Orderly
import RockchipVpu.Device.Open
import RockchipVpu.Device.Controls
import RockchipVpu.Device.Handles
import RockchipVpu.System.Hardware
import RockchipVpu.System.Handle
import RockchipVpu.System.Context
import RockchipVpu.System.Task
import RockchipVpu.System.Device
import RockchipVpu.System.Isolation
import RockchipVpu.System.Working
import RockchipVpu.System.DecoderIrq
import RockchipVpu.System.Files
import RockchipVpu.System.Memory
import RockchipVpu.System.Payload
import RockchipVpu.System.Progress
import RockchipVpu.System.Completion
import RockchipVpu.System.Refinement
import RockchipVpu.System.Rounds
import RockchipVpu.System.Client
import RockchipVpu.System.Encoding
import RockchipVpu.System.Power
