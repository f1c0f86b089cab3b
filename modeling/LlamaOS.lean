import LlamaOS.Memory.Accounting
import LlamaOS.Memory.Truncation
import LlamaOS.Memory.Isolation
import LlamaOS.Userland.FailedCreation
import LlamaOS.Syscall.ProcessList
import LlamaOS.Syscall.UserEntry
import LlamaOS.Fs.LargeOffsets
import LlamaOS.Fs.Unlinking
import LlamaOS.Fs.ReadOnly
import LlamaOS.Storage.ArrayAccesses
import LlamaOS.Storage.Crc32
import LlamaOS.Net.UdpRoundTrip
import LlamaOS.Net.TcpDelivery
import LlamaOS.Net.Authentication
import LlamaOS.Drivers.TransferRuns
import LlamaOS.Memory.RangeQueries
import LlamaOS.Memory.ZeroFill
import LlamaOS.Drivers.Drawing
import LlamaOS.Boot.ParseSafety
import LlamaOS.Boot.CommandLine
import LlamaOS.Threading.Fairness
import LlamaOS.Memory.DoubleFrees
import LlamaOS.Memory.WritableCode
