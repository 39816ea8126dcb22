import OpenXJ380.Block.Fencing
import OpenXJ380.Capture.Secrecy
import OpenXJ380.Descriptor.Lifetime
import OpenXJ380.Device.Bytes
import OpenXJ380.Device.Hpet
import OpenXJ380.Device.Rtc
import OpenXJ380.Device.Sectors
import OpenXJ380.Ext4.Directory.Names
import OpenXJ380.Ext4.ReadCache
import OpenXJ380.Installer.BootProof
import OpenXJ380.Installer.Exposure
import OpenXJ380.Installer.Readback
import OpenXJ380.Memory.Balance
import OpenXJ380.Memory.Bitmap
import OpenXJ380.Memory.BootMap
import OpenXJ380.Memory.ForkSnapshot
import OpenXJ380.Memory.Placement
import OpenXJ380.Memory.VmaClone
import OpenXJ380.Message.Delivery
import OpenXJ380.Pipe.Stream
import OpenXJ380.Process.Cmdline
import OpenXJ380.Scheduler.Fairness
import OpenXJ380.Scheduler.References
import OpenXJ380.Signal.Privilege
import OpenXJ380.Storage.Diskio
import OpenXJ380.Storage.Tmpfs
import OpenXJ380.Task.Ipc
import OpenXJ380.Terminal.Backpressure
import OpenXJ380.Terminal.Discipline
import OpenXJ380.Unix.Locking
import OpenXJ380.Unix.Namespace
import OpenXJ380.User.Challenge
import OpenXJ380.User.Consent
import OpenXJ380.User.DecisionDurability
