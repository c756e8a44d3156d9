import MainDob.Proofs.AsyncQueue
import MainDob.Proofs.AsyncTimers
import MainDob.Proofs.AtomicWrite
import MainDob.Proofs.BorrowedPayload
import MainDob.Proofs.BrkAccounting
import MainDob.Proofs.CharFormats
import MainDob.Proofs.Civil
import MainDob.Proofs.ClusterCache
import MainDob.Proofs.ClusterSearch
import MainDob.Proofs.Cmdbuf
import MainDob.Proofs.ConfigServer
import MainDob.Proofs.DeathWatch
import MainDob.Proofs.DmaPool
import MainDob.Proofs.DriverMatch
import MainDob.Proofs.Elf
import MainDob.Proofs.EventGroupWakes
import MainDob.Proofs.ExfatAgree
import MainDob.Proofs.FatBounds
import MainDob.Proofs.FatCoherence
import MainDob.Proofs.FutexWake
import MainDob.Proofs.IpcBuffer
import MainDob.Proofs.IrqDiscovery
import MainDob.Proofs.IrqProtocol
import MainDob.Proofs.MallocRuns
import MainDob.Proofs.MemMove
import MainDob.Proofs.Mkfs
import MainDob.Proofs.MmapPhys
import MainDob.Proofs.Partition
import MainDob.Proofs.PmmInit
import MainDob.Proofs.PostOwnership
import MainDob.Proofs.PriorityInheritance
import MainDob.Proofs.Readdir
import MainDob.Proofs.Renames
import MainDob.Proofs.ReplyMatching
import MainDob.Proofs.Rwlock
import MainDob.Proofs.SectionBreaks
import MainDob.Proofs.SeekCursor
import MainDob.Proofs.SettingsIdentity
import MainDob.Proofs.SettingsText
import MainDob.Proofs.SharedMemory
import MainDob.Proofs.SizeLaw
import MainDob.Proofs.StrandedSender
import MainDob.Proofs.UserArgv
import MainDob.Proofs.WaitRecords
import MainDob.Proofs.WalksEnd
