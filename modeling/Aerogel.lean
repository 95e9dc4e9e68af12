import Aerogel.Foundations.Run
import Aerogel.Foundations.Word
import Aerogel.Foundations.Erasure
import Aerogel.Foundations.ByteMemory
import Aerogel.Foundations.LinkedSegment
import Aerogel.Foundations.BlockList
import Aerogel.Foundations.Gaps
import Aerogel.Foundations.Blocks
import Aerogel.Foundations.Loop
import Aerogel.Foundations.Grid
import Aerogel.Foundations.Bitmap
import Aerogel.Foundations.RoundRobin
import Aerogel.Foundations.RadixTree
import Aerogel.Foundations.Checked
import Aerogel.Foundations.RingRecords
import Aerogel.Foundations.ByteFile
import Aerogel.Foundations.Slices
import Aerogel.Foundations.WordStack
import Aerogel.Foundations.RingQueue
import Aerogel.Foundations.Listing
import Aerogel.Foundations.AccessLog
import Aerogel.Foundations.EventLog
import Aerogel.Foundations.OnesComplement
import Aerogel.Foundations.Sink
import Aerogel.Machine
import Aerogel.Libc.MemOps
import Aerogel.Libc.Strings
import Aerogel.Libc.StrncpyBytes
import Aerogel.Libc.Printf
import Aerogel.Libc.PrintfSafety
import Aerogel.Libc.Decimal
import Aerogel.Memory.Heap
import Aerogel.Memory.HeapRep
import Aerogel.Memory.HeapOps
import Aerogel.Memory.HeapInvariant
import Aerogel.Memory.Pmm
import Aerogel.Memory.PmmSpec
import Aerogel.Memory.PmmInit
import Aerogel.Memory.PmmRuns
import Aerogel.Memory.PmmRequests
import Aerogel.Memory.BootMemory
import Aerogel.Memory.HeapBlocks
import Aerogel.Memory.HeapUsage
import Aerogel.Memory.HeapAlignment
import Aerogel.Memory.HeapOwners
import Aerogel.Memory.HeapRoom
import Aerogel.Memory.PageTables
import Aerogel.Memory.VmmX86
import Aerogel.Memory.IdentityWindow
import Aerogel.Memory.VmmX64
import Aerogel.Memory.VmmFlags
import Aerogel.Memory.VmmFailure
import Aerogel.Scheduler.Sched
import Aerogel.Scheduler.RunQueue
import Aerogel.Scheduler.SchedSpec
import Aerogel.Scheduler.SchedRuns
import Aerogel.Scheduler.Refinement
import Aerogel.Scheduler.RoundRobin
import Aerogel.Scheduler.Sleep
import Aerogel.Scheduler.Context
import Aerogel.Scheduler.ContextSwitch
import Aerogel.Scheduler.InterruptFlag
import Aerogel.Scheduler.SleepReturns
import Aerogel.Interrupts.IsrStubs
import Aerogel.Interrupts.Transparency
import Aerogel.Interrupts.Interleaving
import Aerogel.Interrupts.Pic
import Aerogel.Interrupts.Timer
import Aerogel.Filesystem.Vfs
import Aerogel.Filesystem.Mounts
import Aerogel.Filesystem.PathLookups
import Aerogel.Filesystem.PathBuffer
import Aerogel.Filesystem.Tmpfs
import Aerogel.Filesystem.TmpfsObjects
import Aerogel.Filesystem.TmpfsNodes
import Aerogel.Filesystem.TmpfsRuns
import Aerogel.Filesystem.TmpfsWrites
import Aerogel.Filesystem.TmpfsListings
import Aerogel.Filesystem.Listings
import Aerogel.Filesystem.TmpfsLeaks
import Aerogel.Filesystem.Fat32
import Aerogel.Filesystem.FatImage
import Aerogel.Filesystem.Fat32Read
import Aerogel.Filesystem.FatDirectory
import Aerogel.Filesystem.FatEncoding
import Aerogel.Filesystem.FatDirLoad
import Aerogel.Filesystem.FatLog
import Aerogel.Filesystem.FatBounds
import Aerogel.Filesystem.FatChains
import Aerogel.Filesystem.FatDataClusters
import Aerogel.Filesystem.FatErrors
import Aerogel.Filesystem.FatLeaks
import Aerogel.Network.Packets
import Aerogel.Network.Answers
import Aerogel.Network.PacketSafety
import Aerogel.Network.EchoReply
import Aerogel.Network.ArpAnnounce
import Aerogel.Network.Udp
import Aerogel.Network.Padding
import Aerogel.Network.Acceptance
import Aerogel.Network.Storms
import Aerogel.Drivers.Rtl8139Rx
import Aerogel.Drivers.Rtl8139Tx
import Aerogel.Network.Interface
import Aerogel.Network.Station
import Aerogel.Drivers.Ps2Keyboard
import Aerogel.Drivers.KeyDecoding
import Aerogel.Drivers.Ata
import Aerogel.Drivers.AtaReads
import Aerogel.Drivers.AtaWrites
import Aerogel.Userspace.LineEditor
import Aerogel.Drivers.VgaText
import Aerogel.Boot.MemoryMap
import Aerogel.Boot.DiskImage
import Aerogel.Boot.GptImage
import Aerogel.Boot.EfiLoader
import Aerogel.Foundations.SignedInt
import Aerogel.Foundations.LineSteps
import Aerogel.Drivers.Framebuffer
import Aerogel.Drivers.FbLines
import Aerogel.Drivers.FbClipping
import Aerogel.Foundations.Words
import Aerogel.Userspace.CommandLine
import Aerogel.Network.Checksum
import Aerogel.Foundations.NameTree
import Aerogel.Filesystem.TmpfsTree
import Aerogel.Filesystem.TmpfsPaths
import Aerogel.Foundations.Dialogue
import Aerogel.Filesystem.FatDialogue
import Aerogel.Drivers.AtaErrors
import Aerogel.Filesystem.FatOverAta
import Aerogel.Libc.Kprint
import Aerogel.Userspace.Shell
import Aerogel.Userspace.ShellReplies
import Aerogel.Userspace.ShellOverTmpfs
