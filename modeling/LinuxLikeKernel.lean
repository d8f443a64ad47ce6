import LinuxLikeKernel.Library.Run
import LinuxLikeKernel.CallReturn
import LinuxLikeKernel.VideoPage
import LinuxLikeKernel.BackgroundOutput
import LinuxLikeKernel.DirectoryListing
import LinuxLikeKernel.UserPage
import LinuxLikeKernel.DeliveredLines
import LinuxLikeKernel.AddressSpace
import LinuxLikeKernel.CommandLine
import LinuxLikeKernel.FailedStart
import LinuxLikeKernel.Descriptors
import LinuxLikeKernel.ExitStatus
import LinuxLikeKernel.RtcClock
import LinuxLikeKernel.Stations
import LinuxLikeKernel.SequentialReads
import LinuxLikeKernel.CommandBuffers
import LinuxLikeKernel.WrittenText
import LinuxLikeKernel.I8259
import LinuxLikeKernel.FishScreen
import LinuxLikeKernel.CtrlC
import LinuxLikeKernel.LineReads
import LinuxLikeKernel.RtcFrequency
import LinuxLikeKernel.TerminalIndices
import LinuxLikeKernel.TypeAndErase
import LinuxLikeKernel.ScreenWrites
import LinuxLikeKernel.KeyBuffers
import LinuxLikeKernel.Itoa
import LinuxLikeKernel.MemoryBlocks
import LinuxLikeKernel.Cat
import LinuxLikeKernel.Grep
import LinuxLikeKernel.DescriptorTables
import LinuxLikeKernel.InterruptHandlers
import LinuxLikeKernel.ProgramLife
