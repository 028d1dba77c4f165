import HsspProgrammer.Transition
import HsspProgrammer.Frames
import HsspProgrammer.Loader
import HsspProgrammer.MainWindow
import HsspProgrammer.ReplyFraming
import HsspProgrammer.Records
import HsspProgrammer.CompleteFiles
import HsspProgrammer.HexImage
import HsspProgrammer.CommandLoop
import HsspProgrammer.Programmer
import HsspProgrammer.Exchange
import HsspProgrammer.Conversation
import HsspProgrammer.Sessions
import HsspProgrammer.Progress
import HsspProgrammer.Completion
import HsspProgrammer.Verdict
import HsspProgrammer.Overlap
import HsspProgrammer.Recovery
import HsspProgrammer.MainLoop
import HsspProgrammer.ChecksumReply
import HsspProgrammer.Alignment
import HsspProgrammer.Placement
import HsspProgrammer.ImageChecksum
import HsspProgrammer.Numerals
import HsspProgrammer.Respelling
import HsspProgrammer.EncodedLine
import HsspProgrammer.LineBounds
import HsspProgrammer.BlockOrder
import HsspProgrammer.Threads
import HsspProgrammer.TransmitBuffer
import HsspProgrammer.Connection
import HsspProgrammer.Pins
import HsspProgrammer.Issp
import HsspProgrammer.Clocking
import HsspProgrammer.BusDiscipline
import HsspProgrammer.TargetChip
import HsspProgrammer.ChipOperations
import HsspProgrammer.RoundTrip
import HsspProgrammer.WriteRecords
import HsspProgrammer.VectorSending
import HsspProgrammer.Verification
import HsspProgrammer.Handshake
import HsspProgrammer.IoQueues
import HsspProgrammer.Usart
import HsspProgrammer.Interrupts
import HsspProgrammer.Servicing
import HsspProgrammer.Refinement
import HsspProgrammer.Pads
import HsspProgrammer.Registers
import HsspProgrammer.Marks
import HsspProgrammer.Assembly
import HsspProgrammer.Delivery
import HsspProgrammer.Transcript
import HsspProgrammer.Widgets
import HsspProgrammer.Performing
import HsspProgrammer.Tracing
import HsspProgrammer.Signals
import HsspProgrammer.Spelling
import HsspProgrammer.Realizing
import HsspProgrammer.Replaying
import HsspProgrammer.Answering
import HsspProgrammer.Wiring
