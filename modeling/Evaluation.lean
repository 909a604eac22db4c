import Evaluation.Lib.Object
import Evaluation.SocketStream
import Evaluation.Cursor
import Evaluation.Http
import Evaluation.Parser
import Evaluation.Grammar
import Evaluation.ParserRefines
import Evaluation.Json
import Evaluation.RoundTrip
import Evaluation.Framing
import Evaluation.TCPSocket
import Evaluation.Lib.Register
import Evaluation.Ports
import Evaluation.Lib.Correct
import Evaluation.Worker
import Evaluation.Overlong
import Evaluation.LengthGate
import Evaluation.Truncation
import Evaluation.Server
import Evaluation.Later
import Evaluation.Resilience
import Evaluation.Exchange
import Evaluation.Survival
import Evaluation.QueryID
import Evaluation.Interrupt
import Evaluation.Descriptors
import Evaluation.Ownership
import Evaluation.Shutdown
import Evaluation.Leaks
import Evaluation.OwnClient
import Evaluation.Clicked
import Evaluation.Sending
import Evaluation.Timeouts
import Evaluation.Reading
import Evaluation.Status
import Evaluation.CursorWidth
import Evaluation.Lib.Checked
import Evaluation.Checked
import Evaluation.CheckedStream
import Evaluation.CheckedParser
import Evaluation.Preconditions
import Evaluation.LogFormat
import Evaluation.LogHistory
import Evaluation.CommandLine
import Evaluation.Lib.Responder
import Evaluation.Service
import Evaluation.Wire
import Evaluation.Report
import Evaluation.Lib.Critical
import Evaluation.Lib.Merge
import Evaluation.LogSignals
import Evaluation.ProgramLog
import Evaluation.Pipelined
import Evaluation.LogReading
import Evaluation.Program
import Evaluation.Silence
import Evaluation.Lib.Message
import Evaluation.OneMessage
import Evaluation.Lib.Threads
import Evaluation.LogDelivery
