import Valuelib.Base.DepthFirst
import Valuelib.Database.Entity
import Valuelib.Database.DdlContext
import Valuelib.Database.Registration
import Valuelib.Database.Termination
import Valuelib.Database.Order
import Valuelib.Database.GraphCopy
import Valuelib.Base.Checked
import Valuelib.Base.Runs
import Valuelib.LightFuture.SharedState
import Valuelib.LightFuture.LightPromise
import Valuelib.LightFuture.Consistent
import Valuelib.LightFuture.Operations
import Valuelib.LightFuture.Reachable
import Valuelib.LightFuture.Counting
import Valuelib.LightFuture.Completion
import Valuelib.LightFuture.WriteOnce
import Valuelib.LightFuture.Transfer
import Valuelib.Exceptions.ExceptionClass
import Valuelib.Exceptions.Register
import Valuelib.Exceptions.Chain
import Valuelib.Data.StorableData
import Valuelib.Base.PrefixFree
import Valuelib.Text.Numeral
import Valuelib.Immutable.StringType
import Valuelib.Immutable.Quoting
import Valuelib.Base.Transducer
import Valuelib.Text.CLiteral
import Valuelib.Stdext.StringAlgorithm
import Valuelib.Stdext.Escaping
import Valuelib.Base.Greedy
import Valuelib.Base.Separated
import Valuelib.Base.BitNumbers
import Valuelib.Text.Quoted
import Valuelib.Text.Stringstream
import Valuelib.Stdext.Bits
import Valuelib.Stdext.Translating
import Valuelib.Stdext.BitsToString
import Valuelib.Debug.Unwrap
import Valuelib.Debug.UnwrapChain
import Valuelib.Debug.CsvChain
import Valuelib.Debug.UnwrapReference
import Valuelib.Debug.Trace
import Valuelib.Debug.TraceDepth
import Valuelib.Debug.AnyPrinter
import Valuelib.Debug.AnyPrinterDispatch
import Valuelib.Tuple.Print
import Valuelib.Tuple.Pieces
import Valuelib.Tuple.TextsCompose
import Valuelib.Tuple.Dump
import Valuelib.Base.Delimited
import Valuelib.Tuple.Typed
import Valuelib.Base.Positional
import Valuelib.Text.Reading
import Valuelib.Immutable.ToString
import Valuelib.Immutable.Denotation
import Valuelib.Data.ByteStream
import Valuelib.Data.Enumeration
import Valuelib.Data.TextConversion
import Valuelib.Base.Outline
import Valuelib.Debug.TraceLevel
import Valuelib.Debug.TraceLog
import Valuelib.Debug.TraceOutline
import Valuelib.Base.Mutex
import Valuelib.Debug.Tracer
import Valuelib.Debug.TracerOutput
import Valuelib.Debug.TracerLines
import Valuelib.Base.RefCount
import Valuelib.Stdext.BindWeak
import Valuelib.Stdext.BindWeakSafe
import Valuelib.Base.Refinement
import Valuelib.LightFuture.Table
import Valuelib.LightFuture.Refines
import Valuelib.Debug.Print
import Valuelib.Debug.PrintText
import Valuelib.Debug.PrintTyped
import Valuelib.Debug.MethodText
import Valuelib.Exceptions.Report
import Valuelib.Exceptions.RegisterThreads
import Valuelib.Exceptions.RegisterSettled
import Valuelib.Exceptions.RegisterProgress
import Valuelib.Exceptions.ConcurrentChain
import Valuelib.Stdext.BitsRead
import Valuelib.Debug.AnyPrinterThreads
import Valuelib.Base.Interleaved
import Valuelib.Debug.AnyPrinterConcurrent
import Valuelib.Debug.AnyPrinterInterleaved
