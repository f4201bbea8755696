import ExampleKernel.Foundation.Transition
import ExampleKernel.Foundation.Buffer
import ExampleKernel.Foundation.CString
import ExampleKernel.Foundation.BoundedQueue
import ExampleKernel.Foundation.Linearization
import ExampleKernel.GlobalFifo.Device
import ExampleKernel.GlobalFifo.Operations
import ExampleKernel.GlobalFifo.Discipline
import ExampleKernel.GlobalFifo.Locking
import ExampleKernel.GlobalFifo.Refinement
import ExampleKernel.GlobalFifo.Bounded
import ExampleKernel.GlobalFifo.Wakeup
import ExampleKernel.GlobalFifo.Failure
import ExampleKernel.GlobalMem.Device
import ExampleKernel.GlobalMem.Cursors
import ExampleKernel.GlobalMem.Concurrent
import ExampleKernel.GlobalMem.Statements
import ExampleKernel.GlobalMem.Atomicity
import ExampleKernel.GlobalMem.Signals
import ExampleKernel.GlobalMem.Teardown
import ExampleKernel.Foundation.Raster
import ExampleKernel.Oled.Tables
import ExampleKernel.Oled.Panel
import ExampleKernel.Oled.Ssd1306
import ExampleKernel.Oled.Wiring
import ExampleKernel.Oled.Cursor
import ExampleKernel.Oled.I2c
import ExampleKernel.Oled.SameProgram
import ExampleKernel.Oled.BringUp
import ExampleKernel.Oled.Text
import ExampleKernel.Oled.Lookup
import ExampleKernel.Oled.Fill
import ExampleKernel.Oled.Pins
import ExampleKernel.GlobalMem.Multi
import ExampleKernel.GlobalMem.Waiters
import ExampleKernel.Gpio.Led
import ExampleKernel.Foundation.Spacing
import ExampleKernel.Gpio.Debounce
import ExampleKernel.Gpio.Write
import ExampleKernel.Timers.Second
import ExampleKernel.Timers.SimpleTimer
import ExampleKernel.Timers.Teardown
import ExampleKernel.GlobalMem.Threads
import ExampleKernel.GlobalMem.Stopping
import ExampleKernel.Kernel.Ladder
import ExampleKernel.GlobalMem.Load
import ExampleKernel.Gpio.Load
import ExampleKernel.Kernel.Startup
import ExampleKernel.GlobalFifo.Startup
import ExampleKernel.GlobalMem.Startup
import ExampleKernel.Foundation.CopyOrder
import ExampleKernel.GlobalFifo.Shift
import ExampleKernel.GlobalFifo.Notify
import ExampleKernel.GlobalFifo.Readiness
import ExampleKernel.GlobalFifo.History
import ExampleKernel.Foundation.Potential
import ExampleKernel.GlobalFifo.Progress
import ExampleKernel.Uio.Attribute
import ExampleKernel.GlobalMem.Seek
import ExampleKernel.GlobalMem.Interrupts
import ExampleKernel.GlobalMem.Poll
import ExampleKernel.GlobalMem.PollQueue
import ExampleKernel.GlobalMem.Proc
import ExampleKernel.GlobalMem.FailedWrite
import ExampleKernel.GlobalMem.Position
import ExampleKernel.GlobalMem.ProcCopies
import ExampleKernel.Oled.Noise
import ExampleKernel.Oled.Lifetime
import ExampleKernel.GlobalMem.App
import ExampleKernel.GlobalMem.Printed
import ExampleKernel.Foundation.Periodic
import ExampleKernel.Timers.Counters
import ExampleKernel.Timers.Seconds
import ExampleKernel.CharDevice.Load
import ExampleKernel.Foundation.Decimal
import ExampleKernel.GlobalMem.Sysfs
import ExampleKernel.Kernel.Stepwise
import ExampleKernel.Gpio.Lifetime
