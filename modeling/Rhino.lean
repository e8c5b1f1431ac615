import Rhino.Transition.Run
import Rhino.Transition.Fallible
import Rhino.Transition.Section
import Rhino.Transition.Cursor
import Rhino.Transition.Search
import Rhino.Bytes.LittleEndian
import Rhino.Bytes.Order
import Rhino.Bytes.StringTable
import Rhino.Bytes.AddressSpace
import Rhino.Bytes.Words
import Rhino.Bytes.Digits
import Rhino.Bytes.Loading
import Rhino.Bits.Lanes
import Rhino.Bits.Parity
import Rhino.Bof.Format
import Rhino.Bof.Memory
import Rhino.Kernel.File
import Rhino.Hwr.Registry
import Rhino.Hwr.Contract
import Rhino.Hwr.Configure.Core
import Rhino.Hwr.Configure.Correctness
import Rhino.Hwr.Configure.Backlog
import Rhino.Hwr.Configure.Chunks
import Rhino.Hwr.Configure.Sequence
import Rhino.Hwr.Configure.Payload
import Rhino.Hwr.Configure.Loops
import Rhino.Hwr.Configure.Delivery
import Rhino.Hwr.RhinoDriver
import Rhino.Hwr.Counting
import Rhino.Hwr.Registration
import Rhino.Hwr.Bounds
import Rhino.Loader.Core
import Rhino.Loader.Stages
import Rhino.Loader.Invariant
import Rhino.Loader.Turn
import Rhino.Loader.Cleanup
import Rhino.Loader.Result
import Rhino.Loader.Board
import Rhino.Loader.Lifetime
import Rhino.Loader.Registers
import Rhino.Loader.Progress
import Rhino.Loader.Walk
import Rhino.Loader.Truncation
import Rhino.Loader.Users
import Rhino.Process.Fork
import Rhino.Exec.Core
import Rhino.Exec.Handoff
import Rhino.Exec.Queue
import Rhino.Exec.Wakeup
import Rhino.Exec.Ledger
import Rhino.Ioreg.Bus
import Rhino.Ioreg.Core
import Rhino.Ioreg.Confinement
import Rhino.Ioreg.Window
import Rhino.Ioreg.Directory
import Rhino.Ioreg.Reachable
import Rhino.Ioreg.Events
import Rhino.Ioreg.Shared
import Rhino.Ioreg.Serial
import Rhino.Ioreg.Balance
import Rhino.Ioreg.Memory
import Rhino.Ioreg.Raw
import Rhino.Ioreg.Counts
import Rhino.Ioreg.Numbers
import Rhino.Ioreg.Text
import Rhino.Ioreg.Pipe
import Rhino.Ioreg.Listing
import Rhino.Ioreg.Users
import Rhino.Ioreg.References
import Rhino.Access.Core
import Rhino.Access.Life
import Rhino.Access.Safety
import Rhino.Binfmt.Core
import Rhino.Binfmt.Search
import Rhino.Binfmt.Failure
import Rhino.Binfmt.Genuine
import Rhino.Binfmt.Recursion
import Rhino.Mkbof.Symbols
import Rhino.Mkbof.Stores
import Rhino.Mkbof.Core
import Rhino.Mkbof.Layout
import Rhino.Mkbof.RoundTrip
import Rhino.Mkbof.Hosts
import Rhino.Mkbof.Execution
import Rhino.Mkbof.Opening
import Rhino.Showbof.Core
import Rhino.Showbof.Recovery
import Rhino.Showbof.Agreement
import Rhino.Nand.Ecc
import Rhino.Nand.Correction
import Rhino.Nand.Page
import Rhino.Flash.Chip
import Rhino.Flash.XLoader
import Rhino.Flash.UBoot
import Rhino.Flash.Programming
import Rhino.Flash.BadBlocks
import Rhino.Flash.Writing
import Rhino.Flash.SkipBad
import Rhino.Flash.RoundTrip
import Rhino.Flash.Unwritten
import Rhino.Fat.Core
import Rhino.Fat.Table
import Rhino.Fat.Contents
import Rhino.Fat.Directory
import Rhino.Fat.Format
import Rhino.Fat.Volume
import Rhino.Fat.Boot
import Rhino.I2c.Core
import Rhino.I2c.Sensors
import Rhino.Codec.Rate
import Rhino.Codec.Setting
import Rhino.Codec.Choice
import Rhino.Codec.Core
import Rhino.Gateware.Core
import Rhino.Gateware.Registers
import Rhino.Gateware.Files
import Rhino.Gateware.Program
