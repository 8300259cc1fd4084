import C64Tools.Library.Transition
import C64Tools.Library.Tiling
import C64Tools.Library.Service
import C64Tools.Library.ByteMemory
import C64Tools.Library.RingBuffer
import C64Tools.Library.Translation
import C64Tools.Library.Edma
import C64Tools.Library.Retry
import C64Tools.Library.Blocks
import C64Tools.Library.Paging
import C64Tools.Library.MappedMemory
import C64Tools.Library.Transfers
import C64Tools.Library.Calls
import C64Tools.Core.Types
import C64Tools.Kmod.Minim.Model
import C64Tools.Kmod.Minim.Layout
import C64Tools.Kmod.Minim.Refinement
import C64Tools.Kmod.Minim.Invariant
import C64Tools.Kmod.Minim.FreeByClient
import C64Tools.Kmod.Minim.Canonical
import C64Tools.Kmod.Minim.Contract
import C64Tools.Kmod.Minim.Ownership
import C64Tools.Kmod.Power
import C64Tools.Kmod.RunState
import C64Tools.Kmod.Dev.Model
import C64Tools.Kmod.Dev.Step
import C64Tools.Kmod.Dev.Cases
import C64Tools.Kmod.Dev.Inversion
import C64Tools.Kmod.Dev.Slots
import C64Tools.Kmod.Dev.OpenCount
import C64Tools.Kmod.Dev.Overlays
import C64Tools.Kmod.Dev.Clients
import C64Tools.Kmod.Dev.Channel
import C64Tools.Kmod.Dev.Poll
import C64Tools.Kmod.Dev.PowerOwner
import C64Tools.Kmod.Dev.Vacated
import C64Tools.Kmod.Dev.Memory
import C64Tools.Kmod.Dev.SlotReuse
import C64Tools.Kmod.Dev.History
import C64Tools.Kmod.Dev.Routing
import C64Tools.Kmod.Dev.Delivery
import C64Tools.Kmod.Dev.Messages
import C64Tools.Kmod.Dev.FailedWrite
import C64Tools.Kmod.Dev.AllocIoctls
import C64Tools.Kmod.Dev.Mmap
import C64Tools.Kmod.Dev.Cache
import C64Tools.Shm.Regions
import C64Tools.Shm.Held
import C64Tools.Shm.RoundTrip
import C64Tools.Shm.Effects
import C64Tools.Shm.Free
import C64Tools.Shm.Atomic
import C64Tools.Shm.Syscalls
import C64Tools.Shm.Owned
import C64Tools.Shm.Agreement
import C64Tools.Shm.Process
import C64Tools.Client.Open
import C64Tools.Client.Mspace
import C64Tools.Client.FastMmap
import C64Tools.Client.Access
import C64Tools.Client.ExitRoot
import C64Tools.Fastcall.Model
import C64Tools.Fastcall.Handshake
import C64Tools.Fastcall.Calls
import C64Tools.Fastcall.Recovery
import C64Tools.Fastcall.Sharing
import C64Tools.Dispatch.Model
import C64Tools.Dispatch.ExactlyOnce
import C64Tools.Overlay.Components
import C64Tools.Overlay.Model
import C64Tools.Overlay.InStep
import C64Tools.Overlay.Agreement
import C64Tools.Overlay.Registry
import C64Tools.Overlay.Resolution
import C64Tools.Overlay.SectionCount
import C64Tools.Overlay.References
import C64Tools.Overlay.Session
import C64Tools.Overlay.SessionRun
import C64Tools.Overlay.Balance
import C64Tools.Overlay.Lookup
import C64Tools.Overlay.FailedLoad
import C64Tools.Overlay.ComponentRegister
import C64Tools.Overlay.OverlayRegister
import C64Tools.Overlay.CoreRegister
import C64Tools.Coff.Format
import C64Tools.Coff.Overlay
import C64Tools.Coff.Safety
import C64Tools.Coff.Correctness
import C64Tools.Coff.Cinit
import C64Tools.Coff.RawBuffer
import C64Tools.Coff.File
import C64Tools.Coff.StringTable
import C64Tools.Loader.Sections
import C64Tools.Loader.Activity
import C64Tools.Loader.Main
import C64Tools.Logbuf.Model
import C64Tools.Logbuf.Writer
import C64Tools.Logbuf.Printed
import C64Tools.Logbuf.Runs
import C64Tools.Logbuf.Attach
import C64Tools.Rpc.Model
import C64Tools.Rpc.Errors
import C64Tools.Rpc.Retry
import C64Tools.Rpc.Service
import C64Tools.Rpc.Serving
import C64Tools.Rpc.DemoCalc
import C64Tools.Qdma.Model
import C64Tools.Qdma.Fields
import C64Tools.Qdma.Chain
import C64Tools.Qdma.Programs
import C64Tools.Qdma.Interleaving
import C64Tools.Qdma.Plain
import C64Tools.Qdma.Linked
import C64Tools.DemoChecksum.Model
import C64Tools.DemoChecksum.Sums
import C64Tools.DemoChecksum.Streaming
import C64Tools.DemoChecksum.Commands
import C64Tools.DemoChecksum.Random
import C64Tools.TestQdma.Model
import C64Tools.TestQdma.Commands
