import FolkAround.Lib.OrdMap
import FolkAround.Lib.Runs
import FolkAround.Lib.Trace
import FolkAround.Lib.Utf8
import FolkAround.Lib.Url
import FolkAround.Lib.Text
import FolkAround.Lib.Chunks
import FolkAround.Lib.Search
import FolkAround.Lib.Effects
import FolkAround.Lib.Worlds
import FolkAround.Lib.Transcript
import FolkAround.Lib.Histories
import FolkAround.Lib.BoundedCache
import FolkAround.Lib.Interleaving
import FolkAround.Lib.Slots
import FolkAround.Lib.FixedWindow
import FolkAround.Lib.Pattern
import FolkAround.Lib.Parts
import FolkAround.Lib.HttpMessage
import FolkAround.Lib.Simulation
import FolkAround.Lib.Lifetimes
import FolkAround.Json
import FolkAround.JsonSchema
import FolkAround.Core
import FolkAround.Core.Files
import FolkAround.Core.Config
import FolkAround.Core.Bearer
import FolkAround.Core.Agreement
import FolkAround.Core.Recovery
import FolkAround.Mcp
import FolkAround.Mcp.Dispatch
import FolkAround.Signal.Room
import FolkAround.Signal.Registration
import FolkAround.Signal.Forwarding
import FolkAround.Signal.Roster
import FolkAround.Signal.RateLimit
import FolkAround.Signal.Bookkeeping
import FolkAround.Transport.P2P
import FolkAround.Transport.Reference
import FolkAround.Transport.Network
import FolkAround.Transport.RoundTrip
import FolkAround.Transport.RemoteCalls
import FolkAround.Transport.Authenticity
import FolkAround.Transport.Counters
import FolkAround.Transport.SignalUrl
import FolkAround.Transport.Stdio
import FolkAround.Transport.StdioTotality
import FolkAround.Transport.ReadLoop
import FolkAround.Transport.Isolation
import FolkAround.Transport.RelaySize
import FolkAround.Transport.Http
import FolkAround.Transport.HttpGate
import FolkAround.Transport.HttpReading
import FolkAround.Transport.HttpSegmentation
import FolkAround.Transport.HttpExchange
import FolkAround.Transport.HttpBounds
import FolkAround.Transport.SseSlots
import FolkAround.Transport.SseRefusals
import FolkAround.ComputerUse.Host
import FolkAround.ComputerUse.Semantic
import FolkAround.ComputerUse.Artifacts
import FolkAround.ComputerUse.Tools
import FolkAround.ComputerUse.Desktop
import FolkAround.ComputerUse.Register
import FolkAround.ComputerUse.Enforcement
import FolkAround.ComputerUse.Provenance
import FolkAround.ComputerUse.Schema
import FolkAround.ComputerUse.ObservationCache
import FolkAround.ComputerUse.Captures
import FolkAround.ComputerUse.RestrictedShell
import FolkAround.Main
import FolkAround.OnDisk
import FolkAround.Restart
import FolkAround.Lifetime
import FolkAround.Signal.Delivery
import FolkAround.Signal.Lossless
import FolkAround.Discovery.Net
import FolkAround.Discovery.Meeting
import FolkAround.Discovery.Settling
