import AsyncMessenger.Lib.Run
import AsyncMessenger.SequenceNumber
import AsyncMessenger.Numbering
import AsyncMessenger.Agreement
import AsyncMessenger.ClientAsserts
import AsyncMessenger.StateMachine
import AsyncMessenger.StateBuffer
import AsyncMessenger.ByteThrottle
import AsyncMessenger.SelfWait
import AsyncMessenger.WriteWatcher
import AsyncMessenger.MarkDown
import AsyncMessenger.Lookup
import AsyncMessenger.Standby
import AsyncMessenger.Replacement
import AsyncMessenger.Peers
import AsyncMessenger.Framing
import AsyncMessenger.ByteStrings
import AsyncMessenger.Checksum
import AsyncMessenger.MessageThrottle
import AsyncMessenger.DispatchQueue
import AsyncMessenger.References
import AsyncMessenger.Refusal
import AsyncMessenger.Retries
import AsyncMessenger.Crossing
import AsyncMessenger.ForwardCompat
import AsyncMessenger.MessageSize
import AsyncMessenger.OpenRace
import AsyncMessenger.Prefetch
import AsyncMessenger.Inlet
import AsyncMessenger.Slicing
import AsyncMessenger.Bounds
import AsyncMessenger.Positions
import AsyncMessenger.Realign
import AsyncMessenger.Overwriting
import AsyncMessenger.Comparison
import AsyncMessenger.ArrivalIndex
import AsyncMessenger.WaitingThrottle
import AsyncMessenger.PtrRoundTrip
import AsyncMessenger.Base64
import AsyncMessenger.SocketSend
import AsyncMessenger.StaleCursor
import AsyncMessenger.Utime
import AsyncMessenger.EntityName
import AsyncMessenger.AddrText
import AsyncMessenger.SafeIo
import AsyncMessenger.WriteFile
import AsyncMessenger.SafeWriteFile
import AsyncMessenger.Encounter
import AsyncMessenger.RaceReset
import AsyncMessenger.RaceSession
import AsyncMessenger.WorkerPool
import AsyncMessenger.Parties
import AsyncMessenger.DispatchThreads
import AsyncMessenger.Lifecycle
import AsyncMessenger.SimpleThrottle
import AsyncMessenger.Damage
import AsyncMessenger.ReadFile
import AsyncMessenger.Keepalive
import AsyncMessenger.Mutex
