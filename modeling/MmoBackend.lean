import MmoBackend.Library.Bytes
import MmoBackend.Library.Exec
import MmoBackend.Library.Arrivals
import MmoBackend.Library.Rfc6455
import MmoBackend.Networking.WebSocket
import MmoBackend.Networking.ReadFrame
import MmoBackend.Communication.Packet
import MmoBackend.Networking.Segmentation
import MmoBackend.Communication.SlowReceiver
import MmoBackend.Library.Trace
import MmoBackend.Communication.SharedConnection
import MmoBackend.Authentication.AwaitingConnections
import MmoBackend.Communication.LoginRace
import MmoBackend.Library.BitGrid
import MmoBackend.Maps.Map
import MmoBackend.Library.Reservation
import MmoBackend.Player.Distance
import MmoBackend.Player.Movement
import MmoBackend.Player.ContestedMove
import MmoBackend.Maps.MapDefinitions
import MmoBackend.Maps.RowStorage
import MmoBackend.Maps.PlayerList
import MmoBackend.Db.Document
import MmoBackend.Library.Replica
import MmoBackend.Communication.PacketTypes
import MmoBackend.World.State
import MmoBackend.World.Registry
import MmoBackend.World.Movement
import MmoBackend.World.Server
import MmoBackend.Library.Heap
import MmoBackend.Library.LinkedList
import MmoBackend.World.Effects
import MmoBackend.World.RefusedMove
import MmoBackend.World.Scene
import MmoBackend.World.Sound
import MmoBackend.World.Relocation
import MmoBackend.World.Spawn
import MmoBackend.World.ClientView
import MmoBackend.World.Arrival
import MmoBackend.World.Records
import MmoBackend.World.Settled
import MmoBackend.World.Login
import MmoBackend.World.ClientsAgree
import MmoBackend.World.Occupancy
import MmoBackend.Communication.PacketRead
import MmoBackend.World.LoopCalls
import MmoBackend.World.Fuel
import MmoBackend.World.Twins
import MmoBackend.World.Interference
import MmoBackend.Authentication.AuthReciever
import MmoBackend.World.Turns
import MmoBackend.World.MoveRule
import MmoBackend.World.Membership
import MmoBackend.World.OnePlayer
import MmoBackend.World.Obstacles
import MmoBackend.World.Writes
import MmoBackend.World.Progress
import MmoBackend.World.Journey
import MmoBackend.World.EmptyMaps
import MmoBackend.Library.Walk
import MmoBackend.Library.Tally
import MmoBackend.Library.Ledger
import MmoBackend.World.Walks
import MmoBackend.World.References
import MmoBackend.World.Counting
import MmoBackend.World.Shelter
import MmoBackend.World.NoFreedMap
import MmoBackend.Networking.HeaderList
import MmoBackend.Networking.HttpPhase
import MmoBackend.Networking.HeaderLookup
import MmoBackend.Networking.LongLines
import MmoBackend.Networking.WebServer
import MmoBackend.Networking.OwnFrames
import MmoBackend.Library.Marks
import MmoBackend.Maps.Collision
import MmoBackend.Library.Holdings
import MmoBackend.Library.Assoc
import MmoBackend.World.LoadInterleaving
import MmoBackend.World.PlayerCache
import MmoBackend.Library.Block
import MmoBackend.Library.Scanf
import MmoBackend.Library.Stops
import MmoBackend.World.NoFault
import MmoBackend.World.SessionGate
import MmoBackend.World.Portals
import MmoBackend.Authentication.Expiration
import MmoBackend.Library.Memory
import MmoBackend.Networking.BufferedReader
import MmoBackend.World.InspectPlayer
import MmoBackend.Authentication.RefusedInsert
import MmoBackend.Authentication.CleanerPass
import MmoBackend.Communication.FrameMemory
import MmoBackend.Communication.LoginId
import MmoBackend.Communication.Reencoding
import MmoBackend.World.CacheInsert
import MmoBackend.World.RecordRoundTrip
import MmoBackend.World.PlainMove
import MmoBackend.World.LoginPlacement
import MmoBackend.World.HandlerReads
import MmoBackend.World.MapIds
import MmoBackend.Communication.RequestTester
import MmoBackend.World.MoveRequest
import MmoBackend.Communication.PacketBodies
import MmoBackend.Structures.LinkedList
import MmoBackend.Library.Steps
import MmoBackend.World.Walker
import MmoBackend.World.Frame
import MmoBackend.World.LoginAgreement
import MmoBackend.Communication.ServerWire
import MmoBackend.World.Tidy
import MmoBackend.World.Wire
import MmoBackend.World.Network
import MmoBackend.Networking.Upgrade
import MmoBackend.Library.Reorder
import MmoBackend.World.Sockets
import MmoBackend.World.Independence
import MmoBackend.World.Backend
import MmoBackend.Library.Threads
import MmoBackend.World.Locking
import MmoBackend.World.Threads
import MmoBackend.Networking.UpgradeRequest
import MmoBackend.World.Site
