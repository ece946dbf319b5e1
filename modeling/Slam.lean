import Slam.Lib.Fifo
import Slam.Lib.Machine
import Slam.Lib.LittleEndian
import Slam.Lib.BinaryFloat
import Slam.Lib.DoublyLinked
import Slam.Lib.Assoc
import Slam.Io.Message
import Slam.Io.MessageQueue
import Slam.Io.ByteBuffer
import Slam.Io.Receive
import Slam.Io.Framing
import Slam.Io.Segmentation
import Slam.Protocol.Header
import Slam.Io.Send
import Slam.Io.IoThread
import Slam.Io.Connection
import Slam.Io.Response
import Slam.Timer.TimerList
import Slam.Timer.Removal
import Slam.Timer.Termination
import Slam.Timer.Nodes
import Slam.Timer.Firing
import Slam.Lua.Value
import Slam.Lua.State
import Slam.Codec.Schema
import Slam.Codec.Decode
import Slam.Codec.Encode
import Slam.Codec.Reading
import Slam.Codec.RoundTrip
import Slam.Codec.TableLaw
import Slam.Codec.MessageBuilder
import Slam.Codec.StackLevel
import Slam.Protocol.Registry
import Slam.Lua.Event
import Slam.Protocol.Codec
import Slam.Protocol.Wire
import Slam.Runnable.DoMessage
import Slam.Timer.References
import Slam.Lib.Raising
import Slam.Lib.Rotation
import Slam.Game.World
import Slam.Game.Tools
import Slam.Game.Entity
import Slam.Game.Pack
import Slam.Game.Match
import Slam.Game.Settle
import Slam.Game.Aside
import Slam.Game.Acts
import Slam.Game.BuffTable
import Slam.Game.Steps
import Slam.Game.Follow.Entity
import Slam.Game.Follow.Match
import Slam.Game.Follow.Settle
import Slam.Game.Liveness
import Slam.Game.Settlement
import Slam.Game.TurnOrder
import Slam.Game.Conservation
import Slam.Game.Play
import Slam.Game.Creation
import Slam.Game.Event
import Slam.Game.Shop
import Slam.Game.Growth
import Slam.Game.InitialPack
import Slam.Game.EntityRecord
import Slam.Game.Restore
import Slam.Game.LineUp
import Slam.Game.Items
import Slam.Game.Stacking
import Slam.Game.Listing
import Slam.Game.Reward
import Slam.Game.Modifiers
import Slam.Game.SceneMatch
import Slam.Game.Targets
import Slam.Game.Inventory
import Slam.Game.Equipment
import Slam.Game.Capacity
import Slam.Game.Consumption
import Slam.Game.Client
import Slam.Game.Announce
import Slam.Game.Mirror
import Slam.Game.Bounds
import Slam.Game.Damage
import Slam.Game.BuffScript
import Slam.Game.Dispatch
import Slam.Game.CardScript
import Slam.Game.DoubleUse
import Slam.Game.Discard
import Slam.Game.Progress
import Slam.Lib.Frontier
import Slam.Lib.TwoRuns
import Slam.Astar.HeapStack
import Slam.Astar.PriorityQueue
import Slam.Astar.FindPath
import Slam.Astar.Sound
import Slam.Astar.Optimal
import Slam.Astar.Complete
import Slam.Scene.Tiles
import Slam.Scene.Creator
import Slam.Scene.Link
import Slam.Scene.Move
import Slam.Scene.Placement
import Slam.Lib.PathTree
import Slam.Layout.Generator
import Slam.Layout.Locate
import Slam.Layout.Index
import Slam.Layout.Coordinates
import Slam.Scene.Generator
import Slam.Scene.Connected
import Slam.Scene.Live
import Slam.Scene.Sound
import Slam.Scene.Calls
import Slam.Scene.Opening
import Slam.Lib.SqlText
import Slam.Db.Encode
import Slam.Db.SetClause
import Slam.Timer.Wait
import Slam.Lua.Func
import Slam.Random.Generator
import Slam.Random.Sampling
import Slam.Random.Layers
import Slam.Random.EventScript
import Slam.Random.CopyScript
import Slam.Lib.FloatArithmetic
import Slam.Lib.BinaryDigits
import Slam.Tools.Bit
import Slam.Lib.NodeMap
import Slam.Tools.Equal
import Slam.Game.Lifecycle
import Slam.Json.Record
import Slam.Io.Edges
import Slam.Io.Interleaving
import Slam.Io.Delivery
import Slam.Game.Stuck
import Slam.Protocol.Binding
import Slam.Io.Sending
import Slam.Protocol.Network
