import Helicopter.WriteLock
import Helicopter.Reassembly
import Helicopter.SynchronizedEvents
import Helicopter.HostView
import Helicopter.PingRules
import Helicopter.Authenticity
import Helicopter.Callbacks
import Helicopter.LobbyRefinement
import Helicopter.GameLookup
import Helicopter.Capacity
import Helicopter.DirectMessage
import Helicopter.Refusals
import Helicopter.Kicks
import Helicopter.Greeting
import Helicopter.StaticHost
import Helicopter.SilentPeer
import Helicopter.BestPing
import Helicopter.AcceptedPongs
import Helicopter.Activations
import Helicopter.Delivery
import Helicopter.Occupancy
import Helicopter.Relaying
import Helicopter.Readers
import Helicopter.Isolation
import Helicopter.Agreement
import Helicopter.Desertion
import Helicopter.Outgoing
import Helicopter.Gateway
import Helicopter.LockOrder
