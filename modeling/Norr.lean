import Norr.Control.Challenge
import Norr.Control.Forgery
import Norr.Control.HalfOpen
import Norr.Control.KeyIdSupply
import Norr.Control.Limits
import Norr.Control.Stacking
import Norr.Control.TimerQueue
import Norr.Crypto.Agreement
import Norr.Crypto.Blake2s
import Norr.Fec.Lanes
import Norr.Fec.Robustness
import Norr.Net.LongestPrefix
import Norr.Offload.Coalescing
import Norr.Qos.Congestion
import Norr.Qos.Share
import Norr.Runtime.Atomicity
import Norr.Transport.Dns
import Norr.Transport.Draining
import Norr.Transport.GreetingExact
import Norr.Transport.RawSockets
import Norr.Transport.UdpWire
import Norr.Transport.UniformLength
import Norr.Worker.BlockIds
import Norr.Worker.Invariants
import Norr.Worker.LossSamples
import Norr.Worker.Pacing
import Norr.Worker.Tunnel
