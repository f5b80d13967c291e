import LatticeAgent.Beacon.Agreement
import LatticeAgent.ControlPlane.Restarts
import LatticeAgent.Discover.Cycles
import LatticeAgent.Linechain.Binding
import LatticeAgent.Linechain.Edges
import LatticeAgent.Logtail.Follow
import LatticeAgent.Logtail.Restarts
import LatticeAgent.Logtail.Rotation
import LatticeAgent.Monitor.Drops
import LatticeAgent.Prefetch.Holding
import LatticeAgent.Prober.Judged
import LatticeAgent.Singboxlog.Fields
import LatticeAgent.Sshwatch.Pressure
import LatticeAgent.Tasks.Orphans
import LatticeAgent.Tasks.Worker
import LatticeAgent.Terminal.Handover
import LatticeAgent.Terminal.Reconnect
import LatticeAgent.Trace.Concurrent
import LatticeAgent.Trace.CoreRestarts
import LatticeAgent.Trace.Levels
import LatticeAgent.Trace.LineRate
import LatticeAgent.Trace.Losses
import LatticeAgent.Trace.RawQueue
import LatticeAgent.Trace.Repeats
import LatticeAgent.Trace.ShedMarks
import LatticeAgent.Trace.Shedding
import LatticeAgent.Trace.Stalls
import LatticeAgent.Trace.Stopping
import LatticeAgent.Trace.Subscription
import LatticeAgent.Trace.Tracked
import LatticeAgent.Trace.UdpIdle
