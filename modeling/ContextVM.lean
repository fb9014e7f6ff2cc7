import ContextVM.Transport.Agreement
import ContextVM.Transport.Content
import ContextVM.Transport.Exchange
import ContextVM.Transport.Server.Restore
import ContextVM.Transport.Server.Atomic
import ContextVM.Transport.Server.Broadcast
import ContextVM.Transport.Transparency
import ContextVM.Transport.Policy
import ContextVM.Transport.Client.Pending
import ContextVM.Transport.Server.Delivery
import ContextVM.Transport.Server.Links
import ContextVM.Transport.EventLoop
import ContextVM.Transport.Restart.Exclusive
import ContextVM.Transport.Server.Locks
import ContextVM.Discovery.Deletion
import ContextVM.Discovery.RoundTrip
import ContextVM.Lib.Desk
import ContextVM.Transport.Server.Desk
import ContextVM.Transport.Rpc
import ContextVM.Lib.Lease
import ContextVM.Transport.Server.Expiry
import ContextVM.Gateway
import ContextVM.Transport.Server.Footprint
import ContextVM.Remote
import ContextVM.Transport.Stateless
import ContextVM.Transport.Confidentiality
import ContextVM.Transport.Server.Noninterference
