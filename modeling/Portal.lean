import Portal.Core.AdminGate
import Portal.Core.Calls
import Portal.Core.CliCommands
import Portal.Core.EventLoop
import Portal.Core.Labels
import Portal.Core.Listener
import Portal.Core.Listings
import Portal.Core.Passwords
import Portal.Core.SessionCount
import Portal.Core.Settings
import Portal.Core.Sha256
import Portal.Core.Startup
import Portal.Core.Subscriptions
import Portal.Core.UserMap
import Portal.Modules.Cache
import Portal.Modules.Cli.Caller
import Portal.Modules.Cli.Clients
import Portal.Modules.Cli.Isolation
import Portal.Modules.Credentials
import Portal.Modules.File
import Portal.Modules.Kv
import Portal.Modules.Queue
import Portal.Modules.Scheduler
import Portal.Modules.Tunnel
import Portal.Modules.Websocket
import Portal.Node.Delivery
import Portal.Node.Interest
import Portal.Node.Listing
import Portal.Node.Pending
import Portal.Node.Queue
import Portal.Node.Routable
import Portal.Node.Workers
