import VpnCore.Api.ExternalApps
import VpnCore.Apps.Rows
import VpnCore.Bind.Intent
import VpnCore.Config.InlineFile
import VpnCore.Config.LineAgree
import VpnCore.Config.NameServers
import VpnCore.Config.Password
import VpnCore.Config.Proxy
import VpnCore.Config.Routes
import VpnCore.Certs.Manager
import VpnCore.Crypt.AesCbc
import VpnCore.Data.Encrypted
import VpnCore.Data.Refine
import VpnCore.Data.StringSet
import VpnCore.Dns.Proxy
import VpnCore.Hold.Release
import VpnCore.Hold.Resume
import VpnCore.Hold.Timer
import VpnCore.Ikev2.Timers
import VpnCore.Ikev2.Watchdog
import VpnCore.Imc.Attributes
import VpnCore.Log.Buffer
import VpnCore.Log.Marshal
import VpnCore.Log.Resync
import VpnCore.Log.Trim
import VpnCore.Management.Input
import VpnCore.Options.Inline
import VpnCore.Options.ParseLine
import VpnCore.Process.LogLine
import VpnCore.Profiles.Identity
import VpnCore.Profiles.LastConnected
import VpnCore.Profiles.Provision
import VpnCore.Ranges.Cover
import VpnCore.Ranges.Mapped
import VpnCore.Ranges.TextForm
import VpnCore.Route.Ipv6Address
import VpnCore.Route.Rounds
import VpnCore.Route.Separated
import VpnCore.Route.Netmask
import VpnCore.Service.Tunnel
import VpnCore.Settings.RoundTrip
import VpnCore.Start.Overtake
import VpnCore.Traffic.History
import VpnCore.Tun.Isolation
import VpnCore.Tun.NetworkRoutes
import VpnCore.Tun.Repeat
