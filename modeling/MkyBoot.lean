import MkyBoot.Control.Auth
import MkyBoot.Control.Command
import MkyBoot.Control.Dhcp
import MkyBoot.Control.Form
import MkyBoot.Control.Isolation
import MkyBoot.Control.Page
import MkyBoot.Control.RateLimit
import MkyBoot.Control.Login
import MkyBoot.Control.Update
import MkyBoot.Go.Map
import MkyBoot.Server.Naming
import MkyBoot.Server.State
import MkyBoot.Server.Invariant
import MkyBoot.Server.Failure
import MkyBoot.Server.Durable
import MkyBoot.Server.Expiry
import MkyBoot.Go.Filepath
import MkyBoot.Server.Storage
import MkyBoot.Server.Bookkeeping
import MkyBoot.Server.Frame
import MkyBoot.Server.Views
import MkyBoot.Lua.Pattern
import MkyBoot.Lua.Program
import MkyBoot.Control.Station
import MkyBoot.Control.Export
import MkyBoot.Control.Connect
import MkyBoot.Control.Artefact
import MkyBoot.Control.Finish
import MkyBoot.Control.Overlay
import MkyBoot.Control.Commit
import MkyBoot.Control.Super
import MkyBoot.Control.Table
import MkyBoot.Control.Hosts
import MkyBoot.Control.Setup
import MkyBoot.Control.Password
import MkyBoot.Control.Persist
import MkyBoot.Control.DhcpFile
import MkyBoot.Control.Tally
import MkyBoot.Control.Sessions
import MkyBoot.Control.Readback
import MkyBoot.Control.Daemon
import MkyBoot.Control.Answer
import MkyBoot.Control.Image
import MkyBoot.Control.Status
import MkyBoot.Control.Lock
import MkyBoot.Launcher.App
import MkyBoot.Launcher.Effect
import MkyBoot.Launcher.Display
import MkyBoot.Launcher.Adoption
import MkyBoot.Url
import MkyBoot.Go.Place
import MkyBoot.Server.Containment
import MkyBoot.Control.Cookie
import MkyBoot.Control.Origin
import MkyBoot.Control.Evidence
import MkyBoot.Control.Report
import MkyBoot.Control.FirstRun
import MkyBoot.Control.Policy
import MkyBoot.Control.Lockout
import MkyBoot.Machine.Window
import MkyBoot.Launcher.Refusal
import MkyBoot.Control.Guard
import MkyBoot.Control.Device
import MkyBoot.Control.Unescape
import MkyBoot.Server.Admin
import MkyBoot.Go.Escape
import MkyBoot.Server.Release
import MkyBoot.Server.Load
import MkyBoot.Lua.Plain
import MkyBoot.Control.Mtab
import MkyBoot.Posix.Disk
import MkyBoot.Server.Atomic
import MkyBoot.Server.Crash
import MkyBoot.Json.Writer
import MkyBoot.Server.Format
import MkyBoot.Json.Struct
import MkyBoot.Server.Config
import MkyBoot.Launcher.Config
import MkyBoot.Control.Cache
import MkyBoot.Server.Log
import MkyBoot.Launcher.Instance
import MkyBoot.Server.Service
import MkyBoot.Server.Compat
import MkyBoot.Launcher.Compat
import MkyBoot.Control.Refresh
import MkyBoot.Control.Power
import MkyBoot.Control.Logs
import MkyBoot.Launcher.Icon
