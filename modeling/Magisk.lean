import Magisk.App.Axml.Patch
import Magisk.Base.AtomicArc
import Magisk.Boot.Cpio.Listing
import Magisk.Boot.Cpio.Undo
import Magisk.Boot.Image.AvbSurvival
import Magisk.Boot.Image.VendorTable
import Magisk.Boot.Lz4.RoundTrip
import Magisk.Boot.Patch.HexPatch
import Magisk.Boot.Patch.Skipped
import Magisk.Boot.Payload.Layout
import Magisk.Core.BootStages.Handler
import Magisk.Core.Deny.Agreement
import Magisk.Core.Module.Collect
import Magisk.Core.Module.Paths
import Magisk.Core.Module.Replace
import Magisk.Core.Package.Manager
import Magisk.Core.Resetprop.Persist
import Magisk.Core.Socket.Robust
import Magisk.Core.Su.Granted
import Magisk.Core.Su.Isolation
import Magisk.Core.Su.Prune
import Magisk.Core.Thread.Liveness
import Magisk.Core.Unmount
import Magisk.Core.Zygisk.GetInfo
import Magisk.Core.Zygisk.NativeBridge
import Magisk.SePolicy.Literal
import Magisk.SePolicy.MatchAll
import Magisk.SePolicy.PrintedRule
import Magisk.SePolicy.TokenText
import Magisk.SePolicy.XpermCalls
