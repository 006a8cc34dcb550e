import DroidVnc.Lib.Transition
import DroidVnc.Lib.CompareStore
import DroidVnc.Lib.Grid
import DroidVnc.Lib.Region
import DroidVnc.Rfb.Cursor
import DroidVnc.Screen.Format
import DroidVnc.Screen.Geometry
import DroidVnc.Screen.Client
import DroidVnc.Screen.Daemon
import DroidVnc.Screen.UpdateScreen
import DroidVnc.Screen.Run
import DroidVnc.Screen.Image
import DroidVnc.Screen.Dirty
import DroidVnc.Screen.Addressing
import DroidVnc.Screen.RotateClients
import DroidVnc.Input.Touch
import DroidVnc.Lib.Signal
import DroidVnc.Input.Events
import DroidVnc.Input.Protocol
import DroidVnc.Screen.Frames
import DroidVnc.Lib.CString
import DroidVnc.Lib.Utf8
import DroidVnc.Ipc.Control
import DroidVnc.Ipc.Listener
import DroidVnc.Ipc.Messages
import DroidVnc.Ipc.Clients
import DroidVnc.Lib.Tokens
import DroidVnc.Lib.Decimal
import DroidVnc.Startup.Options
import DroidVnc.Startup.StartServer
import DroidVnc.Lib.Resource
import DroidVnc.Lib.Script
import DroidVnc.Grabber.Gralloc
import DroidVnc.Grabber.Probe
import DroidVnc.Grabber.Live
import DroidVnc.Shutdown.CloseApp
import DroidVnc.Input.TouchRange
import DroidVnc.Lib.PrefixCode
import DroidVnc.Input.Packets
import DroidVnc.Input.Typing
import DroidVnc.Lib.BitField
import DroidVnc.Screen.PixelFormat
import DroidVnc.Screen.Detection
import DroidVnc.Lib.Buffer
import DroidVnc.Startup.Buffers
import DroidVnc.Lib.Receive
import DroidVnc.Screen.MainLoop
import DroidVnc.Grabber.Adb
import DroidVnc.Grabber.AdbReads
import DroidVnc.Grabber.AdbReply
import DroidVnc.Lib.While
import DroidVnc.Grabber.ReadSocket
import DroidVnc.Lib.Span
import DroidVnc.Rfb.SpanList
import DroidVnc.Rfb.SpanSets
import DroidVnc.Rfb.Region
import DroidVnc.Rfb.Iterator
import DroidVnc.Lib.Move
import DroidVnc.Rfb.CopyRegion
import DroidVnc.Rfb.Update
import DroidVnc.Rfb.Pictures
import DroidVnc.Rfb.Refinement
import DroidVnc.Lib.Wire
import DroidVnc.Rfb.Subrects
import DroidVnc.Rfb.Raw
import DroidVnc.Rfb.Rre
import DroidVnc.Rfb.Hextile
import DroidVnc.Rfb.Message
import DroidVnc.Rfb.Proper
