import Seatel.Runs
import Seatel.CInt
import Seatel.Parity
import Seatel.Platform
import Seatel.Vars
import Seatel.Ctrl
import Seatel.Mde
import Seatel.MdeWords
import Seatel.System
import Seatel.AzSpeed
import Seatel.Failsafe
import Seatel.MdePower
import Seatel.AzCommands
import Seatel.Preempt
import Seatel.Pointing
import Seatel.Rotation
import Seatel.MdeProtocol
import Seatel.TorqueBound
import Seatel.Watchdog
import Seatel.CString
import Seatel.Debug
import Seatel.DebugMessages
import Seatel.Ocxo
import Seatel.Numerals
import Seatel.Http
import Seatel.Api
import Seatel.Gps
import Seatel.AzPosition
import Seatel.ApiFields
import Seatel.ApiPosition
import Seatel.ApiSession
import Seatel.HttpDispatch
import Seatel.Ina3221
import Seatel.Json
import Seatel.Chprintf
import Seatel.StateJson
import Seatel.ElPosition
import Seatel.AzCalibration
import Seatel.TargetShift
import Seatel.EncoderSpeed
import Seatel.GpsFraming
import Seatel.OcxoPulses
import Seatel.GpsFields
import Seatel.HttpReads
import Seatel.HttpThread
import Seatel.Ina3221Bus
import Seatel.ImuThread
import Seatel.Dashboard
import Seatel.AzAxis
import Seatel.ElAxis
import Seatel.Angles
import Seatel.ApiRoundTrip
import Seatel.ApiThread
import Seatel.Causes
import Seatel.DebugConsole
import Seatel.ElAngle
import Seatel.GpsSerial
import Seatel.Isolation
import Seatel.Page
import Seatel.PageControls
import Seatel.PowerReadings
import Seatel.PulseLed
import Seatel.SkewPositions
