import RealTimeLabs.Motor.Pwm
import RealTimeLabs.Motor.Tracking
import RealTimeLabs.Motor.Tasks
import RealTimeLabs.Motor.Acknowledge
import RealTimeLabs.History.Statistics
import RealTimeLabs.History.Window
import RealTimeLabs.History.Page
import RealTimeLabs.Motor.ControlLaw
import RealTimeLabs.Motor.DutyMirror
import RealTimeLabs.Diggers.Crew
import RealTimeLabs.Diggers.Shovels
import RealTimeLabs.Diggers.Soil
import RealTimeLabs.Http.Server
import RealTimeLabs.Http.Closing
import RealTimeLabs.Registry.Layout
import RealTimeLabs.Registry.Processes
import RealTimeLabs.Registry.Ownership
import RealTimeLabs.Registry.Accounts
import RealTimeLabs.Motor.Phase
import RealTimeLabs.Motor.Symmetry
import RealTimeLabs.Latency.Echo
import RealTimeLabs.Diggers.Keyboard
import RealTimeLabs.Registry.Initialising
import RealTimeLabs.Svg.Arithmetic
import RealTimeLabs.Svg.Generator
import RealTimeLabs.Svg.Grid
import RealTimeLabs.Svg.Drawing
import RealTimeLabs.Svg.Nesting
import RealTimeLabs.Svg.Geometry
import RealTimeLabs.History.Uptime
import RealTimeLabs.Svg.Scale
import RealTimeLabs.History.Plots
import RealTimeLabs.History.Timestamps
import RealTimeLabs.Motor.Direction
import RealTimeLabs.Motor.SetPoint
import RealTimeLabs.Cache.Arrays
import RealTimeLabs.Cache.Measurement
import RealTimeLabs.Latency.Histogram
import RealTimeLabs.Latency.RoundTrip
import RealTimeLabs.Library.Records
import RealTimeLabs.Priority.Timespec
import RealTimeLabs.Priority.WorstLatency
import RealTimeLabs.Http.Segments
import RealTimeLabs.Registry.Claiming
import RealTimeLabs.Library.Datagrams
import RealTimeLabs.Steering.Boards
import RealTimeLabs.Steering.Replay
import RealTimeLabs.Steering.Law
import RealTimeLabs.Library.Table
import RealTimeLabs.Response.Tasks
import RealTimeLabs.Response.Accounts
import RealTimeLabs.Response.Punctual
import RealTimeLabs.Response.Report
import RealTimeLabs.Response.Takedown
import RealTimeLabs.Priority.Scheduler
import RealTimeLabs.Priority.Inversion
import RealTimeLabs.Priority.Measuring
import RealTimeLabs.Library.Counter
import RealTimeLabs.Latency.Exchange
import RealTimeLabs.Latency.Completion
import RealTimeLabs.Latency.Printout
import RealTimeLabs.Diggers.Progress
import RealTimeLabs.Cache.Printout
import RealTimeLabs.Registry.Monitor
import RealTimeLabs.Motor.Settling
import RealTimeLabs.Steering.Following
import RealTimeLabs.Http.Descriptors
import RealTimeLabs.Introduction.Tasks
import RealTimeLabs.Introduction.Order
import RealTimeLabs.Motor.Serial
import RealTimeLabs.Library.Attributes
import RealTimeLabs.Svg.Reading
import RealTimeLabs.History.Reading
