import Tm4cPilot.FlashStorage.PowerLoss
import Tm4cPilot.Px4Storage.Race
import Tm4cPilot.Param.Listing
import Tm4cPilot.Param.Refine
import Tm4cPilot.Param.Durability
import Tm4cPilot.Param.PowerLoss
import Tm4cPilot.Mission.Order
import Tm4cPilot.Mission.Path
import Tm4cPilot.Mission.LookAhead
import Tm4cPilot.Gcs.Concurrent
import Tm4cPilot.Gcs.Partial
import Tm4cPilot.Copter.Failsafe
import Tm4cPilot.Fence.Response
import Tm4cPilot.Mavlink.Rules
import Tm4cPilot.Rtt.Preemption
import Tm4cPilot.Gcs.Download
import Tm4cPilot.Rtt.GiveBack
import Tm4cPilot.Rtt.Exclusion
import Tm4cPilot.Rtt.Semaphore
import Tm4cPilot.Rtt.EventSet
import Tm4cPilot.Rtt.MessageQueue
import Tm4cPilot.Rtt.TimerTicks
import Tm4cPilot.Rtt.SoftTimer
import Tm4cPilot.Rtt.HeapSearch
import Tm4cPilot.Rtt.HeapContents
import Tm4cPilot.Rtt.RingBuffer
import Tm4cPilot.Rtt.DataQueue
import Tm4cPilot.Rtt.WorkLiveness
import Tm4cPilot.RcIn.Frames
import Tm4cPilot.RcIn.Genuine
import Tm4cPilot.RcIn.Failsafe
import Tm4cPilot.RcOut.Pwm
import Tm4cPilot.RcOut.Lock
import Tm4cPilot.Gps.Ublox
import Tm4cPilot.Rtt.SerialRx
import Tm4cPilot.ToneAlarm.Hang
import Tm4cPilot.ToneAlarm.Tune
import Tm4cPilot.HrTimer.Clock
import Tm4cPilot.RcSerial.St24
import Tm4cPilot.Gps.Decimal
import Tm4cPilot.Gps.Date
import Tm4cPilot.Gps.Rtcm
import Tm4cPilot.RcSerial.Srxl
import Tm4cPilot.ServoRelay
import Tm4cPilot.MainLoop
