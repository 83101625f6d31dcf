import HPLinuxServer.Timer.SortTimerLstRuns
import HPLinuxServer.Timer.TimeWheelTimerRuns
import HPLinuxServer.Timer.TimeWheelTimerStructure
import HPLinuxServer.Timer.TimeHeapRuns
import HPLinuxServer.Http.Segmentation
import HPLinuxServer.Http.Delivery
import HPLinuxServer.Http.RequestLineGrammar
import HPLinuxServer.Http.LineSplitting
import HPLinuxServer.Http.HeaderFields
import HPLinuxServer.Http.RequestedFile
import HPLinuxServer.Http.ProcessReadTermination
import HPLinuxServer.Http.ResponseFraming
import HPLinuxServer.Http.FileMappingProperties
import HPLinuxServer.Http.WebServerRuns
import HPLinuxServer.Pool.ThreadPoolProperties
import HPLinuxServer.Pool.ProcessPoolDrain
import HPLinuxServer.Execution.TimeoutServerProperties
import HPLinuxServer.Execution.ChatroomPasses
import HPLinuxServer.Execution.ChatroomDeliveryProperties
import HPLinuxServer.Execution.SubprocessChatRoomProperties
import HPLinuxServer.Execution.ChatRelayProperties
import HPLinuxServer.Execution.EdgeLoopProperties
import HPLinuxServer.Http.ReadProperties
import HPLinuxServer.Http.ParserIndices
import HPLinuxServer.Timer.SortTimerLstTicks
import HPLinuxServer.Timer.SortTimerLstCallbacks
import HPLinuxServer.Timer.TimeHeapInsertion
import HPLinuxServer.Timer.TimeHeapGrowth
import HPLinuxServer.Timer.TimeHeapTicks
import HPLinuxServer.Timer.TimeWheelTimerSlots
import HPLinuxServer.Scheduling.ShallowHeapify
import HPLinuxServer.Timer.TimeHeapConstruction
import HPLinuxServer.Pool.ProcessPoolAssignment
import HPLinuxServer.Pool.ProcessPoolRelease
import HPLinuxServer.Pool.ThreadPoolBound
import HPLinuxServer.Execution.EchoConn
import HPLinuxServer.Execution.EchoConnProperties
import HPLinuxServer.Execution.EpollOneshot
import HPLinuxServer.Execution.EpollOneshotProperties
import HPLinuxServer.Timer.TimeHeapBounds
import HPLinuxServer.Timer.TimeWheelTimerLayout
import HPLinuxServer.Timer.TimeWheelTimerRearming
import HPLinuxServer.Timer.TimeWheelTimerRearmingProperties
import HPLinuxServer.Timer.TimeWheelTimerRearmingRuns
import HPLinuxServer.Concurrency.Mutex
import HPLinuxServer.Pool.ThreadPoolLocks
import HPLinuxServer.Refinement.Stuttering
import HPLinuxServer.Pool.ThreadPoolLocksProperties
import HPLinuxServer.Pool.ThreadPoolProgress
import HPLinuxServer.Kernel.SignalPipe
import HPLinuxServer.Pool.ProcessPoolSignals
import HPLinuxServer.Pool.ProcessPoolShutdown
import HPLinuxServer.Execution.TimeoutServerSignals
import HPLinuxServer.Execution.TimeoutServerSignalsProperties
import HPLinuxServer.Execution.TimeoutServerClock
import HPLinuxServer.Http.Service
import HPLinuxServer.Http.ServiceProperties
import HPLinuxServer.Kernel.FileTable
import HPLinuxServer.Pool.ProcessPoolConstruction
import HPLinuxServer.Pool.ProcessPoolConstructionProperties
import HPLinuxServer.Http.WebServerStarvation
import HPLinuxServer.Timer.TimerDestructors
import HPLinuxServer.Timer.TimersAgree
import HPLinuxServer.Execution.LtEtInEpoll
import HPLinuxServer.Execution.LtEtInEpollProperties
