import TodoWatch.Theorems.RankingSafety
import TodoWatch.Lib.Async
import TodoWatch.Theorems.ConcurrentCompletion
import TodoWatch.Theorems.CompletionSafety
import TodoWatch.Theorems.RequestAnswers
import TodoWatch.Theorems.ApiRefinement
import TodoWatch.Theorems.ConnectionHealth
import TodoWatch.Theorems.OneReminderLoop
import TodoWatch.Lib.Codec
import TodoWatch.Theorems.TopReminder
import TodoWatch.Theorems.ScreenStorage
import TodoWatch.Theorems.SerializerRoundTrip
import TodoWatch.Theorems.TitleKeys
import TodoWatch.Theorems.SleepReminders
import TodoWatch.Theorems.LatestFix
import TodoWatch.Theorems.DoneIsFinal
import TodoWatch.Theorems.ServiceUser
import TodoWatch.Theorems.ConcurrentPosts
import TodoWatch.Theorems.GroupTodos
import TodoWatch.Theorems.LaunchSync
import TodoWatch.Theorems.CompletionEffect
import TodoWatch.Theorems.DailySchedule
import TodoWatch.Theorems.IterationOrder
import TodoWatch.Lib.Stability
import TodoWatch.Theorems.TickOrder
import TodoWatch.Theorems.RankMonotone
import TodoWatch.Theorems.DailyThrottle
import TodoWatch.Theorems.TickDurable
import TodoWatch.Lib.Labels
import TodoWatch.Theorems.RecordDecoding
import TodoWatch.Theorems.WholeRecords
import TodoWatch.Theorems.CyclicRange
import TodoWatch.Lib.Guarantee
import TodoWatch.Theorems.ServerResponses
import TodoWatch.Theorems.ServerStore
import TodoWatch.Lib.WriteBack
import TodoWatch.Theorems.WatchRuns
import TodoWatch.Theorems.WatchSteps
import TodoWatch.Theorems.CompletionOrder
import TodoWatch.Theorems.ServedInTurn
import TodoWatch.Theorems.ServerOrder
import TodoWatch.Theorems.Finishing
import TodoWatch.Theorems.FirstInstant
import TodoWatch.Theorems.FirstLaunch
import TodoWatch.Theorems.ViewContents
import TodoWatch.Theorems.TitleQueues
import TodoWatch.Theorems.DurableThrottle
import TodoWatch.Lib.Spacing
import TodoWatch.Theorems.CheckRate
import TodoWatch.Theorems.VisitRate
import TodoWatch.Theorems.LoadingSpinner
import TodoWatch.Theorems.CognitiveLoad
