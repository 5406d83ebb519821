import ComputeWebApp.Library.Transition
import ComputeWebApp.Data.Dataset
import ComputeWebApp.Data.Wire
import ComputeWebApp.Upload.Agreement
import ComputeWebApp.Data.AggregatorServerFile
import ComputeWebApp.Data.FileRing
import ComputeWebApp.Data.FileRingRefinement
import ComputeWebApp.Library.PriorityQueue
import ComputeWebApp.Upload.OrderIndependence
import ComputeWebApp.Upload.StampOrder
import ComputeWebApp.Upload.WriteQueues
import ComputeWebApp.Data.AggregatorDrain
import ComputeWebApp.Data.SocketRing
import ComputeWebApp.Data.SocketRingDelivery
import ComputeWebApp.Data.ExchangeLock
import ComputeWebApp.Process.Launch
import ComputeWebApp.Process.LockedJson
import ComputeWebApp.Process.Restart
import ComputeWebApp.Process.Programs
import ComputeWebApp.Process.RunningList
import ComputeWebApp.Process.ActionOrder
import ComputeWebApp.Process.Signals
import ComputeWebApp.Upload.Completion
import ComputeWebApp.Upload.TaskDone
import ComputeWebApp.Upload.Release
import ComputeWebApp.Upload.Published
import ComputeWebApp.Upload.Reading
import ComputeWebApp.Upload.Repost
import ComputeWebApp.Upload.Written
import ComputeWebApp.Upload.ZmqAgreement
import ComputeWebApp.Upload.GroupList
import ComputeWebApp.Upload.PostValue
import ComputeWebApp.Upload.SliceLayout
import ComputeWebApp.Library.Json
import ComputeWebApp.Library.JsonWriter
import ComputeWebApp.Library.Regex
import ComputeWebApp.Process.JsonFiles
import ComputeWebApp.Process.LogLine
import ComputeWebApp.Process.EarlyProcess
import ComputeWebApp.Process.Outcome
import ComputeWebApp.Process.OutcomeRuns
import ComputeWebApp.Data.ExchangeDocument
import ComputeWebApp.Data.DatasetContent
import ComputeWebApp.Data.LengthField
import ComputeWebApp.Data.RegistrationUrl
import ComputeWebApp.Image.Scaling
import ComputeWebApp.Image.ImageCache
import ComputeWebApp.Image.GroupImage
import ComputeWebApp.Process.FilterProcess
import ComputeWebApp.Process.DefinitionCheck
import ComputeWebApp.Library.SectionDrain
import ComputeWebApp.Data.FileRingEnd
import ComputeWebApp.Data.SocketRingEnd
import ComputeWebApp.Worker.Variant
import ComputeWebApp.Worker.Arguments
import ComputeWebApp.Worker.Options
