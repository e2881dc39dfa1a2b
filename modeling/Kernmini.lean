import Kernmini.Lib.Transition
import Kernmini.Lib.Heap
import Kernmini.Lib.HashMap
import Kernmini.Wire.Replay
import Kernmini.Engine.ShellTheorems
import Kernmini.Engine.InterruptTheorems
import Kernmini.Engine.KernelTable
import Kernmini.Engine.KernelInterrupt
import Kernmini.Engine.KernelWaits
import Kernmini.Engine.ShellTraces
import Kernmini.Engine.KernelTraces
import Kernmini.Engine.StopTheorems
import Kernmini.Engine.KernelSteps
import Kernmini.Engine.ShellSteps
import Kernmini.Wire.Session
import Kernmini.Wire.SessionTheorems
import Kernmini.Lib.SwapRemove
import Kernmini.Transport.Iopub
import Kernmini.Transport.IopubTheorems
import Kernmini.Engine.DebugEvents
import Kernmini.Engine.PumpTheorems
import Kernmini.Engine.Completion
import Kernmini.Engine.InterruptWindow
import Kernmini.Engine.KernelErrors
import Kernmini.Engine.ShellMail
import Kernmini.Engine.InterruptFence
import Kernmini.Engine.KernelPosts
import Kernmini.Engine.KernelFence
import Kernmini.Engine.ReleaseTheorems
import Kernmini.Engine.KernelRelease
import Kernmini.Lib.SelfDelimiting
import Kernmini.Wire.JsonText
import Kernmini.Wire.SignatureTheorems
import Kernmini.Dap.Message
import Kernmini.Dap.Reader
import Kernmini.Dap.MessageTheorems
import Kernmini.Dap.ReaderTheorems
import Kernmini.Dap.Client
import Kernmini.Dap.ClientTheorems
import Kernmini.Python.UserCode
import Kernmini.Python.UserCodeTheorems
import Kernmini.Worker.Serial
import Kernmini.Worker.ThreadWorker
import Kernmini.Worker.ThreadWorkerTheorems
import Kernmini.Engine.Stdin
import Kernmini.Engine.StdinSteps
import Kernmini.Engine.StdinTheorems
import Kernmini.Engine.AbortPending
import Kernmini.Dap.ReaderFailures
import Kernmini.Dap.Sequence
import Kernmini.Engine.Numbering
import Kernmini.Engine.Shutdown
import Kernmini.Engine.StopOnError
import Kernmini.Engine.Statuses
import Kernmini.Engine.CommOutput
import Kernmini.Engine.InterruptRoutes
import Kernmini.Engine.ExecutionInterrupt
import Kernmini.Engine.HandlerCalls
import Kernmini.Transport.RouterTheorems
import Kernmini.Lib.FileSystem
import Kernmini.Lib.FilePaths
import Kernmini.Kernelspec.Install
import Kernmini.Lib.FileCalls
import Kernmini.Kernelspec.CopyFrame
import Kernmini.Kernelspec.CopyTheorems
import Kernmini.Kernelspec.InstallTheorems
import Kernmini.Engine.Order
import Kernmini.Engine.Rest
import Kernmini.Engine.Teardown
import Kernmini.Transport.RouterPeer
import Kernmini.Transport.RouterReplies
import Kernmini.Transport.RouterReturns
import Kernmini.Transport.RouterRequests
import Kernmini.Transport.SubscriberTheorems
import Kernmini.Transport.PublishReturns
import Kernmini.Engine.KernelLabour
import Kernmini.Engine.Quiesce
import Kernmini.Engine.ControlReplies
