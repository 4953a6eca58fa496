import BufferCheck.Main
import BufferCheck.Proofs.Path.Names
import BufferCheck.Server.Threads
import BufferCheck.Proofs.Path.Straight
import BufferCheck.Proofs.FileTree.Place
import BufferCheck.Proofs.Config.Stack
import BufferCheck.Proofs.Fields
import BufferCheck.Proofs.Report
import BufferCheck.Proofs.Json.Members
import BufferCheck.Proofs.Server.Stream
import BufferCheck.Proofs.Config.Layers
import BufferCheck.Proofs.Server.Exchange
import BufferCheck.Proofs.Server.Submission
import BufferCheck.Proofs.Server.Answers
import BufferCheck.Proofs.Diagnostic
import BufferCheck.Server.Talk
import BufferCheck.Proofs.Server.Course
import BufferCheck.Proofs.ReadingOrder
import BufferCheck.Proofs.Json.OneLine
import BufferCheck.Proofs.Output
import BufferCheck.Proofs.Json.Levels
import BufferCheck.Proofs.Server.Wire
import BufferCheck.Proofs.Config.Preorder
import BufferCheck.Proofs.Check
import BufferCheck.Proofs.FileTree.Differ
import BufferCheck.Proofs.Path.Relative
import BufferCheck.Proofs.Override
import BufferCheck.Proofs.Path.Canonical
import BufferCheck.Proofs.Config.Settled
import BufferCheck.Proofs.LineBreak
import BufferCheck.Proofs.Server.Waiting
import BufferCheck.Proofs.Server.Roots
import BufferCheck.Proofs.Path.Directory
import BufferCheck.Proofs.Config.Nearest
import BufferCheck.Proofs.Path.Climb
import BufferCheck.Proofs.Config.Packages
import BufferCheck.Proofs.SourceProvider
import BufferCheck.Proofs.ReportText
import BufferCheck.Proofs.Buffer
import BufferCheck.Proofs.Message
import BufferCheck.Proofs.FirstLine
import BufferCheck.Proofs.Server.Turns
import BufferCheck.Proofs.Json.Shape
import BufferCheck.Proofs.Server.Layout
