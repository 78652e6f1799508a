import Montage.Command.Compile
import Montage.Config
import Montage.Decimal.Reading
import Montage.Decimal.Text
import Montage.FileTree
import Montage.Geometry
import Montage.Interval
import Montage.Json.Parser
import Montage.Json.Reading
import Montage.Main
import Montage.Progress
import Montage.Proofs.Audio.Mix
import Montage.Proofs.Audio.Stages
import Montage.Proofs.Command.Arguments
import Montage.Proofs.Command.Consistency
import Montage.Proofs.Command.Encoding
import Montage.Proofs.Command.Inert
import Montage.Proofs.Command.Modes
import Montage.Proofs.Command.Parameters
import Montage.Proofs.Command.Plan
import Montage.Proofs.Command.Renaming
import Montage.Proofs.Command.Streams
import Montage.Proofs.Command.Validity
import Montage.Proofs.Command.Wiring
import Montage.Proofs.CommandLine.Override
import Montage.Proofs.Decimal.Basin
import Montage.Proofs.Decimal.Plain
import Montage.Proofs.Decimal.Ranges
import Montage.Proofs.Decimal.Rounding
import Montage.Proofs.Engine.Exports
import Montage.Proofs.Engine.Occupancy
import Montage.Proofs.Engine.Refusal
import Montage.Proofs.Engine.Runs
import Montage.Proofs.Engine.Slots
import Montage.Proofs.Engine.Stills
import Montage.Proofs.FileTree
import Montage.Proofs.Graph.Bodies
import Montage.Proofs.Graph.Chains
import Montage.Proofs.Graph.Edges
import Montage.Proofs.Graph.Links
import Montage.Proofs.Graph.Order
import Montage.Proofs.Graph.PadName
import Montage.Proofs.Graph.Sorting
import Montage.Proofs.Guarded.Compile
import Montage.Proofs.Json.Numbers
import Montage.Proofs.Json.Records
import Montage.Proofs.Json.RoundTrip
import Montage.Proofs.Layout.Fit
import Montage.Proofs.Layout.Partition
import Montage.Proofs.Layout.Ratio
import Montage.Proofs.Lists
import Montage.Proofs.Picture.Meaning
import Montage.Proofs.Picture.Painting
import Montage.Proofs.Picture.Panes
import Montage.Proofs.Source.Registry
import Montage.Proofs.Text.Records
import Montage.Proofs.Timeline.Decoding
import Montage.Proofs.Timeline.Fields
import Montage.Proofs.Verdict
import Montage.Proofs.Video.Layers
import Montage.Proofs.Video.Panes
import Montage.Proofs.Video.Registration
import Montage.Proofs.Video.Stages
import Montage.Proofs.Video.Wiring
import Montage.Script.Reading
import Montage.Text.Blank
import Montage.Text.Quoted
import Montage.Timeline.Document
import Montage.Proofs.Decimal.Quotients
import Montage.Proofs.Source.History
import Montage.Proofs.Progress.Folding
import Montage.Proofs.Engine.Relay
import Montage.Proofs.FileTree.Numbering
import Montage.Proofs.Layout.Overlap
import Montage.Proofs.Timeline.AspectRatio
import Montage.Proofs.Audio.Taps
import Montage.Proofs.CommandLine.Agreement
