import MiniVerilog.Main
import MiniVerilog.Proofs.Command.Stimulus
import MiniVerilog.Proofs.Diagnostic.Sink
import MiniVerilog.Proofs.Diagnostic.Sorted
import MiniVerilog.Proofs.Lint.Balance
import MiniVerilog.Proofs.Lint.Columns
import MiniVerilog.Proofs.Lint.Comments
import MiniVerilog.Proofs.Lint.Findings
import MiniVerilog.Proofs.Lint.Found
import MiniVerilog.Proofs.Lint.Header
import MiniVerilog.Proofs.Lint.Nesting
import MiniVerilog.Proofs.Lint.Pieces
import MiniVerilog.Proofs.Lint.Placement
import MiniVerilog.Proofs.Lint.Remark
import MiniVerilog.Proofs.Lint.Spaced
import MiniVerilog.Proofs.Lint.Written
import MiniVerilog.Proofs.Module.Bodies
import MiniVerilog.Proofs.Module.Constants
import MiniVerilog.Proofs.Module.Declared
import MiniVerilog.Proofs.Module.Enclosed
import MiniVerilog.Proofs.Module.Forest
import MiniVerilog.Proofs.Module.Frame
import MiniVerilog.Proofs.Module.Header
import MiniVerilog.Proofs.Module.Layout
import MiniVerilog.Proofs.Module.Named
import MiniVerilog.Proofs.Module.Names
import MiniVerilog.Proofs.Module.Place
import MiniVerilog.Proofs.Module.Rendering
import MiniVerilog.Proofs.Module.Targets
import MiniVerilog.Proofs.Module.Widths
import MiniVerilog.Proofs.NameMap
import MiniVerilog.Proofs.Regression.Registry
import MiniVerilog.Proofs.Regression.Report
import MiniVerilog.Proofs.Regression.Run
import MiniVerilog.Proofs.Simulation.Block
import MiniVerilog.Proofs.Simulation.Commuting
import MiniVerilog.Proofs.Simulation.Constants
import MiniVerilog.Proofs.Simulation.Expression
import MiniVerilog.Proofs.Simulation.Folding
import MiniVerilog.Proofs.Simulation.Isolation
import MiniVerilog.Proofs.Simulation.Journal
import MiniVerilog.Proofs.Simulation.Quiescence
import MiniVerilog.Proofs.Simulation.Reading
import MiniVerilog.Proofs.Simulation.Reordering
import MiniVerilog.Proofs.Simulation.Run
import MiniVerilog.Proofs.Simulation.Sequential
import MiniVerilog.Proofs.Simulation.Settling
import MiniVerilog.Proofs.Simulation.Shape
import MiniVerilog.Proofs.Simulation.Staging
import MiniVerilog.Proofs.Simulation.Stimulus
import MiniVerilog.Proofs.Simulation.Triggering
import MiniVerilog.Proofs.Simulation.Unnamed
import MiniVerilog.Proofs.Simulation.Waking
import MiniVerilog.Proofs.Source.Bracketed
import MiniVerilog.Proofs.Source.Declared
import MiniVerilog.Proofs.Source.Enclosed
import MiniVerilog.Proofs.Source.EnclosedItem
import MiniVerilog.Proofs.Source.Header
import MiniVerilog.Proofs.Source.ItemPlace
import MiniVerilog.Proofs.Source.ModulePass
import MiniVerilog.Proofs.Source.Names
import MiniVerilog.Proofs.Source.NamesPass
import MiniVerilog.Proofs.Source.Pass
import MiniVerilog.Proofs.Source.Place
import MiniVerilog.Proofs.Source.ProcedurePass
import MiniVerilog.Proofs.Source.Quiet
import MiniVerilog.Proofs.Source.Reading
import MiniVerilog.Proofs.Source.Rules
import MiniVerilog.Proofs.Source.Standing
import MiniVerilog.Proofs.Source.Suffix
import MiniVerilog.Proofs.Source.Text
import MiniVerilog.Proofs.Source.Type
import MiniVerilog.Proofs.Statement.Acyclic
import MiniVerilog.Proofs.Statement.Forest
import MiniVerilog.Proofs.Statement.Placement
import MiniVerilog.Proofs.Statement.Rendering
import MiniVerilog.Proofs.Statement.Walk
import MiniVerilog.Proofs.Testbench.Driving
import MiniVerilog.Proofs.Testbench.Lines
import MiniVerilog.Proofs.Testbench.Reading
import MiniVerilog.Proofs.Testbench.Timetable
import MiniVerilog.Proofs.Text.Appended
import MiniVerilog.Proofs.Text.Blank
import MiniVerilog.Proofs.Text.Line
import MiniVerilog.Proofs.Text.Words
import MiniVerilog.Proofs.Token.Comment
import MiniVerilog.Proofs.Token.Continued
import MiniVerilog.Proofs.Token.Joined
import MiniVerilog.Proofs.Token.Length
import MiniVerilog.Proofs.Token.Lexeme
import MiniVerilog.Proofs.Token.Line
import MiniVerilog.Proofs.Token.Name
import MiniVerilog.Proofs.Token.Number
import MiniVerilog.Proofs.Token.Piece
import MiniVerilog.Proofs.Token.Plain
import MiniVerilog.Proofs.Token.Remark
import MiniVerilog.Proofs.Token.Segments
import MiniVerilog.Proofs.Waveform.Changes
import MiniVerilog.Proofs.Waveform.Code
import MiniVerilog.Proofs.Waveform.History
import MiniVerilog.Proofs.Waveform.Lines
import MiniVerilog.Proofs.Waveform.Operations
import MiniVerilog.Proofs.Waveform.Reader
import MiniVerilog.Proofs.Waveform.Recorded
import MiniVerilog.Proofs.Waveform.Samples
