import WordMachine.CommandLine
import WordMachine.Main
import WordMachine.Proofs.Addresses
import WordMachine.Proofs.Disassembly
import WordMachine.Proofs.Faults
import WordMachine.Proofs.Offences
import WordMachine.Proofs.Refinement
import WordMachine.Proofs.Budgets
import WordMachine.Proofs.SessionReports
import WordMachine.Proofs.Lexing
import WordMachine.Proofs.Resolving
import WordMachine.Proofs.SourceErrors
import WordMachine.Proofs.SourceForms
import WordMachine.Proofs.SourceRuns
import WordMachine.Proofs.FibonacciRun
import WordMachine.Proofs.Concatenation
import WordMachine.Proofs.Renaming
import WordMachine.Proofs.Unlabelled
import WordMachine.Proofs.MemorySize
import WordMachine.Proofs.Calls
import WordMachine.Proofs.Footprints
import WordMachine.Proofs.Replay
import WordMachine.Proofs.Checks
import WordMachine.Proofs.ForwardJumps
import WordMachine.Proofs.CheckedPasses
import WordMachine.Proofs.CheckedRuns
import WordMachine.Proofs.Capacity
import WordMachine.Proofs.Layout
import WordMachine.Proofs.Questions
import WordMachine.Proofs.LabelCells
import WordMachine.Proofs.MarkedRows
import WordMachine.Proofs.Routes
