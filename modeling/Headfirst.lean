import Headfirst.CommandLine.Commands
import Headfirst.Main
import Headfirst.Proofs.Exhaustion
import Headfirst.Proofs.TokenConservation
import Headfirst.Proofs.Reading
import Headfirst.Proofs.Layout
import Headfirst.Proofs.Literals
import Headfirst.Proofs.Fusing
import Headfirst.Proofs.Lexing
import Headfirst.Proofs.Gaps
import Headfirst.Proofs.Legible
import Headfirst.Proofs.Rereading
import Headfirst.Proofs.Sequels
import Headfirst.Proofs.Floors
import Headfirst.Proofs.Agreement
import Headfirst.Proofs.Again
import Headfirst.Proofs.Warnings
import Headfirst.Proofs.Limits
import Headfirst.Proofs.Parentheses
import Headfirst.Proofs.Neighbours
import Headfirst.Proofs.Reach
import Headfirst.Proofs.Standing
import Headfirst.Proofs.Turbofish
import Headfirst.Proofs.Exposure
import Headfirst.Proofs.Repeats
import Headfirst.Proofs.Leftovers
import Headfirst.Proofs.Locating
import Headfirst.Proofs.Canonical
import Headfirst.Proofs.Seamless
import Headfirst.Proofs.Culprits
import Headfirst.Proofs.SourceLines
import Headfirst.Proofs.Deliveries
import Headfirst.Proofs.Remarks
import Headfirst.Proofs.Checks
import Headfirst.Proofs.Forfeits
import Headfirst.Proofs.Overruns
import Headfirst.Proofs.Boundaries
import Headfirst.Proofs.Table
import Headfirst.Proofs.Labels
import Headfirst.Proofs.Bodies
import Headfirst.Proofs.Shapes
import Headfirst.Proofs.Spans
import Headfirst.Proofs.Heirs
