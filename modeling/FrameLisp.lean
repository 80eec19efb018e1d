import FrameLisp.Binary64.Reader
import FrameLisp.Session.Basic
import FrameLisp.Proofs.Outcome
import FrameLisp.Proofs.Primitive
import FrameLisp.Proofs.Calls
import FrameLisp.Proofs.Depth
import FrameLisp.Proofs.Level
import FrameLisp.Proofs.Discipline
import FrameLisp.Proofs.Shape
import FrameLisp.Proofs.WellFormed
import FrameLisp.Proofs.Shadowing
import FrameLisp.Proofs.Isolation
import FrameLisp.Proofs.Placeholder
import FrameLisp.Proofs.Scope
import FrameLisp.Proofs.Renaming
import FrameLisp.Proofs.Simulation
import FrameLisp.Proofs.Separation
import FrameLisp.Proofs.Independence
import FrameLisp.Proofs.Purity
import FrameLisp.Proofs.Irrelevance
import FrameLisp.Proofs.Failure
import FrameLisp.Proofs.Grammar
import FrameLisp.Proofs.Definition
import FrameLisp.Proofs.Filling
import FrameLisp.Proofs.Knot
import FrameLisp.Proofs.Replay
import FrameLisp.Proofs.Comparison
import FrameLisp.Proofs.Verdict
import FrameLisp.Proofs.Equality
import FrameLisp.Proofs.Reading
import FrameLisp.Proofs.Room
import FrameLisp.Proofs.FirstOrder
import FrameLisp.Proofs.Environment
import FrameLisp.Proofs.Application
import FrameLisp.Proofs.Repetition
import FrameLisp.Proofs.Numeral
