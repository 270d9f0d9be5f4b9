import NonlinearProgram.Model.Description
import NonlinearProgram.Proofs.ProbedDifferences
import NonlinearProgram.Proofs.DualFeasible
import NonlinearProgram.Proofs.FirstFault
import NonlinearProgram.Proofs.Infeasibility
import NonlinearProgram.Proofs.KeptEvaluation
import NonlinearProgram.Proofs.Memo
import NonlinearProgram.Proofs.MissingBounds
import NonlinearProgram.Proofs.OnePoint
import NonlinearProgram.Proofs.PenaltySchedule
import NonlinearProgram.Proofs.Pipeline
import NonlinearProgram.Proofs.Regrouping
import NonlinearProgram.Proofs.Reports
import NonlinearProgram.Proofs.ReturnedPoint
import NonlinearProgram.Proofs.Slopes
import NonlinearProgram.Proofs.Stages
import NonlinearProgram.Proofs.Tolerance
import NonlinearProgram.Remark.Text
import NonlinearProgram.Proofs.Arities
import NonlinearProgram.Proofs.Blame
import NonlinearProgram.Proofs.Replies
import NonlinearProgram.Proofs.Explained
import NonlinearProgram.Proofs.FaultOrigin
import NonlinearProgram.Proofs.NearestPoint
import NonlinearProgram.Proofs.Offers
import NonlinearProgram.Proofs.IterationCap
import NonlinearProgram.Proofs.SplitEntries
import NonlinearProgram.Proofs.KeptFailure
