import LineScript.Statement.Printer
import LineScript.Expr.Printer
import LineScript.Main
import LineScript.Proofs.Evaluation.Alike
import LineScript.Proofs.Evaluation.Congruence
import LineScript.Proofs.Evaluation.Depth
import LineScript.Proofs.Text.Piece
import LineScript.Proofs.Statement.Inner
import LineScript.Proofs.Evaluation.Lifting
import LineScript.Proofs.Evaluation.Change
import LineScript.Proofs.Evaluation.Course
import LineScript.Proofs.Evaluation.LiftedOnce
import LineScript.Proofs.Evaluation.BlockCall
import LineScript.Proofs.Run.Failure
import LineScript.Proofs.Run.Texts
import LineScript.Proofs.Run.Temporary
import LineScript.Proofs.Evaluation.OutermostCall
import LineScript.Proofs.Run.ReadBack
import LineScript.Proofs.Statement.Printed
import LineScript.Proofs.Run.Sharing
import LineScript.Proofs.Run.Names
import LineScript.Proofs.Text.Lossless
import LineScript.Proofs.Run.Layers
import LineScript.Proofs.Comparison.Termination
import LineScript.Proofs.Comparison.Isolation
import LineScript.Proofs.Run.Builtins
import LineScript.Proofs.Evaluation.Comment
import LineScript.Proofs.Evaluation.Parentheses
import LineScript.Proofs.Evaluation.Traced
import LineScript.Proofs.Run.Tracing
import LineScript.Proofs.Run.Extension
import LineScript.Proofs.Evaluation.Unbalanced
import LineScript.Proofs.Text.TopLevel
import LineScript.Proofs.Evaluation.IntegerLine
import LineScript.Proofs.Dialogue.Script
