import SimpleTypes.Error
import SimpleTypes.Log
import SimpleTypes.Main
import SimpleTypes.Proofs.Problem.Unifier
import SimpleTypes.Shell.Workspace
import SimpleTypes.Term.Grammar
import SimpleTypes.Proofs.Token.Cover
import SimpleTypes.Proofs.Ty.Normalized
import SimpleTypes.Proofs.Substitution
import SimpleTypes.Proofs.Problem.Solution
import SimpleTypes.Proofs.Problem.Retired
import SimpleTypes.Proofs.Problem.History
import SimpleTypes.Proofs.Problem.Renaming
import SimpleTypes.Proofs.Builder
import SimpleTypes.Proofs.Inference
import SimpleTypes.Proofs.Session
import SimpleTypes.Proofs.Term.Grammar
import SimpleTypes.Proofs.Term.Reader
import SimpleTypes.Proofs.Term.Render
import SimpleTypes.Proofs.Term.Renaming
import SimpleTypes.Proofs.Batch
import SimpleTypes.Proofs.Golden
import SimpleTypes.Proofs.Term.Errors
import SimpleTypes.Proofs.Term.Spacing
import SimpleTypes.Proofs.Builder.Supply
import SimpleTypes.Proofs.Builder.Shift
import SimpleTypes.Proofs.Listing
import SimpleTypes.Proofs.Batch.Lines
import SimpleTypes.Proofs.Term.Descent
import SimpleTypes.Proofs.Term.Simulation
import SimpleTypes.Proofs.Token.Scanner
