import EqualityLogic.Main
import EqualityLogic.Theory.Recorded
import EqualityLogic.Proofs.Equality.Partition
import EqualityLogic.Proofs.Equality.Interpretation
import EqualityLogic.Proofs.Equality.Check
import EqualityLogic.Proofs.Search.Coverage
import EqualityLogic.Proofs.Search.Entailment
import EqualityLogic.Proofs.Search.Soundness
import EqualityLogic.Proofs.Search.Totality
import EqualityLogic.Proofs.Integration.Models
import EqualityLogic.Proofs.Integration.Supervision
import EqualityLogic.Proofs.Integration.Correctness
import EqualityLogic.Proofs.Equality.Explanation
import EqualityLogic.Proofs.Equality.Classes
import EqualityLogic.Proofs.Equality.Changes
import EqualityLogic.Proofs.Integration.Engines
import EqualityLogic.Proofs.Search.Simulation
import EqualityLogic.Proofs.Integration.Enumeration
import EqualityLogic.Proofs.Integration.Subsumption
import EqualityLogic.Proofs.Search.Consultation
import EqualityLogic.Proofs.Search.Acceptance
import EqualityLogic.Proofs.Search.Budget
import EqualityLogic.Proofs.Integration.Limits
import EqualityLogic.Proofs.Equality.Renaming
import EqualityLogic.Proofs.Integration.Renaming
import EqualityLogic.Proofs.Search.Tolerance
import EqualityLogic.Proofs.Integration.Propositional
import EqualityLogic.Proofs.Text.Dimacs
import EqualityLogic.Proofs.Text.Name
import EqualityLogic.Proofs.Text.Header
import EqualityLogic.Proofs.Text.Draft
import EqualityLogic.Proofs.Text.Problem
import EqualityLogic.Proofs.CommandLine
import EqualityLogic.Proofs.Guarded.Text
import EqualityLogic.Proofs.Guarded.Search
import EqualityLogic.Proofs.Guarded.Solve
import EqualityLogic.Proofs.Cnf.Elimination
import EqualityLogic.Proofs.Cnf.Irredundance
import EqualityLogic.Proofs.Problem.Faults
import EqualityLogic.Proofs.Problem.Equations
import EqualityLogic.Proofs.Problem.Building
import EqualityLogic.Proofs.Search.Justification
import EqualityLogic.Proofs.Problem.Description
import EqualityLogic.Proofs.Cnf.UnitRule
import EqualityLogic.Proofs.Search.UnitPropagation
import EqualityLogic.Proofs.Cnf.Mirror
import EqualityLogic.Proofs.Search.Mirror
