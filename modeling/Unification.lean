import Unification.Json.Config
import Unification.Json.Formula
import Unification.Json.Text
import Unification.Registry.Pool
import Unification.Renaming
import Unification.Substitution.Compose
import Unification.Formula.Lemmas
import Unification.Text.Quoted
import Unification.Unify
import Unification.Proofs.Solution
import Unification.Proofs.Problem
import Unification.Proofs.MostGeneral
import Unification.Proofs.Dependency
import Unification.Proofs.Unchecked.Basic
import Unification.Proofs.Unchecked.Following
import Unification.Proofs.Unchecked.Unifying
import Unification.Proofs.Unchecked.Reachable
import Unification.Proofs.Unchecked.Ending
import Unification.Proofs.Composition
import Unification.Proofs.Lockstep
import Unification.Proofs.Eager
import Unification.Proofs.FreshNames
import Unification.Proofs.Factoring
import Unification.Proofs.Occurrences
import Unification.Proofs.Rearrangement
import Unification.Proofs.RenamingApart
import Unification.Proofs.Session
import Unification.Proofs.Passes
import Unification.Proofs.RenamedCopy
import Unification.Proofs.Json.Reading
import Unification.Proofs.Kleene
import Unification.Proofs.Unchecked.Deriving
import Unification.Proofs.Unchecked.Reading
import Unification.Proofs.Construction
import Unification.Proofs.Json.Admission
import Unification.Proofs.Json.RoundTrip
import Unification.Proofs.Identity
import Unification.Proofs.Assignment
import Unification.Proofs.Symmetry
import Unification.Proofs.Elimination
import Unification.Proofs.Agreement
import Unification.Proofs.Obstruction
import Unification.Proofs.Effect
import Unification.Proofs.Replacement
import Unification.Proofs.Binding
import Unification.Proofs.Skeleton
import Unification.Proofs.Recording
import Unification.Proofs.Copies
import Unification.Proofs.SharedRecord
import Unification.Proofs.Indistinguishable
import Unification.Proofs.Preservation
import Unification.Proofs.Variadic
import Unification.Proofs.Display
import Unification.Proofs.Freshening
import Unification.Proofs.Inspection
import Unification.Proofs.Traversal
