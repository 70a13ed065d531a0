import DepSchema.Layout
import DepSchema.Pipeline
import DepSchema.Proofs.Order.Mentions
import DepSchema.Proofs.Order.TypeOrder
import DepSchema.Proofs.Oracle.Meaning
import DepSchema.Proofs.Oracle.Soundness
import DepSchema.Proofs.Renaming.Expr
import DepSchema.Proofs.Renaming.Schema
import DepSchema.Proofs.Renaming.Check
import DepSchema.Proofs.Renaming.Typing
import DepSchema.Proofs.Names.Faults
import DepSchema.Proofs.Renaming.Order
import DepSchema.Proofs.Typing.Passes
import DepSchema.Proofs.Renaming.Names
import DepSchema.Proofs.Renaming.Verdict
import DepSchema.Proofs.Written.Handles
import DepSchema.Proofs.Stages
import DepSchema.Proofs.Written.Independence
import DepSchema.Proofs.Queries.Declared
import DepSchema.Proofs.Queries.Locals
import DepSchema.Proofs.Queries.BeforeUse
import DepSchema.Proofs.Dispatch.Selection
import DepSchema.Proofs.Typing.Failure
import DepSchema.Proofs.Typing.Discipline
import DepSchema.Proofs.Typing.Formed
import DepSchema.Proofs.Names.Scoped
import DepSchema.Proofs.Typing.Undefined
import DepSchema.Proofs.Renaming.Parameter
import DepSchema.Proofs.Oracle.Congruence
import DepSchema.Proofs.Dispatch.Patterns
import DepSchema.Proofs.Dispatch.Views
import DepSchema.Proofs.Registration
import DepSchema.Proofs.Queries.Visits
import DepSchema.Proofs.Runs
import DepSchema.Proofs.Substitution.Failures
import DepSchema.Proofs.Substitution.Composition
import DepSchema.Proofs.Oracle.Equivalence
import DepSchema.Proofs.Substitution.Folding
import DepSchema.Proofs.Dispatch.FirstMatch
import DepSchema.Proofs.Oracle.Comparison
import DepSchema.Proofs.Oracle.Integers
import DepSchema.Proofs.Substitution.Idempotence
import DepSchema.Proofs.Typing.Found
import DepSchema.Proofs.Typing.Applications
import DepSchema.Proofs.Typing.Arrays
import DepSchema.Proofs.Typing.Paths
import DepSchema.Proofs.Names.Binders
import DepSchema.Proofs.Renaming.Variables
import DepSchema.Proofs.Renaming.Signature
import DepSchema.Proofs.Names.Blocks
import DepSchema.Proofs.Order.Roots
import DepSchema.Proofs.Renaming.Fixed
import DepSchema.Proofs.Renaming.Places
import DepSchema.Proofs.Substitution.Nesting
import DepSchema.Proofs.Interning
import DepSchema.Proofs.Instantiation.Sorts
import DepSchema.Proofs.Instantiation.Checked
import DepSchema.Proofs.Instantiation.Sameness
import DepSchema.Proofs.Instantiation.Steady
import DepSchema.Proofs.Instantiation.Telescopes
import DepSchema.Proofs.Instantiation.Tracking
import DepSchema.Proofs.Instantiation.Values
import DepSchema.Proofs.Instantiation.Supplied
import DepSchema.Proofs.Instantiation.Fields
