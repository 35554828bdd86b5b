import DocQuery.Config.Reader
import DocQuery.Proofs.Acceptance.Query
import DocQuery.Proofs.Erasure.Compiler
import DocQuery.Proofs.Wire.Compiled
import DocQuery.Proofs.Wire.Optargs
import DocQuery.Repository.Script
import DocQuery.Proofs.Joins.Association
import DocQuery.Proofs.Slots.Expr
import DocQuery.Proofs.Slots.Compiler
import DocQuery.Store.Basic
import DocQuery.Proofs.Store.Eval
import DocQuery.Store.Expr
import DocQuery.Proofs.Store.Expr
import DocQuery.Proofs.Joins.NestedLoop
import DocQuery.Proofs.Groups.Reading
import DocQuery.Regex
import DocQuery.Proofs.Patterns.Like
import DocQuery.Proofs.Catalogs.Locality
import DocQuery.Proofs.Catalogs.Growth
import DocQuery.Proofs.Clauses.Order
import DocQuery.Proofs.Simulation
import DocQuery.Proofs.Expr.Congruence
import DocQuery.Proofs.Parameters.Inline
import DocQuery.Proofs.Config.Qualified
import DocQuery.Proofs.Config.Compiler
import DocQuery.Proofs.Writes.Rows
import DocQuery.Proofs.Repository.Runs
import DocQuery.Proofs.Repository.Summaries
import DocQuery.Proofs.Writes.Clauses
import DocQuery.Proofs.Writes.Patches
import DocQuery.Proofs.Catalogs.Mirrors
import DocQuery.Proofs.Groups.Selection
import DocQuery.Proofs.Projections.Preloads
import DocQuery.Proofs.Patterns.Decoding
import DocQuery.Proofs.Projections.Positional
import DocQuery.Proofs.Groups.Folding
import DocQuery.Proofs.Parameters.References
