import EntityQuery.Catalog.Document
import EntityQuery.Query.Compile
import EntityQuery.Proofs.Expression
import EntityQuery.Proofs.Freshness
import EntityQuery.Proofs.Projection
import EntityQuery.Proofs.Promotion
import EntityQuery.Proofs.Translation
import EntityQuery.Proofs.Reachable
import EntityQuery.Proofs.Columns
import EntityQuery.Proofs.Resolution
import EntityQuery.Proofs.Semantics.Expr
import EntityQuery.Proofs.Semantics.Statement
import EntityQuery.Proofs.Semantics.Lambda
import EntityQuery.Proofs.Semantics.Pipeline
import EntityQuery.Proofs.Evaluation
import EntityQuery.Proofs.Reading
import EntityQuery.Proofs.Wrapping
import EntityQuery.Proofs.Correctness
import EntityQuery.Proofs.Gathering
import EntityQuery.Proofs.Placement
import EntityQuery.Proofs.LeftJoins
import EntityQuery.Proofs.Loading
import EntityQuery.Proofs.Regrouping
import EntityQuery.Proofs.EagerLoading
import EntityQuery.Proofs.Unfolding
import EntityQuery.Proofs.Provenance
import EntityQuery.Proofs.Transparency
import EntityQuery.Proofs.Sorting
import EntityQuery.Proofs.Filters
import EntityQuery.Proofs.Uniqueness
import EntityQuery.Proofs.Acceptance
import EntityQuery.Proofs.Invariants
import EntityQuery.Proofs.Stages
import EntityQuery.Proofs.Aggregates
import EntityQuery.Proofs.BooleanForm
import EntityQuery.Proofs.Distinct
import EntityQuery.Proofs.Predicates
import EntityQuery.Proofs.Renaming
import EntityQuery.Proofs.Hygiene
import EntityQuery.Proofs.Paging
import EntityQuery.Proofs.Identity
import EntityQuery.Proofs.GroupKeys
import EntityQuery.Proofs.Reloading
import EntityQuery.Proofs.Grafting
import EntityQuery.Proofs.GroupClauses
import EntityQuery.Proofs.Interchange
import EntityQuery.Proofs.Quoting
import EntityQuery.Proofs.WiderScopes
