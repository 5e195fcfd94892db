import Shapewright.Bounded
import Shapewright.Calendar
import Shapewright.Calendar.Text
import Shapewright.Code
import Shapewright.Code.Printer
import Shapewright.CommandLine.Arguments
import Shapewright.CommandLine.Host
import Shapewright.CommandLine.Inputs
import Shapewright.CommandLine.Path
import Shapewright.CommandLine.Run
import Shapewright.CommandLine.Tree
import Shapewright.CommandLine.Wildcard
import Shapewright.Compatibility
import Shapewright.Context
import Shapewright.Conversion
import Shapewright.Conversion.Collection
import Shapewright.Conversion.Helper
import Shapewright.Conversion.Inline
import Shapewright.Conversion.Object
import Shapewright.Conversion.Plan
import Shapewright.Conversion.Primitive
import Shapewright.Conversion.Union
import Shapewright.Decimal.Integral
import Shapewright.Decimal.Layout
import Shapewright.Decimal.Shortest
import Shapewright.Design
import Shapewright.Design.Check
import Shapewright.Design.Code
import Shapewright.Design.Request
import Shapewright.Design.Summary
import Shapewright.Design.Violation
import Shapewright.Document.Misfit
import Shapewright.Document.Reader
import Shapewright.Document.Schema
import Shapewright.Document.Writer
import Shapewright.Fault
import Shapewright.Filter.Builtin
import Shapewright.Filter.Evaluation
import Shapewright.Filter.Grammar
import Shapewright.Filter.Library
import Shapewright.Filter.Operations
import Shapewright.Filter.Outputs
import Shapewright.Filter.Syntax
import Shapewright.Filter.Token
import Shapewright.Identifier
import Shapewright.Json.Draft
import Shapewright.Json.Draft.Parser
import Shapewright.Json.Draft.Scalar
import Shapewright.Json.Pointer
import Shapewright.Json.Printer
import Shapewright.Json.Value
import Shapewright.Main
import Shapewright.Matching
import Shapewright.Ordered
import Shapewright.Pattern
import Shapewright.Pattern.Class
import Shapewright.Pattern.Escape
import Shapewright.Pattern.Property
import Shapewright.Pattern.Scan
import Shapewright.Pattern.Space
import Shapewright.Projection
import Shapewright.Projection.Constructors
import Shapewright.Projection.Derived
import Shapewright.Projection.Package
import Shapewright.Reachable
import Shapewright.Schema.Attribute
import Shapewright.Schema.Literal
import Shapewright.Schema.Primitive
import Shapewright.Schema.Registry
import Shapewright.Schema.UserType
import Shapewright.Scope
import Shapewright.Text.Blank
import Shapewright.Text.Debug
import Shapewright.Text.Letter
import Shapewright.Text.Lines
import Shapewright.Text.Quoted
import Shapewright.Validation
import Shapewright.Validation.Checks
import Shapewright.Validation.Rules
import Shapewright.Validation.Validators
import Shapewright.Proofs.Walk
import Shapewright.Proofs.Chains
import Shapewright.Proofs.Positions
import Shapewright.Proofs.Compatibility
import Shapewright.Proofs.Conversion.Nesting
import Shapewright.Proofs.Calls
import Shapewright.Proofs.Conversion.Emission
import Shapewright.Proofs.Conversion.Placement
import Shapewright.Proofs.Conversion.Search
import Shapewright.Proofs.Conversion.Closure
import Shapewright.Proofs.Conversion.Stability
import Shapewright.Proofs.Conversion.Checks
import Shapewright.Proofs.Conversion.Termination
import Shapewright.Proofs.Identifier
import Shapewright.Proofs.Scope
import Shapewright.Proofs.Conversion.Names
import Shapewright.Proofs.Guards
import Shapewright.Proofs.Conversion.Safety
import Shapewright.Proofs.Execution
import Shapewright.Proofs.Conversion.Fields
import Shapewright.Proofs.Conversion.Meaning
import Shapewright.Proofs.Growth
import Shapewright.Proofs.Resolution
import Shapewright.Proofs.Faults
import Shapewright.Proofs.Projection.Derivation
import Shapewright.Proofs.Conversion.Flat
import Shapewright.Proofs.Projection.RoundTrip
import Shapewright.Proofs.Conversion.Faults
import Shapewright.Proofs.Design.Conversions
import Shapewright.Proofs.Symmetry
import Shapewright.Proofs.Conversion.Mirror
import Shapewright.Proofs.Scoping
import Shapewright.Proofs.Conversion.Variables
import Shapewright.Proofs.Conversion.Footing
import Shapewright.Proofs.Conversion.Hygiene
import Shapewright.Proofs.Conversion.Capture
import Shapewright.Proofs.Conversion.Stores
import Shapewright.Proofs.Conversion.Alternatives
import Shapewright.Proofs.Sameness
import Shapewright.Proofs.Conversion.Merging
import Shapewright.Proofs.Design.Requests
import Shapewright.Proofs.Reachable
import Shapewright.Proofs.Parts
import Shapewright.Proofs.Validation.Constraints
import Shapewright.Proofs.Validation.Places
import Shapewright.Proofs.Validation.Demands
import Shapewright.Proofs.Validation.Guarding
import Shapewright.Proofs.Validation.Closure
import Shapewright.Proofs.Validation.Safety
import Shapewright.Proofs.Validation.Coverage
import Shapewright.Proofs.Validation.Names
import Shapewright.Proofs.Validation.Straying
import Shapewright.Proofs.Design.Views
import Shapewright.Proofs.Validation.Views
import Shapewright.Proofs.Design.Validations
import Shapewright.Proofs.Projection.Images
import Shapewright.Proofs.Validation.Selection
import Shapewright.Proofs.Projection.Extension
import Shapewright.Proofs.Projection.Correspondence
import Shapewright.Proofs.Projection.Conversions
import Shapewright.Proofs.Projection.Derivability
import Shapewright.Proofs.Projection.Constructors
import Shapewright.Proofs.Projection.Package
import Shapewright.Proofs.Design.Projections
import Shapewright.Proofs.Projection.Identities
import Shapewright.Proofs.Projection.Rules
import Shapewright.Proofs.Projection.Finiteness
import Shapewright.Proofs.Projection.Shape
import Shapewright.Proofs.Projection.Convertibility
import Shapewright.Proofs.Projection.Dispatch
import Shapewright.Proofs.Document.Drafts
import Shapewright.Proofs.Document.Reading
import Shapewright.Proofs.Document.RoundTrip
import Shapewright.Proofs.Document.Steadiness
import Shapewright.Proofs.Document.Texts
import Shapewright.Proofs.TypeNames
import Shapewright.Proofs.Conversion.Mentions
import Shapewright.Proofs.Projection.Containment
import Shapewright.Proofs.Ranges
import Shapewright.Proofs.Validation.Limits
import Shapewright.Proofs.Design.Defaults
import Shapewright.Proofs.Conversion.Collections
import Shapewright.Proofs.Conversion.Plans
import Shapewright.Proofs.Design.Functions
import Shapewright.Proofs.Conversion.Paths
import Shapewright.Proofs.Assignments
import Shapewright.Proofs.Conversion.Partition
import Shapewright.Proofs.FieldUses
import Shapewright.Proofs.Conversion.Selections
import Shapewright.Proofs.Text.Quoted
import Shapewright.Proofs.Tolerance
import Shapewright.Proofs.Code.Tokens
import Shapewright.Proofs.Code.Grammar
import Shapewright.Proofs.Code.Grouping
import Shapewright.Proofs.References
import Shapewright.Proofs.Spelling
import Shapewright.Proofs.Naming
import Shapewright.Proofs.Loops
import Shapewright.Proofs.Conversion.Loops
