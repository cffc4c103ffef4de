import Orchestraitor.Base.Ordered
import Orchestraitor.Base.Prim

/-!
# Task metadata (`metadata.rs`)

One backlog task with the fields its structural check reads, and the check itself:
`TaskMetadata.validate` returns the FIRST failure in source order.  `autonomy` and `routing` are
never read by the delivery crate and are left out.
-/

namespace Delivery
open Base

abbrev BacklogTaskId := String
abbrev SpecRef := String
abbrev DomainId := String
abbrev VerificationRef := String

inductive RiskClass where
  | low | medium | high | critical
  deriving DecidableEq

inductive DataSensitivity where
  | pub | internal | confidential | restricted

def DataSensitivity.rank : DataSensitivity → Nat
  | .pub => 0
  | .internal => 1
  | .confidential => 2
  | .restricted => 3

inductive CompletionEvidence where
  | verification (name : String)
  | report (path : String)
  | note (text : String)

inductive MetadataError where
  | emptyId
  | emptyTitle
  | emptyObjective (id : String)
  | noSpecRefs (id : String)
  | noAcceptanceCriteria (id : String)
  | emptyDomain (id : String)
  | noVerification (id : String)
  | noReviewerDomains (id : String)
  | blankReviewerDomain (id : String)
  | noCompletionEvidence (id : String)
  | blankCompletionEvidence (id : String)
  | emptyRetryPolicy (id : String)
  | selfDependency (id : String)
  | duplicateDependency (id dep : String)
  | securityReviewRequired (id : String)

def CompletionEvidence.payload : CompletionEvidence → String
  | .verification name => name
  | .report path => path
  | .note text => text

def CompletionEvidence.validate (e : CompletionEvidence) (id : String) :
    Except MetadataError Unit :=
  if isBlank e.payload then .error (.blankCompletionEvidence id) else .ok ()

structure TaskMetadata where
  id : BacklogTaskId
  specRefs : List SpecRef
  title : String
  objective : String
  acceptanceCriteria : List String
  dependencies : List BacklogTaskId
  domain : DomainId
  risk : RiskClass
  dataSensitivity : DataSensitivity
  expectedFiles : List String
  requiredVerification : List VerificationRef
  requiredReviewerDomains : List DomainId
  retryPolicy : String
  completionEvidence : List CompletionEvidence

namespace TaskMetadata

def isSecurityRelevant (t : TaskMetadata) : Bool :=
  t.risk == .critical || t.dataSensitivity.rank ≥ DataSensitivity.confidential.rank ||
    t.domain == "security"

def firstDuplicate (seen : List BacklogTaskId) : List BacklogTaskId → Option BacklogTaskId
  | [] => none
  | dep :: rest => if dep ∈ seen then some dep else firstDuplicate (seen ++ [dep]) rest

def reject (b : Bool) (e : MetadataError) : Except MetadataError Unit :=
  if b then .error e else .ok ()

def rejectDuplicate (id : String) (deps : List BacklogTaskId) : Except MetadataError Unit :=
  match firstDuplicate [] deps with
  | some dep => .error (.duplicateDependency id dep)
  | none => .ok ()

def validate (t : TaskMetadata) : Except MetadataError Unit := do
  reject (isBlank t.id) .emptyId
  let id := t.id
  reject (isBlank t.title) .emptyTitle
  reject (isBlank t.objective) (.emptyObjective id)
  reject t.specRefs.isEmpty (.noSpecRefs id)
  reject (t.specRefs.any isBlank) (.noSpecRefs id)
  reject (isBlank t.domain) (.emptyDomain id)
  reject (t.acceptanceCriteria.isEmpty || t.acceptanceCriteria.any isBlank)
    (.noAcceptanceCriteria id)
  reject (t.requiredVerification.isEmpty || t.requiredVerification.any isBlank)
    (.noVerification id)
  reject t.requiredReviewerDomains.isEmpty (.noReviewerDomains id)
  reject (t.requiredReviewerDomains.any isBlank) (.blankReviewerDomain id)
  reject t.completionEvidence.isEmpty (.noCompletionEvidence id)
  t.completionEvidence.forM (fun e => e.validate id)
  reject (isBlank t.retryPolicy) (.emptyRetryPolicy id)
  reject (t.dependencies.contains t.id) (.selfDependency id)
  rejectDuplicate id t.dependencies
  reject (t.isSecurityRelevant && !(t.requiredReviewerDomains.any (· == "security")))
    (.securityReviewRequired id)

end TaskMetadata
end Delivery
