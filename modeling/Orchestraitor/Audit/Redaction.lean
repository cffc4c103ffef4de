import Orchestraitor.Audit.Event

/-!
# Redaction of exported events (`redaction.rs`, `is_redacted_field` of `trace.rs`)

* `Stored k v d`              somewhere in the document `d` the value `v` is stored under `k`.
-/

namespace Audit
open Base

/-! ## the source functions -/

def normalizeField (field : String) : List Char :=
  field.toList.map fun ch => if ch.toLower = '-' then '_' else ch.toLower

def isRedactedField (field : String) : Bool :=
  let normalized := normalizeField field
  normalized ∈ ["api_key".toList, "authorization".toList, "bearer".toList, "cookie".toList,
      "password".toList, "secret".toList, "token".toList, "x_api_key".toList,
      "x_goog_api_key".toList] ||
    "_key".toList.isSuffixOf normalized || "_secret".toList.isSuffixOf normalized ||
    "_token".toList.isSuffixOf normalized

inductive PrivacyExportMode where
  | full | redacted

/-- `json!({"redacted": true})` -/
def redactionMarker : Value := .object [("redacted", .bool true)]

open EventCategory in
def redactsEntirePayload : PrivacyExportMode → EventCategory → Bool
  | _, secretUse => true
  | .redacted, category => category ∈ [modelRequest, modelResponseMetadata, contextSelection,
      toolRequest, actionPlan, fileObservation, agentReasoning]
  | .full, _ => false

mutual

def redactSensitiveFields : Value → Value
  | .object fields => .object (redactObject fields)
  | .array items => .array (redactItems items)
  | .null => .null
  | .bool b => .bool b
  | .number text => .number text
  | .string text => .string text

def redactItems : List Value → List Value
  | [] => []
  | item :: items => redactSensitiveFields item :: redactItems items

def redactObject : List (String × Value) → List (String × Value)
  | [] => []
  | field :: fields => redactField field :: redactObject fields

def redactField : String × Value → String × Value
  | (key, value) => (key, if isRedactedField key then redactionMarker else redactSensitiveFields value)

end

variable (mode : PrivacyExportMode)

def redactPayload (category : EventCategory) (payload : Value) : Value :=
  if redactsEntirePayload mode category then redactionMarker else redactSensitiveFields payload

def redactEvent (record : AuditRecord) (mode : PrivacyExportMode) : EventEnvelope :=
  { record.envelope with
    payload := redactPayload mode record.envelope.category record.envelope.payload }

/-! ## idempotence -/

mutual

theorem redactSensitiveFields_idem : ∀ v : Value,
    redactSensitiveFields (redactSensitiveFields v) = redactSensitiveFields v
  | .object fields => by
    rw [redactSensitiveFields, redactSensitiveFields, redactObject_idem fields]
  | .array items => by
    rw [redactSensitiveFields, redactSensitiveFields, redactItems_idem items]
  | .null | .bool _ | .number _ | .string _ => by simp only [redactSensitiveFields]

theorem redactItems_idem : ∀ items : List Value, redactItems (redactItems items) = redactItems items
  | [] => by simp only [redactItems]
  | item :: items => by
    rw [redactItems, redactItems, redactSensitiveFields_idem item, redactItems_idem items]

theorem redactObject_idem : ∀ fields : List (String × Value),
    redactObject (redactObject fields) = redactObject fields
  | [] => by simp only [redactObject]
  | field :: fields => by
    rw [redactObject, redactObject, redactField_idem field, redactObject_idem fields]

theorem redactField_idem : ∀ field : String × Value,
    redactField (redactField field) = redactField field
  | (key, value) => by
    rw [redactField, redactField]
    split_ifs
    · rfl
    · rw [redactSensitiveFields_idem value]

end

theorem redactPayload_idem (category : EventCategory) (payload : Value) :
    redactPayload mode category (redactPayload mode category payload) =
      redactPayload mode category payload := by
  unfold redactPayload
  split_ifs
  · rfl
  · exact redactSensitiveFields_idem payload

theorem redactEvent_exported {r x : AuditRecord} {mode : PrivacyExportMode}
    {link : Option HashDigest} (h : x.envelope = { redactEvent r mode with prevHash := link }) :
    redactEvent x mode = x.envelope := by
  rw [redactEvent, h]
  show { r.envelope with
    payload := redactPayload mode r.envelope.category
      (redactPayload mode r.envelope.category r.envelope.payload)
    prevHash := link } = _
  rw [redactPayload_idem]
  rfl

/-! ## what is left under a redacted name -/

/-- somewhere in the document the value `v` is stored under the name `k` -/
inductive Stored (k : String) (v : Value) : Value → Prop where
  | here {fields : List (String × Value)} (h : (k, v) ∈ fields) : Stored k v (.object fields)
  | field {fields : List (String × Value)} {f : String × Value} (h : f ∈ fields)
      (hf : Stored k v f.2) : Stored k v (.object fields)
  | item {items : List Value} {d : Value} (h : d ∈ items) (hd : Stored k v d) :
      Stored k v (.array items)

def Clean (d : Value) : Prop :=
  ∀ k v, Stored k v d → isRedactedField k = true → v = redactionMarker

theorem clean_array {items : List Value} (h : ∀ d ∈ items, Clean d) : Clean (.array items) := by
  intro k v hs hk
  cases hs with
  | item hd hs => exact h _ hd k v hs hk

theorem clean_object {fields : List (String × Value)}
    (h : ∀ f ∈ fields, (isRedactedField f.1 = true → f.2 = redactionMarker) ∧ Clean f.2) :
    Clean (.object fields) := by
  intro k v hs hk
  cases hs with
  | here hf => exact (h _ hf).1 hk
  | field hf hs => exact (h _ hf).2 k v hs hk

theorem clean_marker : Clean redactionMarker := by
  apply clean_object
  intro f hf
  obtain rfl := List.mem_singleton.mp hf
  refine ⟨fun h => absurd h (by decide), fun k v hs _ => ?_⟩
  cases hs

mutual

theorem clean_redactSensitiveFields : ∀ v : Value, Clean (redactSensitiveFields v)
  | .object fields => by
    rw [redactSensitiveFields]
    exact clean_object (clean_redactObject fields)
  | .array items => by
    rw [redactSensitiveFields]
    exact clean_array (clean_redactItems items)
  | .null | .bool _ | .number _ | .string _ => by
    intro k v hs _
    simp only [redactSensitiveFields] at hs
    cases hs

theorem clean_redactItems : ∀ items : List Value, ∀ d ∈ redactItems items, Clean d
  | [] => by simp [redactItems]
  | item :: items => by
    rw [redactItems]
    intro d hd
    rcases List.mem_cons.mp hd with rfl | hd
    · exact clean_redactSensitiveFields item
    · exact clean_redactItems items d hd

theorem clean_redactObject : ∀ fields : List (String × Value), ∀ f ∈ redactObject fields,
    (isRedactedField f.1 = true → f.2 = redactionMarker) ∧ Clean f.2
  | [] => by simp [redactObject]
  | field :: fields => by
    rw [redactObject]
    intro f hf
    rcases List.mem_cons.mp hf with rfl | hf
    · exact clean_redactField field
    · exact clean_redactObject fields f hf

theorem clean_redactField : ∀ field : String × Value,
    (isRedactedField (redactField field).1 = true → (redactField field).2 = redactionMarker) ∧
      Clean (redactField field).2
  | (key, value) => by
    rw [redactField]
    dsimp only
    split_ifs with hk
    · exact ⟨fun _ => rfl, clean_marker⟩
    · exact ⟨fun h => absurd h hk, clean_redactSensitiveFields value⟩

end

theorem clean_redactPayload (category : EventCategory) (payload : Value) :
    Clean (redactPayload mode category payload) := by
  unfold redactPayload
  split_ifs
  · exact clean_marker
  · exact clean_redactSensitiveFields payload

theorem redactPayload_secretUse (payload : Value) :
    redactPayload mode .secretUse payload = redactionMarker := by
  cases mode <;> rfl

end Audit
