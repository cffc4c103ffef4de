import Orchestraitor.Base.Scan
import Orchestraitor.Worker.Tools

/-!
# The action protocol (`action.rs`, `tool_id.rs`)

`parseAction` reads the first fenced block of a response as one action.  `serde_json::from_str` is a
parameter; of a number only its value as `u64` is read.
-/

namespace Worker
open Base

/-- `serde_json::Value`, without the elements of an array -/
inductive Json where
  | null
  | bool (b : Bool)
  | number (asU64 : Option Nat)
  | string (text : String)
  | array
  | object (fields : List (String × Json))

namespace Json

def get (value : Json) (field : String) : Option Json :=
  match value with
  | .object fields => fields.lookup field
  | _ => none

def asStr : Json → Option String
  | .string text => some text
  | _ => none

def asBool : Json → Option Bool
  | .bool b => some b
  | _ => none

end Json

/-! ## tool ids -/

def maxToolIdChars : Nat := 64

def isToolIdStart (c : Char) : Bool := c.isLower || c.isDigit

def isValidToolId (toolId : String) : Bool :=
  let len := toolId.toList.length
  if len = 0 ∨ maxToolIdChars < len then false
  else match toolId.toList with
    | [] => false
    | first :: chars => isToolIdStart first && chars.all fun c => isToolIdStart c || c = '-' || c = '_'

def isReservedToolId (toolId : String) : Bool :=
  toolId ∈ ["read_file", "write_file", "search", "bash", "finish", "think"] ||
    toolId ∈ ["board.query", "board.move", "decision.record", "router.consult", "worker.delegate",
      "budget.check", "capability.check"]

/-! ## fields -/

def maxToolNameChars : Nat := 64
def maxScriptBytes : Nat := 64 * 1024
def maxWriteContentBytes : Nat := 1024 * 1024
def maxPatternChars : Nat := 512
def maxQuestionChars : Nat := 8 * 1024

abbrev Parsed := Except ActionRejection

def malformed {α : Type} (reason : String) : Parsed α := .error (.malformed reason)

def orMalformed {α : Type} (reason : String) : Option α → Parsed α
  | some a => .ok a
  | none => malformed reason

variable (value : Json)

def requiredString (field : String) : Parsed String :=
  match value.get field with
  | none => malformed "missing-field"
  | some (.string text) => .ok text
  | some _ => malformed "wrong-field-type"

def requiredU32 (field : String) : Parsed Nat :=
  match value.get field with
  | none => malformed "missing-field"
  | some (.number asU64) => match asU64.filter (· ≤ u32Max) with
    | some number => .ok number
    | none => malformed "wrong-field-type"
  | some _ => malformed "wrong-field-type"

def optionalU32 (field : String) : Parsed (Option Nat) :=
  match value.get field with
  | none | some .null => .ok none
  | some _ => (requiredU32 value field).map some

def optionalFlag (field : String) : Parsed Bool :=
  match value.get field with
  | none | some .null => .ok false
  | some (.bool flag) => .ok flag
  | some _ => malformed "wrong-field-type"

def optionalString (field : String) (check : String → Parsed Unit) :
    Parsed (Option String) :=
  match value.get field with
  | none | some .null => .ok none
  | some (.string text) => (check text).map fun _ => some text
  | some _ => malformed "wrong-field-type"

def refuseIf (b : Bool) (reason : String) : Parsed Unit := if b then malformed reason else .ok ()

/-! ## actions -/

def parseThink : Parsed WorkerAction := do
  let thought ← requiredString value "thought"
  let thoughtNumber ← requiredU32 value "thought_number"
  let totalThoughts ← requiredU32 value "total_thoughts"
  let nextThoughtNeeded ←
    orMalformed "missing-field" ((value.get "next_thought_needed").bind Json.asBool)
  let isRevision ← optionalFlag value "is_revision"
  let revisesThought ← optionalU32 value "revises_thought"
  let branchFromThought ← optionalU32 value "branch_from_thought"
  refuseIf (4 * maxThoughtChars < thought.toList.length) "field-too-large"
  let branchId ← optionalString value "branch_id" fun id =>
    refuseIf (maxToolNameChars < id.toList.length) "field-too-large"
  refuseIf (thoughtNumber = 0 || totalThoughts = 0) "invalid-field-value"
  .ok (.think thought thoughtNumber totalThoughts nextThoughtNeeded isRevision revisesThought
    branchFromThought branchId)

def sanitizeToolName (name : String) : String :=
  String.ofList ((name.toList.filter fun c => 0x20 ≤ c.toNat && c.toNat ≤ 0x7E).take maxToolNameChars)

def parseDeclared (toolId : String) : Parsed WorkerAction :=
  if !isValidToolId toolId || isReservedToolId toolId then
    .error (.unknownTool (sanitizeToolName toolId))
  else do
    let question ← optionalString value "question" fun text => do
      refuseIf (maxQuestionChars < text.toList.length) "field-too-large"
      refuseIf text.isEmpty "empty-field"
    .ok (.declaredTool toolId question)

def actionOf (tool : String) : Parsed WorkerAction :=
  match tool with
  | "read_file" => do
    let path ← requiredString value "path"
    .ok (.readFile path)
  | "write_file" => do
    let content ← requiredString value "content"
    refuseIf (maxWriteContentBytes < content.utf8ByteSize) "field-too-large"
    let path ← requiredString value "path"
    .ok (.writeFile path content)
  | "search" => do
    let pattern ← requiredString value "pattern"
    refuseIf pattern.isEmpty "empty-field"
    refuseIf (maxPatternChars < pattern.toList.length) "field-too-large"
    let path ← optionalString value "path" fun _ => .ok ()
    .ok (.search pattern path)
  | "bash" => do
    let script ← requiredString value "script"
    refuseIf (maxScriptBytes < script.utf8ByteSize) "field-too-large"
    .ok (.bash script)
  | "think" => parseThink value
  | "finish" => do
    let summary ← requiredString value "summary"
    let success ← orMalformed "missing-field" ((value.get "success").bind Json.asBool)
    .ok (.finish summary success)
  | other => parseDeclared value other

/-- the blocks of at most `n` rounds; each takes up some of the text -/
def fencedBlocks : Nat → List Char → List (List Char)
  | 0, _ => []
  | n + 1, rest => match splitOnce "```json".toList rest with
    | none => []
    | some (_, afterOpen) => match splitOnce "```".toList afterOpen with
      | none => []
      | some (block, rest) => trimList block :: fencedBlocks n rest

def fencedJsonBlocks (text : String) : List String :=
  (fencedBlocks text.length text.toList).map String.ofList

def parseAction (fromStr : String → Option Json) (text : String) :
    Except ActionRejection WorkerAction := do
  let block ← orMalformed "no-action-block" (fencedJsonBlocks text).head?
  let value ← orMalformed "invalid-json" (fromStr block)
  let tool ← orMalformed "missing-tool-field" ((value.get "tool").bind Json.asStr)
  actionOf value tool

/-! ## what is parsed -/

variable {value : Json} {toolId : String} {question : Option String}

theorem parseDeclared_ok {id : String}
    (h : parseDeclared value id = .ok (.declaredTool toolId question)) :
    isValidToolId toolId = true ∧ isReservedToolId toolId = false := by
  unfold parseDeclared at h
  split at h
  · cases h
  next hid =>
    obtain ⟨question', -, hok⟩ := bind_ok h
    cases hok
    simpa using hid

theorem parseThink_not_declared : parseThink value ≠ .ok (.declaredTool toolId question) := by
  intro h
  obtain ⟨thought, -, h⟩ := bind_ok h
  obtain ⟨thoughtNumber, -, h⟩ := bind_ok h
  obtain ⟨totalThoughts, -, h⟩ := bind_ok h
  obtain ⟨nextThoughtNeeded, -, h⟩ := bind_ok h
  obtain ⟨isRevision, -, h⟩ := bind_ok h
  obtain ⟨revisesThought, -, h⟩ := bind_ok h
  obtain ⟨branchFromThought, -, h⟩ := bind_ok h
  obtain ⟨-, -, h⟩ := bind_ok h
  obtain ⟨branchId, -, h⟩ := bind_ok h
  obtain ⟨-, -, h⟩ := bind_ok h
  cases h

theorem actionOf_declared {tool : String}
    (h : actionOf value tool = .ok (.declaredTool toolId question)) :
    isValidToolId toolId = true ∧ isReservedToolId toolId = false := by
  unfold actionOf at h
  split at h
  · obtain ⟨path, -, h⟩ := bind_ok h
    cases h
  · obtain ⟨content, -, h⟩ := bind_ok h
    obtain ⟨-, -, h⟩ := bind_ok h
    obtain ⟨path, -, h⟩ := bind_ok h
    cases h
  · obtain ⟨pattern, -, h⟩ := bind_ok h
    obtain ⟨-, -, h⟩ := bind_ok h
    obtain ⟨-, -, h⟩ := bind_ok h
    obtain ⟨path, -, h⟩ := bind_ok h
    cases h
  · obtain ⟨script, -, h⟩ := bind_ok h
    obtain ⟨-, -, h⟩ := bind_ok h
    cases h
  · exact absurd h parseThink_not_declared
  · obtain ⟨summary, -, h⟩ := bind_ok h
    obtain ⟨success, -, h⟩ := bind_ok h
    cases h
  · exact parseDeclared_ok h

theorem parseAction_declared {fromStr : String → Option Json} {text : String}
    (h : parseAction fromStr text = .ok (.declaredTool toolId question)) :
    isValidToolId toolId = true ∧ isReservedToolId toolId = false := by
  obtain ⟨block, -, h⟩ := bind_ok h
  obtain ⟨value, -, h⟩ := bind_ok h
  obtain ⟨tool, -, h⟩ := bind_ok h
  exact actionOf_declared h

end Worker
