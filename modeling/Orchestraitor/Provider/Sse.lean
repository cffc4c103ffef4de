import Orchestraitor.Base.Lines
import Orchestraitor.Base.Utf8

/-!
# The parser of a streamed completion

`SseParser` of `stream.rs`: chunks of bytes go in, `ModelEvent`s come out.

* A text is its list of characters.  `drain_complete_events` looks for the first blank line again and again;
  `blocks` is the list of what it cuts off, with the rest of the buffer.
* `serde_json` is the parameter `Serde`.
* A failed call ends the stream, so there is no parser after an error.
-/

namespace Provider
open Base

structure StreamToolCallFunction where
  name : Option String
  arguments : Option String
  deriving DecidableEq

structure StreamToolCall where
  index : Nat
  id : Option String
  function : Option StreamToolCallFunction
  deriving DecidableEq

structure Delta where
  content : Option String
  toolCalls : List StreamToolCall
  deriving DecidableEq

structure StreamChoice where
  delta : Delta
  deriving DecidableEq

structure Usage where
  promptTokens : Nat
  completionTokens : Nat
  deriving DecidableEq

structure StreamChunk where
  choices : List StreamChoice
  usage : Option Usage
  deriving DecidableEq

structure TokenCount where
  inputTokens : Nat
  outputTokens : Nat
  cachedTokens : Nat
  reasoningTokens : Nat
  deriving DecidableEq

inductive ModelEvent (V : Type) where
  | started
  | textDelta (text : String)
  | toolCall (id name : String) (arguments : V)
  | usage (tokenCount : TokenCount)
  | completed
  deriving DecidableEq

structure Serde (V : Type) where
  null : V
  value : String → Option V
  chunk : String → Except String StreamChunk

structure ResponseParse where
  source : String
  deriving DecidableEq

def sseDone : List Char := "[DONE]".toList

section
variable {V : Type} (serde : Serde V)

/-! ## one chunk -/

def Usage.event (usage : Usage) : ModelEvent V :=
  .usage { inputTokens := usage.promptTokens, outputTokens := usage.completionTokens,
           cachedTokens := 0, reasoningTokens := 0 }

def Serde.fragmentValue (arguments : Option String) : V :=
  ((arguments.filter fun s => !s.isEmpty).bind serde.value).getD serde.null

def toolCallEvents (call : StreamToolCall) : List (ModelEvent V) :=
  match call.function with
  | none => []
  | some function =>
    let name := function.name.getD ""
    if name.isEmpty then []
    else [.toolCall (call.id.getD "") name (serde.fragmentValue function.arguments)]

def textEvents (content : Option String) : List (ModelEvent V) :=
  match content with
  | some text => if text.isEmpty then [] else [.textDelta text]
  | none => []

def deltaEvents (delta : Delta) : List (ModelEvent V) :=
  textEvents delta.content ++ delta.toolCalls.flatMap (toolCallEvents serde)

def chunkToEvents (chunk : StreamChunk) : List (ModelEvent V) :=
  chunk.choices.flatMap (fun choice => deltaEvents serde choice.delta) ++
    (chunk.usage.map Usage.event).toList

/-! ## one event -/

/-- `strip_prefix("data:")`; the alternative `"data: "` never gets its turn -/
def dataOfLine (line : List Char) : Option (List Char) :=
  if "data:".toList.isPrefixOf line then
    some ((line.drop "data:".toList.length).dropWhile isWhitespace)
  else none

def extractDataLine (text : List Char) : List Char := joinLines ((lines text).filterMap dataOfLine)

def parseEvent (text : List Char) : Except ResponseParse (List (ModelEvent V) × Bool) :=
  let data := extractDataLine text
  if data.isEmpty then .ok ([], false)
  else if trimList data = sseDone then .ok ([.completed], true)
  else match serde.chunk (String.ofList data) with
    | .error source => .error ⟨source⟩
    | .ok chunk => .ok (chunkToEvents serde chunk, false)

/-! ## the parser -/

structure SseParser where
  buffer : List Char
  done : Bool

def blocks : List Char → List (List Char) × List Char
  | [] => ([], [])
  | '\n' :: '\n' :: l => ([] :: (blocks l).1, (blocks l).2)
  | c :: l => match blocks l with
    | ([], rest) => ([], c :: rest)
    | (b :: bs, rest) => ((c :: b) :: bs, rest)

def parseBlock (block : List Char) : Except ResponseParse (List (ModelEvent V) × Bool) :=
  if (trimList block).isEmpty then .ok ([], false) else parseEvent serde (trimList block)

def parseBlocks : List (List Char) → Except ResponseParse (List (ModelEvent V) × Bool)
  | [] => .ok ([], false)
  | b :: bs => do
    let (events, done) ← parseBlock serde b
    let (more, done') ← parseBlocks bs
    .ok (events ++ more, done || done')

namespace SseParser

def new : SseParser := { buffer := [], done := false }

def drainCompleteEvents (p : SseParser) : Except ResponseParse (List (ModelEvent V) × SseParser) := do
  let (events, done) ← parseBlocks serde (blocks p.buffer).1
  .ok (events, { buffer := (blocks p.buffer).2, done := p.done || done })

def feed (p : SseParser) (bytes : List UInt8) :
    Except ResponseParse (List (ModelEvent V) × SseParser) :=
  if p.done then .ok ([], p)
  else drainCompleteEvents serde { p with buffer := p.buffer ++ decodeLossy bytes }

def finish (p : SseParser) : Except ResponseParse (List (ModelEvent V)) :=
  if p.done then .ok []
  else if (trimList p.buffer).isEmpty then .ok []
  else do
    let (events, _) ← parseEvent serde (trimList p.buffer)
    .ok events

def eventsFrom (p : SseParser) : List (List UInt8) → Except ResponseParse (List (ModelEvent V))
  | [] => p.finish serde
  | bytes :: chunks => do
    let (events, p) ← p.feed serde bytes
    let more ← p.eventsFrom chunks
    .ok (events ++ more)

def events (chunks : List (List UInt8)) : Except ResponseParse (List (ModelEvent V)) :=
  SseParser.new.eventsFrom serde chunks

end SseParser

end

end Provider
