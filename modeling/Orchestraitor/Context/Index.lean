import Orchestraitor.Base.Lines
import Orchestraitor.Base.Ordered
import Orchestraitor.Base.Utf8

/-!
# The content-addressed repository index

`Indexer` of the context crate: blobs, bytes and symbols are kept by content digest, paths are anchored to
digests, and a pass parses only content that the index does not hold.

* SHA-256 and tree-sitter are the parameters `Toolchain.digest` and `Toolchain.extract`; `extract` answers
  with the captures of the query in their order, or with the error of `parse_blob`.
* What a pass sees of the repository is a `Repository`: the outcome of the walk, and of each read.
* A path is its text; the constant fields of a provenance envelope are left out.
-/

namespace Context
open Base

inductive LanguageKind where
  | rust | typeScript | tsx | python | javaScript | jsx | go | bash

inductive SymbolKind where
  | function | method | type | module | variable

inductive ContextAge where
  | current | reusedUnchanged
  deriving DecidableEq

structure ProvenanceEnvelope where
  digest : String
  age : ContextAge
  sourceRef : String

structure LocationRange where
  startLine : Nat
  startColumn : Nat
  endLine : Nat
  endColumn : Nat

/-- a content, under the path at which it was seen last -/
structure BlobRecord where
  path : String
  digest : String
  language : Option LanguageKind
  processCount : Nat
  provenance : ProvenanceEnvelope

structure SymbolRecord where
  id : String
  name : String
  kind : SymbolKind
  path : String
  range : LocationRange
  signature : String
  blobDigest : String
  provenance : ProvenanceEnvelope

/-- an occurrence of the name of a symbol -/
structure ReferenceRecord where
  target : Option String
  name : String
  path : String
  blobDigest : String
  range : LocationRange
  provenance : ProvenanceEnvelope

structure CallEdge where
  caller : String
  callee : String
  provenance : ProvenanceEnvelope

inductive ContextError where
  | repositoryPath (path source : String)
  | readSource (path source : String)
  | languageSetup (language : String)

abbrev Bytes := List UInt8

/-- a match of the symbol query -/
structure Capture where
  name : String
  range : LocationRange
  kind : SymbolKind

/-- SHA-256 and tree-sitter, as parameters -/
structure Toolchain where
  digest : Bytes → String
  /-- `spec_for_path(path).and_then(Result::ok).map(|spec| spec.kind)` -/
  language : String → Option LanguageKind
  extract : String → Bytes → Except ContextError (List Capture)

/-- a traversed file -/
structure SourceFile where
  absolute : String
  relative : String
  read : Except String Bytes

/-- what a pass sees -/
structure Repository where
  walk : Except ContextError (List SourceFile)
  nodup : ∀ files, walk = .ok files → (files.map (·.relative)).Nodup

/-! ## symbols -/

def sourceLines (bytes : Bytes) : List (List Char) := lines (decodeLossy bytes)

def signatureForRange (bytes : Bytes) (range : LocationRange) : String :=
  String.ofList ((sourceLines bytes)[range.startLine - 1]?.map trimList |>.getD [])

/-- the id of a symbol is its path, line and name -/
def buildSymbol (path : String) (bytes : Bytes) (digest : String) (capture : Capture) : SymbolRecord :=
  { id := path ++ ":" ++ toString capture.range.startLine ++ ":" ++ capture.name
    name := capture.name
    kind := capture.kind
    path
    range := capture.range
    signature := signatureForRange bytes capture.range
    blobDigest := digest
    provenance :=
      { digest, age := .current, sourceRef := path ++ ":" ++ toString capture.range.startLine } }

/-! ## references and calls -/

/-- `match_indices`: the byte columns, the first `skip` characters passed over -/
def matchColumns (pat : List Char) : Nat → Nat → List Char → List Nat
  | skip, column, [] => if skip = 0 ∧ pat = [] then [column] else []
  | skip + 1, column, c :: l => matchColumns pat skip (column + c.utf8Size) l
  | 0, column, c :: l =>
    if pat.isPrefixOf (c :: l) then
      column :: matchColumns pat (pat.length - 1) (column + c.utf8Size) l
    else matchColumns pat 0 (column + c.utf8Size) l

def referenceRecord (symbol : SymbolRecord) (occurrence : BlobRecord) (lineIndex column : Nat) :
    ReferenceRecord :=
  let startLine := min (lineIndex + 1) u32Max
  { target := some symbol.id
    name := symbol.name
    path := occurrence.path
    blobDigest := occurrence.digest
    range :=
      { startLine
        startColumn := min column u32Max
        endLine := startLine
        endColumn := min (column + symbol.name.utf8ByteSize) u32Max }
    provenance :=
      { digest := occurrence.digest, age := occurrence.provenance.age
        sourceRef := occurrence.path ++ ":" ++ toString startLine } }

def referencesForSymbol (symbol : SymbolRecord) (occurrence : BlobRecord) (source : List (List Char)) :
    List ReferenceRecord :=
  source.zipIdx.flatMap fun (line, lineIndex) =>
    if lineIndex = symbol.range.startLine - 1 then []
    else (matchColumns symbol.name.toList 0 0 line).map (referenceRecord symbol occurrence lineIndex)

/-- the callees whose name stands before a bracket in the lines of the caller -/
def callsFromSymbol (caller : SymbolRecord) (symbols : List SymbolRecord) (source : List (List Char)) :
    List CallEdge :=
  let len := satAdd32 (caller.range.endLine - caller.range.startLine) 1
  let body := joinLines ((source.drop (caller.range.startLine - 1)).take len)
  (symbols.filter fun callee => callee.id ≠ caller.id ∧ callee.name.toList ++ ['('] <:+: body).map
    fun callee => { caller := caller.id, callee := callee.id, provenance := caller.provenance }

/-! ## the index -/

/-- what is known of the contents, and which path has which -/
structure ContextIndex where
  blobs : OrdMap String BlobRecord := ∅
  bytes : OrdMap String Bytes := ∅
  paths : OrdMap String String := ∅
  symbols : OrdMap String SymbolRecord := ∅
  references : List ReferenceRecord := []
  calls : List CallEdge := []

/-- what a pass did with the files that it saw -/
structure IndexReport where
  observedBlobs : Nat := 0
  processedBlobs : Nat := 0
  skippedUnchangedBlobs : Nat := 0

namespace ContextIndex

variable (index : ContextIndex)

def insertSymbol (symbol : SymbolRecord) : ContextIndex :=
  { index with symbols := index.symbols.insert symbol.id symbol }

/-- forgets a content and everything that was found in it -/
def purgeDigestData (digest : String) : ContextIndex :=
  let symbols := index.symbols.filter fun _ symbol => symbol.blobDigest ≠ digest
  { index with
    symbols
    references := index.references.filter (·.blobDigest ≠ digest)
    calls := index.calls.filter fun edge => edge.caller ∈ symbols ∧ edge.callee ∈ symbols
    bytes := index.bytes.erase digest
    blobs := index.blobs.erase digest }

/-- a content goes with its last path -/
def removePath (path : String) : ContextIndex :=
  match index.paths[path]? with
  | none => index
  | some digest =>
    let paths := index.paths.erase path
    if (paths.toList.map Prod.snd).contains digest then { index with paths }
    else purgeDigestData { index with paths } digest

/-- the content moves to `path`: its other paths are dropped -/
def reassociatePath (path digest : String) : ContextIndex :=
  let stale := (index.paths.toList.filter fun entry => entry.2 = digest ∧ entry.1 ≠ path).map Prod.fst
  { index with paths := (stale.foldl (·.erase ·) index.paths).insert path digest }

/-- the paths that the walk did not meet are removed -/
def evictOrphanedPaths (traversed : List String) : ContextIndex :=
  (index.paths.keys.filter fun path => path ∉ traversed).foldl removePath index

def symbolList : List SymbolRecord := index.symbols.toList.map Prod.snd

def rebuildReferencesAndCalls : ContextIndex :=
  { index with
    references := index.symbolList.flatMap fun symbol =>
      match index.bytes[symbol.blobDigest]?, index.blobs[symbol.blobDigest]? with
      | some bytes, some occurrence => referencesForSymbol symbol occurrence (sourceLines bytes)
      | _, _ => []
    calls := index.symbolList.flatMap fun caller =>
      match index.bytes[caller.blobDigest]? with
      | some bytes => callsFromSymbol caller index.symbolList (sourceLines bytes)
      | none => [] }

end ContextIndex

/-! ## a pass -/

section
variable (tools : Toolchain)

variable (index : ContextIndex)

/-- the captures become symbols; a later one of the same id replaces the earlier -/
def parseBlob (path : String) (bytes : Bytes) (digest : String) :
    Except ContextError ContextIndex := do
  let captures ← tools.extract path bytes
  .ok (captures.foldl (fun index capture => index.insertSymbol (buildSymbol path bytes digest capture)) index)

/-- the age, with what the check does to index and report -/
def classifyAge (relative digest : String) (report : IndexReport) :
    ContextAge × ContextIndex × IndexReport :=
  let skipped := { report with skippedUnchangedBlobs := satAdd64 report.skippedUnchangedBlobs 1 }
  let processed := { report with processedBlobs := satAdd64 report.processedBlobs 1 }
  match index.paths[relative]? with
  | some previous =>
    if previous = digest then (.reusedUnchanged, index, skipped)
    else
      let index := index.removePath relative
      if digest ∈ index.blobs then (.reusedUnchanged, index, skipped) else (.current, index, processed)
  | none => if digest ∈ index.blobs then (.reusedUnchanged, index, skipped) else (.current, index, processed)

/-- the record of a blob -/
def blobRecord (relative digest : String) (age : ContextAge) : BlobRecord :=
  { path := relative
    digest
    language := tools.language relative
    processCount := if age = .reusedUnchanged then 0 else 1
    provenance := { digest, age, sourceRef := relative } }

/-- only content that is new is parsed -/
def upsertBlob (relative : String) (bytes : Bytes) (digest : String) (age : ContextAge) :
    Except ContextError ContextIndex :=
  let index := { index with
    bytes := index.bytes.insert digest bytes
    blobs := index.blobs.insert digest (blobRecord tools relative digest age) }
  let index := index.reassociatePath relative digest
  match age with
  | .current => parseBlob tools index relative bytes digest
  | .reusedUnchanged => .ok index

def indexPath (file : SourceFile) (index : ContextIndex) (report : IndexReport) :
    Except ContextError (ContextIndex × IndexReport) := do
  match file.read with
  | .error source => .error (.readSource file.absolute source)
  | .ok bytes =>
    let digest := tools.digest bytes
    let report := { report with observedBlobs := satAdd64 report.observedBlobs 1 }
    let (age, index, report) := classifyAge index file.relative digest report
    let index ← upsertBlob tools index file.relative bytes digest age
    .ok (index, report)

def indexFiles : List SourceFile → ContextIndex → IndexReport →
    Except ContextError (ContextIndex × IndexReport)
  | [], index, report => .ok (index, report)
  | file :: files, index, report => do
    let (index, report) ← indexPath tools file index report
    indexFiles files index report

/-- `Indexer::index_repository`; an error leaves the indexer with the index that it had -/
def indexRepository (repo : Repository) :
    Except ContextError (ContextIndex × IndexReport) := do
  let traversed ← repo.walk
  let (next, report) ← indexFiles tools traversed index {}
  let next := next.evictOrphanedPaths (traversed.map (·.relative))
  .ok (next.rebuildReferencesAndCalls, report)

/-- the same `Indexer` on one state after another -/
def indexAll (index : ContextIndex) : List Repository → ContextIndex
  | [] => index
  | repo :: repos => match indexRepository tools index repo with
    | .ok (next, _) => indexAll next repos
    | .error _ => indexAll index repos

end

end Context
