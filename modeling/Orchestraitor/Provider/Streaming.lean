import Orchestraitor.Provider.SseChunks

/-!
# One message, streamed or not

`response_to_events` and `chunk_to_events` decode the same assistant message.  A server streams it as deltas:
the text in pieces, and for each tool call a first delta with id and name and further ones with the rest of
the arguments.  The streaming decoder makes its event from the first delta alone, so the two agree exactly
when that delta already says everything (`streamed_calls_iff`).
-/

namespace Provider
open Base List

structure ToolCall where
  id : String
  name : String
  arguments : String

structure Message where
  content : Option String
  toolCalls : List ToolCall

structure ChatCompletionResponse where
  choices : List Message
  usage : Option Usage

section
variable {V : Type} (serde : Serde V)

def Serde.argumentsValue (arguments : String) : V := (serde.value arguments).getD serde.null

def ToolCall.event (call : ToolCall) : ModelEvent V :=
  .toolCall call.id call.name (serde.argumentsValue call.arguments)

def responseToEvents (response : ChatCompletionResponse) : List (ModelEvent V) :=
  .started :: (response.choices.flatMap fun message =>
    textEvents message.content ++ message.toolCalls.map (·.event serde)) ++
    (response.usage.map Usage.event).toList ++ [.completed]

/-! ## what the events say -/

def ModelEvent.text : ModelEvent V → List Char
  | .textDelta text => text.toList
  | _ => []

def textOf (events : List (ModelEvent V)) : List Char := events.flatMap ModelEvent.text

def ModelEvent.isToolCall : ModelEvent V → Bool
  | .toolCall .. => true
  | _ => false

def toolCallsOf (events : List (ModelEvent V)) : List (ModelEvent V) := events.filter (·.isToolCall)

/-! ## how a message is streamed -/

def StreamToolCall.name (f : StreamToolCall) : String := (f.function.bind (·.name)).getD ""

def StreamToolCall.arguments (f : StreamToolCall) : Option String := f.function.bind (·.arguments)

variable (chunks : List StreamChunk) (f : StreamToolCall)

def deltasOf : List Delta :=
  chunks.flatMap fun chunk => chunk.choices.map (·.delta)

def fragmentsOf : List StreamToolCall :=
  (deltasOf chunks).flatMap (·.toolCalls)

/-- the fragments of one call: id and name come with the first, the arguments piece by piece -/
def CarriesCall (call : ToolCall) : List StreamToolCall → Prop
  | [] => False
  | first :: rest => first.id = some call.id ∧ first.name = call.name ∧ (∀ f ∈ rest, f.name = "") ∧
      (first :: rest).flatMap (fun f => (f.arguments.getD "").toList) = call.arguments.toList

/-- the chunks stream the message -/
structure Streams (message : Message) (chunks : List StreamChunk) : Prop where
  text : (deltasOf chunks).flatMap (fun d => (d.content.getD "").toList) =
    (message.content.getD "").toList
  inRange : ∀ f ∈ fragmentsOf chunks, f.index < message.toolCalls.length
  calls : ∀ i call, message.toolCalls[i]? = some call →
    CarriesCall call ((fragmentsOf chunks).filter (·.index = i))

/-- the first fragment of each call, in the order in which the calls begin -/
def openingsFrom (seen : List Nat) : List StreamToolCall → List StreamToolCall
  | [] => []
  | f :: fs =>
    if f.index ∈ seen then openingsFrom seen fs else f :: openingsFrom (f.index :: seen) fs

def openings : List StreamToolCall := openingsFrom [] (fragmentsOf chunks)

/-- the first fragment of a call says all of it -/
def SaysAll (f : StreamToolCall) (call : ToolCall) : Prop :=
  f.id = some call.id ∧ f.name = call.name ∧ call.name ≠ "" ∧
    serde.fragmentValue f.arguments = serde.argumentsValue call.arguments

/-! ## the events of a chunk list -/

theorem textOf_append (es es' : List (ModelEvent V)) : textOf (es ++ es') = textOf es ++ textOf es' :=
  flatMap_append

theorem toolCallsOf_append (es es' : List (ModelEvent V)) :
    toolCallsOf (es ++ es') = toolCallsOf es ++ toolCallsOf es' :=
  filter_append es es'

theorem toolCallEvents_eq : toolCallEvents serde f =
    if f.name = "" then [] else [.toolCall (f.id.getD "") f.name (serde.fragmentValue f.arguments)] := by
  unfold toolCallEvents StreamToolCall.name StreamToolCall.arguments
  cases f.function with
  | none => rfl
  | some => simp [String.isEmpty_iff]

theorem textOf_textEvents (content : Option String) :
    textOf (textEvents (V := V) content) = (content.getD "").toList := by
  cases content with
  | none => rfl
  | some text =>
    rw [textEvents]
    split_ifs with h
    · rw [String.isEmpty_iff.mp h]
      rfl
    · simp [textOf, ModelEvent.text]

theorem toolCallsOf_textEvents (content : Option String) :
    toolCallsOf (textEvents (V := V) content) = [] := by
  cases content with
  | none => rfl
  | some =>
    rw [textEvents]
    split_ifs <;> rfl

theorem textOf_toolCallEvents : textOf (toolCallEvents serde f) = [] := by
  rw [toolCallEvents_eq]
  split_ifs <;> rfl

theorem toolCallsOf_toolCallEvents :
    toolCallsOf (toolCallEvents serde f) = toolCallEvents serde f := by
  rw [toolCallEvents_eq]
  split_ifs <;> rfl

theorem textOf_usage (usage : Option Usage) :
    textOf (V := V) (usage.map Usage.event).toList = [] := by
  cases usage <;> rfl

theorem toolCallsOf_usage (usage : Option Usage) :
    toolCallsOf (V := V) (usage.map Usage.event).toList = [] := by
  cases usage <;> rfl

variable {α : Type} {seen : List Nat} {fs : List StreamToolCall} {f : StreamToolCall}
  {chunks : List StreamChunk} {docs : List (List Char)}

theorem textOf_flatMap (l : List α) (g : α → List (ModelEvent V)) :
    textOf (l.flatMap g) = l.flatMap fun a => textOf (g a) := by
  rw [textOf, flatMap_assoc]
  rfl

theorem toolCallsOf_flatMap (l : List α) (g : α → List (ModelEvent V)) :
    toolCallsOf (l.flatMap g) = l.flatMap fun a => toolCallsOf (g a) := by
  rw [toolCallsOf, filter_flatMap]
  rfl

theorem textOf_deltaEvents (delta : Delta) :
    textOf (deltaEvents serde delta) = (delta.content.getD "").toList := by
  rw [deltaEvents, textOf_append, textOf_textEvents, textOf_flatMap]
  simp [textOf_toolCallEvents]

theorem toolCallsOf_deltaEvents (delta : Delta) :
    toolCallsOf (deltaEvents serde delta) = delta.toolCalls.flatMap (toolCallEvents serde) := by
  rw [deltaEvents, toolCallsOf_append, toolCallsOf_textEvents, toolCallsOf_flatMap]
  simp [toolCallsOf_toolCallEvents]

theorem textOf_chunks : textOf (chunks.flatMap (chunkToEvents serde)) =
    (deltasOf chunks).flatMap fun d => (d.content.getD "").toList := by
  rw [textOf_flatMap, deltasOf, flatMap_assoc]
  refine flatMap_congr fun chunk _ => ?_
  rw [chunkToEvents, textOf_append, textOf_usage, textOf_flatMap, append_nil, flatMap_map]
  simp only [textOf_deltaEvents]

theorem toolCallsOf_chunks : toolCallsOf (chunks.flatMap (chunkToEvents serde)) =
      (fragmentsOf chunks).flatMap (toolCallEvents serde) := by
  rw [toolCallsOf_flatMap, fragmentsOf, deltasOf, flatMap_assoc, flatMap_assoc]
  refine flatMap_congr fun chunk _ => ?_
  rw [chunkToEvents, toolCallsOf_append, toolCallsOf_usage, toolCallsOf_flatMap, append_nil,
    flatMap_map]
  simp only [toolCallsOf_deltaEvents]

theorem textOf_response (message : Message) (usage : Option Usage) :
    textOf (responseToEvents serde ⟨[message], usage⟩) = (message.content.getD "").toList := by
  have hcalls : textOf (message.toolCalls.map (·.event serde)) = [] := by
    rw [textOf]
    simp [ToolCall.event, ModelEvent.text]
  rw [responseToEvents, textOf_append, textOf_append, textOf_usage]
  simp only [flatMap_cons, flatMap_nil, append_nil]
  show textOf (textEvents message.content ++ message.toolCalls.map (·.event serde)) ++ [] = _
  rw [textOf_append, textOf_textEvents, hcalls, append_nil, append_nil]

theorem toolCallsOf_response (message : Message) (usage : Option Usage) :
    toolCallsOf (responseToEvents serde ⟨[message], usage⟩) = message.toolCalls.map (·.event serde) := by
  have hcalls : toolCallsOf (message.toolCalls.map (·.event serde)) =
      message.toolCalls.map (·.event serde) := by
    refine filter_eq_self.mpr fun e he => ?_
    obtain ⟨call, -, rfl⟩ := mem_map.mp he
    rfl
  rw [responseToEvents, toolCallsOf_append, toolCallsOf_append, toolCallsOf_usage]
  simp only [flatMap_cons, flatMap_nil, append_nil]
  show toolCallsOf (textEvents message.content ++ message.toolCalls.map (·.event serde)) ++ [] = _
  rw [toolCallsOf_append, toolCallsOf_textEvents, hcalls, nil_append, append_nil]

/-! ## the first fragments -/

theorem mem_openingsFrom (h : f ∈ openingsFrom seen fs) :
    f.index ∉ seen ∧ (fs.filter (·.index = f.index)).head? = some f := by
  induction fs generalizing seen with
  | nil => cases h
  | cons g _ ih =>
    rw [openingsFrom] at h
    split_ifs at h with hseen
    · obtain ⟨hnot, hhead⟩ := ih h
      have hne : g.index ≠ f.index := fun heq => hnot (heq ▸ hseen)
      exact ⟨hnot, by simpa [hne] using hhead⟩
    · obtain rfl | h := mem_cons.mp h
      · exact ⟨hseen, by simp⟩
      · obtain ⟨hnot, hhead⟩ := ih h
        obtain ⟨hne, hnot⟩ := not_or.mp fun hmem => hnot (mem_cons.mpr hmem)
        exact ⟨hnot, by simpa [Ne.symm hne] using hhead⟩

theorem nodup_openingsFrom (seen : List Nat) (fs : List StreamToolCall) :
    ((openingsFrom seen fs).map (·.index)).Nodup := by
  induction fs generalizing seen with
  | nil => exact nodup_nil
  | cons _ _ ih =>
    rw [openingsFrom]
    split_ifs with hseen
    · exact ih seen
    · refine nodup_cons.mpr ⟨fun hmem => ?_, ih _⟩
      obtain ⟨g, hg, heq⟩ := mem_map.mp hmem
      exact (mem_openingsFrom hg).1 (heq ▸ mem_cons_self)

theorem index_mem_openingsFrom (hf : f ∈ fs) (hseen : f.index ∉ seen) :
    f.index ∈ (openingsFrom seen fs).map (·.index) := by
  induction fs generalizing seen with
  | nil => cases hf
  | cons g _ ih =>
    rw [openingsFrom]
    split_ifs with hg
    · obtain rfl | hf := mem_cons.mp hf
      · exact absurd hg hseen
      · exact ih hf hseen
    · rw [map_cons, mem_cons]
      by_cases heq : f.index = g.index
      · exact .inl heq
      · obtain rfl | hf := mem_cons.mp hf
        · exact absurd rfl heq
        · refine .inr (ih hf fun hmem => ?_)
          obtain h | h := mem_cons.mp hmem
          · exact heq h
          · exact hseen h

theorem flatMap_openingsFrom
    (h : ∀ i, ∀ f ∈ ((fs.filter (·.index = i)).drop (if i ∈ seen then 0 else 1)), f.name = "") :
    fs.flatMap (toolCallEvents serde) = (openingsFrom seen fs).flatMap (toolCallEvents serde) := by
  induction fs generalizing seen with
  | nil => rfl
  | cons f _ ih =>
    rw [openingsFrom, flatMap_cons]
    split_ifs with hseen
    · have hname : f.name = "" := h f.index f (by simp [hseen])
      rw [toolCallEvents_eq, if_pos hname]
      refine ih fun i g hg => h i g ?_
      by_cases hi : f.index = i
      · subst hi
        simp only [hseen, if_true, drop_zero] at hg ⊢
        simp [hg]
      · simpa [hi] using hg
    · rw [flatMap_cons]
      refine congrArg (toolCallEvents serde f ++ ·) (ih fun i g hg => h i g ?_)
      by_cases hi : f.index = i
      · subst hi
        simpa [hseen] using hg
      · have hi' : ¬ i = f.index := fun heq => hi heq.symm
        simpa [hi, hi'] using hg

section
variable {message : Message} {chunks : List StreamChunk} (h : Streams message chunks)
include h

theorem Streams.fragmentEvents : (fragmentsOf chunks).flatMap (toolCallEvents serde) =
    (openings chunks).flatMap (toolCallEvents serde) := by
  refine flatMap_openingsFrom serde fun i f hf => ?_
  cases hcall : message.toolCalls[i]? with
  | none =>
    -- no call, no fragments
    have hmem := mem_filter.mp (mem_of_mem_drop hf)
    have hlt := h.inRange f hmem.1
    have hindex : f.index = i := of_decide_eq_true hmem.2
    exact absurd (getElem?_eq_none_iff.mp hcall) (by omega)
  | some call =>
    have hcarries := h.calls i call hcall
    cases hfs : (fragmentsOf chunks).filter (·.index = i) with
    | nil =>
      rw [hfs] at hf
      cases hf
    | cons =>
      rw [hfs] at hf hcarries
      exact hcarries.2.2.1 f hf

theorem Streams.length_openings : (openings chunks).length = message.toolCalls.length := by
  have hperm : ((openings chunks).map (·.index)).Perm (range message.toolCalls.length) := by
    refine (perm_ext_iff_of_nodup (nodup_openingsFrom [] _) nodup_range).mpr fun i => ?_
    rw [mem_range]
    constructor
    · intro hi
      obtain ⟨f, hf, rfl⟩ := mem_map.mp hi
      have hhead := (mem_openingsFrom hf).2
      exact h.inRange f (mem_of_mem_filter (mem_of_mem_head? hhead))
    · intro hi
      have hcarries := h.calls i _ (getElem?_eq_getElem hi)
      cases hfs : (fragmentsOf chunks).filter (·.index = i) with
      | nil =>
        rw [hfs] at hcarries
        exact hcarries.elim
      | cons first =>
        have hmem : first ∈ (fragmentsOf chunks).filter (·.index = i) := by simp [hfs]
        obtain ⟨hfirst, hindex⟩ := mem_filter.mp hmem
        have hindex : first.index = i := of_decide_eq_true hindex
        exact hindex ▸ index_mem_openingsFrom hfirst not_mem_nil
  simpa using hperm.length_eq

theorem Streams.id_opening {f : StreamToolCall} (hf : f ∈ openings chunks) : ∃ id, f.id = some id := by
  have hhead := (mem_openingsFrom hf).2
  have hlt := h.inRange f (mem_of_mem_filter (mem_of_mem_head? hhead))
  have hcarries := h.calls f.index _ (getElem?_eq_getElem hlt)
  cases hfs : (fragmentsOf chunks).filter (·.index = f.index) with
  | nil =>
    rw [hfs] at hhead
    cases hhead
  | cons first =>
    rw [hfs] at hhead hcarries
    obtain rfl : first = f := Option.some.inj hhead
    exact ⟨_, hcarries.1⟩

end

theorem flatMap_eq_map_iff {β γ : Type} {g : α → List γ} (hg : ∀ a, (g a).length ≤ 1) {k : β → γ}
    {as : List α} {bs : List β} (hlength : as.length = bs.length) :
    as.flatMap g = bs.map k ↔ List.Forall₂ (fun a b => g a = [k b]) as bs := by
  have hbound : ∀ as : List α, (as.flatMap g).length ≤ as.length := by
    intro as
    induction as with
    | nil => exact le_rfl
    | cons a =>
      rw [flatMap_cons, length_append, length_cons]
      have := hg a
      omega
  induction as generalizing bs with
  | nil =>
    obtain rfl := length_eq_zero_iff.mp hlength.symm
    simp
  | cons a as ih =>
    cases bs with
    | nil => cases hlength
    | cons b bs =>
      have hlength' : as.length = bs.length := Nat.succ.inj hlength
      rw [forall₂_cons, flatMap_cons, map_cons]
      refine Iff.trans ?_ (and_congr Iff.rfl (ih hlength'))
      cases hga : g a with
      | nil =>
        refine iff_of_false (fun heq => ?_) (fun hand => absurd hand.1 (by simp))
        have hlen := congrArg length heq
        simp only [nil_append, length_cons, length_map] at hlen
        have := hbound as
        omega
      | cons e es =>
        have hes : es = [] := by
          have hle := hg a
          rw [hga, length_cons] at hle
          exact length_eq_zero_iff.mp (by omega)
        subst hes
        simp

theorem toolCallEvents_eq_event_iff {id : String} (hid : f.id = some id) (call : ToolCall) :
    toolCallEvents serde f = [call.event serde] ↔ SaysAll serde f call := by
  rw [toolCallEvents_eq, ToolCall.event, SaysAll, hid]
  split_ifs with hname
  · refine iff_of_false (by simp) fun hwhole => ?_
    exact hwhole.2.2.1 (hwhole.2.1.symm.trans hname)
  · simp only [cons.injEq, ModelEvent.toolCall.injEq, and_true,
      Option.some.injEq]
    constructor
    · rintro ⟨rfl, heq, hvalue⟩
      exact ⟨rfl, heq, heq ▸ hname, hvalue⟩
    · rintro ⟨rfl, heq, -, hvalue⟩
      exact ⟨rfl, heq, hvalue⟩

theorem Streams.toolCalls_iff {message : Message} (h : Streams message chunks) :
    (fragmentsOf chunks).flatMap (toolCallEvents serde) = message.toolCalls.map (·.event serde) ↔
      List.Forall₂ (SaysAll serde) (openings chunks) message.toolCalls := by
  have hone : ∀ f, (toolCallEvents serde f).length ≤ 1 := by
    intro f
    rw [toolCallEvents_eq]
    split_ifs <;> simp
  rw [h.fragmentEvents serde, flatMap_eq_map_iff hone h.length_openings]
  have hiff : ∀ f ∈ openings chunks, ∀ call, toolCallEvents serde f = [call.event serde] ↔
      SaysAll serde f call := by
    intro f hf call
    obtain ⟨id, hid⟩ := h.id_opening hf
    exact toolCallEvents_eq_event_iff serde hid call
  generalize message.toolCalls = calls
  generalize openings chunks = fs at hiff
  induction fs generalizing calls with
  | nil => cases calls <;> simp
  | cons f _ ih =>
    cases calls with
    | nil => simp
    | cons call calls =>
      rw [forall₂_cons, forall₂_cons]
      exact and_congr (hiff f mem_cons_self call)
        (ih calls fun g hg => hiff g (mem_cons_of_mem f hg))

/-! ## the stream on the wire -/

def Document (doc : List Char) (chunk : StreamChunk) : Prop :=
  '\n' ∉ doc ∧ doc.head? = some '{' ∧ doc.getLast? = some '}' ∧
    serde.chunk (String.ofList doc) = .ok chunk

def dataLine (data : List Char) : List Char := "data: ".toList ++ data

def streamBody (docs : List (List Char)) : String :=
  String.ofList ((docs ++ [sseDone]).flatMap fun doc => dataLine doc ++ ['\n', '\n'])

theorem blocks_line {b : List Char} (hb : '\n' ∉ b) (l : List Char) :
    blocks (b ++ ['\n', '\n'] ++ l) = (b :: (blocks l).1, (blocks l).2) := by
  induction b with
  | nil => rfl
  | cons c b ih =>
    obtain ⟨hc, hb⟩ := not_or.mp fun hmem => hb (mem_cons.mpr hmem)
    have hhead : ¬ (c = '\n' ∧ (b ++ ['\n', '\n'] ++ l).head? = some '\n') := fun h => hc h.1.symm
    rw [cons_append, cons_append, blocks_cons hhead, ih hb]

theorem blocks_lines {bs : List (List Char)} (h : ∀ b ∈ bs, '\n' ∉ b) :
    blocks (bs.flatMap fun b => b ++ ['\n', '\n']) = (bs, []) := by
  induction bs with
  | nil => rfl
  | cons b _ ih =>
    rw [flatMap_cons, blocks_line (h b mem_cons_self),
      ih fun b' hb' => h b' (mem_cons_of_mem b hb')]

theorem trimList_eq_self {l : List Char} {c d : Char} (hfirst : l.head? = some c)
    (hlast : l.getLast? = some d) (hc : isWhitespace c = false) (hd : isWhitespace d = false) :
    trimList l = l := by
  have hdrop : ∀ {l : List Char} {c : Char}, l.head? = some c → isWhitespace c = false →
      l.dropWhile isWhitespace = l := by
    intro l c hhead hc
    obtain ⟨l, rfl⟩ := head?_eq_some_iff.mp hhead
    rw [dropWhile_cons, hc]
    rfl
  rw [trimList, trimEndList, hdrop hfirst hc, hdrop (by rw [head?_reverse, hlast]) hd,
    reverse_reverse]

theorem extractDataLine_dataLine {data : List Char} {c : Char} (hline : '\n' ∉ data)
    (hfirst : data.head? = some c) (hc : isWhitespace c = false) :
    extractDataLine (dataLine data) = data := by
  have hnot : '\n' ∉ dataLine data := by
    intro hmem
    obtain h | h := mem_append.mp hmem
    · exact absurd h (by decide)
    · exact hline h
  have hdata : dataOfLine (dataLine data) = some data := by
    obtain ⟨rest, rfl⟩ := head?_eq_some_iff.mp hfirst
    have hdrop : (dataLine (c :: rest)).drop "data:".toList.length = ' ' :: c :: rest := rfl
    have hprefix : "data:".toList.isPrefixOf (dataLine (c :: rest)) = true := rfl
    have hspace : isWhitespace ' ' = true := rfl
    rw [dataOfLine, hdrop, dropWhile_cons, dropWhile_cons, hc]
    rfl
  have hne : dataLine data ≠ [] := cons_ne_nil 'd' _
  rw [extractDataLine, lines_of_not_mem hnot hne, filterMap_cons_some hdata]
  exact intercalate_singleton

theorem trimList_dataLine {data : List Char} {d : Char} (hlast : data.getLast? = some d)
    (hd : isWhitespace d = false) : trimList (dataLine data) = dataLine data := by
  refine trimList_eq_self rfl ?_ rfl hd
  show ("data: ".toList ++ data).getLast? = some d
  rw [getLast?_append, hlast]
  rfl

theorem parseBlock_document {doc : List Char} {chunk : StreamChunk} (h : Document serde doc chunk) :
    parseBlock serde (dataLine doc) = .ok (chunkToEvents serde chunk, false) := by
  obtain ⟨hline, hfirst, hlast, hchunk⟩ := h
  have hbrace : isWhitespace '{' = false := by decide
  have hdata : extractDataLine (dataLine doc) = doc := extractDataLine_dataLine hline hfirst hbrace
  have hnonempty : doc.isEmpty = false := by
    obtain ⟨rest, rfl⟩ := head?_eq_some_iff.mp hfirst
    rfl
  have hdone : trimList doc ≠ sseDone := by
    rw [trimList_eq_self hfirst hlast hbrace (by decide)]
    rintro rfl
    exact absurd hfirst (by decide)
  have hblock : (dataLine doc).isEmpty = false := rfl
  rw [parseBlock, trimList_dataLine hlast (by decide), hblock, parseEvent, hdata]
  simp only [hnonempty, Bool.false_eq_true, if_false, if_neg hdone, hchunk]

theorem parseBlocks_documents (h : List.Forall₂ (Document serde) docs chunks) :
    parseBlocks serde ((docs ++ [sseDone]).map dataLine) =
        .ok (chunks.flatMap (chunkToEvents serde) ++ [.completed], true) ∧
      QuietAfterDone serde ((docs ++ [sseDone]).map dataLine) := by
  induction h with
  | nil =>
    refine ⟨rfl, ?_⟩
    show ∀ b' ∈ [], parseBlock serde b' = .ok ([], false)
    exact fun b' hb' => absurd hb' not_mem_nil
  | @cons doc chunk docs chunks hdoc _ ih =>
    obtain ⟨hparse, hquiet⟩ := ih
    have hblock := parseBlock_document serde hdoc
    rw [cons_append, map_cons, parseBlocks_cons, hparse, QuietAfterDone, hblock]
    refine ⟨?_, hquiet⟩
    rw [flatMap_cons, append_assoc]
    rfl

theorem not_mem_of_documents (h : List.Forall₂ (Document serde) docs chunks) :
    ∀ doc ∈ docs, '\n' ∉ doc := by
  induction h with
  | nil => exact fun doc hdoc => absurd hdoc not_mem_nil
  | cons hfirst _ ih =>
    intro doc hdoc
    obtain rfl | hdoc := mem_cons.mp hdoc
    · exact hfirst.1
    · exact ih doc hdoc

theorem events_streamBody (h : List.Forall₂ (Document serde) docs chunks)
    {bytes : List (List UInt8)} (hcut : CutsBetweenChars serde (streamBody docs) bytes) :
    SseParser.events serde bytes = .ok (chunks.flatMap (chunkToEvents serde) ++ [.completed]) := by
  have hlines : ∀ b ∈ (docs ++ [sseDone]).map dataLine, '\n' ∉ b := by
    intro b hb hmem
    obtain ⟨doc, hdoc, rfl⟩ := mem_map.mp hb
    obtain hmem | hmem := mem_append.mp hmem
    · exact absurd hmem (by decide)
    obtain hdoc | hdoc := mem_append.mp hdoc
    · exact not_mem_of_documents serde h doc hdoc hmem
    · rw [mem_singleton.mp hdoc] at hmem
      exact absurd hmem (by decide)
  have hblocks : blocks (streamBody docs).toList = ((docs ++ [sseDone]).map dataLine, []) := by
    have hbody := blocks_lines hlines
    rw [flatMap_map] at hbody
    rw [streamBody, String.toList_ofList]
    exact hbody
  obtain ⟨hparse, hquiet⟩ := parseBlocks_documents serde h
  rw [events_of_quiet serde hcut (by rw [hblocks]; exact hquiet), wholeEvents, hblocks]
  simp only [hparse, bind, Except.bind, SseParser.finish, if_true, append_nil]

/-- However a message is streamed, the text is the one of the unstreamed message, and the tool calls are
exactly when the first fragment of each call says all of it. -/
theorem streamed_calls_iff (message : Message) (chunks : List StreamChunk) (docs : List (List Char))
    (bytes : List (List UInt8)) (usage : Option Usage) (hstreams : Streams message chunks)
    (hdocs : List.Forall₂ (Document serde) docs chunks)
    (hcut : CutsBetweenChars serde (streamBody docs) bytes) :
    ∃ events, SseParser.events serde bytes = .ok events ∧
      textOf events = textOf (responseToEvents serde ⟨[message], usage⟩) ∧
      (toolCallsOf events = toolCallsOf (responseToEvents serde ⟨[message], usage⟩) ↔
        List.Forall₂ (SaysAll serde) (openings chunks) message.toolCalls) := by
  refine ⟨_, events_streamBody serde hdocs hcut, ?_, ?_⟩
  · rw [textOf_append, textOf_chunks, hstreams.text, textOf_response]
    exact append_nil _
  · have hcompleted : toolCallsOf ([.completed] : List (ModelEvent V)) = [] := rfl
    rw [toolCallsOf_append, toolCallsOf_chunks, hcompleted, append_nil, toolCallsOf_response]
    exact hstreams.toolCalls_iff serde

end

def fragmentDoc (opening arguments : String) : String :=
  "\x7b\"choices\":[\x7b\"delta\":\x7b\"tool_calls\":[\x7b\"index\":0," ++ opening ++
    "\"arguments\":\"" ++ arguments ++ "\"\x7d\x7d]\x7d\x7d]\x7d"

def firstDoc (arguments : String) : String :=
  fragmentDoc "\"id\":\"call_1\",\"function\":\x7b\"name\":\"get_weather\"," arguments

def nextDoc (arguments : String) : String := fragmentDoc "\"function\":\x7b" arguments

def firstChunk (arguments : String) : StreamChunk :=
  ⟨[⟨⟨none, [⟨0, some "call_1", some ⟨some "get_weather", some arguments⟩⟩]⟩⟩], none⟩

def nextChunk (arguments : String) : StreamChunk :=
  ⟨[⟨⟨none, [⟨0, none, some ⟨none, some arguments⟩⟩]⟩⟩], none⟩

def emptyObject : Serde String where
  null := "null"
  value text := if text = "\x7b\x7d" then some text else none
  chunk text :=
    if text = firstDoc "\x7b\x7d" then .ok (firstChunk "\x7b\x7d")
    else if text = firstDoc "\x7b" then .ok (firstChunk "\x7b")
    else if text = nextDoc "\x7d" then .ok (nextChunk "\x7d")
    else .error "expected value"

def weatherMessage : Message := ⟨none, [⟨"call_1", "get_weather", "\x7b\x7d"⟩]⟩

theorem weatherMessage_streams {chunks : List StreamChunk}
    (htext : (deltasOf chunks).flatMap (fun d => (d.content.getD "").toList) = [])
    (hindex : ∀ f ∈ fragmentsOf chunks, f.index = 0)
    (hcall : CarriesCall ⟨"call_1", "get_weather", "\x7b\x7d"⟩ (fragmentsOf chunks)) :
    Streams weatherMessage chunks where
  text := htext
  inRange f hf := by
    rw [hindex f hf]
    exact Nat.one_pos
  calls i call hi := by
    cases i with
    | zero =>
      obtain rfl : _ = call := Option.some.inj hi
      have hall : (fragmentsOf chunks).filter (·.index = 0) = fragmentsOf chunks :=
        filter_eq_self.mpr fun f hf => decide_eq_true (hindex f hf)
      rw [hall]
      exact hcall
    | succ => cases hi

theorem streamed_calls_iff_oneDelta : ∃ events,
    SseParser.events emptyObject [utf8 (streamBody [(firstDoc "\x7b\x7d").toList]).toList] = .ok events ∧
      toolCallsOf events = toolCallsOf (responseToEvents emptyObject ⟨[weatherMessage], none⟩) := by
  have hstreams : Streams weatherMessage [firstChunk "\x7b\x7d"] :=
    weatherMessage_streams rfl (by decide) ⟨rfl, rfl, by decide, by decide⟩
  obtain ⟨events, hevents, -, hcalls⟩ := streamed_calls_iff emptyObject weatherMessage
    [firstChunk "\x7b\x7d"] [(firstDoc "\x7b\x7d").toList] _ none hstreams
    (.cons ⟨by decide +kernel, by decide +kernel, by decide +kernel, by decide +kernel⟩ .nil)
    (cutsBetweenChars_of_texts emptyObject [(streamBody [(firstDoc "\x7b\x7d").toList]).toList] (by simp))
  refine ⟨events, hevents, hcalls.mpr (.cons ⟨rfl, rfl, by decide, by decide⟩ .nil)⟩

/-- Arguments that come in two deltas are lost. -/
theorem split_arguments_lost :
    Streams weatherMessage [firstChunk "\x7b", nextChunk "\x7d"] ∧
    List.Forall₂ (Document emptyObject) [(firstDoc "\x7b").toList, (nextDoc "\x7d").toList]
      [firstChunk "\x7b", nextChunk "\x7d"] ∧
    SseParser.events emptyObject
        [utf8 (streamBody [(firstDoc "\x7b").toList, (nextDoc "\x7d").toList]).toList] =
      .ok [.toolCall "call_1" "get_weather" "null", .completed] ∧
    responseToEvents emptyObject ⟨[weatherMessage], none⟩ =
      [.started, .toolCall "call_1" "get_weather" "\x7b\x7d", .completed] := by
  have hdocs : List.Forall₂ (Document emptyObject) [(firstDoc "\x7b").toList, (nextDoc "\x7d").toList]
      [firstChunk "\x7b", nextChunk "\x7d"] :=
    .cons ⟨by decide +kernel, by decide +kernel, by decide +kernel, by decide +kernel⟩
      (.cons ⟨by decide +kernel, by decide +kernel, by decide +kernel, by decide +kernel⟩ .nil)
  refine ⟨weatherMessage_streams rfl (by decide) ⟨rfl, rfl, by decide, by decide⟩, hdocs, ?_, ?_⟩
  · refine (events_streamBody emptyObject hdocs ?_).trans (by decide)
    exact cutsBetweenChars_of_texts emptyObject [(streamBody _).toList] (by simp)
  · decide

end Provider
