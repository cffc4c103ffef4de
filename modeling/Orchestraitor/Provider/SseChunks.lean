import Orchestraitor.Provider.Sse

/-!
# Chunk boundaries of a streamed completion

Each chunk is decoded on its own, and `done` is looked at once per chunk.  So the events depend on the
chunks in two ways: a cut inside a character breaks it, and what follows `[DONE]` is read exactly when it
comes in the same chunk.  With cuts between characters, as long as the parser reads on, the first is gone,
and the second is all that is left (`events_same_iff`).
-/

namespace Provider
open Base List

/-! ## blocks -/

theorem blocks_break (l : List Char) : blocks ('\n' :: '\n' :: l) = ([] :: (blocks l).1, (blocks l).2) :=
  rfl

variable {l : List Char}

theorem blocks_cons {c : Char} (h : ¬ (c = '\n' ∧ l.head? = some '\n')) :
    blocks (c :: l) = match blocks l with
      | ([], rest) => ([], c :: rest)
      | (b :: bs, rest) => ((c :: b) :: bs, rest) := by
  refine blocks.eq_3 c l ?_
  rintro l' rfl rfl
  exact h ⟨rfl, rfl⟩

theorem break_or_cons (c : Char) (l : List Char) :
    (∃ l', c :: l = '\n' :: '\n' :: l') ∨ ¬ (c = '\n' ∧ l.head? = some '\n') := by
  by_cases h : c = '\n' ∧ l.head? = some '\n'
  · obtain ⟨rfl, hl⟩ := h
    obtain ⟨l', rfl⟩ := head?_eq_some_iff.mp hl
    exact .inl ⟨l', rfl⟩
  · exact .inr h

theorem rest_of_no_block (h : (blocks l).1 = []) : (blocks l).2 = l := by
  induction l with
  | nil => rfl
  | cons c l ih =>
    obtain ⟨l', hbreak⟩ | hcons := break_or_cons c l
    · rw [hbreak] at h
      cases h
    · rw [blocks_cons hcons] at h ⊢
      rcases hl : blocks l with ⟨bs, rest⟩
      cases bs with
      | nil =>
        rw [hl] at ih
        exact congrArg (c :: ·) (ih rfl)
      | cons =>
        rw [hl] at h
        cases h

theorem blocks_append (l m : List Char) : blocks (l ++ m) =
    ((blocks l).1 ++ (blocks ((blocks l).2 ++ m)).1, (blocks ((blocks l).2 ++ m)).2) := by
  induction hn : l.length using Nat.strong_induction_on generalizing l with
  | _ n ih =>
    subst hn
    cases l with
    | nil => rfl
    | cons c l =>
      by_cases hnone : (blocks (c :: l)).1 = []
      · rw [rest_of_no_block hnone, hnone]
        rfl
      obtain ⟨l', hbreak⟩ | hcons := break_or_cons c l
      · have hnext := ih l'.length (by rw [hbreak]; simp) l' rfl
        rw [hbreak, cons_append, cons_append, blocks_break, hnext]
        rfl
      · have hnext := ih l.length (by simp) l rfl
        rw [blocks_cons hcons] at hnone ⊢
        rcases hl : blocks l with ⟨bs, rest⟩
        rw [hl] at hnone hnext
        cases bs with
        | nil => exact absurd rfl hnone
        | cons =>
          have hhead : ¬ (c = '\n' ∧ (l ++ m).head? = some '\n') := by
            cases l with
            | nil => cases hl
            | cons => exact hcons
          rw [cons_append, blocks_cons hhead, hnext]
          rfl

theorem split_first_block {b rest : List Char} {bs : List (List Char)}
    (h : blocks l = (b :: bs, rest)) :
    ∃ l', l = b ++ '\n' :: '\n' :: l' ∧ blocks (b ++ ['\n', '\n']) = ([b], []) ∧
      blocks l' = (bs, rest) := by
  induction l generalizing b with
  | nil => cases h
  | cons c l ih =>
    obtain ⟨l', hbreak⟩ | hcons := break_or_cons c l
    · rw [hbreak] at h
      obtain ⟨hbs, hrest⟩ := Prod.mk.inj h
      obtain ⟨rfl, htail⟩ := cons.inj hbs
      exact ⟨l', hbreak, rfl, Prod.ext htail hrest⟩
    · rw [blocks_cons hcons] at h
      rcases hl : blocks l with ⟨bs', rest'⟩
      rw [hl] at h
      cases bs' with
      | nil => cases h
      | cons b' =>
        obtain ⟨hbs, hrest⟩ := Prod.mk.inj h
        obtain ⟨rfl, rfl⟩ := cons.inj hbs
        obtain rfl : rest' = rest := hrest
        obtain ⟨l', rfl, hblock, hl'⟩ := ih hl
        refine ⟨l', rfl, ?_, hl'⟩
        have hhead : ¬ (c = '\n' ∧ (b' ++ ['\n', '\n']).head? = some '\n') := by
          cases b' with
          | nil | cons => exact hcons
        rw [cons_append, blocks_cons hhead, hblock]

theorem split_blocks {rest : List Char} {bs bs' : List (List Char)}
    (h : blocks l = (bs ++ bs', rest)) :
    ∃ l1 l2, l = l1 ++ l2 ∧ blocks l1 = (bs, []) ∧ blocks l2 = (bs', rest) := by
  induction bs generalizing l with
  | nil => exact ⟨[], l, rfl, rfl, h⟩
  | cons b _ ih =>
    obtain ⟨l', rfl, hblock, hl'⟩ := split_first_block h
    obtain ⟨l1, l2, rfl, h1, h2⟩ := ih hl'
    refine ⟨b ++ '\n' :: '\n' :: l1, l2, by simp, ?_, h2⟩
    have happend := blocks_append (b ++ ['\n', '\n']) l1
    rw [hblock] at happend
    simp only [append_assoc, nil_append, h1] at happend
    exact happend

section
variable {V : Type} (serde : Serde V)

/-! ## what follows the end of the stream -/

/-- nothing that follows the first `[DONE]` gives an event or an error -/
def QuietAfterDone : List (List Char) → Prop
  | [] => True
  | b :: bs => match parseBlock serde b with
    | .error _ => True
    | .ok (_, true) => ∀ b' ∈ bs, parseBlock serde b' = .ok ([], false)
    | .ok (_, false) => QuietAfterDone bs

theorem parseBlocks_cons (b : List Char) (bs : List (List Char)) : parseBlocks serde (b :: bs) =
    (do
      let (events, done) ← parseBlock serde b
      let (more, done') ← parseBlocks serde bs
      .ok (events ++ more, done || done')) := rfl

theorem parseBlocks_append (bs bs' : List (List Char)) : parseBlocks serde (bs ++ bs') =
    (do
      let (events, done) ← parseBlocks serde bs
      let (more, done') ← parseBlocks serde bs'
      .ok (events ++ more, done || done')) := by
  induction bs with
  | nil =>
    show parseBlocks serde bs' = do
      let (more, done') ← parseBlocks serde bs'
      .ok ([] ++ more, false || done')
    cases parseBlocks serde bs' with
    | error => rfl
    | ok => simp [bind, Except.bind]
  | cons b bs ih =>
    rw [cons_append, parseBlocks_cons, parseBlocks_cons, ih]
    cases parseBlock serde b with
    | error => rfl
    | ok =>
      cases parseBlocks serde bs with
      | error => rfl
      | ok =>
        cases parseBlocks serde bs' with
        | error => rfl
        | ok => simp [bind, Except.bind, Bool.or_assoc]

variable {bs : List (List Char)} {events : List (ModelEvent V)} {text : String}
  {chunks : List (List UInt8)}

theorem parseBlocks_quiet (h : ∀ b ∈ bs, parseBlock serde b = .ok ([], false)) :
    parseBlocks serde bs = .ok ([], false) := by
  induction bs with
  | nil => rfl
  | cons b _ ih =>
    rw [parseBlocks_cons, h b mem_cons_self, ih fun b' hb' => h b' (mem_cons_of_mem b hb')]
    rfl

theorem quietAfterDone_append {bs' : List (List Char)} {done : Bool}
    (h : QuietAfterDone serde (bs ++ bs')) (hbs : parseBlocks serde bs = .ok (events, done)) :
    if done then ∀ b ∈ bs', parseBlock serde b = .ok ([], false) else QuietAfterDone serde bs' := by
  induction bs generalizing events done with
  | nil =>
    obtain ⟨-, rfl⟩ := Prod.mk.inj (Except.ok.inj hbs)
    exact h
  | cons b bs ih =>
    obtain ⟨⟨es, d⟩, hb, hbs⟩ := bind_ok hbs
    obtain ⟨⟨es', d'⟩, hrest, hbs⟩ := bind_ok hbs
    obtain ⟨-, rfl⟩ := Prod.mk.inj (Except.ok.inj hbs)
    rw [cons_append, QuietAfterDone, hb] at h
    cases d with
    | true =>
      exact fun b' hb' => h b' (mem_append_right bs hb')
    | false => exact ih h hrest

theorem parseEvent_done {text : List Char} (h : parseEvent serde text = .ok (events, true)) :
    events = [.completed] := by
  unfold parseEvent at h
  dsimp only at h
  split_ifs at h with hempty hdone
  · cases h
  · exact (Prod.mk.inj (Except.ok.inj h)).1.symm
  · split at h <;> cases h

theorem parseBlock_done {b : List Char} (h : parseBlock serde b = .ok (events, true)) :
    events = [.completed] := by
  unfold parseBlock at h
  split_ifs at h
  · cases h
  · exact parseEvent_done serde h

theorem quiet_of_parseBlocks {done : Bool} (h : parseBlocks serde bs = .ok ([], done)) :
    ∀ b ∈ bs, parseBlock serde b = .ok ([], false) := by
  induction bs generalizing done with
  | nil => exact fun b hb => absurd hb not_mem_nil
  | cons _ _ ih =>
    obtain ⟨⟨es, d⟩, hb, h⟩ := bind_ok h
    obtain ⟨⟨es', d'⟩, hrest, h⟩ := bind_ok h
    obtain ⟨hes, -⟩ := Prod.mk.inj (Except.ok.inj h)
    obtain ⟨rfl, rfl⟩ := append_eq_nil_iff.mp hes
    have hd : d = false := by
      cases d with
      | false => rfl
      | true => cases parseBlock_done serde hb
    subst hd
    intro b' hb'
    obtain rfl | hb' := mem_cons.mp hb'
    · exact hb
    · exact ih hrest b' hb'

/-! ## chunks of whole characters -/

def wholeEvents (l : List Char) : Except ResponseParse (List (ModelEvent V)) := do
  let (events, done) ← parseBlocks serde (blocks l).1
  let more ← SseParser.finish serde { buffer := (blocks l).2, done }
  .ok (events ++ more)

theorem SseParser.feed_text {buffer : List Char} (text : List Char) :
    SseParser.feed serde ⟨buffer, false⟩ (utf8 text) =
      SseParser.drainCompleteEvents serde ⟨buffer ++ text, false⟩ := by
  rw [SseParser.feed, if_neg Bool.false_ne_true, decodeLossy_utf8]

theorem SseParser.eventsFrom_done (buffer : List Char) (chunks : List (List UInt8)) :
    SseParser.eventsFrom serde ⟨buffer, true⟩ chunks = .ok [] := by
  induction chunks with
  | nil => rfl
  | cons _ chunks ih =>
    show (do let more ← SseParser.eventsFrom serde ⟨buffer, true⟩ chunks; .ok ([] ++ more)) = _
    rw [ih]
    rfl

/-- every chunk that is fed before the parser is done consists of whole characters -/
def SseParser.WholeChars (p : SseParser) : List (List UInt8) → Prop
  | [] => True
  | chunk :: chunks => p.done = true ∨ (∃ part, chunk = utf8 part) ∧
      ∀ events p', p.feed serde chunk = .ok (events, p') → p'.WholeChars chunks

theorem SseParser.eventsFrom_whole {buffer l : List Char}
    (h : QuietAfterDone serde (blocks (buffer ++ l)).1) (hbuffer : (blocks buffer).1 = [])
    (hl : chunks.flatten = utf8 l) (hwhole : SseParser.WholeChars serde ⟨buffer, false⟩ chunks) :
    SseParser.eventsFrom serde ⟨buffer, false⟩ chunks = wholeEvents serde (buffer ++ l) := by
  induction chunks generalizing buffer l with
  | nil =>
    obtain rfl : l = [] := by rw [← decodeLossy_utf8 l, ← hl]; rfl
    rw [append_nil, wholeEvents, hbuffer, rest_of_no_block hbuffer]
    show SseParser.finish serde ⟨buffer, false⟩ = do
      let more ← SseParser.finish serde ⟨buffer, false⟩
      .ok ([] ++ more)
    cases SseParser.finish serde ⟨buffer, false⟩ <;> rfl
  | cons chunk chunks ih =>
    obtain hdone | ⟨⟨text, rfl⟩, hnext⟩ := hwhole
    · cases hdone
    obtain ⟨l, rfl, hrest⟩ := utf8_split hl
    have hsplit := blocks_append (buffer ++ text) l
    rw [← append_assoc] at h ⊢
    rw [wholeEvents, hsplit]
    rw [hsplit] at h
    rw [SseParser.feed_text, SseParser.drainCompleteEvents] at hnext
    rw [SseParser.eventsFrom, SseParser.feed_text, SseParser.drainCompleteEvents, parseBlocks_append]
    cases hparse : parseBlocks serde (blocks (buffer ++ text)).1 with
    | error => rfl
    | ok r =>
      obtain ⟨events, done⟩ := r
      rw [hparse] at hnext
      have hquiet := quietAfterDone_append serde h hparse
      cases done with
      | true =>
        -- this chunk ends the stream; in one piece, the rest adds nothing
        have hsilent := parseBlocks_quiet serde hquiet
        simp only [bind, Except.bind, SseParser.eventsFrom_done, hsilent, Bool.or_false, Bool.or_true,
          SseParser.finish, if_true, append_nil]
      | false =>
        have hnone : (blocks (blocks (buffer ++ text)).2).1 = [] := by
          have hself := blocks_append (buffer ++ text) []
          rw [append_nil, append_nil] at hself
          exact self_eq_append_right.mp (congrArg Prod.fst hself)
        have hmore := ih hquiet hnone hrest (hnext _ _ rfl)
        simp only [bind, Except.bind, Bool.false_or]
        rw [hmore, wholeEvents]
        simp only [bind, Except.bind]
        cases parseBlocks serde (blocks ((blocks (buffer ++ text)).2 ++ l)).1 with
        | error => rfl
        | ok r =>
          dsimp only
          cases SseParser.finish serde ⟨_, r.2⟩ with
          | error => rfl
          | ok => simp

/-- a way to cut the bytes of a text between its characters, as far as the parser reads them -/
def CutsBetweenChars (text : String) (chunks : List (List UInt8)) : Prop :=
  chunks.flatten = utf8 text.toList ∧ SseParser.WholeChars serde .new chunks

theorem events_of_quiet (hcut : CutsBetweenChars serde text chunks)
    (h : QuietAfterDone serde (blocks text.toList).1) :
    SseParser.events serde chunks = wholeEvents serde text.toList :=
  SseParser.eventsFrom_whole serde h rfl hcut.1 hcut.2

theorem SseParser.wholeChars_texts (texts : List (List Char)) (p : SseParser) :
    SseParser.WholeChars serde p (texts.map utf8) := by
  induction texts generalizing p with
  | nil => trivial
  | cons text _ ih => exact .inr ⟨⟨text, rfl⟩, fun _ p' _ => ih p'⟩

theorem cutsBetweenChars_of_texts (texts : List (List Char)) (h : texts.flatten = text.toList) :
    CutsBetweenChars serde text (texts.map utf8) := by
  refine ⟨?_, SseParser.wholeChars_texts serde texts _⟩
  rw [← h]
  clear h
  induction texts with
  | nil => rfl
  | cons _ _ ih => rw [map_cons, flatten_cons, ih, flatten_cons, utf8, utf8, utf8, flatMap_append]

theorem exists_done_of_not_quiet (h : ¬ QuietAfterDone serde bs) :
    ∃ before last after events, bs = before ++ last :: after ∧
      parseBlocks serde (before ++ [last]) = .ok (events, true) ∧
      ¬ ∀ b ∈ after, parseBlock serde b = .ok ([], false) := by
  induction bs with
  | nil => exact absurd trivial h
  | cons b bs ih =>
    rw [QuietAfterDone] at h
    cases hb : parseBlock serde b with
    | error =>
      rw [hb] at h
      exact absurd trivial h
    | ok r =>
      obtain ⟨es, done⟩ := r
      rw [hb] at h
      cases done with
      | true =>
        refine ⟨[], b, bs, es ++ [], rfl, ?_, h⟩
        rw [nil_append, parseBlocks_cons, hb]
        rfl
      | false =>
        obtain ⟨before, last, after, events, rfl, hparse, hafter⟩ := ih h
        refine ⟨b :: before, last, after, es ++ events, rfl, ?_, hafter⟩
        rw [cons_append, parseBlocks_cons, hb, hparse]
        rfl

theorem quiet_of_events_same
    (h : ∀ chunks chunks', CutsBetweenChars serde text chunks → CutsBetweenChars serde text chunks' →
      SseParser.events serde chunks = SseParser.events serde chunks') :
    QuietAfterDone serde (blocks text.toList).1 := by
  by_contra hnot
  obtain ⟨before, last, after, events, hbs, hparse, hafter⟩ := exists_done_of_not_quiet serde hnot
  have hblocks : blocks text.toList = ((before ++ [last]) ++ after, (blocks text.toList).2) := by
    rw [append_assoc]
    exact Prod.ext hbs rfl
  obtain ⟨l1, l2, htext, h1, -⟩ := split_blocks hblocks
  -- one chunk, or a cut right after the end of the stream
  have hsame := h ([text.toList].map utf8) ([l1, l2].map utf8)
    (cutsBetweenChars_of_texts serde _ (by simp)) (cutsBetweenChars_of_texts serde _ (by simp [htext]))
  have hcut : SseParser.events serde ([l1, l2].map utf8) = .ok events := by
    rw [SseParser.events, SseParser.new, map_cons, SseParser.eventsFrom, SseParser.feed_text,
      SseParser.drainCompleteEvents, nil_append, h1, hparse]
    show (do let more ← SseParser.eventsFrom serde ⟨[], true⟩ ([l2].map utf8); .ok (events ++ more)) = _
    rw [SseParser.eventsFrom_done]
    simp [bind, Except.bind]
  rw [hcut, SseParser.events, SseParser.new, map_cons, SseParser.eventsFrom, SseParser.feed_text,
    SseParser.drainCompleteEvents, nil_append, hblocks, parseBlocks_append, hparse] at hsame
  refine hafter ?_
  obtain ⟨⟨es, p⟩, hfeed, hsame⟩ := bind_ok hsame
  obtain ⟨⟨es', done⟩, hall, hfeed⟩ := bind_ok hfeed
  obtain ⟨rfl, -⟩ := Prod.mk.inj (Except.ok.inj hfeed)
  obtain ⟨⟨first, _⟩, hfirst, hall⟩ := bind_ok hall
  obtain ⟨rfl, -⟩ := Prod.mk.inj (Except.ok.inj hfirst)
  obtain ⟨⟨more, done'⟩, hmore, hall⟩ := bind_ok hall
  obtain ⟨rfl, -⟩ := Prod.mk.inj (Except.ok.inj hall)
  obtain ⟨rest, -, hsame⟩ := bind_ok hsame
  have hlength := congrArg length (Except.ok.inj hsame)
  simp only [length_append] at hlength
  obtain rfl : more = [] := length_eq_zero_iff.mp (by omega)
  exact quiet_of_parseBlocks serde hmore

/-- Cut between its characters, as far as the parser reads them, a text gives the same events however it is
cut, exactly when nothing follows its `[DONE]`. -/
theorem events_same_iff (text : String) :
    (∀ chunks chunks', CutsBetweenChars serde text chunks → CutsBetweenChars serde text chunks' →
      SseParser.events serde chunks = SseParser.events serde chunks') ↔
    QuietAfterDone serde (blocks text.toList).1 := by
  constructor
  · exact quiet_of_events_same serde
  · intro hquiet _ _ hcut hcut'
    rw [events_of_quiet serde hcut hquiet, events_of_quiet serde hcut' hquiet]

end

def contentDoc (content : String) : String :=
  "\x7b\"choices\":[\x7b\"delta\":\x7b\"content\":\"" ++ content ++ "\"\x7d\x7d]\x7d"

def twoDocs : Serde Unit where
  null := ()
  value _ := none
  chunk text :=
    if text = contentDoc "é" then .ok ⟨[⟨⟨some "é", []⟩⟩], none⟩
    else if text = contentDoc "��" then .ok ⟨[⟨⟨some "��", []⟩⟩], none⟩
    else .error "expected value"

/-- A cut inside a character changes the text, and a cut after `[DONE]` hides what follows it. -/
theorem chunk_boundaries_matter :
    (∃ chunk chunk', chunk ++ chunk' = utf8 ("data: " ++ contentDoc "é" ++ "\n\n").toList ∧
      SseParser.events twoDocs [chunk ++ chunk'] = .ok [.textDelta "é"] ∧
      SseParser.events twoDocs [chunk, chunk'] = .ok [.textDelta "��"]) ∧
    SseParser.events twoDocs [utf8 "data: [DONE]\n\ndata: x\n\n".toList] = .error ⟨"expected value"⟩ ∧
    SseParser.events twoDocs [utf8 "data: [DONE]\n\n".toList, utf8 "data: x\n\n".toList] =
      .ok [.completed] := by
  refine ⟨⟨(utf8 ("data: " ++ contentDoc "é" ++ "\n\n").toList).take 40,
    (utf8 ("data: " ++ contentDoc "é" ++ "\n\n").toList).drop 40, take_append_drop _ _, ?_, ?_⟩, ?_, ?_⟩
  all_goals decide +kernel

end Provider
