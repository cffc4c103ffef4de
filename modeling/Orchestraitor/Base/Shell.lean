import Orchestraitor.Base.Prim

/-!
# Tokens and quoting of the POSIX shell

The token recognition of the shell command language, character by character, with the quoting rules: how a
script falls into words and operators, and which characters of a word are quoted.  An expansion is found
with its end but not performed.

* `Shell.simpleCommand`          the tokens of one simple command: words only, no redirection, no assignment;
* `Shell.plainWord`              the field of a word in which nothing is expanded, after quote removal;
* `Shell.command`                a script that is one simple command of plain words.
-/

namespace Base.Shell

inductive Piece where
  | bare (c : Char)
  | quoted (c : Char)
  /-- a parameter expansion, command substitution or arithmetic expansion -/
  | expansion (text : List Char) (inDouble : Bool)
  deriving DecidableEq

abbrev Word := List Piece

inductive Token where
  | word (w : Word)
  | ioNumber (w : Word)
  | operator (op : List Char)
  deriving DecidableEq

inductive Frame where
  | brace | paren | backquote | single | double | dollar | escape
  deriving DecidableEq

inductive Mode where
  | bare
  | escape
  | single
  | double
  | doubleEscape
  | dollar (inDouble : Bool)
  | name (text : List Char) (inDouble : Bool)
  | expansion (frames : List Frame) (text : List Char) (inDouble : Bool)
  | operator (op : List Char)
  | comment
  deriving DecidableEq

structure State where
  tokens : List Token
  /-- the word that is being read; `''` begins one without a character -/
  word : Option Word
  mode : Mode
  deriving DecidableEq

def operators : List (List Char) :=
  ["&", "&&", "|", "||", ";", ";;", "<", "<<", "<<-", "<&", "<>", ">", ">>", ">&", ">|", "(", ")",
    "\n"].map String.toList

def isBlank (c : Char) : Bool := c == ' ' || c == '\t'

def isNameStart (c : Char) : Bool := c.isAlpha || c == '_'

def isSpecialParameter (c : Char) : Bool := c.isDigit || "@*#?-$!".toList.contains c

/-! ## inside an expansion -/

def Frame.step (f : Frame) (frames : List Frame) (c : Char) : List Frame :=
  match f with
  | .escape => frames
  | .single => if c = '\'' then frames else f :: frames
  | .dollar | .brace | .paren | .backquote | .double =>
    if c = '\\' then .escape :: f :: frames
    else if f = .double ∧ c = '"' ∨ f = .brace ∧ c = '}' ∨ f = .paren ∧ c = ')' ∨
        f = .backquote ∧ c = '`' then frames
    else if c = '\'' ∧ f ≠ .double then .single :: f :: frames
    else if c = '"' then .double :: f :: frames
    else if c = '`' then .backquote :: f :: frames
    else if c = '$' then .dollar :: f :: frames
    else if c = '(' ∧ f = .paren then .paren :: f :: frames
    else f :: frames

def frameStep : List Frame → Char → List Frame
  | .dollar :: f :: frames, c =>
    if c = '{' then .brace :: f :: frames
    else if c = '(' then .paren :: f :: frames
    else f.step frames c
  | f :: frames, c => f.step frames c
  | [], _ => []

/-! ## one character -/

variable (s : State)

def State.add (ps : List Piece) : State := { s with word := some (s.word.getD [] ++ ps) }

def outside (inDouble : Bool) : Mode := if inDouble then .double else .bare

def isDigits (w : Word) : Bool := !w.isEmpty && w.all fun p => match p with
  | .bare c => c.isDigit
  | _ => false

def State.delimit (next : Option Char) : State :=
  match s.word with
  | none => s
  | some w =>
    let token := if isDigits w ∧ (next = some '<' ∨ next = some '>') then .ioNumber w else .word w
    { s with tokens := s.tokens ++ [token], word := none }

def bareStep (c : Char) : State :=
  if c = '\'' then { s.add [] with mode := .single }
  else if c = '"' then { s.add [] with mode := .double }
  else if c = '\\' then { s with mode := .escape }
  else if c = '$' then { s with mode := .dollar false }
  else if c = '`' then { s with mode := .expansion [.backquote] [c] false }
  else if [c] ∈ operators then { s.delimit (some c) with mode := .operator [c] }
  else if isBlank c then { s.delimit (some c) with mode := .bare }
  else if c = '#' ∧ s.word = none then { s with mode := .comment }
  else { s.add [.bare c] with mode := .bare }

def doubleStep (c : Char) : State :=
  if c = '"' then { s with mode := .bare }
  else if c = '\\' then { s with mode := .doubleEscape }
  else if c = '$' then { s with mode := .dollar true }
  else if c = '`' then { s with mode := .expansion [.backquote] [c] true }
  else { s.add [.quoted c] with mode := .double }

def resume (inDouble : Bool) (s : State) (c : Char) : State :=
  if inDouble then doubleStep s c else bareStep s c

def modeStep (c : Char) : State :=
  match s.mode with
  | .bare => bareStep s c
  | .escape =>
    -- a line continuation is no character of the word
    if c = '\n' then { s with mode := .bare } else { s.add [.quoted c] with mode := .bare }
  | .single => if c = '\'' then { s with mode := .bare } else s.add [.quoted c]
  | .double => doubleStep s c
  | .doubleEscape =>
    if c = '\n' then { s with mode := .double }
    else if "$`\"\\".toList.contains c then { s.add [.quoted c] with mode := .double }
    else { s.add [.quoted '\\', .quoted c] with mode := .double }
  | .dollar inDouble =>
    if c = '{' then { s with mode := .expansion [.brace] ['$', c] inDouble }
    else if c = '(' then { s with mode := .expansion [.paren] ['$', c] inDouble }
    else if isNameStart c then { s with mode := .name ['$', c] inDouble }
    else if isSpecialParameter c then
      { s.add [.expansion ['$', c] inDouble] with mode := outside inDouble }
    else resume inDouble (s.add [if inDouble then .quoted '$' else .bare '$']) c
  | .name text inDouble =>
    if isNameStart c || c.isDigit then { s with mode := .name (text ++ [c]) inDouble }
    else resume inDouble (s.add [.expansion text inDouble]) c
  | .expansion frames text inDouble =>
    match frameStep frames c with
    | [] => { s.add [.expansion (text ++ [c]) inDouble] with mode := outside inDouble }
    | frames => { s with mode := .expansion frames (text ++ [c]) inDouble }
  | .operator op =>
    if op ++ [c] ∈ operators then { s with mode := .operator (op ++ [c]) }
    else bareStep { s with tokens := s.tokens ++ [.operator op] } c
  | .comment => if c = '\n' then bareStep s c else s

/-- no script holds a NUL -/
def step (c : Char) : Option State := if c = '\x00' then none else some (modeStep s c)

def start : State := { tokens := [], word := none, mode := .bare }

def finish : Option (List Token) :=
  match s.mode with
  | .bare | .comment => some (s.delimit none).tokens
  | .operator op => some (s.tokens ++ [.operator op])
  | .dollar false => some ((s.add [.bare '$']).delimit none).tokens
  | .name text false => some ((s.add [.expansion text false]).delimit none).tokens
  | _ => none

def run (script : List Char) : Option State := script.foldlM step s

def tokens (script : String) : Option (List Token) := (run start script.toList).bind finish

/-! ## a simple command -/

def reservedWords : List String :=
  ["!", "\x7b", "\x7d", "case", "do", "done", "elif", "else", "esac", "fi", "for", "if", "in", "then",
    "until", "while"]

def isAssignment (w : Word) : Bool :=
  let name := w.takeWhile fun p => match p with
    | .bare c => isNameStart c || c.isDigit
    | _ => false
  match name.head? with
  | some (.bare c) => isNameStart c && (w.drop name.length).head? == some (.bare '=')
  | _ => false

def wordOf : Token → Option Word
  | .word w => some w
  | _ => none

def simpleCommand (ts : List Token) : Option (List Word) :=
  match ts.mapM wordOf with
  | some (w :: ws) =>
    if isAssignment w ∨ ∃ r ∈ reservedWords, w = r.toList.map Piece.bare then none else some (w :: ws)
  | _ => none

def plainPiece : Piece → Option Char
  | .bare c => if "*?[".toList.contains c then none else some c
  | .quoted c => some c
  | .expansion _ _ => none

def plainWord (w : Word) : Option String :=
  if w.head? = some (.bare '~') then none else (w.mapM plainPiece).map String.ofList

def command (script : String) : Option (List String) :=
  (tokens script).bind fun ts => (simpleCommand ts).bind fun ws => ws.mapM plainWord

example : command "echo 'a b' \"c\"\\d # end" = some ["echo", "a b", "cd"] := by decide +kernel
example : command "echo $(id)" = none ∧ command "echo a; id" = none := by decide +kernel

/-! ## rules -/

theorem run_append (l m : List Char) : run s (l ++ m) = (run s l).bind (run · m) := by
  rw [run, List.foldlM_append]
  rfl

theorem run_cons {s : State} {c : Char} (hc : c ≠ '\x00') (l : List Char) :
    run s (c :: l) = run (modeStep s c) l := by
  rw [run, List.foldlM_cons, step, if_neg hc]
  rfl

theorem mapM_of_inverse {α β : Type} {f : β → Option α} {g : α → β} (h : ∀ a, f (g a) = some a)
    (l : List α) : (l.map g).mapM f = some l := by
  induction l with
  | nil => rfl
  | cons a l ih =>
    rw [List.map_cons, List.mapM_cons, h, ih]
    rfl

theorem simpleCommand_words {w : Word} (ws : List Word) (hassign : isAssignment w = false)
    (hreserved : ∀ r ∈ reservedWords, w ≠ r.toList.map .bare) :
    simpleCommand (.word w :: ws.map .word) = some (w :: ws) := by
  have hwords : (Token.word w :: ws.map .word).mapM wordOf = some (w :: ws) :=
    mapM_of_inverse (f := wordOf) (fun _ => rfl) (w :: ws)
  simp only [simpleCommand, hwords, hassign]
  rw [if_neg]
  rintro (h | ⟨r, hr, heq⟩)
  · cases h
  · exact hreserved r hr heq

theorem plainWord_quoted (text : String) : plainWord (text.toList.map .quoted) = some text := by
  have hhead : (text.toList.map Piece.quoted).head? ≠ some (.bare '~') := by
    cases text.toList <;> simp
  rw [plainWord, mapM_of_inverse (f := plainPiece) fun _ => rfl]
  simp

end Base.Shell
