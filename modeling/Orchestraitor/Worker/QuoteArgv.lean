import Orchestraitor.Base.Shell
import Orchestraitor.Worker.Tools

/-!
# The script of a declared command

`quote_argv` puts each argument between single quotes.  Read back by the rules of the shell, the script is
one simple command whose words are `exec` and the arguments.
-/

namespace Worker
open Base List

def quoteChars (arg : List Char) : List Char :=
  arg.flatMap fun c => if c = '\'' then ['\'', '\\', '\'', '\''] else [c]

def quotedArg (arg : String) : List Char := ' ' :: '\'' :: (quoteChars arg.toList ++ ['\''])

theorem quoteArgv_toList (argv : List String) :
    (quoteArgv argv).toList = "exec".toList ++ argv.flatMap quotedArg := by
  have hfold : ∀ line : String, (argv.foldl (fun line arg => line ++ " '" ++
      String.join (arg.toList.map fun c => if c = '\'' then "'\\''" else c.toString) ++ "'") line).toList =
      line.toList ++ argv.flatMap quotedArg := by
    induction argv with
    | nil => simp
    | cons arg _ ih =>
      intro _
      have hchars : (String.join (arg.toList.map fun c =>
          if c = '\'' then "'\\''" else c.toString)).toList = quoteChars arg.toList := by
        rw [String.toList_join, flatMap_map]
        refine flatMap_congr fun c _ => ?_
        split_ifs <;> simp
      rw [foldl_cons, ih]
      simp only [String.toList_append, hchars, flatMap_cons, quotedArg]
      simp
  exact hfold "exec"

/-! ## reading it back -/

section
open Shell

theorem run_quoteChars (tokens : List Token) (w : Word) (arg : List Char) (harg : '\x00' ∉ arg) :
    run ⟨tokens, some w, .single⟩ (quoteChars arg) =
      some ⟨tokens, some (w ++ arg.map .quoted), .single⟩ := by
  induction arg generalizing w with
  | nil => simp [quoteChars, run]
  | cons c _ ih =>
    obtain ⟨hc, harg⟩ := not_or.mp fun h => harg (mem_cons.mpr h)
    have hnext := ih (w ++ [.quoted c]) harg
    rw [append_assoc] at hnext
    rw [quoteChars, flatMap_cons, ← quoteChars]
    split_ifs with hquote
    · -- the quote ends the segment, is escaped, and opens the next one
      subst hquote
      rw [cons_append, cons_append, cons_append, cons_append, nil_append,
        run_cons (by decide), run_cons (by decide), run_cons (by decide), run_cons (by decide)]
      have hsteps : modeStep (modeStep (modeStep (modeStep ⟨tokens, some w, .single⟩ '\'') '\\') '\'') '\''
          = ⟨tokens, some (w ++ [.quoted '\'']), .single⟩ := by
        simp [modeStep, bareStep, State.add]
      rw [hsteps, hnext]
      rfl
    · rw [singleton_append, run_cons fun h => hc h.symm]
      have hstep : modeStep ⟨tokens, some w, .single⟩ c = ⟨tokens, some (w ++ [.quoted c]), .single⟩ := by
        simp [modeStep, State.add, hquote]
      rw [hstep, hnext]
      rfl

theorem run_quotedArg (tokens : List Token) (w : Word) (arg : String) (harg : '\x00' ∉ arg.toList) :
    run ⟨tokens, some w, .bare⟩ (quotedArg arg) =
      some ⟨tokens ++ [.word w], some (arg.toList.map .quoted), .bare⟩ := by
  rw [quotedArg, run_cons (by decide), run_cons (by decide), run_append]
  have hopen : modeStep (modeStep ⟨tokens, some w, .bare⟩ ' ') '\'' =
      ⟨tokens ++ [.word w], some [], .single⟩ := by
    have hspace : modeStep ⟨tokens, some w, .bare⟩ ' ' = ⟨tokens ++ [.word w], none, .bare⟩ := by
      have hop : [' '] ∉ operators := by decide +kernel
      simp [modeStep, bareStep, hop, Shell.isBlank, State.delimit]
    rw [hspace]
    rfl
  rw [hopen, run_quoteChars _ _ _ harg, Option.bind_some, run_cons (by decide)]
  rfl

theorem run_quotedArgs (argv : List String) (hargv : ∀ arg ∈ argv, '\x00' ∉ arg.toList)
    (tokens : List Token) (w : Word) :
    ((run ⟨tokens, some w, .bare⟩ (argv.flatMap quotedArg)).bind finish) =
      some (tokens ++ .word w :: argv.map fun arg => .word (arg.toList.map .quoted)) := by
  induction argv generalizing tokens w with
  | nil => simp [run, finish, State.delimit]
  | cons arg _ ih =>
    have harg := hargv arg mem_cons_self
    have hrest := ih (fun a ha => hargv a (mem_cons_of_mem arg ha)) (tokens ++ [.word w])
      (arg.toList.map .quoted)
    rw [flatMap_cons, run_append, run_quotedArg tokens w arg harg, Option.bind_some, hrest]
    simp

theorem tokens_quoteArgv (argv : List String) (hargv : ∀ arg ∈ argv, '\x00' ∉ arg.toList) :
    tokens (quoteArgv argv) = some (.word ("exec".toList.map .bare) ::
      argv.map fun arg => .word (arg.toList.map .quoted)) := by
  have hexec : run start "exec".toList = some ⟨[], some ("exec".toList.map .bare), .bare⟩ := by
    decide +kernel
  rw [tokens, quoteArgv_toList, run_append, hexec, Option.bind_some, run_quotedArgs argv hargv]
  rfl

end

/-- The script of a declared command is one simple command of the shell, with the words `exec` and the
arguments and with nothing expanded; so two argument lists with one script are equal. -/
theorem quoted_script_is_argv (argv : List String) (hargv : ∀ arg ∈ argv, '\x00' ∉ arg.toList) :
    Shell.command (quoteArgv argv) = some ("exec" :: argv) ∧
      ∀ argv', (∀ arg ∈ argv', '\x00' ∉ arg.toList) → quoteArgv argv' = quoteArgv argv → argv' = argv := by
  have hcommand : ∀ argv, (∀ arg ∈ argv, '\x00' ∉ arg.toList) →
      Shell.command (quoteArgv argv) = some ("exec" :: argv) := by
    intro argv hargv
    have hsimple : Shell.simpleCommand (.word ("exec".toList.map .bare) ::
        argv.map fun arg => .word (arg.toList.map .quoted)) =
        some ("exec".toList.map .bare :: argv.map fun arg => arg.toList.map .quoted) := by
      have h := Shell.simpleCommand_words (w := "exec".toList.map .bare)
        (argv.map fun arg => arg.toList.map .quoted) (by decide +kernel) (by decide +kernel)
      rwa [map_map] at h
    have hplain : Shell.plainWord ("exec".toList.map .bare) = some "exec" := by decide +kernel
    rw [Shell.command, tokens_quoteArgv argv hargv, Option.bind_some, hsimple, Option.bind_some,
      mapM_cons, hplain, Shell.mapM_of_inverse Shell.plainWord_quoted]
    rfl
  refine ⟨hcommand argv hargv, fun argv' hargv' heq => ?_⟩
  have hsame := hcommand argv' hargv'
  rw [heq, hcommand argv hargv] at hsame
  exact (cons.inj (Option.some.inj hsame)).2.symm

theorem quoted_script_is_argv_injection :
    Shell.command (quoteArgv ["printf", "", "it's; $(id)\n'", "\\"]) =
      some ["exec", "printf", "", "it's; $(id)\n'", "\\"] :=
  (quoted_script_is_argv _ (by decide +kernel)).1

end Worker
