import Unpeel.Resume.CommandTokens

/-! # Rewriting a launch command

Tokens are the words of a shell where backslashes escape neither quotes nor white space and where
blanks alone stand between words. Then a command that is rewritten keeps its other words.
-/
namespace Unpeel.Resume
open Manifest Splitters ShellWords
variable {command : Text} {s : ShellState}

def tokenizer : Splitter (Option Char) Char where
  start := none
  step quote c :=
    match quote with
    | some q => if c = q then none else some q
    | none => if c = singleQuote ∨ c = doubleQuote then some c else none
  ends quote c := quote = none && isWhitespace c

theorem tokenizeFrom_eq (current : Text) (quote : Option Char) (text : Text) : tokenizeFrom current quote text =
    ((tokenizer.splitFrom quote current text).map Prod.fst).filter fun piece => !piece.isEmpty := by
  induction text generalizing current quote with
  | nil =>
    cases current <;> rfl
  | cons c text ih =>
    cases quote with
    | some q =>
      exact ih _ _
    | none =>
      rw [tokenizeFrom, Splitter.splitFrom]
      by_cases hquote : c = singleQuote ∨ c = doubleQuote
      · have hends : ¬tokenizer.ends none c = true := by
          rcases hquote with rfl | rfl <;> decide
        have hstep : tokenizer.step none c = some c := if_pos hquote
        rw [if_pos hquote, if_neg hends, hstep]
        exact ih _ _
      · have hstep : tokenizer.step none c = none := if_neg hquote
        rw [if_neg hquote, hstep]
        by_cases hspace : isWhitespace c = true
        · have hends : tokenizer.ends none c = true := by simpa [tokenizer] using hspace
          rw [if_pos hspace, if_pos hends, ih, List.map_cons, List.filter_cons]
          cases current <;> rfl
        · have hends : ¬tokenizer.ends none c = true := by simpa [tokenizer] using hspace
          rw [if_neg hspace, if_neg hends]
          exact ih _ _

theorem tokenize_eq (command : Text) : tokenize command = tokenizer.pieces command := tokenizeFrom_eq [] none command

theorem tokenize_join {tokens : List Text} (h : tokens.Sublist (tokenize command)) : tokenize (join tokens) = tokens := by
  rw [tokenize_eq] at h ⊢
  have hends : ∀ quote c, tokenizer.ends quote c = true → tokenizer.ends quote ' ' = true := by
    intro quote c hend
    simp only [tokenizer, Bool.and_eq_true] at hend ⊢
    exact ⟨hend.1,by decide⟩
  exact (Splitter.split_rejoins ((Splitter.rejoins_pieces hends command).sublist h)).1

/-! ### Ordinary commands -/

/-- A backslash escapes neither a quote nor white space, and only blanks are white space outside of quotes. Between double
quotes only an escaped double quote is left out. -/
def OrdinaryChar (s : ShellState) (c : Char) : Prop :=
  match s.quoting, s.escaped with
  | .plain, true => c ≠ singleQuote ∧ c ≠ doubleQuote ∧ isWhitespace c = false
  | .plain, false => isWhitespace c = true → c = ' ' ∨ c = '\t'
  | .double, true => c ≠ doubleQuote
  | _, _ => True

instance : ∀ (s : ShellState) (c : Char), Decidable (OrdinaryChar s c)
  | ⟨.plain,true,_⟩, c => inferInstanceAs (Decidable (c ≠ singleQuote ∧ c ≠ doubleQuote ∧ isWhitespace c = false))
  | ⟨.plain,false,_⟩, c => inferInstanceAs (Decidable (isWhitespace c = true → c = ' ' ∨ c = '\t'))
  | ⟨.double,true,_⟩, c => inferInstanceAs (Decidable (c ≠ doubleQuote))
  | ⟨.double,false,_⟩, _ => isTrue trivial
  | ⟨.single,_,_⟩, _ => isTrue trivial

def Ordinary (command : Text) : Prop := shell.Along OrdinaryChar shell.start command

instance (command : Text) : Decidable (Ordinary command) := Splitter.decidableAlong _ _

def quoteOf : Quoting → Option Char
  | .plain => none
  | .single => some singleQuote
  | .double => some doubleQuote

/-- On ordinary characters the tokens' quotes are those of a shell. -/
theorem step_agrees {c : Char} (h : OrdinaryChar s c) :
    shell.ends s c = tokenizer.ends (quoteOf s.quoting) c ∧
      (shell.ends s c = false → quoteOf (s.step c).quoting = tokenizer.step (quoteOf s.quoting) c) := by
  obtain ⟨quoting,escaped,value⟩ := s
  cases quoting with
  | plain =>
    cases escaped with
    | false =>
      have hends : shell.ends ⟨.plain,false,value⟩ c = isWhitespace c := by
        cases hspace : isWhitespace c with
        | true =>
          rcases h hspace with rfl | rfl <;> rfl
        | false =>
          have hne : c ≠ ' ' ∧ c ≠ '\t' ∧ c ≠ '\n' := by
            refine ⟨?_,?_,?_⟩ <;> rintro rfl <;> revert hspace <;> decide
          simp [shell, ShellState.ends, hne]
      refine ⟨hends,fun _ => ?_⟩
      by_cases hbackslash : c = backslash
      · subst hbackslash
        rfl
      by_cases hsingle : c = singleQuote
      · subst hsingle
        rfl
      by_cases hdouble : c = doubleQuote
      · subst hdouble
        rfl
      simp [ShellState.step, tokenizer, quoteOf, hbackslash, hsingle, hdouble]
    | true =>
      obtain ⟨hsingle,hdouble,hspace⟩ := h
      refine ⟨?_,fun _ => ?_⟩
      · simp [shell, ShellState.ends, tokenizer, quoteOf, hspace]
      · simp [ShellState.step, tokenizer, quoteOf, hsingle, hdouble]
  | single =>
    refine ⟨rfl,fun _ => ?_⟩
    by_cases hquote : c = singleQuote
    · simp [ShellState.step, tokenizer, quoteOf, hquote]
    · simp [ShellState.step, tokenizer, quoteOf, hquote]
  | double =>
    refine ⟨rfl,fun _ => ?_⟩
    cases escaped with
    | false =>
      by_cases hquote : c = doubleQuote
      · simp [ShellState.step, tokenizer, quoteOf, hquote]
      · by_cases hbackslash : c = backslash
        · subst hbackslash
          rfl
        · simp [ShellState.step, tokenizer, quoteOf, hquote, hbackslash]
    | true =>
      have hquote : c ≠ doubleQuote := h
      simp [ShellState.step, tokenizer, quoteOf, hquote]

theorem not_ends_newline (h : OrdinaryChar s '\n') : shell.ends s '\n' = false := by
  obtain ⟨quoting,escaped,value⟩ := s
  cases quoting with
  | plain =>
    cases escaped with
    | false => exact absurd (h (by decide)) (by decide)
    | true => rfl
  | single | double => rfl

theorem pieces_of_ordinary (h : Ordinary command) : shell.pieces command = tokenize command := by
  rw [tokenize_eq, Splitter.pieces, Splitter.pieces, Splitter.split_eq (M := tokenizer) (R := fun s quote => quoteOf s.quoting = quote) rfl ?_ h]
  rintro s _ c rfl hc
  exact step_agrees hc

def Begun (s : ShellState) (piece : Text) : Prop :=
  shell.Grown s piece ∧ (s.quoting ≠ .plain → s.value.isSome = true) ∧ (piece ≠ [] → s.word.isSome = true)

theorem value_step {c : Char} (hvalue : s.quoting ≠ .plain → s.value.isSome = true) (hc : OrdinaryChar s c) :
    ((s.step c).quoting ≠ .plain → (s.step c).value.isSome = true) ∧ (s.step c).word.isSome = true := by
  obtain ⟨quoting,escaped,value⟩ := s
  cases quoting with
  | plain =>
    cases escaped with
    | false =>
      simp only [ShellState.step]
      split_ifs <;> simp [ShellState.word, ShellState.push]
    | true =>
      have hnewline : c ≠ '\n' := by
        rintro rfl
        exact absurd hc.2.2 (by decide)
      simp [ShellState.step, ShellState.word, ShellState.push, hnewline]
  | single =>
    have hsome : value.isSome = true := hvalue (by simp)
    simp only [ShellState.step]
    split_ifs <;> simp [ShellState.word, ShellState.push, hsome]
  | double =>
    have hsome : value.isSome = true := hvalue (by simp)
    cases escaped with
    | false | true =>
      simp only [ShellState.step]
      split_ifs <;> simp [ShellState.word, ShellState.push, hsome]

theorem begun_step {piece : Text} {c : Char} (h : Begun s piece) (hc : OrdinaryChar s c) (hend : shell.ends s c = false) :
    Begun (s.step c) (piece ++ [c]) := by
  obtain ⟨hnext,hword⟩ := value_step h.2.1 hc
  exact ⟨h.1.concat hend,hnext,fun _ => hword⟩

/-! ### The words -/

def wordOf (token : Text) : Text × Text := (token,(valueOf token).getD [])

def asWord (word : Text × Text) : Lexeme := .word word.1 word.2

theorem lexemes_of_words {entries : List (Text × Option Char)}
    (h : ∀ entry ∈ entries, entry.2 ≠ some '\n' ∧ (entry.1 ≠ [] → (valueOf entry.1).isSome = true)) :
    entries.flatMap pieceLexemes = (((entries.map Prod.fst).filter fun piece => !piece.isEmpty).map wordOf).map asWord := by
  induction entries with
  | nil => rfl
  | cons entry entries ih =>
    obtain ⟨⟨hend,hword⟩,hrest⟩ := List.forall_mem_cons.mp h
    obtain ⟨piece,stop⟩ := entry
    rw [List.flatMap_cons, ih hrest, List.map_cons, List.filter_cons, pieceLexemes, if_neg hend]
    cases piece with
    | nil => rfl
    | cons c piece =>
      obtain ⟨value,hvalue⟩ := Option.isSome_iff_exists.mp (hword (by simp))
      simp [hvalue, wordOf, asWord]

/-- The tokens of an ordinary command are its words. -/
theorem words_of_ordinary (h : Ordinary command) :
    lexemes command = ((tokenize command).map wordOf).map asWord ∧ ∀ token ∈ tokenize command, (valueOf token).isSome = true := by
  have hstart : Begun shell.start [] := ⟨Splitter.Grown.nil,fun hne => absurd rfl hne,fun hne => absurd rfl hne⟩
  have hentries := Splitter.forall_splitFrom (J := Begun) hstart (fun s piece c hs hc hend => begun_step hs hc hend) hstart h
  have hwords : ∀ entry ∈ shell.split command, entry.2 ≠ some '\n' ∧ (entry.1 ≠ [] → (valueOf entry.1).isSome = true) := by
    intro entry hentry
    obtain ⟨t,⟨⟨rfl,-⟩,-,hword⟩,hend⟩ := hentries entry hentry
    refine ⟨fun hnewline => ?_,hword⟩
    obtain ⟨hc,hends⟩ := hend '\n' hnewline
    rw [not_ends_newline hc] at hends
    cases hends
  rw [← pieces_of_ordinary h]
  refine ⟨lexemes_of_words hwords,fun token htoken => ?_⟩
  obtain ⟨hmem,hne⟩ := List.mem_filter.mp htoken
  obtain ⟨entry,hentry,rfl⟩ := List.mem_map.mp hmem
  exact (hwords entry hentry).2 (by simpa using hne)

/-- Some of them joined again are these words. -/
theorem words_of_join (h : Ordinary command) {tokens : List Text} (hsublist : tokens.Sublist (tokenize command)) :
    lexemes (join tokens) = (tokens.map wordOf).map asWord := by
  have hends : ∀ s c, shell.ends s c = true → shell.ends s ' ' = true := by
    intro s c hend
    simp only [shell, ShellState.ends, Bool.and_eq_true] at hend ⊢
    exact ⟨hend.1,rfl⟩
  have hsplit := hsublist
  rw [← pieces_of_ordinary h] at hsplit
  obtain ⟨hpieces,hentries⟩ := Splitter.split_rejoins ((Splitter.rejoins_pieces hends command).sublist hsplit)
  have hwords : ∀ entry ∈ shell.split (join tokens), entry.2 ≠ some '\n' ∧ (entry.1 ≠ [] → (valueOf entry.1).isSome = true) := by
    intro entry hentry
    constructor
    · rcases hentries entry hentry with hnone | hblank
      · rw [hnone]
        exact (Option.some_ne_none _).symm
      · rw [hblank]
        decide
    · intro hne
      have hmem : entry.1 ∈ shell.pieces (join tokens) :=
        List.mem_filter.mpr ⟨List.mem_map.mpr ⟨entry,hentry,rfl⟩,by simpa using hne⟩
      rw [join, hpieces] at hmem
      exact (words_of_ordinary h).2 entry.1 (hsublist.subset hmem)
  have hlexemes := lexemes_of_words hwords
  rwa [show ((shell.split (join tokens)).map Prod.fst).filter (fun piece => !piece.isEmpty) = tokens from hpieces] at hlexemes

/-- A command that is stripped of its resume flags and joined again keeps its other words, if it is ordinary. Of any command
nothing is left to strip, and no id to be found. -/
theorem rewriting_keeps_words (command : Text) (flags : FlagTable) :
    (Ordinary command → ∃ words rest : List (Text × Text), lexemes command = words.map asWord ∧
      lexemes (join (stripResumeFlags flags (tokenize command))) = rest.map asWord ∧ Stripped flags Prod.fst words rest) ∧
    stripResumeFlags flags (stripResumeFlags flags (tokenize command)) = stripResumeFlags flags (tokenize command) ∧
    tokenize (join (stripResumeFlags flags (tokenize command))) = stripResumeFlags flags (tokenize command) ∧
    idInCommand (flags.map Prod.fst) (stripResumeFlags flags (tokenize command)) = none := by
  have hstripped := @stripResumeFlags_stripped flags (tokenize command)
  refine ⟨fun h => ?_,stripResumeFlags_idempotent _,tokenize_join hstripped.sublist,idInCommand_eq_none hstripped.not_isResumeFlag⟩
  exact ⟨_,_,(words_of_ordinary h).1,words_of_join h hstripped.sublist,hstripped.map fun _ => rfl⟩

theorem rewriting_keeps_words_claude : Ordinary "claude --resume 'a b'\t-p \"x \\$y\"".toList ∧
    ∃ words rest : List (Text × Text), lexemes "claude --resume 'a b'\t-p \"x \\$y\"".toList = words.map asWord ∧
      lexemes (join (stripResumeFlags [("--resume".toList,true)] (tokenize "claude --resume 'a b'\t-p \"x \\$y\"".toList))) = rest.map asWord ∧
      Stripped [("--resume".toList,true)] Prod.fst words rest := by
  have h : Ordinary "claude --resume 'a b'\t-p \"x \\$y\"".toList := by decide +kernel
  exact ⟨h,(rewriting_keeps_words _ [("--resume".toList,true)]).1 h⟩

/-- A newline between commands, and an escaped quote: nothing is stripped, and the words are not the same. -/
theorem rewriting_changes_words :
    lexemes (join (stripResumeFlags [] (tokenize "claude\necho hi".toList))) ≠ lexemes "claude\necho hi".toList ∧
      lexemes (join (stripResumeFlags [] (tokenize "claude \"a\\\"  b\"".toList))) ≠ lexemes "claude \"a\\\"  b\"".toList := by
  decide +kernel

end Unpeel.Resume
