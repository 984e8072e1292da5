import Unpeel.Resume.CommandRewriting
import Unpeel.Resume.RelaunchCommand

/-! # Quoting for a shell

Commands that are made of arguments quote each of them. A shell, and the words Unpeel itself reads
a command by, get back the arguments, whatever characters they have.
-/
namespace Unpeel.Resume
open Manifest Splitters ShellWords List

/-- In single quotes, with what stands for a quote. -/
def singleQuoted (escape value : Text) : Text :=
  singleQuote :: value.flatMap (fun c => if c = singleQuote then escape else [c]) ++ [singleQuote]

/-- `shell_single_quote` of the Codex adapter. -/
def shellSingleQuote (value : Text) : Text := singleQuoted [singleQuote,backslash,singleQuote,singleQuote] value

/-- `launch_command` of an App, for its executable and the id of its resource. -/
def launchCommand (executable : Text) (resource : Option Text) : Except Text Text :=
  let executable := trim executable
  if executable = [] ∨ '\x00' ∈ executable then .error "App has no valid launch executable".toList
  else
    match resource with
    | some id =>
      if '\x00' ∈ id then .error "App resource contains a NUL byte".toList
      else .ok (shellQuote executable ++ ' ' :: shellQuote id)
    | none => .ok (shellQuote executable)

/-- The loop of `shell_words`. -/
def shellWordsFrom (current : Text) (inSingle inDouble escaped : Bool) : Text → List Text
  | [] => if current = [] then [] else [current]
  | c :: rest =>
    if escaped then shellWordsFrom (current ++ [c]) inSingle inDouble false rest
    else if c = backslash ∧ inSingle = false then shellWordsFrom current inSingle inDouble true rest
    else if c = singleQuote ∧ inDouble = false then shellWordsFrom current (!inSingle) inDouble false rest
    else if c = doubleQuote ∧ inSingle = false then shellWordsFrom current inSingle (!inDouble) false rest
    else if isWhitespace c ∧ inSingle = false ∧ inDouble = false then
      (if current = [] then [] else [current]) ++ shellWordsFrom [] inSingle inDouble false rest
    else shellWordsFrom (current ++ [c]) inSingle inDouble false rest

def shellWords (command : Text) : List Text := shellWordsFrom [] false false false command

/-- Both readers take the escape for a quote. -/
structure Escapes (escape : Text) : Prop where
  whole : ∀ value, shell.Whole ⟨.single,false,some value⟩ escape
  run : ∀ value, shell.run ⟨.single,false,some value⟩ escape = ⟨.single,false,some (value ++ [singleQuote])⟩
  words : ∀ current rest, shellWordsFrom current true false false (escape ++ rest) =
    shellWordsFrom (current ++ [singleQuote]) true false false rest

theorem shellQuote_escapes : Escapes [singleQuote,doubleQuote,singleQuote,doubleQuote,singleQuote] where
  whole := fun _ => ⟨rfl,rfl,rfl,rfl,rfl,trivial⟩
  run := fun value => by simp [Splitter.run, shell, ShellState.step, ShellState.push, singleQuote, doubleQuote, backslash]
  words := fun current rest => by simp [shellWordsFrom, singleQuote, doubleQuote, backslash]

theorem shellSingleQuote_escapes : Escapes [singleQuote,backslash,singleQuote,singleQuote] where
  whole := fun _ => ⟨rfl,rfl,rfl,rfl,trivial⟩
  run := fun value => by simp [Splitter.run, shell, ShellState.step, ShellState.push, singleQuote, backslash]
  words := fun current rest => by simp [shellWordsFrom, singleQuote, backslash]

section
variable {escape : Text}

theorem Escapes.body (h : Escapes escape) (value text : Text) :
    shell.Whole ⟨.single,false,some value⟩ (text.flatMap fun c => if c = singleQuote then escape else [c]) ∧
      shell.run ⟨.single,false,some value⟩ (text.flatMap fun c => if c = singleQuote then escape else [c]) =
        ⟨.single,false,some (value ++ text)⟩ := by
  induction text generalizing value with
  | nil => exact ⟨trivial,by rw [append_nil]; rfl⟩
  | cons c text ih =>
    rw [flatMap_cons, Splitter.whole_append, Splitter.run_append]
    by_cases hc : c = singleQuote
    · subst hc
      obtain ⟨hwhole,hrun⟩ := ih (value ++ [singleQuote])
      rw [if_pos rfl, h.run, hrun, append_assoc]
      exact ⟨⟨h.whole value,hwhole⟩,rfl⟩
    · obtain ⟨hwhole,hrun⟩ := ih (value ++ [c])
      have hstep : shell.run ⟨.single,false,some value⟩ [c] = ⟨.single,false,some (value ++ [c])⟩ := if_neg hc
      rw [if_neg hc, hstep, hrun, append_assoc]
      exact ⟨⟨⟨rfl,trivial⟩,hwhole⟩,rfl⟩

theorem Escapes.words_body (h : Escapes escape) (current text rest : Text) :
    shellWordsFrom current true false false (text.flatMap (fun c => if c = singleQuote then escape else [c]) ++ rest) =
      shellWordsFrom (current ++ text) true false false rest := by
  induction text generalizing current with
  | nil => rw [append_nil]; rfl
  | cons c text ih =>
    rw [flatMap_cons, append_assoc]
    by_cases hc : c = singleQuote
    · subst hc
      rw [if_pos rfl, h.words, ih, append_assoc]
      rfl
    · have hplain : shellWordsFrom current true false false ([c] ++ (text.flatMap (fun c => if c = singleQuote then escape else [c]) ++ rest)) =
          shellWordsFrom (current ++ [c]) true false false (text.flatMap (fun c => if c = singleQuote then escape else [c]) ++ rest) := by
        simp [shellWordsFrom, hc]
      rw [if_neg hc, hplain, ih, append_assoc]
      rfl

/-- What is quoted is one word, and stands for what was quoted. -/
theorem Escapes.quoted (h : Escapes escape) (text : Text) : shell.Whole shell.start (singleQuoted escape text) ∧
    shell.run shell.start (singleQuoted escape text) = ⟨.plain,false,some text⟩ := by
  obtain ⟨hwhole,hrun⟩ := h.body [] text
  unfold singleQuoted
  rw [Splitter.whole_append, Splitter.run_append]
  have hopen : shell.run shell.start (singleQuote :: text.flatMap fun c => if c = singleQuote then escape else [c]) =
      ⟨.single,false,some text⟩ := hrun
  rw [hopen]
  exact ⟨⟨⟨rfl,hwhole⟩,rfl,trivial⟩,rfl⟩

theorem Escapes.words_quoted (h : Escapes escape) (current text rest : Text) :
    shellWordsFrom current false false false (singleQuoted escape text ++ rest) =
      shellWordsFrom (current ++ text) false false false rest := by
  unfold singleQuoted
  rw [append_assoc, cons_append]
  have hopen (inner : Text) : shellWordsFrom current false false false (singleQuote :: inner) =
      shellWordsFrom current true false false inner := by simp [shellWordsFrom, singleQuote, backslash]
  rw [hopen, h.words_body]
  simp [shellWordsFrom, singleQuote, backslash]

theorem Escapes.lexemes (h : Escapes escape) (args : List Text) :
    lexemes (join (args.map (singleQuoted escape))) = args.map fun arg => .word (singleQuoted escape arg) arg := by
  have hclosed : ∀ arg, shell.Closed ' ' (singleQuoted escape arg) := fun arg => ⟨(h.quoted arg).1,by rw [(h.quoted arg).2]; rfl⟩
  have hrejoins : shell.Rejoins ' ' (args.map (singleQuoted escape)) := by
    refine ⟨pairwise_map.mpr (pairwise_of_forall fun arg _ => hclosed arg),fun piece hpiece => ?_⟩
    obtain ⟨arg,-,rfl⟩ := mem_map.mp hpiece
    exact ⟨(h.quoted arg).1,cons_ne_nil _ _⟩
  obtain ⟨hpieces,hentries⟩ := Splitter.split_rejoins hrejoins
  have hvalue : ∀ arg, valueOf (singleQuoted escape arg) = some arg := by
    intro arg
    unfold valueOf
    rw [(h.quoted arg).2]
    rfl
  have hlexemes := @lexemes_of_words (shell.split (join (args.map (singleQuoted escape)))) fun entry hentry => ?_
  · refine hlexemes.trans ?_
    have hsame : ((shell.split (join (args.map (singleQuoted escape)))).map Prod.fst).filter (fun piece => !piece.isEmpty) =
        args.map (singleQuoted escape) := hpieces
    rw [hsame, map_map, map_map]
    refine map_congr_left fun arg _ => ?_
    simp only [Function.comp_apply, wordOf, asWord, hvalue, Option.getD_some]
  · refine ⟨?_,fun hne => ?_⟩
    · rcases hentries entry hentry with hnone | hblank
      · rw [hnone]
        exact (Option.some_ne_none _).symm
      · rw [hblank]
        decide
    · have hmem : entry.1 ∈ shell.pieces (join (args.map (singleQuoted escape))) :=
        mem_filter.mpr ⟨mem_map.mpr ⟨entry,hentry,rfl⟩,by simpa using hne⟩
      rw [join, hpieces] at hmem
      obtain ⟨arg,-,heq⟩ := mem_map.mp hmem
      rw [← heq, hvalue]
      rfl

theorem Escapes.shellWords (h : Escapes escape) (args : List Text) :
    shellWords (join (args.map (singleQuoted escape))) = args.filter fun arg => !arg.isEmpty := by
  have hfrom : ∀ arg : Text, (if arg = [] then [] else [arg]) = [arg].filter fun arg => !arg.isEmpty := fun arg => by cases arg <;> rfl
  induction args with
  | nil => rfl
  | cons arg args ih =>
    cases args with
    | nil =>
      have hlast := h.words_quoted [] arg []
      rw [append_nil] at hlast
      rw [map_singleton, join, intercalate_singleton]
      exact hlast.trans (hfrom arg)
    | cons next args =>
      have hjoin : join ((arg :: next :: args).map (singleQuoted escape)) =
          singleQuoted escape arg ++ ' ' :: join ((next :: args).map (singleQuoted escape)) := by
        simp [join, intercalate_cons_cons]
      have hblank (current rest : Text) : shellWordsFrom current false false false (' ' :: rest) =
          (if current = [] then [] else [current]) ++ Resume.shellWords rest := by
        have hspace : isWhitespace ' ' = true := by decide
        simp [shellWordsFrom, Resume.shellWords, singleQuote, doubleQuote, backslash, hspace]
      rw [hjoin, Resume.shellWords, h.words_quoted, hblank, ih, nil_append, hfrom]
      exact (List.filter_append ..).symm

end

theorem launchCommand_eq {executable command : Text} {resource : Option Text} (h : launchCommand executable resource = .ok command) :
    command = join ((trim executable :: resource.toList).map shellQuote) := by
  unfold launchCommand at h
  cases resource with
  | none =>
    dsimp only at h
    split_ifs at h
    cases h
    exact intercalate_singleton.symm
  | some id =>
    dsimp only at h
    split_ifs at h
    cases h
    simp [join, intercalate_cons_cons]

/-- Quoted arguments are read back as they are, by a shell and by Unpeel, which has no empty words. So are the executable
and the resource that an App is launched with. -/
theorem quoted_arguments_are_read_back (args : List Text) :
    lexemes (join (args.map shellQuote)) = args.map (fun arg => .word (shellQuote arg) arg) ∧
      lexemes (join (args.map shellSingleQuote)) = args.map (fun arg => .word (shellSingleQuote arg) arg) ∧
      shellWords (join (args.map shellQuote)) = args.filter (fun arg => !arg.isEmpty) ∧
      shellWords (join (args.map shellSingleQuote)) = args.filter (fun arg => !arg.isEmpty) ∧
      ∀ executable resource command, launchCommand executable resource = .ok command →
        lexemes command = (trim executable :: resource.toList).map (fun arg => .word (shellQuote arg) arg) ∧
          shellWords command = (trim executable :: resource.toList).filter fun arg => !arg.isEmpty := by
  refine ⟨shellQuote_escapes.lexemes args,shellSingleQuote_escapes.lexemes args,shellQuote_escapes.shellWords args,
    shellSingleQuote_escapes.shellWords args,?_⟩
  intro executable resource command h
  rw [launchCommand_eq h]
  exact ⟨shellQuote_escapes.lexemes _,shellQuote_escapes.shellWords _⟩

end Unpeel.Resume
