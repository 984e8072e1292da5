import Unpeel.Manifest.PromptTitle

/-! # The command line that starts an agent again

What `resume_agent_in_place` types into the Session's own shell: the provider's command,
with the new generation in its environment, and a directory made when it is over.
-/
namespace Unpeel.Resume
open Manifest

inductive ShellFamily where
  | posix
  | fish
  | other
deriving DecidableEq

/-- `shared::shell_quote`. -/
def shellQuote (value : Text) : Text :=
  let quote := Char.ofNat 39
  let double := Char.ofNat 34
  quote :: value.flatMap (fun c => if c = quote then [quote,double,quote,double,quote] else [c]) ++ [quote]

def fishSingleQuote (value : Text) : Text :=
  let quote := Char.ofNat 39
  let backslash := Char.ofNat 92
  quote :: value.flatMap (fun c => if c = backslash ∨ c = quote then [backslash,c] else [c]) ++ [quote]

def generationScopedPosixChild (command : Text) (generation : ℕ) (quoteForLiveShell : Text → Text) : Text :=
  "/usr/bin/env UNPEEL_RUNTIME_GENERATION=".toList ++ Nat.toDigits 10 generation ++ " /bin/sh -c ".toList ++
    quoteForLiveShell ("set +e; \x7b ".toList ++ command ++ "; \x7d".toList)

def runtimeGenerationScopedCommand (family : ShellFamily) (command : Text) (generation : ℕ) : Text :=
  match family with
  | .posix =>
    "export UNPEEL_RUNTIME_GENERATION=".toList ++ Nat.toDigits 10 generation ++ "; \x7b ".toList ++ command ++
      "; \x7d; __unpeel_runtime_status=$?; unset UNPEEL_RUNTIME_GENERATION; ".toList ++
      "(exit \"$__unpeel_runtime_status\")".toList
  | .fish => generationScopedPosixChild command generation fishSingleQuote
  | .other => generationScopedPosixChild command generation shellQuote

def runtimeLaunchCompletionCommand (family : ShellFamily) (runtimeCommand completionPath : Text) : Text :=
  match family with
  | .posix =>
    runtimeCommand ++ "; __unpeel_resume_status=$?; /bin/mkdir ".toList ++ shellQuote completionPath ++
      "; (exit \"$__unpeel_resume_status\")".toList
  | .fish =>
    runtimeCommand ++ "; set -l __unpeel_resume_status $status; /bin/mkdir ".toList ++
      fishSingleQuote completionPath ++ "; /bin/sh -c \"exit $__unpeel_resume_status\"".toList
  | .other => runtimeCommand

/-- Control-U, the command and a return in one write: a half-typed line goes, and nothing
is typed before this. -/
def relaunchPayload (family : ShellFamily) (completionPath relaunchCommand : Text) (generation : ℕ) : List UInt8 :=
  let scopedCommand := runtimeGenerationScopedCommand family (trim relaunchCommand) generation
  let command := runtimeLaunchCompletionCommand family scopedCommand completionPath
  0x15 :: command.flatMap String.utf8EncodeChar ++ [0x0d]

end Unpeel.Resume
