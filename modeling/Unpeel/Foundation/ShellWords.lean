import Unpeel.Foundation.Splitters

/-! # Words of a shell

The words of a command line as a POSIX shell splits them: blanks and newlines end a word, single
and double quotes and backslashes keep them in it. Nothing is expanded, and there are no operators.
-/
namespace Unpeel.ShellWords
open Splitters

def singleQuote : Char := '\x27'

def doubleQuote : Char := '\x22'

def backslash : Char := '\x5c'

inductive Quoting where
  | plain
  | single
  | double
deriving DecidableEq

/-- What is known in the middle of a word: the quotes around, whether the last character was a backslash that escapes the
next one, and what the word stands for so far. -/
structure ShellState where
  quoting : Quoting
  escaped : Bool
  value : Option (List Char)
deriving DecidableEq

/-- A word, as it is spelled and what it stands for, or the newline behind a command. -/
inductive Lexeme where
  | word (spelling value : List Char)
  | newline
deriving DecidableEq

namespace ShellState
variable (s : ShellState)

/-- What the word stands for with more behind it. -/
def push (text : List Char) : Option (List Char) := some (s.value.getD [] ++ text)

def step (c : Char) : ShellState :=
  match s.quoting, s.escaped with
  | .plain, false =>
    if c = backslash then { s with escaped := true }
    else if c = singleQuote then ⟨.single,false,s.push []⟩
    else if c = doubleQuote then ⟨.double,false,s.push []⟩
    else ⟨.plain,false,s.push [c]⟩
  -- an escaped newline is taken away
  | .plain, true => ⟨.plain,false,if c = '\n' then s.value else s.push [c]⟩
  | .single, _ => if c = singleQuote then ⟨.plain,false,s.value⟩ else ⟨.single,false,s.push [c]⟩
  | .double, false =>
    if c = doubleQuote then ⟨.plain,false,s.value⟩
    else if c = backslash then { s with escaped := true }
    else ⟨.double,false,s.push [c]⟩
  -- between double quotes a backslash escapes a few characters only
  | .double, true =>
    ⟨.double,false,if c = '\n' then s.value else if c ∈ ['$','\x60',doubleQuote,backslash] then s.push [c] else s.push [backslash,c]⟩

def ends (c : Char) : Bool := s.quoting = .plain && !s.escaped && (c = ' ' || c = '\t' || c = '\n')

/-- What is read of a piece, if it is a word at all. A backslash at its end stands for itself. -/
def word : Option (List Char) := if s.escaped then s.push [backslash] else s.value

end ShellState

def shell : Splitter ShellState Char := ⟨⟨.plain,false,none⟩,ShellState.step,ShellState.ends⟩

/-- What a piece stands for. -/
def valueOf (piece : List Char) : Option (List Char) := (shell.run shell.start piece).word

def pieceLexemes (entry : List Char × Option Char) : List Lexeme :=
  ((valueOf entry.1).map (.word entry.1)).toList ++ if entry.2 = some '\n' then [.newline] else []

def lexemes (command : List Char) : List Lexeme := (shell.split command).flatMap pieceLexemes

example : lexemes "a 'b c'\\ d\n\"e\\\"\" \\\nf".toList = [.word ['a'] ['a'],.word "'b c'\\ d".toList "b c d".toList,.newline,
    .word "\"e\\\"\"".toList "e\"".toList,.word "\\\nf".toList ['f']] := by decide +kernel

end Unpeel.ShellWords
