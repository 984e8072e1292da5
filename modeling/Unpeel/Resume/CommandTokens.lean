import Unpeel.Foundation.ShellWords
import Unpeel.Manifest.PromptTitle

/-! # Tokens of a launch command

A launch command is taken apart at white space, loses the flags that resume a conversation, and is
joined again with single spaces. Quotes stay in the tokens; backslashes mean nothing.
-/
namespace Unpeel.Resume
open Manifest Splitters ShellWords List

abbrev FlagTable := List (Text × Bool)

/-- The loop of `tokenize`. -/
def tokenizeFrom (current : Text) (quote : Option Char) : Text → List Text
  | [] => if current = [] then [] else [current]
  | c :: rest =>
    match quote with
    | some q => tokenizeFrom (current ++ [c]) (if c = q then none else some q) rest
    | none =>
      if c = singleQuote ∨ c = doubleQuote then tokenizeFrom (current ++ [c]) (some c) rest
      else if isWhitespace c then (if current = [] then [] else [current]) ++ tokenizeFrom [] none rest
      else tokenizeFrom (current ++ [c]) none rest

def tokenize (command : Text) : List Text := tokenizeFrom [] none command

def join (tokens : List Text) : Text := [' '].intercalate tokens

def unquote (token : Text) : Text :=
  let token := trim token
  if 2 ≤ token.length ∧ ((token.head? = some singleQuote ∧ token.getLast? = some singleQuote) ∨
      (token.head? = some doubleQuote ∧ token.getLast? = some doubleQuote)) then
    (token.drop 1).dropLast
  else token

def inlineFlagValue (token flag : Text) : Option Text :=
  if flag <+: token then
    match token.drop flag.length with
    | '=' :: value => some value
    | _ => none
  else none

def isId (value : Text) : Bool := value ≠ [] && value.head? ≠ some '-' && value ≠ "latest".toList

def idInCommand (idFlags : List Text) : List Text → Option Text
  | [] => none
  | token :: rest =>
    match idFlags.findSome? (inlineFlagValue token) with
    | some value => if isId (unquote value) then some (unquote value) else idInCommand idFlags rest
    | none =>
      if idFlags.contains token then
        match rest.head? with
        | some value => if isId (unquote value) then some (unquote value) else idInCommand idFlags rest
        | none => idInCommand idFlags rest
      else idInCommand idFlags rest

def stripResumeFlags (flags : FlagTable) : List Text → List Text
  | [] => []
  | token :: rest =>
    if flags.any (fun flag => (inlineFlagValue token flag.1).isSome) then stripResumeFlags flags rest
    else
      match flags.find? (fun flag => flag.1 = token) with
      | some (_,takesValue) =>
        match rest with
        | [] => []
        | value :: rest' =>
          if takesValue && value.head? ≠ some '-' then stripResumeFlags flags rest' else stripResumeFlags flags (value :: rest')
      | none => token :: stripResumeFlags flags rest

/-! ### What is stripped -/

section
variable (flags : FlagTable)

def IsResumeFlag (token : Text) : Prop := ∃ flag ∈ flags, (inlineFlagValue token flag.1).isSome = true ∨ flag.1 = token

def Attached (token value : Text) : Prop :=
  (∀ flag ∈ flags, inlineFlagValue token flag.1 = none) ∧ flags.lookup token = some true ∧ value.head? ≠ some '-'

inductive Stripped {β : Type} (spelling : β → Text) : List β → List β → Prop
  | nil : Stripped spelling [] []
  | other {word words rest} : ¬IsResumeFlag flags (spelling word) → Stripped spelling words rest →
      Stripped spelling (word :: words) (word :: rest)
  | flag {word words rest} : IsResumeFlag flags (spelling word) →
      (∀ value ∈ words.head?, ¬Attached flags (spelling word) (spelling value)) → Stripped spelling words rest →
      Stripped spelling (word :: words) rest
  | value {word value words rest} : Attached flags (spelling word) (spelling value) → Stripped spelling words rest →
      Stripped spelling (word :: value :: words) rest

end

variable {flags : FlagTable}

theorem inline_of_any {token : Text} (h : flags.any (fun flag => (inlineFlagValue token flag.1).isSome) = true) : IsResumeFlag flags token := by
  obtain ⟨flag,hflag,hinline⟩ := any_eq_true.mp h
  exact ⟨flag,hflag,Or.inl hinline⟩

theorem none_of_not_any {token : Text} (h : ¬flags.any (fun flag => (inlineFlagValue token flag.1).isSome) = true) :
    ∀ flag ∈ flags, inlineFlagValue token flag.1 = none := by
  intro flag hflag
  rw [← Option.not_isSome_iff_eq_none]
  exact fun hsome => h (any_eq_true.mpr ⟨flag,hflag,hsome⟩)

theorem lookup_of_find {token flag : Text} {takesValue : Bool} (h : flags.find? (fun flag => flag.1 = token) = some (flag,takesValue)) :
    flags.lookup token = some takesValue := by
  induction flags with
  | nil => cases h
  | cons entry flags ih =>
    obtain ⟨name,takes⟩ := entry
    rw [find?_cons] at h
    by_cases hname : name = token
    · subst hname
      simp only [decide_true, Option.some.injEq, Prod.mk.injEq] at h
      obtain ⟨-,rfl⟩ := h
      exact lookup_cons_self
    · simp only [hname, decide_false] at h
      rw [lookup_cons, show (token == name) = false from by simpa using Ne.symm hname]
      exact ih h

theorem stripResumeFlags_stripped (tokens : List Text) : Stripped flags id tokens (stripResumeFlags flags tokens) := by
  induction tokens using stripResumeFlags.induct flags with
  | case1 => exact .nil
  | case2 token rest hinline ih =>
    rw [stripResumeFlags, if_pos hinline]
    obtain ⟨flag,hflag,hsome⟩ := any_eq_true.mp hinline
    refine .flag (inline_of_any hinline) (fun value _ hattached => ?_) ih
    have hnone : inlineFlagValue token flag.1 = none := hattached.1 flag hflag
    rw [hnone] at hsome
    cases hsome
  | case3 token hinline flag takesValue hfind =>
    rw [stripResumeFlags, if_neg hinline, hfind]
    refine .flag ⟨_,mem_of_find?_eq_some hfind,Or.inr ?_⟩ (fun value hvalue => (by cases hvalue)) .nil
    simpa using find?_some hfind
  | case4 token hinline flag takesValue hfind value rest hvalue ih =>
    rw [stripResumeFlags, if_neg hinline, hfind]
    dsimp only
    rw [if_pos hvalue]
    rw [Bool.and_eq_true, decide_eq_true_eq] at hvalue
    obtain ⟨rfl,hdash⟩ := hvalue
    exact .value ⟨none_of_not_any hinline,lookup_of_find hfind,hdash⟩ ih
  | case5 token hinline flag takesValue hfind value rest hvalue ih =>
    rw [stripResumeFlags, if_neg hinline, hfind]
    dsimp only
    rw [if_neg hvalue]
    refine .flag ⟨_,mem_of_find?_eq_some hfind,Or.inr (by simpa using find?_some hfind)⟩ ?_ ih
    intro other hother hattached
    cases hother
    obtain ⟨-,hlookup,hdash⟩ : Attached flags token value := hattached
    rw [lookup_of_find hfind] at hlookup
    cases hlookup
    exact hvalue (by simpa using hdash)
  | case6 token rest hinline hfind ih =>
    rw [stripResumeFlags, if_neg hinline, hfind]
    refine .other ?_ ih
    rintro ⟨flag,hflag,hsome | heq⟩
    · exact hinline (any_eq_true.mpr ⟨flag,hflag,hsome⟩)
    · have hnone := find?_eq_none.mp hfind flag hflag
      simp [heq] at hnone

theorem Stripped.map {β : Type} {spelling : β → Text} {f : Text → β} (hf : ∀ token, spelling (f token) = token) {tokens rest : List Text}
    (h : Stripped flags id tokens rest) : Stripped flags spelling (tokens.map f) (rest.map f) := by
  induction h with
  | nil => exact .nil
  | other hnot _ ih => exact .other (by rw [hf]; exact hnot) ih
  | flag hflag hattached _ ih =>
    refine .flag (by rw [hf]; exact hflag) (fun value hvalue => ?_) ih
    rw [head?_map] at hvalue
    obtain ⟨token,htoken,rfl⟩ := Option.map_eq_some_iff.mp hvalue
    rw [hf, hf]
    exact hattached token htoken
  | value hattached _ ih => exact .value (by rw [hf, hf]; exact hattached) ih

theorem Stripped.sublist {β : Type} {spelling : β → Text} {words rest : List β} (h : Stripped flags spelling words rest) : rest.Sublist words := by
  induction h with
  | nil => exact .slnil
  | other _ _ ih => exact ih.cons_cons _
  | flag _ _ _ ih => exact ih.cons _
  | value _ _ ih => exact (ih.cons _).cons _

theorem Stripped.not_isResumeFlag {β : Type} {spelling : β → Text} {words rest : List β} (h : Stripped flags spelling words rest) :
    ∀ word ∈ rest, ¬IsResumeFlag flags (spelling word) := by
  induction h with
  | nil => exact fun _ hword => (by cases hword)
  | other hnot _ ih => exact forall_mem_cons.mpr ⟨hnot,ih⟩
  | flag _ _ _ ih | value _ _ ih => exact ih

theorem stripResumeFlags_eq_self {tokens : List Text} (h : ∀ token ∈ tokens, ¬IsResumeFlag flags token) :
    stripResumeFlags flags tokens = tokens := by
  induction tokens with
  | nil => rfl
  | cons token rest ih =>
    obtain ⟨hnot,hrest⟩ := forall_mem_cons.mp h
    have hinline : ¬flags.any (fun flag => (inlineFlagValue token flag.1).isSome) = true := fun hany => hnot (inline_of_any hany)
    have hfind : flags.find? (fun flag => flag.1 = token) = none := by
      rw [find?_eq_none]
      intro flag hflag heq
      exact hnot ⟨flag,hflag,Or.inr (by simpa using heq)⟩
    rw [stripResumeFlags, if_neg hinline, hfind, ih hrest]

theorem stripResumeFlags_idempotent (tokens : List Text) :
    stripResumeFlags flags (stripResumeFlags flags tokens) = stripResumeFlags flags tokens :=
  stripResumeFlags_eq_self (stripResumeFlags_stripped tokens).not_isResumeFlag

theorem idInCommand_eq_none {tokens : List Text} (h : ∀ token ∈ tokens, ¬IsResumeFlag flags token) :
    idInCommand (flags.map Prod.fst) tokens = none := by
  induction tokens with
  | nil => rfl
  | cons token rest ih =>
    obtain ⟨hnot,hrest⟩ := forall_mem_cons.mp h
    have hinline : (flags.map Prod.fst).findSome? (inlineFlagValue token) = none := by
      rw [findSome?_eq_none_iff]
      intro name hname
      obtain ⟨flag,hflag,rfl⟩ := mem_map.mp hname
      rw [← Option.not_isSome_iff_eq_none]
      exact fun hsome => hnot ⟨flag,hflag,Or.inl hsome⟩
    have hname : ¬(flags.map Prod.fst).contains token = true := by
      intro hmem
      obtain ⟨flag,hflag,heq⟩ := mem_map.mp (contains_iff_mem.mp hmem)
      exact hnot ⟨flag,hflag,Or.inr heq⟩
    rw [idInCommand, hinline]
    rw [if_neg hname, ih hrest]

end Unpeel.Resume
