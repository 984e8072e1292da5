import Mathlib.Data.List.DropRight
import Unpeel.Manifest.Record

/-! # Titles from submitted prompts

`normalize_prompt_title` makes a title out of a submitted line: prompt glyphs,
image references and slash commands are not part of one, white space is
collapsed, and the title ends once it has 96 bytes.
-/
namespace Unpeel.Manifest

/-- `char::is_whitespace`: the characters with the property `White_Space`. -/
def isWhitespace (c : Char) : Bool :=
  let n := c.toNat
  (0x09 ≤ n && n ≤ 0x0D) || (0x2000 ≤ n && n ≤ 0x200A) ||
    n ∈ [0x20,0x85,0xA0,0x1680,0x2028,0x2029,0x202F,0x205F,0x3000]

def trimStart (text : Text) : Text := text.dropWhile isWhitespace

def trim (text : Text) : Text := (trimStart text).rdropWhile isWhitespace

def imageExtensions : List Text :=
  [['p','n','g'],['j','p','g'],['j','p','e','g'],['g','i','f'],['w','e','b','p'],['b','m','p'],
   ['t','i','f','f'],['t','i','f'],['h','e','i','c'],['h','e','i','f'],['s','v','g'],['i','c','o'],
   ['i','c','n','s'],['a','v','i','f']]

def refStarts : List Text :=
  [['/'],['~','/'],['.','/'],['f','i','l','e',':','/','/'],['h','t','t','p',':','/','/'],
   ['h','t','t','p','s',':','/','/']]

def isImageRef (token : Text) : Bool :=
  let token := trim token
  if refStarts.any (·.isPrefixOf token) then
    let path := token.takeWhile (fun c => c ≠ '?' && c ≠ '#')
    if '.' ∈ path then (path.rtakeWhile (· ≠ '.')).map Char.toLower ∈ imageExtensions else false
  else false

def stripLeadingImageRef : Text → Option Text
  | [] => none
  | first :: rest =>
    if first = '\'' ∨ first = '"' then
      let body := rest.takeWhile (· ≠ first)
      if first ∈ rest ∧ isImageRef body then some (rest.drop (body.length + 1)) else none
    else
      let token := (first :: rest).takeWhile (fun c => !isWhitespace c)
      if isImageRef token then some ((first :: rest).drop token.length) else none

/-- The loop over leading image references, with the length as fuel. -/
def stripImageRefs : ℕ → Text → Text
  | 0, text => text
  | fuel + 1, text =>
    match stripLeadingImageRef text with
    | none => text
    | some rest => stripImageRefs fuel (trimStart rest)

def isSlashCommandLine (line : Text) : Bool :=
  match (trimStart line).takeWhile (fun c => !isWhitespace c) with
  | '/' :: name =>
    (name.head?.any Char.isAlpha) && name.all (fun c => c.isAlphanum || c = '-' || c = '_' || c = ':')
  | _ => false

/-- White space collapses to one blank; the text ends after the character that
makes it 96 bytes long. -/
def collapse : Bool → ℕ → Text → Text
  | _, _, [] => []
  | lastWasSpace, len, c :: rest =>
    if isWhitespace c then
      if lastWasSpace then collapse true len rest else ' ' :: collapse true (len + 1) rest
    else c :: if 96 ≤ len + c.utf8Size then [] else collapse false (len + c.utf8Size) rest

def promptGlyphs : Text := ['>','$','#','%',':','|','·']

def normalizePromptTitle (input : Text) : Option Text :=
  let start := trimStart ((trim input).dropWhile (· ∈ promptGlyphs))
  let trimmed := stripImageRefs start.length start
  if trimmed = [] ∨ isSlashCommandLine trimmed then none
  else match trim (collapse false 0 trimmed) with
    | [] => none
    | title => some title

example : normalizePromptTitle ['>',' ','f','i','x',' ',' ','i','t',' '] = some ['f','i','x',' ','i','t'] := by
  decide

example : normalizePromptTitle ['/','r','e','s','u','m','e'] = none := by decide

end Unpeel.Manifest
