import Unpeel.AppKit.Geometry
import Unpeel.Foundation.Fallible
import Unpeel.Foundation.Strips
import Unpeel.Foundation.TextSlices
import Unpeel.Manifest.Record

/-! # Clicks in a footer

A footer paints its actions side by side and finds the action of a click by the same widths,
each with a sum of its own.
-/
namespace Unpeel.AppKit.Footer
open List

open Manifest (Text)
open Fallible Strips TextSlices
variable {action : FooterAction} {path : String}

structure ComponentValidationError where
  path : String
  message : String
deriving DecidableEq

structure FooterAction where
  id : Text
  label : Text
  action : Text
  accelerator : Option Text
  disabled : Bool
  busy : Bool
deriving DecidableEq

structure FooterActions where
  actions : List FooterAction
  status : Option Text

/-! ### Valid footers -/

def maxItems : ℕ := 100000

def maxShortTextBytes : ℕ := 4 * 1024

def validateIdentifier (value : Text) (path : String) : Except ComponentValidationError Unit :=
  if value.isEmpty || 256 < byteLen value || !value.all (fun c => c.isAlphanum || ['.','_',':','/','-'].contains c) then
    .error ⟨path,"must be a portable identifier"⟩
  else .ok ()

def validateText (value : Text) (maximum : ℕ) (path : String) : Except ComponentValidationError Unit :=
  if maximum < byteLen value || value.any (fun c => c = '\x00' || c = '\r') then
    .error ⟨path,"must contain at most " ++ toString maximum ++ " bytes and no NUL/CR characters"⟩
  else .ok ()

def validateSingleLine (value : Text) (path : String) : Except ComponentValidationError Unit :=
  if value.contains '\n' then .error ⟨path,"must be a single line"⟩ else .ok ()

def escape : Text := ['e','s','c','a','p','e']

def enter : Text := ['e','n','t','e','r']

def space : Text := ['s','p','a','c','e']

def ctrl : Text := ['c','t','r','l','+']

/-- `str::strip_prefix`. -/
def stripStart (start text : Text) : Option Text := if start <+: text then some (text.drop start.length) else none

/-- `u8::is_ascii_graphic`. -/
def isAsciiGraphic (c : Char) : Bool := '!' ≤ c && c ≤ '~'

def validFooterAccelerator (accelerator : Text) : Bool :=
  [escape,enter,space].contains accelerator ||
    ((stripStart ctrl accelerator).any fun key => byteLen key = 1 && key.all Char.isAlphanum) ||
    (byteLen accelerator = 1 && accelerator.all isAsciiGraphic)

/-- The `Debug` text of a text of ASCII graphic characters. -/
def debugText (text : Text) : String :=
  String.ofList ('"' :: text.flatMap (fun c => if c = '"' ∨ c = '\\' then ['\\',c] else [c]) ++ ['"'])

def FooterAction.validate (action : FooterAction) (path : String) : Except ComponentValidationError Unit := do
  validateIdentifier action.id (path ++ ".id")
  validateText action.label maxShortTextBytes (path ++ ".label")
  validateSingleLine action.label (path ++ ".label")
  validateIdentifier action.action (path ++ ".action")
  if action.accelerator.any fun accelerator => !validFooterAccelerator accelerator then
    .error ⟨path ++ ".accelerator","must be one printable ASCII character, ctrl+<alphanumeric>, escape, enter, or space"⟩
  else .ok ()

/-- The loop of `FooterActions::validate`, with the ids and accelerators that were inserted. -/
def validateActions (path : String) (index : ℕ) (ids accelerators : List Text) :
    List FooterAction → Except ComponentValidationError Unit
  | [] => .ok ()
  | action :: actions => do
    action.validate (path ++ ".actions[" ++ toString index ++ "]")
    if ids.contains action.id then
      .error ⟨path ++ ".actions[" ++ toString index ++ "].id","duplicate FooterAction id " ++ debugText action.id⟩
    else if action.accelerator.any accelerators.contains then
      .error ⟨path ++ ".actions[" ++ toString index ++ "].accelerator",
        "duplicate footer accelerator " ++ debugText (action.accelerator.getD [])⟩
    else validateActions path (index + 1) (action.id :: ids) (action.accelerator.toList ++ accelerators) actions

def validate (footer : FooterActions) (path : String) : Except ComponentValidationError Unit := do
  footer.status.elim (.ok ()) fun status => do
    validateText status maxShortTextBytes (path ++ ".status")
    validateSingleLine status (path ++ ".status")
  if maxItems < footer.actions.length then .error ⟨path,"footer action count exceeds " ++ toString maxItems⟩
  else validateActions path 0 [] [] footer.actions

/-! ### Geometry -/

section
variable (width : Text → ℕ)

end

/-! ### Painting -/

section
variable {width : Text → ℕ}
variable {action : FooterAction} {column : ℕ}
variable {actions : List FooterAction}

end

end Unpeel.AppKit.Footer
