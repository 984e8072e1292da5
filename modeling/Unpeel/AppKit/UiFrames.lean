import Unpeel.AppKit.UiShapes
import Unpeel.Foundation.Fallible
import Unpeel.Foundation.SerdeRoundTrip

/-! # Frames of the protocol

A message is checked, written as one line of JSON, read back and checked again. Of the checks, the
protocol's header is followed and that numbers are finite; the others may be any.
-/
namespace Unpeel.AppKit.UiFrames
open Serde
variable {name : String} {fields : Fields UiType} {variants : Variants UiType} {v : Value}
variable {tag : String} {spec : Value}

structure UiMessage where
  value : Value
  shape : hasShape defs value (named .uiMessage) = true

inductive UiProtocolError where
  | json
  | emptyFrame
  | frameTooLarge (maxBytes : ℕ)
  | invalidView (path message : String)
  | invalidMessage (message : String)
  | unexpectedProtocol (expected received : String)
  | unsupportedVersion (minimum maximum received : ℤ)

def uiProtocolName : String := "unpeel.ui"

def uiProtocolMinVersion : ℤ := 1

def uiProtocolMaxVersion : ℤ := 1

def maxUiFrameBytes : ℕ := 16 * 1024 * 1024

/-- `u8::is_ascii_whitespace`. -/
def isAsciiWhitespace (byte : UInt8) : Bool := byte = 9 || byte = 10 || byte = 12 || byte = 13 || byte = 32

def validateProtocolName (protocol : String) : Except UiProtocolError Unit :=
  if protocol ≠ uiProtocolName then .error (.unexpectedProtocol uiProtocolName protocol) else .ok ()

def validateHeader (protocol : String) (version : ℤ) : Except UiProtocolError Unit := do
  validateProtocolName protocol
  if version < uiProtocolMinVersion ∨ uiProtocolMaxVersion < version then
    .error (.unsupportedVersion uiProtocolMinVersion uiProtocolMaxVersion version)
  else .ok ()

/-- The first half of `UiMessage::validate`: an attach starts with the protocol, the others also with its version. -/
def validateRoute : Value → Except UiProtocolError Unit
  | .variant name [.record (.text protocol :: .int version :: _)] =>
    if name = "attach" then validateProtocolName protocol else validateHeader protocol version
  | _ => .ok ()

structure Checks where
  notFinite : Value → UiProtocolError
  others : Value → Except UiProtocolError Unit

/-- `serde_json::to_vec` and `from_slice`, between JSON values and their text. -/
structure SerdeJson where
  toVec : Json → List UInt8
  fromSlice : List UInt8 → Option Json

structure SerdeJson.Faithful (serde : SerdeJson) (json : Json) : Prop where
  readsBack : serde.fromSlice (serde.toVec json) = some json
  oneLine : 10 ∉ serde.toVec json
  opens : (serde.toVec json).head? = some 123

section
variable (checks : Checks)

/-- `UiMessage::validate`. Every message is checked for its header first. -/
def validate (m : Value) : Except UiProtocolError Unit := do
  validateRoute m
  if m.finite then checks.others m else .error (checks.notFinite m)

variable (serde : SerdeJson)

/-- `serde_json::from_slice` into a type. -/
def readAs (n : UiType) (frame : List UInt8) : Except UiProtocolError Value :=
  match (serde.fromSlice frame).bind fun json => decode defs json (named n) with
  | some v => .ok v
  | none => .error .json

def validateMessageHeader : Value → Except UiProtocolError Unit
  | .record [.text messageType,.text protocol,protocolVersion] => do
    validateProtocolName protocol
    if messageType ≠ "attach" then
      match protocolVersion with
      | .some (.int version) => validateHeader protocol version
      | _ => .error (.invalidMessage "non-attach messages require protocolVersion")
    else .ok ()
  | _ => .error .json

def decodeUiFrame (frame : List UInt8) : Except UiProtocolError Value := do
  if maxUiFrameBytes < frame.length then .error (.frameTooLarge maxUiFrameBytes)
  else if frame.all isAsciiWhitespace then .error .emptyFrame
  else
    let header ← readAs serde .messageHeader frame
    validateMessageHeader header
    let message ← readAs serde .uiMessage frame
    validate checks message
    return message

def encodeUiFrame (m : Value) : Except UiProtocolError (List UInt8) := do
  validate checks m
  let frame := serde.toVec (encode defs m (named .uiMessage))
  if maxUiFrameBytes < frame.length then .error (.frameTooLarge maxUiFrameBytes) else .ok (frame ++ [10])

end

/-! ## The header -/

theorem message_fields
    (hdef : defs .uiMessage = .object (.tagged tag variants)) (hfind : variants.find name = some fields) :
    tag = "type" ∧ ∃ rest : Fields UiType, fields = .flatten (.struct (.required "protocol" text <|
        .required (if name = "attach" then "minProtocolVersion" else "protocolVersion") u32 rest)) .nil ∧
      "type" ∉ rest.keys ∧ "protocol" ∉ rest.keys ∧ "protocolVersion" ∉ rest.keys := by
  cases hdef
  refine ⟨rfl,?_⟩
  -- one for each message
  iterate 10
    rcases Variants.of_find_cons hfind with ⟨rfl,rfl⟩ | hfind
    · exact ⟨_,rfl,by decide,by decide,by decide⟩
  cases hfind

theorem text_of_shape (h : hasShape defs v (text : Shape UiType) = true) : ∃ t, v = .text t := by
  cases v with
  | text t => exact ⟨t,rfl⟩
  | _ => simp [text, hasShape] at h

theorem int_of_u32 (h : hasShape defs v (u32 : Shape UiType) = true) : ∃ i, v = .int i ∧ 0 ≤ i ∧ i < 2 ^ 32 := by
  cases v with
  | int i => exact ⟨i,rfl,by simpa [u32, hasShape] using h⟩
  | _ => simp [u32, hasShape] at h

theorem message_shape {m : Value} (h : hasShape defs m (named .uiMessage) = true) :
    ∃ name protocol version vs rest, m = .variant name [.record (.text protocol :: .int version :: vs)] ∧
      0 ≤ version ∧ version < 2 ^ 32 ∧ "type" ∉ rest.keys ∧ "protocol" ∉ rest.keys ∧ "protocolVersion" ∉ rest.keys ∧
      encode defs m (named .uiMessage) = .obj (("type",.text name) :: ("protocol",.text protocol) ::
        (if name = "attach" then "minProtocolVersion" else "protocolVersion",.int version) :: encodeFields defs vs rest) := by
  obtain ⟨name,vs,fields,rfl,hfind,hfields⟩ := variant_of_tagged (hasLayout_of_ref (n := UiType.uiMessage) rfl h)
  obtain ⟨-,rest,rfl,htype,hprotocol,hversion⟩ := message_fields rfl hfind
  obtain ⟨v,tail,rfl,hlayout,hnil⟩ := fields_of_flatten hfields
  obtain rfl := eq_nil_of_fields hnil
  obtain ⟨ws,rfl,hws⟩ := record_of_struct hlayout
  obtain ⟨first,ws,rfl,hfirst,hws⟩ := fields_of_field hws
  obtain ⟨second,ws,rfl,hsecond,hws⟩ := fields_of_field hws
  obtain ⟨protocol,rfl⟩ := text_of_shape hfirst
  obtain ⟨version,rfl,hlow,hhigh⟩ := int_of_u32 hsecond
  refine ⟨name,protocol,version,ws,rest,rfl,hlow,hhigh,htype,hprotocol,hversion,?_⟩
  rw [named, encode_of_tagged (n := UiType.uiMessage) rfl hfind]
  simp [encodeFields, encodeObject, encode, Fields.required, Presence.leavesOut]

theorem read_header {entries : List (String × View UiType)} {protocol : String} {found : Option (View UiType)}
    (htype : entryOf "type" entries = some (some (view defs (.text name))))
    (hprotocol : entryOf "protocol" entries = some (some (view defs (.text protocol))))
    (hversion : entryOf "protocolVersion" entries = some found)
    (hfound : (found.elim (some .none) fun view => view.readShape (.option (.unsigned 32))) = some v) :
    readLayout entries messageHeader = some (.record [.text name,.text protocol,v]) := by
  have hread : ∀ t, (view defs (.text t)).readShape (text : Shape UiType) = some (.text t) := fun _ => rfl
  cases found with
  | none =>
    obtain rfl : Value.none = v := Option.some.inj hfound
    simp only [messageHeader, Fields.required, Fields.defaulted, readLayout, readFields, htype, hprotocol, hversion, hread,
      Presence.missing, Option.bind_eq_bind, Option.bind_some, Option.pure_def, Option.map_some]
  | some view =>
    rw [Option.elim_some] at hfound
    simp only [messageHeader, Fields.required, Fields.defaulted, readLayout, readFields, htype, hprotocol, hversion, hread,
      hfound, Option.bind_eq_bind, Option.bind_some, Option.pure_def, Option.map_some]

/-- The header of what was encoded. An attach names no version. -/
theorem decode_header {protocol : String} {version : ℤ} {vs : List Value} {rest : Fields UiType} (hlow : 0 ≤ version)
    (hhigh : version < 2 ^ 32) (htype : "type" ∉ rest.keys) (hprotocol : "protocol" ∉ rest.keys)
    (hversion : "protocolVersion" ∉ rest.keys) :
    decode defs (.obj (("type",.text name) :: ("protocol",.text protocol) ::
        (if name = "attach" then "minProtocolVersion" else "protocolVersion",.int version) :: encodeFields defs vs rest))
      (named .messageHeader) =
    some (.record [.text name,.text protocol,if name = "attach" then .none else .some (.int version)]) := by
  have hbehind : ∀ {key : String}, key ∉ rest.keys → Without key (encodeFields defs vs rest) := by
    intro key hkey entry hentry heq
    exact hkey (heq ▸ key_of_mem_encodeFields hentry)
  set key := if name = "attach" then "minProtocolVersion" else "protocolVersion" with hkeydef
  have hkey : key ≠ "type" ∧ key ≠ "protocol" := by
    rw [hkeydef]
    split_ifs <;> decide
  have hone : entryOf "type" (viewEntries defs (("type",.text name) :: ("protocol",.text protocol) :: (key,.int version) ::
      encodeFields defs vs rest)) = some (some (view defs (.text name))) :=
    entryOf_single [] _ Without.nil (.cons (by decide) (.cons hkey.1 (hbehind htype)))
  have htwo : entryOf "protocol" (viewEntries defs (("type",.text name) :: ("protocol",.text protocol) :: (key,.int version) ::
      encodeFields defs vs rest)) = some (some (view defs (.text protocol))) :=
    entryOf_single [("type",.text name)] _ (.cons (by decide) .nil) (.cons hkey.2 (hbehind hprotocol))
  by_cases hname : name = "attach"
  · have hmin : key ≠ "protocolVersion" := by
      rw [hkeydef, if_pos hname]
      decide
    have hthree : entryOf "protocolVersion" (viewEntries defs (("type",.text name) :: ("protocol",.text protocol) ::
        (key,.int version) :: encodeFields defs vs rest)) = some none :=
      entryOf_without (.cons (by decide) (.cons (by decide) (.cons hmin (hbehind hversion))))
    rw [if_pos hname]
    exact read_header hone htwo hthree rfl
  · have hversion' : key = "protocolVersion" := by rw [hkeydef, if_neg hname]
    have hthree : entryOf "protocolVersion" (viewEntries defs (("type",.text name) :: ("protocol",.text protocol) ::
        ("protocolVersion",.int version) :: encodeFields defs vs rest)) = some (some (view defs (.int version))) :=
      entryOf_single [("type",.text name),("protocol",.text protocol)] _ (.cons (by decide) (.cons (by decide) .nil)) (hbehind hversion)
    rw [if_neg hname, hversion']
    rw [hversion'] at hone htwo
    refine read_header hone htwo hthree ?_
    have hbound : 0 ≤ version ∧ version < 2 ^ 32 := ⟨hlow,hhigh⟩
    simp only [Option.elim_some, View.readShape, view, if_pos hbound]
    rfl

/-! ## What is lost -/

def plainType : UiType → Bool
  | .uiNode | .uiDeltaOperation | .uiMessage => false
  | _ => true

theorem plainType_sound (n : UiType) (h : plainType n = true) : (defs n).sound plainType = true := by
  cases n <;> first | rfl | cases h

def emptyStatus : Value := .record [.seq [],.some (.text "")]

def hasFooter (name : String) : Bool := name = "markdownEditor" || name = "page" || name = "tree"

/-- `UiNode::footer`: the last field of the components that have one. -/
def footer : Value → Option Value
  | .record [_,.variant name [.record spec]] => if hasFooter name then spec.getLast? else none
  | _ => none

def replacedRoot : Value → Option Value
  | .variant name [root] => if name = "replaceRoot" then some root else none
  | _ => none

def roots : Value → List Value
  | .variant name [.record fields] =>
    if name = "snapshot" then fields.getLast?.toList
    else if name = "delta" then
      match fields.getLast? with
      | some (.seq operations) => operations.filterMap replacedRoot
      | _ => []
    else []
  | _ => []

def KeepsStatus (m : Value) : Prop := ∀ node ∈ roots m, footer node ≠ some emptyStatus

def footerField : Fields UiType := .unless "footer" (.ref .footerActions) footerActionsIsEmpty footerActionsDefault .nil

theorem seq_of_many {n : UiType} (h : hasShape defs v (many n) = true) :
    ∃ vs, v = .seq vs ∧ allHaveShape defs vs (.ref n) = true := by
  cases v with
  | seq vs => exact ⟨vs,rfl,by simpa [many, hasShape] using h⟩
  | _ => simp [many, hasShape] at h

theorem option_of_text (h : hasShape defs v (.option .text : Shape UiType) = true) : v = .none ∨ ∃ t, v = .some (.text t) := by
  cases v with
  | none => exact Or.inl rfl
  | some v =>
    rw [hasShape] at h
    obtain ⟨t,rfl⟩ := text_of_shape h
    exact Or.inr ⟨t,rfl⟩
  | _ => simp [hasShape] at h

/-- A footer is kept unless its predicate takes an empty status for none. -/
theorem kept_footer (h : hasFields defs [v] footerField = true) : KeptFields defs [v] footerField ↔ v ≠ emptyStatus := by
  rw [footerField, Fields.unless] at h ⊢
  obtain ⟨_,_,heq,hshape,-⟩ := fields_of_field h
  cases heq
  have hkept : Kept defs v (.plain (.ref .footerActions)) := (kept_of_sound plainType_sound v).1 _ rfl
  obtain ⟨vs,rfl,hfields⟩ := record_of_struct (hasLayout_of_ref (n := UiType.footerActions) rfl hshape)
  obtain ⟨actions,vs,rfl,hactions,hfields⟩ := fields_of_field hfields
  obtain ⟨status,vs,rfl,hstatus,hnil⟩ := fields_of_field hfields
  obtain rfl := eq_nil_of_fields hnil
  obtain ⟨actions,rfl,-⟩ := seq_of_many hactions
  rw [keptFields_field, Presence.leavesOut, Presence.default]
  cases actions with
  | cons action actions => simp [footerActionsIsEmpty, Skip.accepts, emptyStatus, hkept]
  | nil =>
    rcases option_of_text hstatus with rfl | ⟨t,rfl⟩
    · simp [footerActionsIsEmpty, Skip.accepts, emptyStatus, footerActionsDefault]
    · by_cases ht : t = ""
      · simp [footerActionsIsEmpty, Skip.accepts, emptyStatus, footerActionsDefault, ht]
      · simp [footerActionsIsEmpty, Skip.accepts, emptyStatus, hkept, ht]

theorem kept_component (hbefore : fields.soundBefore plainType = true)
    (hlast : fields.last = footerField) (h : hasLayout defs spec (.struct fields) = true) :
    ∃ vs, spec = .record vs ∧ (KeptObject defs spec (.struct fields) ↔ vs.getLast? ≠ some emptyStatus) := by
  obtain ⟨vs,rfl,hfields⟩ := record_of_struct h
  obtain ⟨front,last,rfl,hfooter,hiff⟩ := keptFields_iff_last plainType_sound hbefore hfields
  rw [hlast] at hfooter hiff
  refine ⟨_,rfl,?_⟩
  rw [KeptObject, hiff, kept_footer hfooter, List.getLast?_concat, ne_eq, ne_eq, Option.some.injEq]

theorem footer_eq_none {id : Value} (hname : hasFooter name = false) :
    footer (.record [id,.variant name [spec]]) = none := by
  cases spec <;> simp [footer, hname]

theorem component_fields (hdef : uiComponent = .tagged tag variants) (hfind : variants.find name = some fields) :
    ∃ layout, fields = .flatten layout .nil ∧ (hasFooter name = false ∧ layout.sound plainType = true ∨
      hasFooter name = true ∧ ∃ body : Fields UiType, layout = .struct body ∧ body.soundBefore plainType = true ∧ body.last = footerField) := by
  cases hdef
  repeat
    rcases Variants.of_find_cons hfind with ⟨rfl,rfl⟩ | hfind
    · first
        | exact ⟨_,rfl,Or.inl ⟨rfl,rfl⟩⟩
        | exact ⟨_,rfl,Or.inr ⟨rfl,_,rfl,rfl,rfl⟩⟩
  cases hfind

theorem kept_node {node : Value} (h : hasShape defs node (named .uiNode) = true) :
    Kept defs node (named .uiNode) ↔ footer node ≠ some emptyStatus := by
  obtain ⟨vs,rfl,hfields⟩ := record_of_struct (hasLayout_of_ref (n := UiType.uiNode) rfl h)
  obtain ⟨id,vs,rfl,-,hfields⟩ := fields_of_field hfields
  obtain ⟨component,vs,rfl,hcomponent,hnil⟩ := fields_of_flatten hfields
  obtain rfl := eq_nil_of_fields hnil
  obtain ⟨name,ws,fields,rfl,hfind,hws⟩ := variant_of_tagged hcomponent
  obtain ⟨layout,rfl,hlayout⟩ := component_fields rfl hfind
  obtain ⟨spec,ws,rfl,hspec,hnil⟩ := fields_of_flatten hws
  obtain rfl := eq_nil_of_fields hnil
  have hid : Kept defs id (text : Shape UiType) := (kept_of_sound plainType_sound id).1 _ rfl
  have hkept : Kept defs (.record [id,.variant name [spec]]) (named .uiNode) ↔ KeptObject defs spec layout := by
    show KeptFields defs [id,.variant name [spec]] _ ↔ _
    rw [keptFields_required, keptFields_flatten, and_iff_right hid, uiComponent, KeptObject, hfind, Option.getD_some, keptFields_flatten]
  rw [hkept]
  rcases hlayout with ⟨hname,hsound⟩ | ⟨hname,body,rfl,hbefore,hlast⟩
  · rw [footer_eq_none hname]
    exact iff_of_true ((kept_of_sound plainType_sound spec).2 layout hsound) (Option.some_ne_none _).symm
  · obtain ⟨vs,rfl,hiff⟩ := kept_component hbefore hlast hspec
    rw [hiff, footer, if_pos hname]

/-- Of the operations, only the one with a root in it can lose a status. -/
theorem kept_operation {operation : Value} (h : hasShape defs operation (named .uiDeltaOperation) = true) :
    Kept defs operation (named .uiDeltaOperation) ↔ ∀ node ∈ replacedRoot operation, footer node ≠ some emptyStatus := by
  obtain ⟨name,vs,fields,rfl,hfind,hfields⟩ := variant_of_tagged (hasLayout_of_ref (n := UiType.uiDeltaOperation) rfl h)
  have hkept : Kept defs (.variant name vs) (named .uiDeltaOperation) ↔ KeptFields defs vs fields := by
    show KeptFields defs vs ((Variants.find name _).getD .nil) ↔ _
    rw [hfind, Option.getD_some]
  rw [hkept]
  by_cases hname : name = "replaceRoot"
  · subst hname
    cases hfind
    obtain ⟨root,vs,rfl,hroot,hnil⟩ := fields_of_field hfields
    obtain rfl := eq_nil_of_fields hnil
    rw [keptFields_required, kept_node hroot, replacedRoot, if_pos rfl]
    simp [KeptFields]
  · have hsound : fields.sound plainType = true := by
      rw [Variants.find, if_neg (Ne.symm hname)] at hfind
      exact Variants.sound_of_find rfl hfind
    have hnone : replacedRoot (.variant name vs) = none := by
      rcases vs with _ | ⟨root,_ | _⟩
      · rfl
      · rw [replacedRoot, if_neg hname]
      · rfl
    rw [hnone]
    exact iff_of_true ((kept_of_sound plainType_sound (.record vs)).2 (.struct fields) hsound) (fun node hnode => by cases hnode)

theorem message_layout (hdef : uiMessage = .tagged tag variants) (hfind : variants.find name = some fields) :
    ∃ layout, fields = .flatten layout .nil ∧ (name ≠ "snapshot" ∧ name ≠ "delta" ∧ layout.sound plainType = true ∨
      ∃ body : Fields UiType, layout = .struct body ∧ body.soundBefore plainType = true ∧
        (name = "snapshot" ∧ body.last = .required "root" (named .uiNode) .nil ∨
          name = "delta" ∧ body.last = .required "operations" (many .uiDeltaOperation) .nil)) := by
  cases hdef
  repeat
    rcases Variants.of_find_cons hfind with ⟨rfl,rfl⟩ | hfind
    · first
        | exact ⟨_,rfl,Or.inl ⟨by decide,by decide,rfl⟩⟩
        | exact ⟨_,rfl,Or.inr ⟨_,rfl,rfl,Or.inl ⟨rfl,rfl⟩⟩⟩
        | exact ⟨_,rfl,Or.inr ⟨_,rfl,rfl,Or.inr ⟨rfl,rfl⟩⟩⟩
  cases hfind

theorem roots_eq_nil (hsnapshot : name ≠ "snapshot") (hdelta : name ≠ "delta") :
    roots (.variant name [spec]) = [] := by
  cases spec <;> simp [roots, hsnapshot, hdelta]

/-- A message loses nothing but an empty status that stands alone in a footer. -/
theorem kept_message {m : Value} (h : hasShape defs m (named .uiMessage) = true) : Kept defs m (named .uiMessage) ↔ KeepsStatus m := by
  obtain ⟨name,vs,fields,rfl,hfind,hfields⟩ := variant_of_tagged (hasLayout_of_ref (n := UiType.uiMessage) rfl h)
  obtain ⟨layout,rfl,hlayout⟩ := message_layout rfl hfind
  obtain ⟨spec,vs,rfl,hspec,hnil⟩ := fields_of_flatten hfields
  obtain rfl := eq_nil_of_fields hnil
  have hkept : Kept defs (.variant name [spec]) (named .uiMessage) ↔ KeptObject defs spec layout := by
    show KeptFields defs [spec] ((Variants.find name _).getD .nil) ↔ _
    rw [hfind, Option.getD_some, keptFields_flatten]
  rw [hkept]
  rcases hlayout with ⟨hsnapshot,hdelta,hsound⟩ | ⟨body,rfl,hbefore,hlast⟩
  · rw [KeepsStatus, roots_eq_nil hsnapshot hdelta]
    exact iff_of_true ((kept_of_sound plainType_sound spec).2 layout hsound) (fun node hnode => by cases hnode)
  · obtain ⟨vs,rfl,hvs⟩ := record_of_struct hspec
    obtain ⟨front,last,rfl,hshape,hiff⟩ := keptFields_iff_last plainType_sound hbefore hvs
    rw [KeptObject, hiff]
    rcases hlast with ⟨rfl,hlast⟩ | ⟨rfl,hlast⟩
    · rw [hlast] at hshape ⊢
      obtain ⟨_,_,heq,hroot,-⟩ := fields_of_field hshape
      cases heq
      have hroots : roots (.variant "snapshot" [.record (front ++ [last])]) = [last] := by simp [roots]
      rw [keptFields_required, kept_node hroot, KeepsStatus, hroots, List.forall_mem_singleton]
      simp [KeptFields]
    · rw [hlast] at hshape ⊢
      obtain ⟨_,_,heq,hmany,-⟩ := fields_of_field hshape
      cases heq
      obtain ⟨operations,rfl,hall⟩ := seq_of_many hmany
      have hroots : roots (.variant "delta" [.record (front ++ [.seq operations])]) = operations.filterMap replacedRoot := by simp [roots]
      have hoperations : Kept defs (.seq operations) (many .uiDeltaOperation) ↔
          ∀ operation ∈ operations, ∀ node ∈ replacedRoot operation, footer node ≠ some emptyStatus := by
        rw [many, Kept, allKept_iff]
        exact forall₂_congr fun operation hoperation => kept_operation (hasShape_of_mem hall hoperation)
      rw [keptFields_required, hoperations, KeepsStatus, hroots]
      simp only [KeptFields, and_true, List.mem_filterMap]
      constructor
      · rintro hall node ⟨operation,hoperation,hnode⟩
        exact hall operation hoperation node hnode
      · intro hall operation hoperation node hnode
        exact hall node ⟨operation,hoperation,hnode⟩

/-! ## Frames -/

section
variable {checks : Checks} {serde : SerdeJson}

theorem of_validate {m : Value} (h : validate checks m = .ok ()) : validateRoute m = .ok () ∧ m.finite = true := by
  obtain ⟨_,hroute,hfinite⟩ := Fallible.bind_eq_ok h
  refine ⟨hroute,?_⟩
  by_contra hnot
  rw [if_neg hnot] at hfinite
  cases hfinite

theorem name_of_validateHeader {protocol : String} {version : ℤ} (h : validateHeader protocol version = .ok ()) :
    validateProtocolName protocol = .ok () := by
  obtain ⟨_,hname,-⟩ := Fallible.bind_eq_ok h
  exact hname

theorem validateMessageHeader_of_validate {name protocol : String} {version : ℤ} {vs : List Value}
    (h : validate checks (.variant name [.record (.text protocol :: .int version :: vs)]) = .ok ()) :
    validateMessageHeader (.record [.text name,.text protocol,if name = "attach" then .none else .some (.int version)]) = .ok () := by
  have hheader := (of_validate h).1
  rw [validateRoute] at hheader
  split_ifs at hheader ⊢ with hname
  · simp only [validateMessageHeader, hheader, hname, ne_eq, not_true_eq_false, if_false]
    rfl
  · simp only [validateMessageHeader, name_of_validateHeader hheader, hname, ne_eq, not_false_eq_true, if_true, hheader]
    rfl

theorem frame_of_encode {m : Value} {frame : List UInt8} (h : encodeUiFrame checks serde m = .ok frame) :
    validate checks m = .ok () ∧ (serde.toVec (encode defs m (named .uiMessage))).length ≤ maxUiFrameBytes ∧
      frame = serde.toVec (encode defs m (named .uiMessage)) ++ [10] := by
  obtain ⟨_,hvalid,h⟩ := Fallible.bind_eq_ok h
  refine ⟨hvalid,?_⟩
  dsimp only at h
  split_ifs at h with hlong
  cases h
  exact ⟨Nat.le_of_not_lt hlong,rfl⟩

/-- Of what was encoded, all that is left to do is to read the message and to check it. -/
theorem decode_of_encode (m : UiMessage) (hvalid : validate checks m.value = .ok ())
    (hserde : serde.Faithful (encode defs m.value (named .uiMessage)))
    (hlength : (serde.toVec (encode defs m.value (named .uiMessage))).length ≤ maxUiFrameBytes) :
    decodeUiFrame checks serde (serde.toVec (encode defs m.value (named .uiMessage))) =
      match decode defs (encode defs m.value (named .uiMessage)) (named .uiMessage) with
      | some message => (validate checks message).map fun _ => message
      | none => .error .json := by
  obtain ⟨m,hshape⟩ := m
  obtain ⟨name,protocol,version,vs,rest,rfl,hlow,hhigh,htype,hprotocol,hversion,hencode⟩ := message_shape hshape
  dsimp only at *
  have hspaces : (serde.toVec (encode defs (.variant name [.record (.text protocol :: .int version :: vs)]) (named .uiMessage))).all
      isAsciiWhitespace = false := by
    obtain ⟨tail,htail⟩ := List.head?_eq_some_iff.mp hserde.opens
    rw [htail, List.all_cons]
    rfl
  have hheader : readAs serde .messageHeader (serde.toVec (encode defs (.variant name [.record (.text protocol :: .int version :: vs)])
      (named .uiMessage))) = .ok (.record [.text name,.text protocol,if name = "attach" then .none else .some (.int version)]) := by
    rw [readAs, hserde.readsBack, Option.bind_some, hencode, decode_header hlow hhigh htype hprotocol hversion]
  rw [decodeUiFrame, if_neg (Nat.not_lt.mpr hlength), hspaces, hheader]
  simp only [Bool.false_eq_true, if_false]
  change (validateMessageHeader _ >>= _) = _
  rw [validateMessageHeader_of_validate hvalid]
  change (readAs serde .uiMessage _ >>= _) = _
  rw [readAs, hserde.readsBack, Option.bind_some]
  rcases decode defs _ (named .uiMessage) with _ | message
  · rfl
  · change (validate checks message >>= _) = (validate checks message).map _
    rcases validate checks message with e | _ <;> rfl

/-- What was written reads back as the message exactly if its footers keep their status. -/
theorem decode_eq_iff (m : UiMessage) (hvalid : validate checks m.value = .ok ())
    (hserde : serde.Faithful (encode defs m.value (named .uiMessage)))
    (hlength : (serde.toVec (encode defs m.value (named .uiMessage))).length ≤ maxUiFrameBytes) :
    decodeUiFrame checks serde (serde.toVec (encode defs m.value (named .uiMessage))) = .ok m.value ↔ KeepsStatus m.value := by
  rw [decode_of_encode m hvalid hserde hlength, ← kept_message m.shape,
    ← decode_encode_iff defs_distinct m.shape (of_validate hvalid).2]
  constructor
  · intro hdecode
    split at hdecode
    · rename_i message hmessage
      rcases hchecked : validate checks message with e | ⟨⟩
      · rw [hchecked] at hdecode
        cases hdecode
      · rw [hchecked] at hdecode
        obtain rfl : message = m.value := Except.ok.inj hdecode
        exact hmessage
    · cases hdecode
  · intro hdecode
    rw [hdecode]
    dsimp only
    rw [hvalid]
    rfl

theorem encode_of_valid {m : Value} (hvalid : validate checks m = .ok ())
    (hlength : (serde.toVec (encode defs m (named .uiMessage))).length ≤ maxUiFrameBytes) :
    encodeUiFrame checks serde m = .ok (serde.toVec (encode defs m (named .uiMessage)) ++ [10]) := by
  rw [encodeUiFrame, hvalid]
  exact if_neg (Nat.not_lt.mpr hlength)

end

/-- A frame that is written has one newline, at its end, and its line reads back as the message exactly if no node that
the message brings has a footer without actions whose status is there but empty. -/
theorem roundTrip_iff_keepsStatus (checks : Checks) (serde : SerdeJson) (m : UiMessage) (frame : List UInt8)
    (hserde : serde.Faithful (encode defs m.value (named .uiMessage))) (hencode : encodeUiFrame checks serde m.value = .ok frame) :
    (frame.count 10 = 1 ∧ frame.getLast? = some 10 ∧ decodeUiFrame checks serde frame.dropLast = .ok m.value) ↔
      KeepsStatus m.value := by
  obtain ⟨hvalid,hlength,rfl⟩ := frame_of_encode hencode
  have hcount : (serde.toVec (encode defs m.value (named .uiMessage)) ++ [10]).count 10 = 1 := by
    rw [List.count_append, List.count_eq_zero_of_not_mem hserde.oneLine]
    rfl
  rw [List.dropLast_concat, decode_eq_iff m hvalid hserde hlength, hcount, List.getLast?_concat]
  simp

def SerdeJson.single (json : Json) (text : String) : SerdeJson where
  toVec _ := text.toUTF8.toList
  fromSlice frame := if frame = text.toUTF8.toList then some json else none

def Checks.none : Checks where
  notFinite _ := .json
  others _ := .ok ()

/-- A snapshot of an empty tree. -/
def filesSnapshot (footer : Value) : Value :=
  .variant "snapshot" [.record [.text "unpeel.ui",.int 1,.text "app",.text "client",.text "view",.int 1,
    .record [.text "root",.variant "tree" [.record [.text "Files",.text "/",.variant "drillDown" [],.none,.seq [],.none,.none,.none,.none,
      treeActionsDefault,footer]]]]]

def filesCodec (footer : Value) (text : String) : SerdeJson := .single (encode defs (filesSnapshot footer) (named .uiMessage)) <|
  "\x7b\"type\":\"snapshot\",\"protocol\":\"unpeel.ui\",\"protocolVersion\":1,\"appInstanceId\":\"app\",\"clientId\":\"client\"," ++
  "\"viewId\":\"view\",\"revision\":1,\"root\":\x7b\"id\":\"root\",\"type\":\"tree\",\"label\":\"Files\",\"location\":\"/\"," ++
  "\"presentation\":\"drillDown\",\"items\":[],\"actions\":\x7b\"select\":\"tree-select\",\"open\":\"tree-open\"," ++
  "\"parent\":\"tree-parent\"\x7d" ++ text ++ "\x7d\x7d"

def statusFooter : Value := .record [
  .seq [.record [.text "clear",.text "Clear",.text "delete",.none,.variant "danger" [],.bool false,.bool false]],.some (.text "2 files")]

def statusSnapshot : UiMessage where
  value := filesSnapshot statusFooter
  shape := by
    simp [filesSnapshot, statusFooter, named, hasShape, defs, uiMessage, hasVariant, Variants.find, hasFields, hasLayout, allHaveShape,
      uiSnapshot, uiNode, uiComponent, tree, treeActions, footerActions, footerAction, treeActionsDefault, Fields.required, Fields.defaulted,
      Fields.optional, Fields.unless, text, u32, u64, many]

def statusCodec : SerdeJson := filesCodec statusFooter
  ",\"footer\":\x7b\"actions\":[\x7b\"id\":\"clear\",\"label\":\"Clear\",\"action\":\"delete\",\"role\":\"danger\"\x7d],\"status\":\"2 files\"\x7d"

theorem statusSnapshot_roundTrips :
    ∃ frame, encodeUiFrame .none statusCodec statusSnapshot.value = .ok frame ∧ frame.count 10 = 1 ∧ frame.getLast? = some 10 ∧
      decodeUiFrame .none statusCodec frame.dropLast = .ok statusSnapshot.value := by
  have hserde : statusCodec.Faithful (encode defs statusSnapshot.value (named .uiMessage)) :=
    ⟨if_pos rfl,List.count_eq_zero.mp (by decide +kernel),by decide +kernel⟩
  have hvalid : validate .none statusSnapshot.value = .ok () := rfl
  have hencode := @encode_of_valid .none statusCodec _ hvalid (by decide +kernel)
  have hkeeps : KeepsStatus statusSnapshot.value := by
    simp [KeepsStatus, roots, statusSnapshot, filesSnapshot, footer, hasFooter, statusFooter, emptyStatus]
  exact ⟨_,hencode,(roundTrip_iff_keepsStatus .none statusCodec statusSnapshot _ hserde hencode).mpr hkeeps⟩

def blankSnapshot : UiMessage where
  value := filesSnapshot emptyStatus
  shape := by
    simp [filesSnapshot, named, hasShape, defs, uiMessage, hasVariant, Variants.find, hasFields, hasLayout, allHaveShape, uiSnapshot, uiNode,
      uiComponent, tree, treeActions, footerActions, treeActionsDefault, emptyStatus, Fields.required, Fields.defaulted,
      Fields.optional, Fields.unless, text, u32, u64, many]

def blankCodec : SerdeJson := filesCodec emptyStatus ""

theorem blankSnapshot_lost :
    ∃ frame, encodeUiFrame .none blankCodec blankSnapshot.value = .ok frame ∧
      blankCodec.Faithful (encode defs blankSnapshot.value (named .uiMessage)) ∧
      decodeUiFrame .none blankCodec frame.dropLast ≠ .ok blankSnapshot.value := by
  have hserde : blankCodec.Faithful (encode defs blankSnapshot.value (named .uiMessage)) :=
    ⟨if_pos rfl,List.count_eq_zero.mp (by decide +kernel),by decide +kernel⟩
  have hvalid : validate .none blankSnapshot.value = .ok () := rfl
  have hlength : (blankCodec.toVec (encode defs blankSnapshot.value (named .uiMessage))).length ≤ maxUiFrameBytes := by decide +kernel
  have hlost : ¬KeepsStatus blankSnapshot.value := by
    simp [KeepsStatus, roots, blankSnapshot, filesSnapshot, footer, hasFooter]
  refine ⟨_,encode_of_valid hvalid hlength,hserde,?_⟩
  rw [List.dropLast_concat]
  exact fun hdecode => hlost ((decode_eq_iff blankSnapshot hvalid hserde hlength).mp hdecode)

end Unpeel.AppKit.UiFrames
