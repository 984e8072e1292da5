import Mathlib.Algebra.Group.Int.Defs
import Mathlib.Data.List.Basic

/-! # Shapes of derived codecs

What `serde` derives for a type is fixed by its shape: the names of its fields and variants, the
tags, the flattening, and when a field is left out and what stands for it then. A value is encoded
as a JSON value by its shape and read back by it; named types are looked up in a table, so that they
may be recursive.
-/
namespace Unpeel.Serde

structure Double where
  bits : BitVec 64
deriving DecidableEq

namespace Double

def isFinite (x : Double) : Bool := x.bits.extractLsb 62 52 ≠ 2047

def canonical (x : Double) : Double := if x.bits.extractLsb 62 0 = 0 then ⟨0⟩ else x

end Double

inductive Json where
  | null
  | bool (b : Bool)
  | int (i : ℤ)
  | float (x : Double)
  | text (t : String)
  | arr (items : List Json)
  | obj (entries : List (String × Json))

/-- A value of a derived type: options, sequences, the fields of a struct in their order, and a
variant with its fields. -/
inductive Value where
  | bool (b : Bool)
  | int (i : ℤ)
  | float (x : Double)
  | text (t : String)
  | none
  | some (v : Value)
  | seq (vs : List Value)
  | record (vs : List Value)
  | variant (name : String) (vs : List Value)

/-- What stands in one field, below options and sequences. `canonical` floats hold no signed zero. -/
inductive Atom (N : Type) where
  | bool
  | unsigned (bits : ℕ)
  | signed (bits : ℕ)
  | float
  | canonical
  | text
  | ref (name : N)

inductive Shape (N : Type) where
  | plain (a : Atom N)
  | option (a : Atom N)
  | seq (a : Atom N)

/-- Predicates of `skip_serializing_if`. -/
inductive Skip where
  | isNone
  | isEmptySeq
  | isEmptyText
  | isFalse
  | isInt (i : ℤ)
  | isVariant (name : String)
  | isNones (count : ℕ)
  | test (f : Value → Bool)

inductive Presence where
  | required
  | defaulted (default : Value)
  | skipped (skip : Skip) (default : Value)

mutual

inductive Fields (N : Type) where
  | nil
  | field (name : String) (shape : Shape N) (presence : Presence) (rest : Fields N)
  | flatten (inner : Layout N) (rest : Fields N)

inductive Layout (N : Type) where
  | struct (fields : Fields N)
  | tagged (tag : String) (variants : Variants N)

inductive Variants (N : Type) where
  | nil
  | cons (name : String) (fields : Fields N) (rest : Variants N)

end

inductive Def (N : Type) where
  | object (layout : Layout N)
  | enumeration (names : List String)
  | adjacent (tag content : String) (variants : List (String × Option (Shape N)))

variable {N : Type}

def Fields.required (name : String) (shape : Shape N) : Fields N → Fields N := .field name shape .required

/-- `default`. -/
def Fields.defaulted (name : String) (shape : Shape N) (default : Value) : Fields N → Fields N := .field name shape (.defaulted default)

/-- `default, skip_serializing_if`. -/
def Fields.unless (name : String) (a : Atom N) (skip : Skip) (default : Value) : Fields N → Fields N :=
  .field name (.plain a) (.skipped skip default)

/-- `default, skip_serializing_if = "Option::is_none"`. -/
def Fields.optional (name : String) (a : Atom N) : Fields N → Fields N := .field name (.option a) (.skipped .isNone .none)

/-- `default, skip_serializing_if = "Vec::is_empty"`. -/
def Fields.items (name : String) (a : Atom N) : Fields N → Fields N := .field name (.seq a) (.skipped .isEmptySeq (.seq []))

/-- `default, skip_serializing_if = "String::is_empty"`. -/
def Fields.textOrEmpty (name : String) : Fields N → Fields N := .unless name .text .isEmptyText (.text "")

def allNone : List Value → Bool
  | [] => true
  | .none :: vs => allNone vs
  | _ => false

def Skip.accepts : Skip → Value → Bool
  | .isNone, .none => true
  | .isEmptySeq, .seq [] => true
  | .isEmptyText, .text t => t = ""
  | .isFalse, .bool b => !b
  | .isInt i, .int j => i = j
  | .isVariant name, .variant other [] => name = other
  | .isNones count, .record vs => vs.length = count && allNone vs
  | .test f, v => f v
  | _, _ => false

def Presence.leavesOut : Presence → Value → Bool
  | .skipped skip _, v => skip.accepts v
  | _, _ => false

def Presence.default : Presence → Value
  | .skipped _ default => default
  | .defaulted default => default
  | .required => .none

def Presence.missing : Presence → Shape N → Option Value
  | .required, .option _ => some .none
  | .required, _ => none
  | .defaulted default, _ => some default
  | .skipped _ default, _ => some default

def Variants.find (name : String) : Variants N → Option (Fields N)
  | .nil => none
  | .cons other fields rest => if other = name then some fields else rest.find name

/-! ## Encoding -/

section
variable (defs : N → Def N)

mutual

def encode : Value → Shape N → Json
  | .none, _ => .null
  | .some v, .option a => encode v (.plain a)
  | .seq vs, .seq a => .arr (encodeAll vs a)
  | .bool b, _ => .bool b
  | .int i, _ => .int i
  -- JSON has no other numbers
  | .float x, _ => if x.isFinite then .float x else .null
  | .text t, _ => .text t
  | .record vs, .plain (.ref n) =>
    match defs n with
    | .object (.struct fields) => .obj (encodeFields vs fields)
    | _ => .null
  | .variant name vs, .plain (.ref n) =>
    match defs n with
    | .object (.tagged tag variants) => .obj ((tag,.text name) :: encodeFields vs ((variants.find name).getD .nil))
    | .enumeration _ => .text name
    | .adjacent tag content variants => .obj ((tag,.text name) :: encodeContent content vs (variants.lookup name).join)
    | _ => .null
  | _, _ => .null

def encodeObject : Value → Layout N → List (String × Json)
  | .record vs, .struct fields => encodeFields vs fields
  | .variant name vs, .tagged tag variants => (tag,.text name) :: encodeFields vs ((variants.find name).getD .nil)
  | _, _ => []

def encodeAll : List Value → Atom N → List Json
  | [], _ => []
  | v :: vs, a => encode v (.plain a) :: encodeAll vs a

def encodeContent (content : String) : List Value → Option (Shape N) → List (String × Json)
  | v :: _, some shape => [(content,encode v shape)]
  | _, _ => []

def encodeFields : List Value → Fields N → List (String × Json)
  | v :: vs, .field name shape presence rest =>
    if presence.leavesOut v then encodeFields vs rest else (name,encode v shape) :: encodeFields vs rest
  | v :: vs, .flatten inner rest => encodeObject v inner ++ encodeFields vs rest
  | _, _ => []

end

/-! ## Decoding -/

structure View (N : Type) where
  isNull : Bool
  read : Atom N → Option Value
  items : Option (List (Atom N → Option Value))

def View.readShape (view : View N) : Shape N → Option Value
  | .plain a => view.read a
  | .option a => if view.isNull then some .none else (view.read a).map .some
  | .seq a => view.items.bind fun items => (items.mapM fun item : Atom N → Option Value => item a).map .seq

def Fields.own : Fields N → List String
  | .nil => []
  | .field name _ _ rest => name :: rest.own
  | .flatten _ rest => rest.own

def entryOf (name : String) (entries : List (String × View N)) : Option (Option (View N)) :=
  match entries.filter (·.1 = name) with
  | [] => some none
  | [(_,view)] => some (some view)
  | _ => none

mutual

def readFields (own : List String) (entries : List (String × View N)) : Fields N → Option (List Value)
  | .nil => some []
  | .field name shape presence rest => do
    let found ← entryOf name entries
    let v ← match found with
      | none => presence.missing shape
      | some view => view.readShape shape
    let vs ← readFields own entries rest
    return v :: vs
  | .flatten inner rest => do
    let v ← readLayout (entries.filter fun entry => !own.contains entry.1) inner
    let vs ← readFields own entries rest
    return v :: vs

def readLayout (entries : List (String × View N)) : Layout N → Option Value
  | .struct fields => (readFields fields.own entries fields).map .record
  | .tagged tag variants => do
    let found ← entryOf tag entries
    match ← (← found).read .text with
    | .text name => readVariants name (entries.filter (·.1 ≠ tag)) variants
    | _ => none

def readVariants (name : String) (entries : List (String × View N)) : Variants N → Option Value
  | .nil => none
  | .cons other fields rest =>
    if other = name then (readFields fields.own entries fields).map (.variant name) else readVariants name entries rest

end

def readAdjacent (tag content : String) (variants : List (String × Option (Shape N))) (entries : List (String × View N)) :
    Option Value := do
  let found ← entryOf tag entries
  match ← (← found).read .text with
  | .text name =>
    match ← variants.lookup name with
    | none => some (.variant name [])
    | some shape => do
      let found ← entryOf content entries
      let v ← (← found).readShape shape
      return .variant name [v]
  | _ => none

def readDef : Def N → List (String × View N) → Option Value
  | .object layout, entries => readLayout entries layout
  | .adjacent tag content variants, entries => readAdjacent tag content variants entries
  | .enumeration _, _ => none

mutual

def view : Json → View N
  | .null => ⟨true,fun _ => none,none⟩
  | .bool b => ⟨false,fun | .bool => some (.bool b) | _ => none,none⟩
  | .int i => ⟨false,fun
    | .unsigned bits => if 0 ≤ i ∧ i < 2 ^ bits then some (.int i) else none
    | .signed bits => if -2 ^ (bits - 1) ≤ i ∧ i < 2 ^ (bits - 1) then some (.int i) else none
    | _ => none,none⟩
  -- a float is always written with a point or an exponent
  | .float x => ⟨false,fun
    | .float => some (.float x)
    | .canonical => some (.float x.canonical)
    | _ => none,none⟩
  | .text t => ⟨false,fun
    | .text => some (.text t)
    | .ref n =>
      match defs n with
      | .enumeration names => if names.contains t then some (.variant t []) else none
      | _ => none
    | _ => none,none⟩
  | .arr items => ⟨false,fun _ => none,some ((viewAll items).map View.read)⟩
  | .obj entries =>
    let entries := viewEntries entries
    ⟨false,fun | .ref n => readDef (defs n) entries | _ => none,none⟩

def viewAll : List Json → List (View N)
  | [] => []
  | item :: items => view item :: viewAll items

def viewEntries : List (String × Json) → List (String × View N)
  | [] => []
  | entry :: entries => viewEntry entry :: viewEntries entries

def viewEntry : String × Json → String × View N
  | (name,json) => (name,view json)

end

def decode (json : Json) (shape : Shape N) : Option Value := (view defs json).readShape shape

/-! ## Values of a shape -/

mutual

def hasShape : Value → Shape N → Bool
  | .none, .option _ => true
  | .some v, .option a => hasShape v (.plain a)
  | .seq vs, .seq a => allHaveShape vs a
  | .bool _, .plain .bool => true
  | .int i, .plain (.unsigned bits) => 0 ≤ i ∧ i < 2 ^ bits
  | .int i, .plain (.signed bits) => -2 ^ (bits - 1) ≤ i ∧ i < 2 ^ (bits - 1)
  | .float _, .plain .float => true
  | .float x, .plain .canonical => x.canonical = x
  | .text _, .plain .text => true
  | .record vs, .plain (.ref n) =>
    match defs n with
    | .object (.struct fields) => hasFields vs fields
    | _ => false
  | .variant name vs, .plain (.ref n) =>
    match defs n with
    | .object (.tagged _ variants) => hasVariant vs (variants.find name)
    | .enumeration names => names.contains name && vs.isEmpty
    | .adjacent _ _ variants => hasContent vs (variants.lookup name)
    | _ => false
  | _, _ => false

def hasLayout : Value → Layout N → Bool
  | .record vs, .struct fields => hasFields vs fields
  | .variant name vs, .tagged _ variants => hasVariant vs (variants.find name)
  | _, _ => false

def allHaveShape : List Value → Atom N → Bool
  | [], _ => true
  | v :: vs, a => hasShape v (.plain a) && allHaveShape vs a

def hasVariant (vs : List Value) : Option (Fields N) → Bool
  | some fields => hasFields vs fields
  | none => false

def hasContent : List Value → Option (Option (Shape N)) → Bool
  | [], some none => true
  | v :: vs, some (some shape) => hasShape v shape && vs.isEmpty
  | _, _ => false

def hasFields : List Value → Fields N → Bool
  | [], .nil => true
  | v :: vs, .field _ shape _ rest => hasShape v shape && hasFields vs rest
  | v :: vs, .flatten inner rest => hasLayout v inner && hasFields vs rest
  | _, _ => false

end

mutual

def Value.finite : Value → Bool
  | .float x => x.isFinite
  | .some v => v.finite
  | .seq vs => allFinite vs
  | .record vs => allFinite vs
  | .variant _ vs => allFinite vs
  | _ => true

def allFinite : List Value → Bool
  | [] => true
  | v :: vs => v.finite && allFinite vs

end

mutual

def normal : Value → Shape N → Value
  | .some v, .option a => .some (normal v (.plain a))
  | .seq vs, .seq a => .seq (normalAll vs a)
  | .record vs, .plain (.ref n) =>
    match defs n with
    | .object (.struct fields) => .record (normalFields vs fields)
    | _ => .record vs
  | .variant name vs, .plain (.ref n) =>
    match defs n with
    | .object (.tagged _ variants) => .variant name (normalFields vs ((variants.find name).getD .nil))
    | .adjacent _ _ variants => .variant name (normalContent vs (variants.lookup name).join)
    | _ => .variant name vs
  | v, _ => v

def normalObject : Value → Layout N → Value
  | .record vs, .struct fields => .record (normalFields vs fields)
  | .variant name vs, .tagged _ variants => .variant name (normalFields vs ((variants.find name).getD .nil))
  | v, _ => v

def normalAll : List Value → Atom N → List Value
  | [], _ => []
  | v :: vs, a => normal v (.plain a) :: normalAll vs a

def normalContent : List Value → Option (Shape N) → List Value
  | v :: vs, some shape => normal v shape :: vs
  | vs, _ => vs

def normalFields : List Value → Fields N → List Value
  | v :: vs, .field _ shape presence rest =>
    (if presence.leavesOut v then presence.default else normal v shape) :: normalFields vs rest
  | v :: vs, .flatten inner rest => normalObject v inner :: normalFields vs rest
  | vs, _ => vs

end

mutual

def Kept : Value → Shape N → Prop
  | .some v, .option a => Kept v (.plain a)
  | .seq vs, .seq a => AllKept vs a
  | .record vs, .plain (.ref n) =>
    match defs n with
    | .object (.struct fields) => KeptFields vs fields
    | _ => True
  | .variant name vs, .plain (.ref n) =>
    match defs n with
    | .object (.tagged _ variants) => KeptFields vs ((variants.find name).getD .nil)
    | .adjacent _ _ variants => KeptContent vs (variants.lookup name).join
    | _ => True
  | _, _ => True

def KeptObject : Value → Layout N → Prop
  | .record vs, .struct fields => KeptFields vs fields
  | .variant name vs, .tagged _ variants => KeptFields vs ((variants.find name).getD .nil)
  | _, _ => True

def AllKept : List Value → Atom N → Prop
  | [], _ => True
  | v :: vs, a => Kept v (.plain a) ∧ AllKept vs a

def KeptContent : List Value → Option (Shape N) → Prop
  | v :: _, some shape => Kept v shape
  | _, _ => True

def KeptFields : List Value → Fields N → Prop
  | v :: vs, .field _ shape presence rest =>
    (if presence.leavesOut v then v = presence.default else Kept v shape) ∧ KeptFields vs rest
  | v :: vs, .flatten inner rest => KeptObject v inner ∧ KeptFields vs rest
  | _, _ => True

end

end

/-! ## Names -/

mutual

def Fields.keys : Fields N → List String
  | .nil => []
  | .field name _ _ rest => name :: rest.keys
  | .flatten inner rest => inner.keys ++ rest.keys

def Layout.keys : Layout N → List String
  | .struct fields => fields.keys
  | .tagged tag variants => tag :: variants.keys

def Variants.keys : Variants N → List String
  | .nil => []
  | .cons _ fields rest => fields.keys ++ rest.keys

end

def Fields.flattened : Fields N → List String
  | .nil => []
  | .field _ _ _ rest => rest.flattened
  | .flatten inner rest => inner.keys ++ rest.flattened

mutual

/-- No name stands for two things. -/
def Fields.distinct : Fields N → Bool
  | .nil => true
  | .field name _ _ rest => !rest.keys.contains name && rest.distinct
  | .flatten inner rest => inner.distinct && inner.keys.all (fun key => !rest.keys.contains key) && rest.distinct

def Layout.distinct : Layout N → Bool
  | .struct fields => fields.distinct
  | .tagged tag variants => !variants.keys.contains tag && variants.distinct

def Variants.distinct : Variants N → Bool
  | .nil => true
  | .cons _ fields rest => fields.distinct && rest.distinct

end

def Def.distinct : Def N → Bool
  | .object layout => layout.distinct
  | .enumeration _ => true
  | .adjacent tag content _ => tag ≠ content

/-! ## Predicates that accept the default alone -/

def Skip.exact : Skip → Value → Bool
  | .test _, _ => false
  | skip, default => skip.accepts default

def Presence.sound : Presence → Bool
  | .skipped skip default => skip.exact default
  | _ => true

def Shape.within (names : N → Bool) : Shape N → Bool
  | .plain (.ref n) => names n
  | .option (.ref n) => names n
  | .seq (.ref n) => names n
  | _ => true

def Fields.isNil : Fields N → Bool
  | .nil => true
  | _ => false

def Fields.last : Fields N → Fields N
  | .field name shape presence rest => if rest.isNil then .field name shape presence .nil else rest.last
  | .flatten _ rest => rest.last
  | .nil => .nil

mutual

def Fields.sound (names : N → Bool) : Fields N → Bool
  | .nil => true
  | .field _ shape presence rest => presence.sound && shape.within names && rest.sound names
  | .flatten inner rest => inner.sound names && rest.sound names

def Layout.sound (names : N → Bool) : Layout N → Bool
  | .struct fields => fields.sound names
  | .tagged _ variants => variants.sound names

def Variants.sound (names : N → Bool) : Variants N → Bool
  | .nil => true
  | .cons _ fields rest => fields.sound names && rest.sound names

end

def Fields.soundBefore (names : N → Bool) : Fields N → Bool
  | .field _ shape presence rest => rest.isNil || presence.sound && shape.within names && rest.soundBefore names
  | _ => false

def Def.sound (names : N → Bool) : Def N → Bool
  | .object layout => layout.sound names
  | .enumeration _ => true
  | .adjacent _ _ variants => variants.all fun variant => (variant.2.map (Shape.within names)).getD true

end Unpeel.Serde
