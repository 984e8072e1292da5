import Unpeel.Foundation.SerdeShapes

/-! # Round trips of derived codecs

A value reads back as itself if each field that its encoding leaves out holds the default, and
otherwise as the value with the defaults in their place.
-/
namespace Unpeel.Serde
open List

variable {N : Type}

/-- Induction over values and lists of values at once. -/
theorem Value.induction {P : Value → Prop} {Q : List Value → Prop} (hbool : ∀ b, P (.bool b)) (hint : ∀ i, P (.int i))
    (hfloat : ∀ x, P (.float x)) (htext : ∀ t, P (.text t)) (hnone : P .none) (hsome : ∀ v, P v → P (.some v))
    (hseq : ∀ vs, Q vs → P (.seq vs)) (hrecord : ∀ vs, Q vs → P (.record vs))
    (hvariant : ∀ name vs, Q vs → P (.variant name vs)) (hnil : Q []) (hcons : ∀ v vs, P v → Q vs → Q (v :: vs))
    (v : Value) : P v :=
  @Value.rec P Q hbool hint hfloat htext hnone hsome hseq hrecord hvariant hnil hcons v

/-! ## Names -/

/-- A variant that is found is the first one, or it is found behind it. -/
theorem Variants.of_find_cons {name other : String} {body fields : Fields N} {rest : Variants N}
    (h : (Variants.cons other body rest).find name = some fields) : name = other ∧ fields = body ∨ rest.find name = some fields := by
  rw [Variants.find] at h
  split_ifs at h with heq
  · exact Or.inl ⟨heq.symm,(Option.some.inj h).symm⟩
  · exact Or.inr h

theorem Variants.keys_of_find {name : String} {fields : Fields N} : ∀ {variants : Variants N}, variants.find name = some fields →
    ∀ key ∈ fields.keys, key ∈ variants.keys
  | .nil, h => (by cases h)
  | .cons other body rest, h => by
    intro key hkey
    rw [Variants.keys, List.mem_append]
    rcases Variants.of_find_cons h with ⟨-,rfl⟩ | h
    · exact Or.inl hkey
    · exact Or.inr (Variants.keys_of_find h key hkey)

theorem Variants.distinct_of_find {name : String} {fields : Fields N} : ∀ {variants : Variants N}, variants.distinct = true →
    variants.find name = some fields → fields.distinct = true
  | .nil, _, h => (by cases h)
  | .cons other body rest, hdistinct, h => by
    rw [Variants.distinct, Bool.and_eq_true] at hdistinct
    rcases Variants.of_find_cons h with ⟨-,rfl⟩ | h
    · exact hdistinct.1
    · exact Variants.distinct_of_find hdistinct.2 h

theorem Fields.flattened_subset : ∀ {fields : Fields N} {key : String}, key ∈ fields.flattened → key ∈ fields.keys
  | .nil, _, h => h
  | .field name shape presence rest, key, h => List.mem_cons_of_mem _ (Fields.flattened_subset h)
  | .flatten inner rest, key, h => by
    rw [Fields.keys, List.mem_append]
    exact (List.mem_append.mp h).imp_right Fields.flattened_subset

theorem Fields.own_subset : ∀ {fields : Fields N} {key : String}, key ∈ fields.own → key ∈ fields.keys
  | .nil, _, h => h
  | .field name shape presence rest, key, h => by
    rw [Fields.keys, List.mem_cons]
    exact (List.mem_cons.mp h).imp_right Fields.own_subset
  | .flatten inner rest, key, h => List.mem_append_right _ (Fields.own_subset h)

/-- What is flattened has no name in common with the struct around it. -/
theorem Fields.not_own_of_flattened : ∀ {fields : Fields N}, fields.distinct = true → ∀ {key : String},
    key ∈ fields.flattened → key ∉ fields.own
  | .nil, _, key, h => (by cases h)
  | .field name shape presence rest, hdistinct, key, h => by
    simp only [Fields.distinct, Bool.and_eq_true, Bool.not_eq_true', List.contains_eq_mem, decide_eq_false_iff_not] at hdistinct
    rw [Fields.own, List.mem_cons, not_or]
    refine ⟨?_,Fields.not_own_of_flattened hdistinct.2 h⟩
    rintro rfl
    exact hdistinct.1 (Fields.flattened_subset h)
  | .flatten inner rest, hdistinct, key, h => by
    simp only [Fields.distinct, Bool.and_eq_true, List.all_eq_true, Bool.not_eq_true', List.contains_eq_mem,
      decide_eq_false_iff_not] at hdistinct
    obtain ⟨⟨-,hdisjoint⟩,hrest⟩ := hdistinct
    rcases mem_append.mp h with hinner | hflat
    · exact fun hown => hdisjoint key hinner (Fields.own_subset hown)
    · exact Fields.not_own_of_flattened hrest hflat

variable {variants : Variants N} {names : N → Bool}

section
variable {defs : N → Def N}
variable {vs : List Value} {fields rest : Fields N} {name tag : String} {left right : List (String × Json)}
variable {shape : Shape N} {v : Value} {presence : Presence} {inner : Layout N} {a : Atom N}
variable {json : Json} {entries : List (String × Json)}

/-- An encoding has no other names than those of its shape. -/
theorem key_of_mem_encodeObject (v : Value) : ∀ (layout : Layout N), ∀ entry ∈ encodeObject defs v layout, entry.1 ∈ layout.keys := by
  induction v using Value.induction (Q := fun vs => ∀ (fields : Fields N), ∀ entry ∈ encodeFields defs vs fields, entry.1 ∈ fields.keys) with
  | hrecord vs ih =>
    intro layout entry h
    cases layout with
    | struct fields => exact ih fields entry h
    | tagged tag variants => cases h
  | hvariant name vs ih =>
    intro layout entry h
    cases layout with
    | struct fields => cases h
    | tagged tag variants =>
      rw [encodeObject, mem_cons] at h
      rw [Layout.keys, mem_cons]
      rcases h with rfl | h
      · exact Or.inl rfl
      · have hkey := ih _ entry h
        rcases hfind : variants.find name with _ | fields
        · rw [hfind] at hkey
          cases hkey
        · rw [hfind] at hkey
          exact Or.inr (Variants.keys_of_find hfind _ hkey)
  | hnil fields entry h =>
    cases fields <;> cases h
  | hcons v vs ihv ihvs fields entry h =>
    cases fields with
    | nil => cases h
    | field name shape presence rest =>
      rw [encodeFields] at h
      rw [Fields.keys, mem_cons]
      split_ifs at h
      · exact Or.inr (ihvs rest entry h)
      · rcases mem_cons.mp h with rfl | h
        · exact Or.inl rfl
        · exact Or.inr (ihvs rest entry h)
    | flatten inner rest =>
      rw [encodeFields, mem_append] at h
      rw [Fields.keys, mem_append]
      exact h.imp (ihv inner entry) (ihvs rest entry)
  | _ =>
    intro layout entry h
    cases layout <;> cases h

theorem key_of_mem_encodeFields {entry : String × Json}
    (h : entry ∈ encodeFields defs vs fields) : entry.1 ∈ fields.keys :=
  key_of_mem_encodeObject (.record vs) (.struct fields) entry h

/-! ## Entries -/

theorem viewEntries_eq_map (entries : List (String × Json)) :
    viewEntries defs entries = entries.map fun entry => (entry.1,view defs entry.2) := by
  induction entries with
  | nil => rfl
  | cons entry entries ih => rw [viewEntries, ih, map_cons, viewEntry]

theorem viewEntries_filter (p : String → Bool) (entries : List (String × Json)) :
    (viewEntries defs entries).filter (fun entry => p entry.1) = viewEntries defs (entries.filter fun entry => p entry.1) := by
  rw [viewEntries_eq_map, viewEntries_eq_map, filter_map]
  rfl

def Without (name : String) (entries : List (String × Json)) : Prop := ∀ entry ∈ entries, entry.1 ≠ name

theorem Without.append (hleft : Without name left) (hright : Without name right) : Without name (left ++ right) :=
  fun entry h => (mem_append.mp h).elim (hleft entry) (hright entry)

theorem Without.cons {key : String} (hkey : key ≠ name)
    (h : Without name entries) : Without name ((key,json) :: entries) := by
  intro entry hentry
  rcases mem_cons.mp hentry with rfl | hentry
  · exact hkey
  · exact h entry hentry

theorem Without.nil : Without name [] := fun _ h => (by cases h)

theorem entryOf_without (h : Without name entries) :
    entryOf name (viewEntries defs entries) = some none := by
  have hnil : (viewEntries defs entries).filter (·.1 = name) = [] := by
    rw [viewEntries_filter (fun key => key = name), filter_eq_nil_iff.mpr (fun entry hentry => by simpa using h entry hentry)]
    rfl
  rw [entryOf, hnil]

theorem entryOf_single (left right : List (String × Json)) (hleft : Without name left)
    (hright : Without name right) : entryOf name (viewEntries defs (left ++ (name,json) :: right)) = some (some (view defs json)) := by
  have hone : (viewEntries defs (left ++ (name,json) :: right)).filter (·.1 = name) = [(name,view defs json)] := by
    rw [viewEntries_filter (fun key => key = name), List.filter_append, filter_cons_of_pos (by simp),
      filter_eq_nil_iff.mpr (fun entry hentry => by simpa using hleft entry hentry),
      filter_eq_nil_iff.mpr (fun entry hentry => by simpa using hright entry hentry)]
    rfl
  rw [entryOf, hone]

/-! ## What a value of a shape is -/

theorem shape_of_none (h : hasShape defs .none shape = true) : ∃ a, shape = .option a := by
  cases shape with
  | option a => exact ⟨a,rfl⟩
  | plain a | seq a => simp [hasShape] at h

theorem shape_of_some (h : hasShape defs (.some v) shape = true) :
    ∃ a, shape = .option a ∧ hasShape defs v (.plain a) = true := by
  cases shape with
  | option a => exact ⟨a,rfl,by simpa [hasShape] using h⟩
  | plain a | seq a => simp [hasShape] at h

theorem shape_of_seq (h : hasShape defs (.seq vs) shape = true) :
    ∃ a, shape = .seq a ∧ allHaveShape defs vs a = true := by
  cases shape with
  | seq a => exact ⟨a,rfl,by simpa [hasShape] using h⟩
  | plain a | option a => simp [hasShape] at h

theorem shape_of_record (h : hasShape defs (.record vs) shape = true) :
    ∃ n fields, shape = .plain (.ref n) ∧ defs n = .object (.struct fields) ∧ hasFields defs vs fields = true := by
  cases shape with
  | plain a =>
    cases a with
    | ref n =>
      rw [hasShape] at h
      split at h
      · rename_i fields hdef
        exact ⟨n,fields,rfl,hdef,h⟩
      · cases h
    | _ => simp [hasShape] at h
  | option a | seq a => simp [hasShape] at h

theorem fields_of_hasVariant {found : Option (Fields N)} (h : hasVariant defs vs found = true) :
    ∃ fields, found = some fields ∧ hasFields defs vs fields = true := by
  cases found with
  | none => simp [hasVariant] at h
  | some fields => exact ⟨fields,rfl,by simpa [hasVariant] using h⟩

/-- The content of a variant beside its tag. -/
theorem content_of_hasContent {found : Option (Option (Shape N))} (h : hasContent defs vs found = true) :
    vs = [] ∧ found = some none ∨ ∃ v shape, vs = [v] ∧ found = some (some shape) ∧ hasShape defs v shape = true := by
  cases vs with
  | nil =>
    rcases found with _ | _ | shape
    · simp [hasContent] at h
    · exact Or.inl ⟨rfl,rfl⟩
    · simp [hasContent] at h
  | cons v vs =>
    rcases found with _ | _ | shape
    · simp [hasContent] at h
    · simp [hasContent] at h
    · rw [hasContent, Bool.and_eq_true, List.isEmpty_iff] at h
      obtain ⟨hv,rfl⟩ := h
      exact Or.inr ⟨v,shape,rfl,rfl,hv⟩

theorem shape_of_variant (h : hasShape defs (.variant name vs) shape = true) :
    ∃ n, shape = .plain (.ref n) ∧
      ((∃ tag variants fields, defs n = .object (.tagged tag variants) ∧ variants.find name = some fields ∧ hasFields defs vs fields = true) ∨
      (∃ names, defs n = .enumeration names ∧ names.contains name = true ∧ vs = []) ∨
      ∃ tag content variants, defs n = .adjacent tag content variants ∧ hasContent defs vs (variants.lookup name) = true) := by
  cases shape with
  | plain a =>
    cases a with
    | ref n =>
      rw [hasShape] at h
      refine ⟨n,rfl,?_⟩
      split at h
      · rename_i tag variants hdef
        obtain ⟨fields,hfind,hfields⟩ := fields_of_hasVariant h
        exact Or.inl ⟨tag,variants,fields,hdef,hfind,hfields⟩
      · rename_i names hdef
        rw [Bool.and_eq_true, List.isEmpty_iff] at h
        exact Or.inr (Or.inl ⟨names,hdef,h⟩)
      · rename_i tag content variants hdef
        exact Or.inr (Or.inr ⟨tag,content,variants,hdef,h⟩)
      · cases h
    | _ => simp [hasShape] at h
  | option a | seq a => simp [hasShape] at h

theorem fields_of_field {v : List Value} (h : hasFields defs v (.field name shape presence rest) = true) :
    ∃ head vs, v = head :: vs ∧ hasShape defs head shape = true ∧ hasFields defs vs rest = true := by
  cases v with
  | nil => simp [hasFields] at h
  | cons head vs =>
    rw [hasFields, Bool.and_eq_true] at h
    exact ⟨head,vs,rfl,h⟩

theorem fields_of_flatten {v : List Value} (h : hasFields defs v (.flatten inner rest) = true) :
    ∃ head vs, v = head :: vs ∧ hasLayout defs head inner = true ∧ hasFields defs vs rest = true := by
  cases v with
  | nil => simp [hasFields] at h
  | cons head vs =>
    rw [hasFields, Bool.and_eq_true] at h
    exact ⟨head,vs,rfl,h⟩

theorem hasShape_of_mem {v : Value} : ∀ {vs : List Value} {a : Atom N}, allHaveShape defs vs a = true → v ∈ vs →
    hasShape defs v (.plain a) = true
  | u :: vs, a, h, hv => by
    rw [allHaveShape, Bool.and_eq_true] at h
    rcases List.mem_cons.mp hv with rfl | hv
    · exact h.1
    · exact hasShape_of_mem h.2 hv

theorem eq_nil_of_fields {v : List Value} (h : hasFields defs v (.nil : Fields N) = true) : v = [] := by
  cases v with
  | nil => rfl
  | cons head vs => simp [hasFields] at h

theorem record_of_struct (h : hasLayout defs v (.struct fields) = true) :
    ∃ vs, v = .record vs ∧ hasFields defs vs fields = true := by
  cases v with
  | record vs => exact ⟨vs,rfl,by simpa [hasLayout] using h⟩
  | _ => simp [hasLayout] at h

theorem variant_of_tagged (h : hasLayout defs v (.tagged tag variants) = true) :
    ∃ name vs fields, v = .variant name vs ∧ variants.find name = some fields ∧ hasFields defs vs fields = true := by
  cases v with
  | variant name vs =>
    rw [hasLayout] at h
    obtain ⟨fields,hfind,hfields⟩ := fields_of_hasVariant h
    exact ⟨name,vs,fields,rfl,hfind,hfields⟩
  | _ => simp [hasLayout] at h

/-- A value of an object type is a value of its layout. -/
theorem hasLayout_of_ref {v : Value} {n : N} {layout : Layout N} (hdef : defs n = .object layout)
    (h : hasShape defs v (.plain (.ref n)) = true) : hasLayout defs v layout = true := by
  cases v with
  | record vs =>
    rw [hasShape, hdef] at h
    cases layout with
    | struct fields => simpa [hasLayout] using h
    | tagged tag variants => cases h
  | variant name vs =>
    rw [hasShape, hdef] at h
    cases layout with
    | struct fields => cases h
    | tagged tag variants => simpa [hasLayout] using h
  | _ => simp [hasShape] at h

theorem encode_of_tagged {name tag : String} {vs : List Value} {n : N} {fields : Fields N}
    (hdef : defs n = .object (.tagged tag variants)) (hfind : variants.find name = some fields) :
    encode defs (.variant name vs) (.plain (.ref n)) = .obj ((tag,.text name) :: encodeFields defs vs fields) := by
  rw [encode, hdef]
  dsimp only
  rw [hfind, Option.getD_some]

/-! ## Reading what was written -/

/-- A value that is not an option is not written as null. -/
theorem isNull_encode (hshape : hasShape defs v (.plain a) = true) (hfinite : v.finite = true) :
    (view defs (encode defs v (.plain a))).isNull = false := by
  cases v with
  | bool b | int i | text t => rfl
  | float x =>
    rw [Value.finite] at hfinite
    rw [encode, if_pos hfinite]
    rfl
  | none =>
    obtain ⟨_,h⟩ := shape_of_none hshape
    cases h
  | some v =>
    obtain ⟨_,h,-⟩ := shape_of_some hshape
    cases h
  | seq vs =>
    obtain ⟨_,h,-⟩ := shape_of_seq hshape
    cases h
  | record vs =>
    obtain ⟨n,fields,h,hdef,-⟩ := shape_of_record hshape
    cases h
    rw [encode, hdef]
    rfl
  | variant name vs =>
    obtain ⟨n,h,⟨tag,variants,fields,hdef,-⟩ | ⟨names,hdef,-⟩ | ⟨tag,content,variants,hdef,-⟩⟩ := shape_of_variant hshape
      <;> cases h <;> rw [encode, hdef] <;> rfl

def ReadsBack (defs : N → Def N) (v : Value) : Prop :=
  v.finite = true →
    (∀ shape : Shape N, hasShape defs v shape = true → decode defs (encode defs v shape) shape = some (normal defs v shape)) ∧
    ∀ (layout : Layout N) (left right : List (String × Json)), layout.distinct = true → hasLayout defs v layout = true →
      (∀ entry ∈ left, entry.1 ∉ layout.keys) → (∀ entry ∈ right, entry.1 ∉ layout.keys) →
      readLayout (viewEntries defs (left ++ encodeObject defs v layout ++ right)) layout = some (normalObject defs v layout)

/-- The same for the values of fields. `own` are the names of the struct they are part of. -/
def FieldsReadBack (defs : N → Def N) (vs : List Value) : Prop :=
  allFinite vs = true → ∀ (fields : Fields N) (own : List String) (left right : List (String × Json)), fields.distinct = true →
    hasFields defs vs fields = true → (∀ key ∈ fields.flattened, key ∉ own) →
    (∀ entry ∈ left, entry.1 ∉ fields.keys) → (∀ entry ∈ right, entry.1 ∉ fields.keys) →
    readFields own (viewEntries defs (left ++ encodeFields defs vs fields ++ right)) fields = some (normalFields defs vs fields)

theorem fieldsReadBack_nil : FieldsReadBack defs [] := by
  intro _ fields own left right _ hfields _ _ _
  cases fields with
  | nil => rfl
  | field name shape presence rest | flatten inner rest => simp [hasFields] at hfields

/-- A field comes before the others, or is left out. -/
theorem readFields_field
    (hv : decode defs (encode defs v shape) shape = some (normal defs v shape)) (ih : FieldsReadBack defs vs)
    (hfinite : allFinite vs = true) {own : List String}
    (hdistinct : (Fields.field name shape presence rest).distinct = true) (hrest : hasFields defs vs rest = true)
    (hown : ∀ key ∈ rest.flattened, key ∉ own)
    (hleft : ∀ entry ∈ left, entry.1 ∉ (Fields.field name shape presence rest).keys)
    (hright : ∀ entry ∈ right, entry.1 ∉ (Fields.field name shape presence rest).keys) :
    readFields own (viewEntries defs (left ++ encodeFields defs (v :: vs) (.field name shape presence rest) ++ right))
      (.field name shape presence rest) = some (normalFields defs (v :: vs) (.field name shape presence rest)) := by
  simp only [Fields.distinct, Bool.and_eq_true, Bool.not_eq_true', contains_eq_mem, decide_eq_false_iff_not] at hdistinct
  obtain ⟨hname,hdistinct⟩ := hdistinct
  have hleft' : ∀ entry ∈ left, entry.1 ≠ name ∧ entry.1 ∉ rest.keys := by
    intro entry hentry
    simpa [Fields.keys] using hleft entry hentry
  have hright' : ∀ entry ∈ right, entry.1 ≠ name ∧ entry.1 ∉ rest.keys := by
    intro entry hentry
    simpa [Fields.keys] using hright entry hentry
  have hothers : Without name (encodeFields defs vs rest ++ right) := by
    refine Without.append (fun entry hentry heq => ?_) (fun entry hentry => (hright' entry hentry).1)
    exact hname (heq ▸ key_of_mem_encodeFields hentry)
  rw [encodeFields, readFields, normalFields]
  split_ifs with hout
  · have hnone : entryOf name (viewEntries defs (left ++ encodeFields defs vs rest ++ right)) = some none := by
      rw [append_assoc]
      exact entryOf_without (Without.append (fun entry hentry => (hleft' entry hentry).1) hothers)
    have htail := ih hfinite rest own left right hdistinct hrest hown (fun entry hentry => (hleft' entry hentry).2)
      (fun entry hentry => (hright' entry hentry).2)
    have hmissing : presence.missing shape = some presence.default := by
      cases presence with
      | skipped skip default => rfl
      | required | defaulted default => cases hout
    simp only [hnone, htail, hmissing, Option.bind_eq_bind, Option.bind_some, Option.pure_def]
  · have hone : entryOf name (viewEntries defs (left ++ (name,encode defs v shape) :: encodeFields defs vs rest ++ right)) =
        some (some (view defs (encode defs v shape))) := by
      rw [append_assoc, cons_append]
      exact entryOf_single _ _ (fun entry hentry => (hleft' entry hentry).1) hothers
    have htail := ih hfinite rest own (left ++ [(name,encode defs v shape)]) right hdistinct hrest hown
      (by
        intro entry hentry
        rcases mem_append.mp hentry with h | h
        · exact (hleft' entry h).2
        · obtain rfl := mem_singleton.mp h
          exact hname)
      (fun entry hentry => (hright' entry hentry).2)
    have hsame : left ++ [(name,encode defs v shape)] ++ encodeFields defs vs rest ++ right =
        left ++ (name,encode defs v shape) :: encodeFields defs vs rest ++ right := by simp
    rw [hsame] at htail
    rw [decode] at hv
    simp only [hone, htail, hv, Option.bind_eq_bind, Option.bind_some, Option.pure_def]

/-- A flattened value stands among the entries that the struct does not know. -/
theorem readFields_flatten (hv : ReadsBack defs v)
    (ih : FieldsReadBack defs vs) (hvfinite : v.finite = true) (hfinite : allFinite vs = true) {own : List String}
    (hdistinct : (Fields.flatten inner rest).distinct = true)
    (hlayout : hasLayout defs v inner = true) (hrest : hasFields defs vs rest = true)
    (hown : ∀ key ∈ (Fields.flatten inner rest).flattened, key ∉ own)
    (hleft : ∀ entry ∈ left, entry.1 ∉ (Fields.flatten inner rest).keys)
    (hright : ∀ entry ∈ right, entry.1 ∉ (Fields.flatten inner rest).keys) :
    readFields own (viewEntries defs (left ++ encodeFields defs (v :: vs) (.flatten inner rest) ++ right))
      (.flatten inner rest) = some (normalFields defs (v :: vs) (.flatten inner rest)) := by
  simp only [Fields.distinct, Bool.and_eq_true, all_eq_true, Bool.not_eq_true', contains_eq_mem,
    decide_eq_false_iff_not] at hdistinct
  obtain ⟨⟨hinner,hdisjoint⟩,hdistinct⟩ := hdistinct
  simp only [Fields.keys, mem_append, not_or] at hleft hright
  simp only [Fields.flattened, mem_append] at hown
  rw [encodeFields, readFields, normalFields]
  have hobject : ∀ entry ∈ encodeObject defs v inner, entry.1 ∈ inner.keys := key_of_mem_encodeObject v inner
  -- the struct's own names are none of the flattened ones
  have hkeep : (encodeObject defs v inner).filter (fun entry => !own.contains entry.1) = encodeObject defs v inner := by
    refine filter_eq_self.mpr (fun entry hentry => ?_)
    simpa using hown entry.1 (Or.inl (hobject entry hentry))
  have hfirst : readLayout ((viewEntries defs (left ++ (encodeObject defs v inner ++ encodeFields defs vs rest) ++ right)).filter
      fun entry => !own.contains entry.1) inner = some (normalObject defs v inner) := by
    rw [viewEntries_filter (fun key => !own.contains key), List.filter_append, List.filter_append, List.filter_append, hkeep,
      append_assoc, append_assoc, ← append_assoc _ (encodeObject defs v inner)]
    refine (hv hvfinite).2 inner _ _ hinner hlayout (fun entry hentry => (hleft entry (mem_filter.mp hentry).1).1) ?_
    intro entry hentry
    rcases mem_append.mp hentry with h | h
    · exact fun hkey => hdisjoint entry.1 hkey (key_of_mem_encodeFields (mem_filter.mp h).1)
    · exact (hright entry (mem_filter.mp h).1).1
  have htail := ih hfinite rest own (left ++ encodeObject defs v inner) right hdistinct hrest (fun key h => hown key (Or.inr h))
    (by
      intro entry hentry
      rcases mem_append.mp hentry with h | h
      · exact (hleft entry h).2
      · exact hdisjoint entry.1 (hobject entry h))
    (fun entry hentry => (hright entry hentry).2)
  rw [append_assoc left] at htail
  simp only [hfirst, htail, Option.bind_eq_bind, Option.bind_some, Option.pure_def]

theorem readVariants_eq (name : String) (entries : List (String × View N)) : ∀ variants : Variants N,
    readVariants name entries variants =
      (variants.find name).bind fun fields => (readFields fields.own entries fields).map (.variant name)
  | .nil => rfl
  | .cons other fields rest => by
    rw [readVariants, Variants.find]
    split_ifs with heq
    · rfl
    · exact readVariants_eq name entries rest

theorem readLayout_tagged (ih : FieldsReadBack defs vs) (hfinite : allFinite vs = true)
    (hdistinct : (Layout.tagged tag variants).distinct = true) (hfind : variants.find name = some fields)
    (hfields : hasFields defs vs fields = true) (hleft : ∀ entry ∈ left, entry.1 ∉ (Layout.tagged tag variants).keys)
    (hright : ∀ entry ∈ right, entry.1 ∉ (Layout.tagged tag variants).keys) :
    readLayout (viewEntries defs (left ++ (tag,.text name) :: encodeFields defs vs fields ++ right)) (.tagged tag variants) =
      some (.variant name (normalFields defs vs fields)) := by
  simp only [Layout.distinct, Bool.and_eq_true, Bool.not_eq_true', contains_eq_mem, decide_eq_false_iff_not] at hdistinct
  obtain ⟨htag,hvariants⟩ := hdistinct
  have hdistinct := Variants.distinct_of_find hvariants hfind
  have hsubset := Variants.keys_of_find hfind
  simp only [Layout.keys, mem_cons, not_or] at hleft hright
  have hbody : Without tag (encodeFields defs vs fields) := by
    intro entry hentry heq
    exact htag (hsubset tag (heq ▸ key_of_mem_encodeFields hentry))
  have hone : entryOf tag (viewEntries defs (left ++ (tag,.text name) :: encodeFields defs vs fields ++ right)) =
      some (some (view defs (.text name))) := by
    rw [append_assoc, cons_append]
    exact entryOf_single _ _ (fun entry hentry => (hleft entry hentry).1)
      (hbody.append fun entry hentry => (hright entry hentry).1)
  have hothers : (viewEntries defs (left ++ (tag,.text name) :: encodeFields defs vs fields ++ right)).filter (·.1 ≠ tag) =
      viewEntries defs (left ++ encodeFields defs vs fields ++ right) := by
    rw [viewEntries_filter (fun key => key ≠ tag), List.filter_append, List.filter_append, filter_cons_of_neg (by simp),
      filter_eq_self.mpr (fun entry hentry => by simpa using (hleft entry hentry).1),
      filter_eq_self.mpr (fun entry hentry => by simpa using hbody entry hentry),
      filter_eq_self.mpr (fun entry hentry => by simpa using (hright entry hentry).1)]
  have hread := ih hfinite fields fields.own left right hdistinct hfields
    (fun key hkey => Fields.not_own_of_flattened hdistinct hkey)
    (fun entry hentry hkey => (hleft entry hentry).2 (hsubset _ hkey))
    (fun entry hentry hkey => (hright entry hentry).2 (hsubset _ hkey))
  have htext : (view defs (.text name)).read .text = some (.text name) := rfl
  simp only [readLayout, hone, hothers, htext, readVariants_eq, hfind, hread, Option.bind_eq_bind, Option.bind_some, Option.map_some]

theorem readLayout_struct (ih : FieldsReadBack defs vs) (hfinite : allFinite vs = true)
    (hdistinct : fields.distinct = true) (hfields : hasFields defs vs fields = true)
    (hleft : ∀ entry ∈ left, entry.1 ∉ fields.keys) (hright : ∀ entry ∈ right, entry.1 ∉ fields.keys) :
    readLayout (viewEntries defs (left ++ encodeFields defs vs fields ++ right)) (.struct fields) =
      some (.record (normalFields defs vs fields)) := by
  rw [readLayout, ih hfinite fields fields.own left right hdistinct hfields
    (fun key hkey => Fields.not_own_of_flattened hdistinct hkey) hleft hright]
  rfl

theorem readAdjacent_none {content : String} {variants : List (String × Option (Shape N))}
    (hlookup : variants.lookup name = some none) :
    readAdjacent tag content variants (viewEntries defs [(tag,.text name)]) = some (.variant name []) := by
  have hone : entryOf tag (viewEntries defs [(tag,.text name)]) = some (some (view defs (.text name))) :=
    entryOf_single [] [] (fun _ h => (by cases h)) (fun _ h => (by cases h))
  have htext : (view defs (.text name)).read .text = some (.text name) := rfl
  simp only [readAdjacent, hone, htext, hlookup, Option.bind_eq_bind, Option.bind_some]

theorem readAdjacent_some {content : String} {variants : List (String × Option (Shape N))}
    (hne : tag ≠ content) (hlookup : variants.lookup name = some (some shape)) (hread : decode defs json shape = some v) :
    readAdjacent tag content variants (viewEntries defs [(tag,.text name),(content,json)]) = some (.variant name [v]) := by
  have hone : entryOf tag (viewEntries defs [(tag,.text name),(content,json)]) = some (some (view defs (.text name))) :=
    entryOf_single [] [(content,json)] (fun _ h => (by cases h))
      (fun entry h => by rw [mem_singleton.mp h]; exact hne.symm)
  have htwo : entryOf content (viewEntries defs [(tag,.text name),(content,json)]) = some (some (view defs json)) :=
    entryOf_single [(tag,.text name)] []
      (fun entry h => by rw [mem_singleton.mp h]; exact hne) (fun _ h => (by cases h))
  have htext : (view defs (.text name)).read .text = some (.text name) := rfl
  rw [decode] at hread
  simp only [readAdjacent, hone, htwo, htext, hlookup, hread, Option.bind_eq_bind, Option.bind_some, Option.pure_def]

theorem decode_encode_option (hshape : hasShape defs v (.plain a) = true) (hfinite : v.finite = true)
    (hread : decode defs (encode defs v (.plain a)) (.plain a) = some (normal defs v (.plain a))) :
    decode defs (encode defs v (.plain a)) (.option a) = some (.some (normal defs v (.plain a))) := by
  have hatom : (view defs (encode defs v (.plain a))).read a = some (normal defs v (.plain a)) := hread
  rw [decode, View.readShape, isNull_encode hshape hfinite, hatom]
  rfl

theorem mapM_viewAll (hread : ∀ v ∈ vs, ReadsBack defs v) (hfinite : allFinite vs = true)
    (hshape : allHaveShape defs vs a = true) :
    ((viewAll defs (encodeAll defs vs a)).map View.read).mapM (fun item : Atom N → Option Value => item a) =
      some (normalAll defs vs a) := by
  induction vs with
  | nil => rfl
  | cons v vs ih =>
    rw [allFinite, Bool.and_eq_true] at hfinite
    rw [allHaveShape, Bool.and_eq_true] at hshape
    have hhead := (hread v mem_cons_self hfinite.1).1 _ hshape.1
    rw [decode, View.readShape] at hhead
    have htail := ih (fun u hu => hread u (mem_cons_of_mem v hu)) hfinite.2 hshape.2
    rw [encodeAll, viewAll, normalAll, map_cons, mapM_cons, hhead, htail]
    rfl

theorem readsBack_record (hdistinct : ∀ n, (defs n).distinct = true) (ih : FieldsReadBack defs vs) :
    ReadsBack defs (.record vs) := by
  intro hfinite
  constructor
  · intro shape hshape
    obtain ⟨n,fields,rfl,hdef,hfields⟩ := shape_of_record hshape
    have hd := hdistinct n
    rw [hdef] at hd
    have hread : readLayout (viewEntries defs ([] ++ encodeFields defs vs fields ++ [])) (.struct fields) =
        some (.record (normalFields defs vs fields)) :=
      readLayout_struct ih hfinite hd hfields (fun _ h => (by cases h)) (fun _ h => (by cases h))
    rw [nil_append, append_nil] at hread
    simp only [decode, encode, normal, hdef, view, View.readShape, readDef, hread]
  · intro layout left right hd hlayout hleft hright
    cases layout with
    | struct fields => exact readLayout_struct ih hfinite hd (by simpa [hasLayout] using hlayout) hleft hright
    | tagged tag variants => simp [hasLayout] at hlayout

theorem readsBack_variant (hdistinct : ∀ n, (defs n).distinct = true)
    (hall : ∀ v ∈ vs, ReadsBack defs v) (ih : FieldsReadBack defs vs) : ReadsBack defs (.variant name vs) := by
  intro hfinite
  rw [Value.finite] at hfinite
  constructor
  · intro shape hshape
    obtain ⟨n,rfl,⟨tag,variants,fields,hdef,hfind,hfields⟩ | ⟨names,hdef,hname,rfl⟩ | ⟨tag,content,variants,hdef,hcontent⟩⟩ :=
      shape_of_variant hshape
    · have hd := hdistinct n
      rw [hdef] at hd
      have hread : readLayout (viewEntries defs ([] ++ (tag,.text name) :: encodeFields defs vs fields ++ [])) (.tagged tag variants) =
          some (.variant name (normalFields defs vs fields)) :=
        readLayout_tagged ih hfinite hd hfind hfields (fun _ h => (by cases h)) (fun _ h => (by cases h))
      rw [nil_append, append_nil] at hread
      simp only [decode, encode, normal, hdef, view, View.readShape, readDef, hfind, Option.getD_some, hread]
    · simp only [decode, encode, normal, hdef, view, View.readShape, hname, if_true]
    · have hne : tag ≠ content := by
        have hd := hdistinct n
        rw [hdef] at hd
        exact of_decide_eq_true hd
      rcases content_of_hasContent hcontent with ⟨rfl,hlookup⟩ | ⟨v,shape,rfl,hlookup,hv⟩
      · have hread : readAdjacent tag content variants (viewEntries defs [(tag,.text name)]) = some (.variant name []) :=
          readAdjacent_none hlookup
        have hencoded : encode defs (.variant name []) (.plain (.ref n)) = .obj [(tag,.text name)] := by
          rw [encode, hdef]
          rfl
        have hnormal : normal defs (.variant name []) (.plain (.ref n)) = .variant name [] := by
          rw [normal, hdef]
          rfl
        rw [hencoded, hnormal]
        simp only [decode, view, View.readShape, readDef, hdef, hread]
      · rw [allFinite, Bool.and_eq_true] at hfinite
        have hinner := (hall v mem_cons_self hfinite.1).1 shape hv
        have hread := readAdjacent_some hne hlookup hinner
        have hencoded : encode defs (.variant name [v]) (.plain (.ref n)) = .obj [(tag,.text name),(content,encode defs v shape)] := by
          rw [encode, hdef]
          dsimp only
          rw [hlookup]
          rfl
        have hnormal : normal defs (.variant name [v]) (.plain (.ref n)) = .variant name [normal defs v shape] := by
          rw [normal, hdef]
          dsimp only
          rw [hlookup]
          rfl
        rw [hencoded, hnormal]
        simp only [decode, view, View.readShape, readDef, hdef, hread]
  · intro layout left right hd hlayout hleft hright
    cases layout with
    | struct fields => simp [hasLayout] at hlayout
    | tagged tag variants =>
      rw [hasLayout] at hlayout
      obtain ⟨fields,hfind,hfields⟩ := fields_of_hasVariant hlayout
      have hread := readLayout_tagged ih hfinite hd hfind hfields hleft hright
      simp only [encodeObject, normalObject, hfind, Option.getD_some]
      exact hread

theorem readsBack (hdistinct : ∀ n, (defs n).distinct = true) (v : Value) : ReadsBack defs v := by
  induction v using Value.induction (Q := fun vs => (∀ v ∈ vs, ReadsBack defs v) ∧ FieldsReadBack defs vs) with
  | hrecord vs ih => exact readsBack_record hdistinct ih.2
  | hvariant name vs ih => exact readsBack_variant hdistinct ih.1 ih.2
  | hnil => exact ⟨fun _ h => (by cases h),fieldsReadBack_nil⟩
  | hcons v vs ihv ihvs =>
    refine ⟨fun u hu => ?_,?_⟩
    · rcases mem_cons.mp hu with rfl | hu
      · exact ihv
      · exact ihvs.1 u hu
    · intro hfinite fields own left right hd hfields hown hleft hright
      rw [allFinite, Bool.and_eq_true] at hfinite
      cases fields with
      | nil => simp [hasFields] at hfields
      | field name shape presence rest =>
        rw [hasFields, Bool.and_eq_true] at hfields
        exact readFields_field ((ihv hfinite.1).1 shape hfields.1) ihvs.2 hfinite.2 hd hfields.2 hown hleft hright
      | flatten inner rest =>
        rw [hasFields, Bool.and_eq_true] at hfields
        exact readFields_flatten ihv ihvs.2 hfinite.1 hfinite.2 hd hfields.1 hfields.2 hown hleft hright
  | hsome v ih =>
    intro hfinite
    refine ⟨fun shape hshape => ?_,fun layout _ _ _ h => (by cases layout <;> simp [hasLayout] at h)⟩
    obtain ⟨a,rfl,hv⟩ := shape_of_some hshape
    exact decode_encode_option hv hfinite ((ih hfinite).1 _ hv)
  | hseq vs ih =>
    intro hfinite
    refine ⟨fun shape hshape => ?_,fun layout _ _ _ h => (by cases layout <;> simp [hasLayout] at h)⟩
    obtain ⟨a,rfl,hall⟩ := shape_of_seq hshape
    simp only [decode, encode, normal, view, View.readShape, Option.bind_some, mapM_viewAll ih.1 hfinite hall, Option.map_some]
  | hnone =>
    refine fun _ => ⟨fun shape hshape => ?_,fun layout _ _ _ h => (by cases layout <;> simp [hasLayout] at h)⟩
    obtain ⟨a,rfl⟩ := shape_of_none hshape
    rfl
  | hbool b | htext t =>
    refine fun _ => ⟨fun shape hshape => ?_,fun layout _ _ _ h => (by cases layout <;> simp [hasLayout] at h)⟩
    rcases shape with a | a | a <;> cases a <;> simp [hasShape] at hshape
    rfl
  | hint i =>
    refine fun _ => ⟨fun shape hshape => ?_,fun layout _ _ _ h => (by cases layout <;> simp [hasLayout] at h)⟩
    rcases shape with a | a | a <;> cases a <;> simp [hasShape] at hshape
    · simp [decode, encode, normal, view, View.readShape, hshape]
    · simp [decode, encode, normal, view, View.readShape, hshape]
  | hfloat x =>
    refine fun hfinite => ⟨fun shape hshape => ?_,fun layout _ _ _ h => (by cases layout <;> simp [hasLayout] at h)⟩
    rw [Value.finite] at hfinite
    rcases shape with a | a | a <;> cases a <;> simp [hasShape] at hshape
    · simp [decode, encode, normal, view, View.readShape, hfinite]
    · simp [decode, encode, normal, view, View.readShape, hfinite, hshape]

/-! ## When a value is kept -/

theorem normal_eq_iff (v : Value) :
    (∀ shape : Shape N, normal defs v shape = v ↔ Kept defs v shape) ∧
      ∀ layout : Layout N, normalObject defs v layout = v ↔ KeptObject defs v layout := by
  induction v using Value.induction (Q := fun vs => (∀ fields : Fields N, normalFields defs vs fields = vs ↔ KeptFields defs vs fields) ∧
      (∀ a : Atom N, normalAll defs vs a = vs ↔ AllKept defs vs a) ∧
      ∀ shape : Option (Shape N), normalContent defs vs shape = vs ↔ KeptContent defs vs shape) with
  | hsome v ih =>
    refine ⟨fun shape => ?_,fun layout => by cases layout <;> simp [normalObject, KeptObject]⟩
    cases shape with
    | option a => rw [normal, Kept, Value.some.injEq, ih.1]
    | plain a | seq a => simp [normal, Kept]
  | hseq vs ih =>
    refine ⟨fun shape => ?_,fun layout => by cases layout <;> simp [normalObject, KeptObject]⟩
    cases shape with
    | seq a => rw [normal, Kept, Value.seq.injEq, ih.2.1]
    | plain a | option a => simp [normal, Kept]
  | hrecord vs ih =>
    constructor
    · intro shape
      rcases shape with a | a | a
      · cases a with
        | ref n =>
          rw [normal, Kept]
          split
          · rw [Value.record.injEq, ih.1]
          · simp
        | _ => simp [normal, Kept]
      · simp [normal, Kept]
      · simp [normal, Kept]
    · intro layout
      cases layout with
      | struct fields => rw [normalObject, KeptObject, Value.record.injEq, ih.1]
      | tagged tag variants => simp [normalObject, KeptObject]
  | hvariant name vs ih =>
    constructor
    · intro shape
      rcases shape with a | a | a
      · cases a with
        | ref n =>
          rw [normal, Kept]
          split
          · simp only [Value.variant.injEq, true_and, ih.1]
          · simp only [Value.variant.injEq, true_and, ih.2.2]
          · simp
        | _ => simp [normal, Kept]
      · simp [normal, Kept]
      · simp [normal, Kept]
    · intro layout
      cases layout with
      | struct fields => simp [normalObject, KeptObject]
      | tagged tag variants => simp only [normalObject, KeptObject, Value.variant.injEq, true_and, ih.1]
  | hnil =>
    refine ⟨fun fields => ?_,fun a => ?_,fun shape => ?_⟩
    · cases fields <;> simp [normalFields, KeptFields]
    · simp [normalAll, AllKept]
    · simp [normalContent, KeptContent]
  | hcons v vs ihv ihvs =>
    refine ⟨fun fields => ?_,fun a => ?_,fun shape => ?_⟩
    · cases fields with
      | nil => simp [normalFields, KeptFields]
      | field name shape presence rest =>
        rw [normalFields, KeptFields, List.cons.injEq, ihvs.1]
        split_ifs
        · rw [eq_comm]
        · rw [ihv.1]
      | flatten inner rest => rw [normalFields, KeptFields, List.cons.injEq, ihvs.1, ihv.2]
    · rw [normalAll, AllKept, List.cons.injEq, ihv.1, ihvs.2.1]
    · cases shape with
      | none => simp [normalContent, KeptContent]
      | some shape => rw [normalContent, KeptContent, List.cons.injEq, ihv.1, and_iff_left rfl]
  | _ =>
    refine ⟨fun shape => ?_,fun layout => by cases layout <;> simp [normalObject, KeptObject]⟩
    rcases shape with a | a | a <;> cases a <;> simp [normal, Kept]

theorem allKept_iff : AllKept defs vs a ↔ ∀ v ∈ vs, Kept defs v (.plain a) := by
  induction vs with
  | nil => simp [AllKept]
  | cons v vs ih => rw [AllKept, ih, forall_mem_cons]

theorem keptFields_field :
    KeptFields defs [v] (.field name shape presence .nil) ↔ if presence.leavesOut v then v = presence.default else Kept defs v shape := by
  simp [KeptFields]

theorem keptFields_required :
    KeptFields defs (v :: vs) (.required name shape rest) ↔ Kept defs v shape ∧ KeptFields defs vs rest := by
  simp [Fields.required, KeptFields, Presence.leavesOut]

theorem keptFields_flatten : KeptFields defs [v] (.flatten inner .nil) ↔ KeptObject defs v inner := by
  simp [KeptFields]

/-- A value reads back as itself exactly if each field left out holds its default. -/
theorem decode_encode_iff (hdistinct : ∀ n, (defs n).distinct = true)
    (hshape : hasShape defs v shape = true) (hfinite : v.finite = true) :
    decode defs (encode defs v shape) shape = some v ↔ Kept defs v shape := by
  rw [(readsBack hdistinct v hfinite).1 shape hshape, Option.some.injEq, (normal_eq_iff v).1]

theorem eq_of_allNone : ∀ {vs ws : List Value}, allNone vs = true → allNone ws = true → vs.length = ws.length → vs = ws
  | [], [], _, _, _ => rfl
  | .none :: vs, .none :: ws, hvs, hws, hlength => by
    have htail : vs = ws := eq_of_allNone hvs hws (Nat.succ.inj hlength)
    rw [htail]

theorem Skip.eq_of_exact {skip : Skip} {default : Value} (hexact : skip.exact default = true) (hv : skip.accepts v = true) :
    v = default := by
  cases skip with
  | isNones count =>
    rw [Skip.exact] at hexact
    · cases default <;> simp [Skip.accepts] at hexact
      cases v <;> simp [Skip.accepts] at hv
      rw [eq_of_allNone hv.2 hexact.2 (hv.1.trans hexact.1.symm)]
    · simp
  | isEmptySeq =>
    rcases default with _ | _ | _ | _ | _ | _ | ⟨_ | _⟩ | _ | _ <;> simp [Skip.exact, Skip.accepts] at hexact
    rcases v with _ | _ | _ | _ | _ | _ | ⟨_ | _⟩ | _ | _ <;> simp [Skip.accepts] at hv
    rfl
  | isVariant name =>
    rcases default with _ | _ | _ | _ | _ | _ | _ | _ | ⟨_,_ | _⟩ <;> simp [Skip.exact, Skip.accepts] at hexact
    rcases v with _ | _ | _ | _ | _ | _ | _ | _ | ⟨_,_ | _⟩ <;> simp [Skip.accepts] at hv
    rw [← hexact, ← hv]
  | test f => simp [Skip.exact] at hexact
  | _ =>
    cases default <;> simp [Skip.exact, Skip.accepts] at hexact
    cases v <;> simp [Skip.accepts] at hv
    simp_all

theorem Presence.default_of_sound (hsound : presence.sound = true) (hout : presence.leavesOut v = true) :
    v = presence.default := by
  cases presence with
  | skipped skip default => exact Skip.eq_of_exact hsound hout
  | required | defaulted default => cases hout

theorem Variants.sound_of_find {name : String} {fields : Fields N} : ∀ {variants : Variants N},
    variants.sound names = true → variants.find name = some fields → fields.sound names = true
  | .nil, _, h => (by cases h)
  | .cons other body rest, hsound, h => by
    rw [Variants.sound, Bool.and_eq_true] at hsound
    rcases Variants.of_find_cons h with ⟨-,rfl⟩ | h
    · exact hsound.1
    · exact Variants.sound_of_find hsound.2 h

/-- Where each predicate accepts its default only, in all types a value is made of, it is kept. -/
theorem kept_of_sound (hsound : ∀ n, names n = true → (defs n).sound names = true) (v : Value) :
    (∀ shape : Shape N, shape.within names = true → Kept defs v shape) ∧
      ∀ layout : Layout N, layout.sound names = true → KeptObject defs v layout := by
  have hvariant : ∀ {vs : List Value} {variants : Variants N} {name : String},
      (∀ fields : Fields N, fields.sound names = true → KeptFields defs vs fields) → variants.sound names = true →
      KeptFields defs vs ((variants.find name).getD .nil) := by
    intro vs variants name ih hvariants
    rcases hfind : variants.find name with _ | fields
    · exact ih _ rfl
    · exact ih _ (Variants.sound_of_find hvariants hfind)
  induction v using Value.induction (Q := fun vs => (∀ fields : Fields N, fields.sound names = true → KeptFields defs vs fields) ∧
      (∀ a : Atom N, (Shape.plain a).within names = true → AllKept defs vs a) ∧
      ∀ shape : Option (Shape N), (shape.map (Shape.within names)).getD true = true → KeptContent defs vs shape) with
  | hsome v ih =>
    refine ⟨fun shape hwithin => ?_,fun layout _ => by cases layout <;> simp [KeptObject]⟩
    cases shape with
    | option a =>
      exact ih.1 _ (by cases a <;> first | rfl | exact hwithin)
    | plain a | seq a => simp [Kept]
  | hseq vs ih =>
    refine ⟨fun shape hwithin => ?_,fun layout _ => by cases layout <;> simp [KeptObject]⟩
    cases shape with
    | seq a =>
      exact ih.2.1 a (by cases a <;> first | rfl | exact hwithin)
    | plain a | option a => simp [Kept]
  | hrecord vs ih =>
    constructor
    · intro shape hwithin
      rcases shape with a | a | a
      · cases a with
        | ref n =>
          have hn := hsound n hwithin
          rw [Kept]
          split
          · rename_i fields hdef
            rw [hdef] at hn
            exact ih.1 fields hn
          · trivial
        | _ => simp [Kept]
      · simp [Kept]
      · simp [Kept]
    · intro layout hlayout
      cases layout with
      | struct fields => exact ih.1 fields hlayout
      | tagged tag variants => simp [KeptObject]
  | hvariant name vs ih =>
    constructor
    · intro shape hwithin
      rcases shape with a | a | a
      · cases a with
        | ref n =>
          have hn := hsound n hwithin
          rw [Kept]
          split
          · rename_i tag variants hdef
            rw [hdef] at hn
            exact hvariant ih.1 hn
          · rename_i tag content variants hdef
            rw [hdef] at hn
            refine ih.2.2 _ ?_
            rcases hlookup : variants.lookup name with _ | shape
            · rfl
            · obtain ⟨front,behind,rfl,-⟩ := List.lookup_eq_some_iff.mp hlookup
              exact all_eq_true.mp hn (name,shape) (by simp)
          · trivial
        | _ => simp [Kept]
      · simp [Kept]
      · simp [Kept]
    · intro layout hlayout
      cases layout with
      | struct fields => simp [KeptObject]
      | tagged tag variants => exact hvariant ih.1 hlayout
  | hnil =>
    refine ⟨fun fields _ => ?_,fun a _ => ?_,fun shape _ => ?_⟩
    · cases fields <;> simp [KeptFields]
    · simp [AllKept]
    · simp [KeptContent]
  | hcons v vs ihv ihvs =>
    refine ⟨fun fields hfields => ?_,fun a ha => ?_,fun shape hshape => ?_⟩
    · cases fields with
      | nil => simp [KeptFields]
      | field name shape presence rest =>
        simp only [Fields.sound, Bool.and_eq_true] at hfields
        refine ⟨?_,ihvs.1 rest hfields.2⟩
        split_ifs with hout
        · exact Presence.default_of_sound hfields.1.1 hout
        · exact ihv.1 shape hfields.1.2
      | flatten inner rest =>
        rw [Fields.sound, Bool.and_eq_true] at hfields
        exact ⟨ihv.2 inner hfields.1,ihvs.1 rest hfields.2⟩
    · exact ⟨ihv.1 _ ha,ihvs.2.1 a ha⟩
    · cases shape with
      | none => simp [KeptContent]
      | some shape => exact ihv.1 shape hshape
  | _ =>
    refine ⟨fun shape _ => ?_,fun layout _ => by cases layout <;> simp [KeptObject]⟩
    rcases shape with a | a | a <;> cases a <;> simp [Kept]

/-- Where all fields but the last one are sound, the last one decides. -/
theorem keptFields_iff_last (hsound : ∀ n, names n = true → (defs n).sound names = true) :
    ∀ {vs : List Value} {fields : Fields N}, fields.soundBefore names = true → hasFields defs vs fields = true →
      ∃ front last, vs = front ++ [last] ∧ hasFields defs [last] fields.last = true ∧
        (KeptFields defs vs fields ↔ KeptFields defs [last] fields.last)
  | _, .nil, hbefore, _ => (by cases hbefore)
  | _, .flatten inner rest, hbefore, _ => (by cases hbefore)
  | [], .field name shape presence rest, _, hfields => by simp [hasFields] at hfields
  | v :: vs, .field name shape presence rest, hbefore, hfields => by
    rw [Fields.soundBefore, Bool.or_eq_true, Bool.and_eq_true, Bool.and_eq_true] at hbefore
    rw [hasFields, Bool.and_eq_true] at hfields
    rw [Fields.last]
    split_ifs with hnil
    · obtain rfl : rest = .nil := by
        cases rest with
        | nil => rfl
        | field _ _ _ _ | flatten _ _ => cases hnil
      obtain rfl : vs = [] := by
        cases vs with
        | nil => rfl
        | cons u us => simp [hasFields] at hfields
      exact ⟨[],v,rfl,by simp [hasFields, hfields.1],Iff.rfl⟩
    · obtain ⟨⟨hpresence,hwithin⟩,hrest⟩ := hbefore.resolve_left hnil
      obtain ⟨front,last,rfl,hlast,hiff⟩ := keptFields_iff_last hsound hrest hfields.2
      refine ⟨v :: front,last,rfl,hlast,?_⟩
      rw [KeptFields, hiff, and_iff_right]
      split_ifs with hout
      · exact Presence.default_of_sound hpresence hout
      · exact (kept_of_sound hsound v).1 shape hwithin

end

end Unpeel.Serde
