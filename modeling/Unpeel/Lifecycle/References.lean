import Mathlib.Data.List.Forall2
import Mathlib.Data.Option.Basic
import Unpeel.Manifest.Record

/-! # References to a Session

`app-state.json` names Sessions in pins, grants and approvals, and `session-order.json`
lists them by project. Both are rewritten as they are, without a typed reading, when a Session
gets a new id or goes away.
-/
namespace Unpeel.Lifecycle
open Manifest List Function

/-- A value of `serde_json`. Its maps have no order. -/
inductive Json where
  | null
  | bool (b : Bool)
  | posInt (n : ℕ)
  -- negative numbers and fractions, as they are written
  | number (raw : Text)
  | str (s : Text)
  | arr (values : List Json)
  | obj (fields : Text → Option Json)

abbrev Fields := Text → Option Json

namespace Json

def asStr : Json → Option Text
  | str s => some s
  | _ => none

def asArray : Json → Option (List Json)
  | arr values => some values
  | _ => none

def asObject : Json → Option Fields
  | obj fields => some fields
  | _ => none

end Json

/-- The loop of `retain_mut`: an entry that names the old id is renamed or dropped. Whether
there was one is the second result. -/
def retainEntries (names : Json → Text → Bool) (rename : Text → Text → Json → Json) (oldId : Text)
    (replacementId : Option Text) : Json → Json × Bool
  | .arr values =>
    (.arr (values.filterMap fun value =>
      if names value oldId then replacementId.map (rename oldId · value) else some value),
      values.any (names · oldId))
  | value => (value,false)

def stringMatches (value : Json) (sessionId : Text) : Bool := value.asStr = some sessionId

def rewriteStringArray (oldId : Text) (replacementId : Option Text) (value : Json) : Json × Bool :=
  retainEntries stringMatches (fun _ newId _ => .str newId) oldId replacementId value

def pinnedSidebarSessionKey (sessionId : Text) : Text := "session:".toList ++ sessionId

def pinnedEntryMatches (value : Json) (sessionId : Text) : Bool :=
  value.asStr = some sessionId || value.asObject.any fun entry =>
    (entry "session_id".toList).bind Json.asStr = some sessionId ||
      (entry "key".toList).bind Json.asStr = some (pinnedSidebarSessionKey sessionId)

def replaceField (field oldText newText : Text) (entry : Fields) : Fields :=
  if (entry field).bind Json.asStr = some oldText then Function.update entry field (some (.str newText)) else entry

def renamePinnedEntry (oldId newId : Text) : Json → Json
  | .str _ => .str newId
  | .obj entry =>
    .obj (replaceField "key".toList (pinnedSidebarSessionKey oldId) (pinnedSidebarSessionKey newId)
      (replaceField "session_id".toList oldId newId entry))
  | value => value

def rewritePinnedArray (oldId : Text) (replacementId : Option Text) (value : Json) : Json × Bool :=
  retainEntries pinnedEntryMatches renamePinnedEntry oldId replacementId value

def rewriteBuckets (rewrite : Json → Json × Bool) (replacementId : Option Text) (grouped : Fields) : Fields := fun key =>
  (grouped key).bind fun entries =>
    let (entries,changedHere) := rewrite entries
    if replacementId = none ∧ changedHere ∧ entries.asArray.any List.isEmpty then none else some entries

def moveKey (oldId : Text) (replacementId : Option Text) (map : Fields) : Fields :=
  match map oldId with
  | none => map
  | some value =>
    match replacementId with
    | some newId => Function.update (Function.update map oldId none) newId (some value)
    | none => Function.update map oldId none

def onObject (f : Fields → Fields) : Json → Json
  | .obj fields => .obj (f fields)
  | value => value

def rewritePinned (oldId : Text) (replacementId : Option Text) : Json → Json
  | .obj grouped => .obj (rewriteBuckets (rewritePinnedArray oldId replacementId) replacementId grouped)
  | .arr entries => (rewritePinnedArray oldId replacementId (.arr entries)).1
  | value => value

def rewriteGrants (oldId : Text) (replacementId : Option Text) : Json → Json := onObject (moveKey oldId replacementId)

def rewriteWriteApprovals (oldId : Text) (replacementId : Option Text) : Json → Json :=
  onObject fun approvals =>
    rewriteBuckets (rewriteStringArray oldId replacementId) replacementId (moveKey oldId replacementId approvals)

/-- The value is ignored where the result of `get_mut` is `None`. -/
def onField (field : Text) (f : Json → Json) (state : Fields) : Fields :=
  match state field with
  | none => state
  | some value => Function.update state field (some (f value))

def rewriteApprovals (oldId : Text) (replacementId : Option Text) (value : Json) : Json :=
  (rewriteStringArray oldId replacementId value).1

def pinnedSessions : Text := "pinned_sessions".toList
def mcpOrchestrators : Text := "mcp_orchestrators".toList
def mcpWriteApprovals : Text := "mcp_write_approvals".toList
def mcpAppOpenApprovals : Text := "mcp_app_open_approvals".toList
def browserApprovals : Text := "browser_approvals".toList
def computerApprovals : Text := "computer_approvals".toList

/-- What `rewrite_app_state_session_references` does before it turns to the presentations. -/
def rewriteUntyped (oldId : Text) (replacementId : Option Text) (state : Fields) : Fields :=
  let state := onField pinnedSessions (rewritePinned oldId replacementId) state
  let state := onField mcpOrchestrators (rewriteGrants oldId replacementId) state
  let state := onField mcpWriteApprovals (rewriteWriteApprovals oldId replacementId) state
  let state := onField mcpAppOpenApprovals (rewriteGrants oldId replacementId) state
  let state := onField browserApprovals (rewriteApprovals oldId replacementId) state
  onField computerApprovals (rewriteApprovals oldId replacementId) state

/-- `rewrite_session_order_value`; whether anything changed is left out. -/
def rewriteSessionOrderValue (oldId : Text) (replacementId : Option Text) : Json → Json :=
  onObject (rewriteBuckets (rewriteStringArray oldId replacementId) replacementId)

/-- The second value is the first with the old id replaced, as an entry, in the key of a pin
or as a key of a map. -/
inductive Renamed (oldId newId : Text) : Json → Json → Prop where
  | same (value : Json) : Renamed oldId newId value value
  | id : Renamed oldId newId (.str oldId) (.str newId)
  | pinKey : Renamed oldId newId (.str (pinnedSidebarSessionKey oldId)) (.str (pinnedSidebarSessionKey newId))
  | arr {values values' : List Json} : List.Forall₂ (Renamed oldId newId) values values' →
      Renamed oldId newId (.arr values) (.arr values')
  | obj {fields fields' : Fields} : (∀ key, Option.Rel (Renamed oldId newId) (fields key) (fields' key)) →
      Renamed oldId newId (.obj fields) (.obj fields')
  | moved {fields fields' : Fields} :
      (∀ key, key ≠ oldId → key ≠ newId → Option.Rel (Renamed oldId newId) (fields key) (fields' key)) →
      Option.Rel (Renamed oldId newId) (fields oldId) (fields' newId) → fields' oldId = none → fields newId = none →
      Renamed oldId newId (.obj fields) (.obj fields')

/-- The second value is the first without entries and keys that name the old id, and without
lists that this has emptied. -/
inductive Removed (oldId : Text) : Json → Json → Prop where
  | same (value : Json) : Removed oldId value value
  | arr {values : List Json} (keep : Json → Bool) :
      (∀ entry ∈ values, keep entry = false → pinnedEntryMatches entry oldId = true) →
      Removed oldId (.arr values) (.arr (values.filter keep))
  | obj {fields fields' : Fields} (gone : Text → Prop) :
      (∀ key, ¬gone key → Option.Rel (Removed oldId) (fields key) (fields' key)) →
      (∀ key, gone key → fields' key = none) →
      (∀ key value, gone key → fields key = some value → key ≠ oldId → Removed oldId value (.arr [])) →
      (∀ key value, gone key → fields key = some value → key ≠ oldId → value ≠ .arr []) →
      Removed oldId (.obj fields) (.obj fields')

structure Rewrites (refers : Json → Text → Prop) (rewrite : Text → Option Text → Json → Json) : Prop where
  refers_rewrite : ∀ {oldId repl value id}, refers (rewrite oldId repl value) id →
    refers value id ∧ id ≠ oldId ∨ repl = some id ∧ refers value oldId
  named : ∀ {oldId newId value}, refers value oldId → refers (rewrite oldId (some newId) value) newId
  of_not_refers : ∀ {oldId} repl {value}, ¬refers value oldId → rewrite oldId repl value = value
  renamed : ∀ {oldId newId value}, ¬refers value newId → Renamed oldId newId value (rewrite oldId (some newId) value)
  back : ∀ {oldId newId value}, ¬refers value newId →
    rewrite newId (some oldId) (rewrite oldId (some newId) value) = value
  removed : ∀ {oldId value}, Removed oldId value (rewrite oldId none value)

structure RenamesEntry (names : Json → Text → Bool) (rename : Text → Text → Json → Json) : Prop where
  names_rename : ∀ {oldId newId value id}, names value oldId = true → names (rename oldId newId value) id = true →
    names value id = true ∧ id ≠ oldId ∨ id = newId
  named : ∀ {oldId newId value}, names value oldId = true → names (rename oldId newId value) newId = true
  renamed : ∀ {oldId newId value}, names value oldId = true → Renamed oldId newId value (rename oldId newId value)
  back : ∀ {oldId newId value}, names value oldId = true → names value newId = false →
    rename newId oldId (rename oldId newId value) = value
  matches_pinned : ∀ {value id}, names value id = true → pinnedEntryMatches value id = true

def ArrayRefers (names : Json → Text → Bool) (value : Json) (id : Text) : Prop :=
  ∃ values, value = .arr values ∧ ∃ entry ∈ values, names entry id = true

section Entries

theorem renames_string : RenamesEntry stringMatches (fun _ newId _ => .str newId) where
  names_rename := by
    intro oldId newId value id _ hnames
    simp only [stringMatches, Json.asStr, Option.some.injEq, decide_eq_true_eq] at hnames
    exact .inr hnames.symm
  named := by
    intro oldId newId value _
    simp [stringMatches, Json.asStr]
  renamed := by
    intro oldId newId value hnames
    cases value with
    | str s =>
      simp only [stringMatches, Json.asStr, Option.some.injEq, decide_eq_true_eq] at hnames
      subst hnames
      exact .id
    | _ => simp [stringMatches, Json.asStr] at hnames
  back := by
    intro oldId newId value hnames _
    cases value with
    | str s =>
      simp only [stringMatches, Json.asStr, Option.some.injEq, decide_eq_true_eq] at hnames
      rw [hnames]
    | _ => simp [stringMatches, Json.asStr] at hnames
  matches_pinned := by
    intro value id hnames
    simp only [stringMatches, decide_eq_true_eq] at hnames
    simp only [pinnedEntryMatches, hnames, decide_true, Bool.true_or]

theorem pinnedSidebarSessionKey_injective : Function.Injective pinnedSidebarSessionKey := fun _ _ h =>
  append_cancel_left h

theorem bind_asStr_eq_some {value : Option Json} {text : Text} :
    value.bind Json.asStr = some text ↔ value = some (.str text) := by
  cases value with
  | none => simp
  | some value => cases value <;> simp [Json.asStr]

theorem pinnedEntryMatches_obj {entry : Fields} {id : Text} :
    pinnedEntryMatches (.obj entry) id = true ↔
      entry "session_id".toList = some (.str id) ∨ entry "key".toList = some (.str (pinnedSidebarSessionKey id)) := by
  simp only [pinnedEntryMatches, Json.asStr, Json.asObject, Option.any_some, Bool.or_eq_true, decide_eq_true_eq,
    bind_asStr_eq_some, reduceCtorEq, false_or]

theorem pinnedEntryMatches_cases {value : Json} {id : Text} (h : pinnedEntryMatches value id = true) :
    value = .str id ∨ ∃ entry, value = .obj entry := by
  cases value with
  | str s =>
    simp only [pinnedEntryMatches, Json.asStr, Json.asObject, Option.any_none, Bool.or_false, Option.some.injEq,
      decide_eq_true_eq] at h
    exact .inl (congrArg _ h)
  | obj entry => exact .inr ⟨entry,rfl⟩
  | _ =>
    simp only [pinnedEntryMatches, Json.asStr, Json.asObject, Option.any_none, Bool.or_false, reduceCtorEq,
      decide_false, Bool.false_eq_true] at h

theorem pinnedEntryMatches_str {s id : Text} : pinnedEntryMatches (.str s) id = true ↔ s = id := by
  simp only [pinnedEntryMatches, Json.asStr, Json.asObject, Option.any_none, Bool.or_false, Option.some.injEq,
    decide_eq_true_eq]

section Fields
variable {field oldText newText : Text} {entry : Fields}

theorem replaceField_hit (h : entry field = some (.str oldText)) :
    replaceField field oldText newText entry = Function.update entry field (some (.str newText)) :=
  if_pos (bind_asStr_eq_some.mpr h)

theorem replaceField_miss (h : entry field ≠ some (.str oldText)) : replaceField field oldText newText entry = entry :=
  if_neg fun hno => h (bind_asStr_eq_some.mp hno)

theorem replaceField_of_ne {key : Text} (h : key ≠ field) : replaceField field oldText newText entry key = entry key := by
  by_cases hold : entry field = some (.str oldText)
  · rw [replaceField_hit hold, update_of_ne h]
  · rw [replaceField_miss hold]

theorem replaceField_eq_str {text : Text} (h : replaceField field oldText newText entry field = some (.str text)) :
    entry field = some (.str text) ∧ text ≠ oldText ∨ text = newText := by
  by_cases hold : entry field = some (.str oldText)
  · rw [replaceField_hit hold, update_self, Option.some.injEq, Json.str.injEq] at h
    exact .inr h.symm
  · rw [replaceField_miss hold] at h
    refine .inl ⟨h,?_⟩
    rintro rfl
    exact hold h

theorem replaceField_back (h : entry field ≠ some (.str newText)) :
    replaceField field newText oldText (replaceField field oldText newText entry) = entry := by
  by_cases hold : entry field = some (.str oldText)
  · rw [replaceField_hit hold, replaceField_hit (update_self ..), update_idem, ← hold,
      update_eq_self]
  · rw [replaceField_miss hold, replaceField_miss h]

theorem replaceField_comm {field' oldText' newText' : Text} (h : field ≠ field') :
    replaceField field oldText newText (replaceField field' oldText' newText' entry) =
      replaceField field' oldText' newText' (replaceField field oldText newText entry) := by
  have hleft : replaceField field' oldText' newText' entry field = entry field := replaceField_of_ne h
  have hright : replaceField field oldText newText entry field' = entry field' := replaceField_of_ne h.symm
  by_cases hold : entry field = some (.str oldText)
  · by_cases hold' : entry field' = some (.str oldText')
    · rw [replaceField_hit (hleft.trans hold), replaceField_hit (hright.trans hold'), replaceField_hit hold,
        replaceField_hit hold', update_comm h]
    · rw [replaceField_miss hold', replaceField_miss (hright.trans_ne hold')]
  · rw [replaceField_miss hold, replaceField_miss (hleft.trans_ne hold)]

theorem replaceField_rel {oldId newId : Text} (h : Renamed oldId newId (.str oldText) (.str newText)) (key : Text) :
    Option.Rel (Renamed oldId newId) (entry key) (replaceField field oldText newText entry key) := by
  have hsame : Option.Rel (Renamed oldId newId) (entry key) (entry key) := by
    cases entry key with
    | none => exact .none
    | some value => exact .some (.same value)
  by_cases hold : entry field = some (.str oldText)
  · rw [replaceField_hit hold]
    by_cases hkey : key = field
    · subst hkey
      rw [update_self, hold]
      exact .some h
    · rw [update_of_ne hkey]
      exact hsame
  · rw [replaceField_miss hold]
    exact hsame

end Fields

theorem renames_pinned : RenamesEntry pinnedEntryMatches renamePinnedEntry where
  names_rename := by
    intro oldId newId value id hnames hafter
    rcases pinnedEntryMatches_cases hnames with rfl | ⟨entry,rfl⟩
    · exact .inr (pinnedEntryMatches_str.mp hafter).symm
    · simp only [renamePinnedEntry, pinnedEntryMatches_obj] at hafter
      rw [pinnedEntryMatches_obj]
      rcases hafter with hsession | hkey
      · rw [replaceField_of_ne (by decide)] at hsession
        rcases replaceField_eq_str hsession with ⟨hold,hne⟩ | hnew
        · exact .inl ⟨.inl hold,hne⟩
        · exact .inr hnew
      · rcases replaceField_eq_str hkey with ⟨hold,hne⟩ | hnew
        · rw [replaceField_of_ne (by decide)] at hold
          exact .inl ⟨.inr hold,fun hid => hne (congrArg pinnedSidebarSessionKey hid)⟩
        · exact .inr (pinnedSidebarSessionKey_injective hnew)
  named := by
    intro oldId newId value hnames
    rcases pinnedEntryMatches_cases hnames with rfl | ⟨entry,rfl⟩
    · exact pinnedEntryMatches_str.mpr rfl
    · rw [pinnedEntryMatches_obj] at hnames
      rw [renamePinnedEntry, pinnedEntryMatches_obj]
      rcases hnames with hsession | hkey
      · left
        rw [replaceField_of_ne (by decide), replaceField_hit hsession]
        exact update_self ..
      · right
        rw [replaceField_hit (by rw [replaceField_of_ne (by decide)]; exact hkey)]
        exact update_self ..
  renamed := by
    intro oldId newId value hnames
    rcases pinnedEntryMatches_cases hnames with rfl | ⟨entry,rfl⟩
    · exact .id
    · refine .obj fun key => ?_
      by_cases hkey : key = "key".toList
      · subst hkey
        have hsame : replaceField "session_id".toList oldId newId entry "key".toList = entry "key".toList :=
          replaceField_of_ne (by decide)
        rw [← hsame]
        exact replaceField_rel .pinKey _
      · rw [replaceField_of_ne hkey]
        exact replaceField_rel .id _
  back := by
    intro oldId newId value hnames hfresh
    rcases pinnedEntryMatches_cases hnames with rfl | ⟨entry,rfl⟩
    · exact rfl
    · rw [← Bool.not_eq_true, pinnedEntryMatches_obj, not_or] at hfresh
      simp only [renamePinnedEntry]
      have hkey : replaceField "session_id".toList oldId newId entry "key".toList ≠
          some (.str (pinnedSidebarSessionKey newId)) := by
        rw [replaceField_of_ne (by decide)]
        exact hfresh.2
      rw [replaceField_comm (by decide), replaceField_back hkey, replaceField_back hfresh.1]
  matches_pinned := fun h => h

end Entries

section Lists
variable {names : Json → Text → Bool} {rename : Text → Text → Json → Json} {oldId newId id : Text}
  {replacementId : Option Text} {value : Json}

theorem retainEntries_changed :
    (retainEntries names rename oldId replacementId value).2 = true ↔ ArrayRefers names value oldId := by
  cases value with
  | arr values | _ => simp [retainEntries, ArrayRefers]

theorem retainEntries_some {values : List Json} :
    (retainEntries names rename oldId (some newId) (.arr values)).1 =
      .arr (values.map fun entry => if names entry oldId then rename oldId newId entry else entry) := by
  simp only [retainEntries, Json.arr.injEq]
  rw [← filterMap_eq_map]
  refine filterMap_congr fun entry _ => ?_
  split_ifs <;> simp [*]

theorem retainEntries_none {values : List Json} :
    (retainEntries names rename oldId none (.arr values)).1 = .arr (values.filter (!names · oldId)) := by
  simp only [retainEntries, Json.arr.injEq]
  rw [← List.filterMap_eq_filter]
  refine filterMap_congr fun entry _ => ?_
  cases hnames : names entry oldId <;> simp [hnames, Option.guard]

theorem RenamesEntry.rewrites (h : RenamesEntry names rename) :
    Rewrites (ArrayRefers names) fun oldId repl value => (retainEntries names rename oldId repl value).1 where
  refers_rewrite := by
    rintro oldId repl value id ⟨values',heq,entry,hentry,hnames⟩
    cases value with
    | arr values =>
      cases heq
      obtain ⟨before,hbefore,hkept⟩ := mem_filterMap.mp hentry
      split_ifs at hkept with hold
      · obtain ⟨newId,rfl,rfl⟩ := Option.map_eq_some_iff.mp hkept
        rcases h.names_rename hold hnames with ⟨hid,hne⟩ | rfl
        · exact .inl ⟨⟨values,rfl,before,hbefore,hid⟩,hne⟩
        · exact .inr ⟨rfl,values,rfl,before,hbefore,hold⟩
      · cases hkept
        refine .inl ⟨⟨values,rfl,entry,hbefore,hnames⟩,?_⟩
        rintro rfl
        exact hold hnames
    | _ => cases heq
  named := by
    rintro oldId newId value ⟨values,rfl,entry,hentry,hnames⟩
    refine ⟨_,retainEntries_some,rename oldId newId entry,mem_map.mpr ⟨entry,hentry,?_⟩,h.named hnames⟩
    exact if_pos hnames
  of_not_refers := by
    intro oldId repl value hno
    cases value with
    | arr values =>
      simp only [retainEntries, Json.arr.injEq]
      conv_rhs => rw [← filterMap_some (l := values)]
      refine filterMap_congr fun entry hentry => if_neg fun hnames => ?_
      exact hno ⟨values,rfl,entry,hentry,hnames⟩
    | _ => exact rfl
  renamed := by
    intro oldId newId value _
    cases value with
    | arr values =>
      rw [retainEntries_some]
      refine .arr (List.forall₂_map_right_iff.mpr (List.forall₂_same.mpr fun entry _ => ?_))
      split_ifs with hnames
      · exact h.renamed hnames
      · exact .same entry
    | _ => exact .same _
  back := by
    intro oldId newId value hfresh
    cases value with
    | arr values =>
      rw [retainEntries_some, retainEntries_some, map_map, Json.arr.injEq]
      refine (map_congr_left fun entry hentry => ?_).trans (map_id values)
      have hentryFresh : names entry newId = false := by
        rw [← Bool.not_eq_true]
        exact fun hnames => hfresh ⟨values,rfl,entry,hentry,hnames⟩
      by_cases hnames : names entry oldId = true
      · simp [hnames, h.named hnames, h.back hnames hentryFresh]
      · simp [hnames, hentryFresh]
    | _ => exact rfl
  removed := by
    intro oldId value
    cases value with
    | arr values =>
      rw [retainEntries_none]
      exact .arr _ fun entry _ hdropped => h.matches_pinned (by simpa using hdropped)
    | _ => exact .same _

end Lists

def BucketRefers (names : Json → Text → Bool) (grouped : Fields) (id : Text) : Prop :=
  ∃ key value, grouped key = some value ∧ ArrayRefers names value id

section Buckets
variable {names : Json → Text → Bool} {rename : Text → Text → Json → Json} {oldId newId id : Text}
  {replacementId : Option Text} {grouped : Fields}

theorem rewriteBuckets_some (rewrite : Json → Json × Bool) (key : Text) :
    rewriteBuckets rewrite (some newId) grouped key = (grouped key).map fun entries => (rewrite entries).1 := by
  cases hkey : grouped key <;> simp [rewriteBuckets, hkey]

theorem rewriteBuckets_eq_some {rewrite : Json → Json × Bool} {key : Text} {value : Json}
    (h : rewriteBuckets rewrite replacementId grouped key = some value) :
    ∃ before, grouped key = some before ∧ (rewrite before).1 = value := by
  obtain ⟨before,hbefore,hkept⟩ := Option.bind_eq_some_iff.mp h
  dsimp only at hkept
  split_ifs at hkept
  exact ⟨before,hbefore,Option.some.inj hkept⟩

variable (h : RenamesEntry names rename)
include h

theorem RenamesEntry.bucketRefers
    (hrefers : BucketRefers names (rewriteBuckets (retainEntries names rename oldId replacementId) replacementId grouped) id) :
    BucketRefers names grouped id ∧ id ≠ oldId ∨ replacementId = some id ∧ BucketRefers names grouped oldId := by
  obtain ⟨key,value,hvalue,hid⟩ := hrefers
  obtain ⟨before,hbefore,rfl⟩ := rewriteBuckets_eq_some hvalue
  rcases h.rewrites.refers_rewrite hid with ⟨hold,hne⟩ | ⟨hnew,hold⟩
  · exact .inl ⟨⟨key,before,hbefore,hold⟩,hne⟩
  · exact .inr ⟨hnew,key,before,hbefore,hold⟩

theorem RenamesEntry.buckets_named (hrefers : BucketRefers names grouped oldId) :
    BucketRefers names (rewriteBuckets (retainEntries names rename oldId (some newId)) (some newId) grouped) newId := by
  obtain ⟨key,value,hvalue,hold⟩ := hrefers
  refine ⟨key,_,?_,h.rewrites.named hold⟩
  rw [rewriteBuckets_some, hvalue, Option.map_some]

theorem RenamesEntry.buckets_of_not_refers (hno : ¬BucketRefers names grouped oldId) :
    rewriteBuckets (retainEntries names rename oldId replacementId) replacementId grouped = grouped := by
  funext key
  cases hkey : grouped key with
  | none => simp [rewriteBuckets, hkey]
  | some value =>
    have hvalue : ¬ArrayRefers names value oldId := fun hrefers => hno ⟨key,value,hkey,hrefers⟩
    have hsame := h.rewrites.of_not_refers replacementId hvalue
    have hquiet : ¬(retainEntries names rename oldId replacementId value).2 = true := fun hchanged =>
      hvalue (retainEntries_changed.mp hchanged)
    simp [rewriteBuckets, hkey, hsame, hquiet]

theorem RenamesEntry.buckets_renamed (hfresh : ¬BucketRefers names grouped newId) (key : Text) :
    Option.Rel (Renamed oldId newId) (grouped key)
      (rewriteBuckets (retainEntries names rename oldId (some newId)) (some newId) grouped key) := by
  rw [rewriteBuckets_some]
  cases hkey : grouped key with
  | none => exact .none
  | some value => exact .some (h.rewrites.renamed fun hrefers => hfresh ⟨key,value,hkey,hrefers⟩)

theorem RenamesEntry.buckets_back (hfresh : ¬BucketRefers names grouped newId) :
    rewriteBuckets (retainEntries names rename newId (some oldId)) (some oldId)
      (rewriteBuckets (retainEntries names rename oldId (some newId)) (some newId) grouped) = grouped := by
  funext key
  rw [rewriteBuckets_some, rewriteBuckets_some]
  cases hkey : grouped key with
  | none => exact rfl
  | some value =>
    exact congrArg some (h.rewrites.back fun hrefers => hfresh ⟨key,value,hkey,hrefers⟩)

/-- A list stays, without the entries that name the id, or these were all it had. -/
theorem RenamesEntry.buckets_removed (key : Text) :
    Option.Rel (Removed oldId) (grouped key)
        (rewriteBuckets (retainEntries names rename oldId none) none grouped key) ∨
      rewriteBuckets (retainEntries names rename oldId none) none grouped key = none ∧
        ∀ value, grouped key = some value → value ≠ .arr [] ∧ Removed oldId value (.arr []) := by
  cases hkey : grouped key with
  | none => simp [rewriteBuckets, hkey]
  | some value =>
    have hremoved : Removed oldId value (retainEntries names rename oldId none value).1 := h.rewrites.removed
    simp only [rewriteBuckets, hkey, Option.bind_some, true_and]
    split_ifs with hemptied
    · obtain ⟨hchanged,hempty⟩ := hemptied
      obtain ⟨values,rfl,entry,hentry,-⟩ := retainEntries_changed.mp hchanged
      refine .inr ⟨rfl,?_⟩
      rintro _ ⟨⟩
      rw [retainEntries_none] at hremoved hempty
      rw [Json.asArray, Option.any_some, List.isEmpty_iff] at hempty
      rw [hempty] at hremoved
      refine ⟨?_,hremoved⟩
      rintro ⟨⟩
      exact nomatch hentry
    · exact .inl (.some hremoved)

end Buckets

structure RewritesFields (refers : Fields → Text → Prop) (rewrite : Text → Option Text → Fields → Fields) : Prop where
  refers_rewrite : ∀ {oldId repl fields id}, refers (rewrite oldId repl fields) id →
    refers fields id ∧ id ≠ oldId ∨ repl = some id ∧ refers fields oldId
  named : ∀ {oldId newId fields}, refers fields oldId → refers (rewrite oldId (some newId) fields) newId
  of_not_refers : ∀ {oldId} repl {fields}, ¬refers fields oldId → rewrite oldId repl fields = fields
  renamed : ∀ {oldId newId fields}, ¬refers fields newId →
    Renamed oldId newId (.obj fields) (.obj (rewrite oldId (some newId) fields))
  back : ∀ {oldId newId fields}, ¬refers fields newId →
    rewrite newId (some oldId) (rewrite oldId (some newId) fields) = fields
  removed : ∀ {oldId fields}, Removed oldId (.obj fields) (.obj (rewrite oldId none fields))

def ObjectRefers (refers : Fields → Text → Prop) (value : Json) (id : Text) : Prop :=
  ∃ fields, value = .obj fields ∧ refers fields id

section Maps
variable {oldId newId id : Text} {map : Fields}

theorem RewritesFields.onObject {refers : Fields → Text → Prop} {rewrite : Text → Option Text → Fields → Fields}
    (h : RewritesFields refers rewrite) :
    Rewrites (ObjectRefers refers) fun oldId repl => Lifecycle.onObject (rewrite oldId repl) where
  refers_rewrite := by
    rintro oldId repl value id ⟨fields',heq,hrefers⟩
    cases value with
    | obj fields =>
      cases heq
      rcases h.refers_rewrite hrefers with ⟨hold,hne⟩ | ⟨hnew,hold⟩
      · exact .inl ⟨⟨fields,rfl,hold⟩,hne⟩
      · exact .inr ⟨hnew,fields,rfl,hold⟩
    | _ => cases heq
  named := by
    rintro oldId newId value ⟨fields,rfl,hrefers⟩
    exact ⟨_,rfl,h.named hrefers⟩
  of_not_refers := by
    intro oldId repl value hno
    cases value with
    | obj fields => exact congrArg Json.obj (h.of_not_refers repl fun hrefers => hno ⟨fields,rfl,hrefers⟩)
    | _ => exact rfl
  renamed := by
    intro oldId newId value hfresh
    cases value with
    | obj fields => exact h.renamed fun hrefers => hfresh ⟨fields,rfl,hrefers⟩
    | _ => exact .same _
  back := by
    intro oldId newId value hfresh
    cases value with
    | obj fields => exact congrArg Json.obj (h.back fun hrefers => hfresh ⟨fields,rfl,hrefers⟩)
    | _ => exact rfl
  removed := by
    intro oldId value
    cases value with
    | obj fields => exact h.removed
    | _ => exact .same _

theorem RenamesEntry.rewritesBuckets {names : Json → Text → Bool} {rename : Text → Text → Json → Json}
    (h : RenamesEntry names rename) :
    RewritesFields (BucketRefers names) fun oldId repl => rewriteBuckets (retainEntries names rename oldId repl) repl where
  refers_rewrite := h.bucketRefers
  named := h.buckets_named
  of_not_refers := fun _ _ hno => h.buckets_of_not_refers hno
  renamed := fun hfresh => .obj (h.buckets_renamed hfresh)
  back := h.buckets_back
  removed := by
    intro oldId fields
    refine .obj (fun key => ¬Option.Rel (Removed oldId) (fields key)
      (rewriteBuckets (retainEntries names rename oldId none) none fields key))
      (fun _ hkept => not_not.mp hkept) (fun key hgone => ?_) (fun key value hgone hvalue _ => ?_)
      (fun key value hgone hvalue _ => ?_)
    · exact ((h.buckets_removed key).resolve_left hgone).1
    · exact (((h.buckets_removed key).resolve_left hgone).2 value hvalue).2
    · exact (((h.buckets_removed key).resolve_left hgone).2 value hvalue).1

theorem moveKey_none : moveKey oldId none map = Function.update map oldId none := by
  unfold moveKey
  cases hold : map oldId with
  | none =>
    dsimp only
    rw [← hold, update_eq_self]
  | some value => exact rfl

theorem moveKey_fresh (hfresh : map newId = none) (key : Text) :
    moveKey oldId (some newId) map key = if key = newId then map oldId else if key = oldId then none else map key := by
  unfold moveKey
  cases hold : map oldId with
  | none => grind
  | some value => simp only [update_apply]

theorem moveKey_refers {repl : Option Text} (h : moveKey oldId repl map id ≠ none) :
    map id ≠ none ∧ id ≠ oldId ∨ repl = some id ∧ map oldId ≠ none := by
  unfold moveKey at h
  cases hold : map oldId with
  | none =>
    simp only [hold] at h
    refine .inl ⟨h,?_⟩
    rintro rfl
    exact h hold
  | some value =>
    simp only [hold] at h
    cases repl with
    | none => exact .inl (by grind [update_apply])
    | some newId => grind [update_apply]

theorem moveKey_named (h : map oldId ≠ none) : moveKey oldId (some newId) map newId ≠ none := by
  obtain ⟨value,hvalue⟩ := Option.ne_none_iff_exists'.mp h
  simp [moveKey, hvalue]

theorem moveKey_back (hne : oldId ≠ newId) (hfresh : map newId = none) :
    moveKey newId (some oldId) (moveKey oldId (some newId) map) = map := by
  have hgone : moveKey oldId (some newId) map oldId = none := by simp [moveKey_fresh hfresh, hne]
  funext key
  rw [moveKey_fresh hgone, moveKey_fresh hfresh, moveKey_fresh hfresh]
  grind

theorem rewritesKeys : RewritesFields (fun fields id => fields id ≠ none) moveKey where
  refers_rewrite := moveKey_refers
  named := moveKey_named
  of_not_refers := by
    intro oldId repl fields hno
    unfold moveKey
    rw [not_not.mp hno]
  renamed := by
    intro oldId newId fields hfresh
    rw [not_not] at hfresh
    by_cases hne : oldId = newId
    · subst hne
      simp only [moveKey, hfresh]
      exact .same _
    · have hsame : ∀ value : Option Json, Option.Rel (Renamed oldId newId) value value := by
        rintro (_ | value)
        · exact .none
        · exact .some (.same value)
      refine .moved (fun key hold hnew => ?_) ?_ ?_ hfresh
      · rw [moveKey_fresh hfresh, if_neg hnew, if_neg hold]
        exact hsame _
      · rw [moveKey_fresh hfresh, if_pos rfl]
        exact hsame _
      · rw [moveKey_fresh hfresh, if_neg hne, if_pos rfl]
  back := by
    intro oldId newId fields hfresh
    rw [not_not] at hfresh
    by_cases hne : oldId = newId
    · subst hne
      simp only [moveKey, hfresh]
    · exact moveKey_back hne hfresh
  removed := by
    intro oldId fields
    rw [moveKey_none]
    refine .obj (· = oldId) (fun key hkept => ?_) (fun key hgone => ?_) (fun _ _ hgone _ hne => absurd hgone hne)
      (fun _ _ hgone _ hne => absurd hgone hne)
    · rw [update_of_ne hkept]
      cases fields key with
      | none => exact .none
      | some value => exact .some (.same value)
    · rw [hgone]
      exact update_self ..

theorem moveKey_value {repl : Option Text} {key : Text} {value : Json} (h : moveKey oldId repl map key = some value) :
    ∃ key', map key' = some value := by
  unfold moveKey at h
  cases hold : map oldId with
  | none =>
    simp only [hold] at h
    exact ⟨key,h⟩
  | some moved =>
    simp only [hold] at h
    cases repl with
    | none | some newId => grind [update_apply]

theorem moveKey_map (f : Json → Json) :
    moveKey oldId (some newId) (fun key => (map key).map f) = fun key => (moveKey oldId (some newId) map key).map f := by
  funext key
  cases hold : map oldId with
  | none => simp [moveKey, hold]
  | some value =>
    simp only [moveKey, hold, Option.map_some, update_apply]
    split_ifs <;> rfl

end Maps

def PinnedRefers (value : Json) (id : Text) : Prop :=
  ObjectRefers (BucketRefers pinnedEntryMatches) value id ∨ ArrayRefers pinnedEntryMatches value id

def WriterRefers (approvals : Fields) (id : Text) : Prop := approvals id ≠ none ∨ BucketRefers stringMatches approvals id

section Places

theorem rewrites_pinned : Rewrites PinnedRefers rewritePinned where
  refers_rewrite := by
    intro oldId repl value id hrefers
    cases value with
    | obj grouped =>
      have hobject : ObjectRefers (BucketRefers pinnedEntryMatches) (rewritePinned oldId repl (.obj grouped)) id :=
        hrefers.resolve_right (fun ⟨_,hno,_⟩ => nomatch hno)
      have hbefore : ObjectRefers (BucketRefers pinnedEntryMatches) (.obj grouped) id ∧ id ≠ oldId ∨
          repl = some id ∧ ObjectRefers (BucketRefers pinnedEntryMatches) (.obj grouped) oldId :=
        renames_pinned.rewritesBuckets.onObject.refers_rewrite hobject
      rcases hbefore with ⟨hold,hne⟩ | ⟨hnew,hold⟩
      · exact .inl ⟨.inl hold,hne⟩
      · exact .inr ⟨hnew,.inl hold⟩
    | arr entries =>
      have harray : ArrayRefers pinnedEntryMatches (rewritePinned oldId repl (.arr entries)) id :=
        hrefers.resolve_left (fun ⟨_,hno,_⟩ => nomatch hno)
      have hbefore : ArrayRefers pinnedEntryMatches (.arr entries) id ∧ id ≠ oldId ∨
          repl = some id ∧ ArrayRefers pinnedEntryMatches (.arr entries) oldId :=
        renames_pinned.rewrites.refers_rewrite harray
      rcases hbefore with ⟨hold,hne⟩ | ⟨hnew,hold⟩
      · exact .inl ⟨.inr hold,hne⟩
      · exact .inr ⟨hnew,.inr hold⟩
    | _ => rcases hrefers with ⟨_,hno,_⟩ | ⟨_,hno,_⟩ <;> cases hno
  named := by
    rintro oldId newId value (hobject | harray)
    · obtain ⟨grouped,rfl,-⟩ := id hobject
      exact .inl (renames_pinned.rewritesBuckets.onObject.named hobject)
    · obtain ⟨entries,rfl,-⟩ := id harray
      exact .inr (renames_pinned.rewrites.named harray)
  of_not_refers := by
    intro oldId repl value hno
    cases value with
    | obj grouped => exact renames_pinned.rewritesBuckets.onObject.of_not_refers repl fun h => hno (.inl h)
    | arr entries => exact renames_pinned.rewrites.of_not_refers repl fun h => hno (.inr h)
    | _ => exact rfl
  renamed := by
    intro oldId newId value hfresh
    cases value with
    | obj grouped => exact renames_pinned.rewritesBuckets.onObject.renamed fun h => hfresh (.inl h)
    | arr entries => exact renames_pinned.rewrites.renamed fun h => hfresh (.inr h)
    | _ => exact .same _
  back := by
    intro oldId newId value hfresh
    cases value with
    | obj grouped => exact renames_pinned.rewritesBuckets.onObject.back fun h => hfresh (.inl h)
    | arr entries => exact renames_pinned.rewrites.back fun h => hfresh (.inr h)
    | _ => exact rfl
  removed := by
    intro oldId value
    cases value with
    | obj grouped => exact renames_pinned.rewritesBuckets.onObject.removed
    | arr entries => exact renames_pinned.rewrites.removed
    | _ => exact .same _

theorem bucketRefers_moveKey {oldId id : Text} {repl : Option Text} {map : Fields}
    (h : BucketRefers stringMatches (moveKey oldId repl map) id) : BucketRefers stringMatches map id := by
  obtain ⟨key,value,hvalue,hid⟩ := h
  obtain ⟨key',hbefore⟩ := moveKey_value hvalue
  exact ⟨key',value,hbefore,hid⟩

theorem rewritesWriters : RewritesFields WriterRefers fun oldId repl approvals =>
    rewriteBuckets (rewriteStringArray oldId repl) repl (moveKey oldId repl approvals) where
  refers_rewrite := by
    rintro oldId repl fields id (hkey | hbucket)
    · obtain ⟨value,hvalue⟩ := Option.ne_none_iff_exists'.mp hkey
      obtain ⟨before,hbefore,-⟩ := rewriteBuckets_eq_some hvalue
      rcases moveKey_refers (Option.ne_none_iff_exists'.mpr ⟨before,hbefore⟩) with ⟨hold,hne⟩ | ⟨hnew,hold⟩
      · exact .inl ⟨.inl hold,hne⟩
      · exact .inr ⟨hnew,.inl hold⟩
    · rcases renames_string.bucketRefers hbucket with ⟨hold,hne⟩ | ⟨hnew,hold⟩
      · exact .inl ⟨.inr (bucketRefers_moveKey hold),hne⟩
      · exact .inr ⟨hnew,.inr (bucketRefers_moveKey hold)⟩
  named := by
    intro oldId newId fields hrefers
    by_cases hkey : fields oldId ≠ none
    · obtain ⟨value,hvalue⟩ := Option.ne_none_iff_exists'.mp (moveKey_named hkey)
      left
      rw [rewriteBuckets_some, hvalue]
      exact Option.some_ne_none _
    · rw [rewritesKeys.of_not_refers _ hkey]
      exact .inr (renames_string.buckets_named (hrefers.resolve_left hkey))
  of_not_refers := by
    intro oldId repl fields hno
    rw [WriterRefers, not_or] at hno
    rw [rewritesKeys.of_not_refers repl hno.1]
    exact renames_string.buckets_of_not_refers hno.2
  renamed := by
    intro oldId newId fields hfresh
    by_cases hne : oldId = newId
    · subst hne
      rw [WriterRefers, not_or] at hfresh
      rw [rewritesKeys.of_not_refers _ hfresh.1]
      exact .obj (renames_string.buckets_renamed hfresh.2)
    · rw [WriterRefers, not_or, not_not] at hfresh
      have hrel : ∀ key, Option.Rel (Renamed oldId newId) (moveKey oldId (some newId) fields key)
          (rewriteBuckets (rewriteStringArray oldId (some newId)) (some newId) (moveKey oldId (some newId) fields) key) :=
        renames_string.buckets_renamed fun hrefers => hfresh.2 (bucketRefers_moveKey hrefers)
      refine .moved (fun key hold hnew => ?_) ?_ ?_ hfresh.1
      · have hkey := hrel key
        rwa [moveKey_fresh hfresh.1, if_neg hnew, if_neg hold] at hkey
      · have hkey := hrel newId
        rwa [moveKey_fresh hfresh.1, if_pos rfl] at hkey
      · rw [rewriteBuckets_some, moveKey_fresh hfresh.1, if_neg hne, if_pos rfl]
        exact rfl
  back := by
    intro oldId newId fields hfresh
    by_cases hne : oldId = newId
    · subst hne
      rw [WriterRefers, not_or] at hfresh
      rw [rewritesKeys.of_not_refers _ hfresh.1]
      have hsame : rewriteBuckets (rewriteStringArray oldId (some oldId)) (some oldId) fields = fields :=
        renames_string.buckets_of_not_refers hfresh.2
      rw [hsame, rewritesKeys.of_not_refers _ hfresh.1, hsame]
    · rw [WriterRefers, not_or, not_not] at hfresh
      have hvalues : ∀ map, rewriteBuckets (rewriteStringArray oldId (some newId)) (some newId) map =
          fun key => (map key).map fun entries => (rewriteStringArray oldId (some newId) entries).1 :=
        fun _ => funext (rewriteBuckets_some _)
      rw [hvalues, moveKey_map, moveKey_back hne hfresh.1, ← hvalues]
      exact renames_string.buckets_back hfresh.2
  removed := by
    intro oldId fields
    rw [moveKey_none]
    have hothers : ∀ key value, fields key = some value → key ≠ oldId → Function.update fields oldId none key = some value :=
      fun key value hvalue hne => (update_of_ne hne ..).trans hvalue
    generalize hleft : Function.update fields oldId none = left at hothers ⊢
    have hbucket : ∀ key, Option.Rel (Removed oldId) (left key) (rewriteBuckets (rewriteStringArray oldId none) none left key) ∨
        rewriteBuckets (rewriteStringArray oldId none) none left key = none ∧
          ∀ value, left key = some value → value ≠ .arr [] ∧ Removed oldId value (.arr []) :=
      renames_string.buckets_removed
    refine .obj (fun key => key = oldId ∨ ¬Option.Rel (Removed oldId) (left key)
      (rewriteBuckets (rewriteStringArray oldId none) none left key))
      (fun key hkept => ?_) (fun key hgone => ?_) (fun key value hgone hvalue hne => ?_)
      (fun key value hgone hvalue hne => ?_)
    · rw [not_or, not_not] at hkept
      have hrel := hkept.2
      rw [← hleft, update_of_ne hkept.1] at hrel
      rw [← hleft]
      exact hrel
    · by_cases hold : key = oldId
      · subst hold
        subst hleft
        simp [rewriteBuckets]
      · exact ((hbucket key).resolve_left (hgone.resolve_left hold)).1
    · exact (((hbucket key).resolve_left (hgone.resolve_left hne)).2 value (hothers key value hvalue hne)).2
    · exact (((hbucket key).resolve_left (hgone.resolve_left hne)).2 value (hothers key value hvalue hne)).1

theorem rewrites_nothing : Rewrites (fun _ _ => False) fun _ _ value => value where
  refers_rewrite := fun hno => hno.elim
  named := fun hno => hno
  of_not_refers := fun _ _ _ => rfl
  renamed := fun _ => .same _
  back := fun _ => rfl
  removed := .same _

end Places

def FieldRefers (field : Text) : Json → Text → Prop :=
  if field = pinnedSessions then PinnedRefers
  else if field = mcpOrchestrators ∨ field = mcpAppOpenApprovals then ObjectRefers fun fields id => fields id ≠ none
  else if field = mcpWriteApprovals then ObjectRefers WriterRefers
  else if field = browserApprovals ∨ field = computerApprovals then ArrayRefers stringMatches
  else fun _ _ => False

def rewriteField (field oldId : Text) (replacementId : Option Text) : Json → Json :=
  if field = pinnedSessions then rewritePinned oldId replacementId
  else if field = mcpOrchestrators ∨ field = mcpAppOpenApprovals then rewriteGrants oldId replacementId
  else if field = mcpWriteApprovals then rewriteWriteApprovals oldId replacementId
  else if field = browserApprovals ∨ field = computerApprovals then rewriteApprovals oldId replacementId
  else fun value => value

def OrderRefers : Json → Text → Prop := ObjectRefers (BucketRefers stringMatches)

section State

theorem rewrites_field (field : Text) : Rewrites (FieldRefers field) (rewriteField field) := by
  unfold FieldRefers rewriteField
  split_ifs
  · exact rewrites_pinned
  · exact rewritesKeys.onObject
  · exact rewritesWriters.onObject
  · exact renames_string.rewrites
  · exact rewrites_nothing

theorem rewrites_order : Rewrites OrderRefers rewriteSessionOrderValue := renames_string.rewritesBuckets.onObject

theorem onField_apply (field : Text) (f : Json → Json) (state : Fields) (key : Text) :
    onField field f state key = if key = field then (state key).map f else state key := by
  unfold onField
  by_cases hkey : key = field
  · subst hkey
    cases hvalue : state key <;> simp [hvalue]
  · cases hvalue : state field <;> simp [hkey]

theorem rewriteUntyped_apply (oldId : Text) (repl : Option Text) (state : Fields) (key : Text) :
    rewriteUntyped oldId repl state key = (state key).map (rewriteField key oldId repl) := by
  simp only [rewriteUntyped, onField_apply]
  by_cases hkey : key ∈ [pinnedSessions,mcpOrchestrators,mcpWriteApprovals,mcpAppOpenApprovals,browserApprovals,computerApprovals]
  · simp only [mem_cons, not_mem_nil, or_false] at hkey
    rcases hkey with rfl | rfl | rfl | rfl | rfl | rfl <;> rfl
  · simp only [mem_cons, not_mem_nil, or_false, not_or] at hkey
    simp [rewriteField, hkey]

end State

end Unpeel.Lifecycle
