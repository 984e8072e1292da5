import Mathlib.Algebra.Order.Group.Nat
import Mathlib.Data.List.DropRight
import Mathlib.Data.List.Nodup
import Unpeel.Manifest.Record

/-! # What the programs of a terminal say they are doing

A program reports a state for itself or for a part of it, named by a path. The Host keeps
the last report for each path, and the most urgent of them speaks for the terminal.
-/
namespace Unpeel.Session
open Manifest List

def maxRecords : ℕ := 256

inductive ProgramState where
  | idle
  | working
  | done
  | blocked
  | error
deriving DecidableEq

namespace ProgramState

def isTransient : ProgramState → Bool
  | .idle | .working | .blocked => true
  | .done | .error => false

def urgency : ProgramState → ℕ
  | .blocked => 4
  | .working => 3
  | .error => 2
  | .done => 1
  | .idle => 0

end ProgramState

inductive BlockedKind where
  | permission
  | question
  | auth
deriving DecidableEq

structure ProgramRecord where
  state : ProgramState
  kind : Option BlockedKind
  progress : Option ℕ
  app : Option Text
  title : Option Text
  msg : Option Text
deriving DecidableEq

inductive Report where
  | set (id : Text) (record : ProgramRecord)
  | clear (id : Text)
deriving DecidableEq

structure ProcessOwner where
  pid : ℕ
  startedAt : ℕ
deriving DecidableEq

structure StoredRecord where
  record : ProgramRecord
  seq : ℕ
  changedAt : ℕ
  owner : Option ProcessOwner
deriving DecidableEq

structure ProgramStatusStore where
  records : List (Text × StoredRecord)
  clock : ℕ
deriving DecidableEq

structure ProgramStatusSummary where
  state : ProgramState
  kind : Option BlockedKind
  progress : Option ℕ
  app : Option Text
  title : Option Text
  msg : Option Text
  id : Option Text
  changedAt : ℕ
deriving DecidableEq

/-- `max_by` on the urgency and then on the update order: the last one of the greatest. -/
def mostUrgent : List (Text × StoredRecord) → Option (Text × StoredRecord)
  | [] => none
  | entry :: rest =>
    match mostUrgent rest with
    | none => some entry
    | some best =>
      let urgency := best.2.record.state.urgency
      if urgency < entry.2.record.state.urgency ∨
          (urgency = entry.2.record.state.urgency ∧ best.2.seq < entry.2.seq) then some entry
      else some best

/-- `min_by_key` on the update order. -/
def leastRecent : List (Text × StoredRecord) → Option (Text × StoredRecord)
  | [] => none
  | entry :: rest =>
    match leastRecent rest with
    | none => some entry
    | some oldest => if oldest.2.seq < entry.2.seq then some oldest else some entry

def parentPath (path : Text) : Text := (path.rdropWhile (· ≠ '/')).dropLast

namespace ProgramStatusStore

def empty : ProgramStatusStore := ⟨[],0⟩

def get (store : ProgramStatusStore) (id : Text) : Option StoredRecord := (store.records.find? (·.1 = id)).map (·.2)

def under (id key : Text) : Bool := key = id || (id ++ ['/']).isPrefixOf key

def clear (store : ProgramStatusStore) (id : Text) : ProgramStatusStore × Bool :=
  let kept := if id = [] then [] else store.records.filter fun entry => !under id entry.1
  ({ store with records := kept },kept.length ≠ store.records.length)

def restate (stored : StoredRecord) (record : ProgramRecord) (seq : ℕ) (owner : Option ProcessOwner) (nowMs : ℕ) :
    StoredRecord :=
  let stored := { stored with seq := seq, owner := owner.or stored.owner }
  if stored.record = record then stored else { stored with record := record, changedAt := nowMs }

def evict (records : List (Text × StoredRecord)) : List (Text × StoredRecord) :=
  if maxRecords < records.length then
    match leastRecent records with
    | none => records
    | some oldest => records.filter (·.1 ≠ oldest.1)
  else records

def apply (store : ProgramStatusStore) (report : Report) (owner : Option ProcessOwner) (nowMs : ℕ) :
    ProgramStatusStore × Bool :=
  match report with
  | .clear id => store.clear id
  | .set id record =>
    let seq := store.clock + 1
    match store.get id with
    | some stored =>
      let restated := store.records.map fun entry =>
        if entry.1 = id then (entry.1,restate entry.2 record seq owner nowMs) else entry
      (⟨restated,seq⟩,stored.record ≠ record)
    | none => (⟨evict (store.records ++ [(id,⟨record,seq,nowMs,owner⟩)]),seq⟩,true)

def dropTransient (store : ProgramStatusStore) : ProgramStatusStore × Bool :=
  let kept := store.records.filter fun entry => !entry.2.record.state.isTransient
  ({ store with records := kept },kept.length ≠ store.records.length)

def reset (store : ProgramStatusStore) : ProgramStatusStore × Bool :=
  ({ store with records := [] },store.records ≠ [])

def sweepDeparted (store : ProgramStatusStore) (isAlive : ProcessOwner → Bool) : ProgramStatusStore × Bool :=
  let kept := store.records.filter fun entry => !entry.2.record.state.isTransient || entry.2.owner.all isAlive
  ({ store with records := kept },kept.length ≠ store.records.length)

def hasOwnedTransient (store : ProgramStatusStore) : Bool :=
  store.records.any fun entry => entry.2.record.state.isTransient && entry.2.owner.isSome

def appOf (store : ProgramStatusStore) (id : Text) : Option Text := (store.get id).bind (·.record.app)

/-- The loop over the ancestors, at most `fuel` of them. -/
def inheritedAppWithin (store : ProgramStatusStore) : ℕ → Text → Option Text
  | 0, _ => none
  | fuel + 1, path =>
    if path = [] then none
    else (store.appOf (parentPath path)).or (store.inheritedAppWithin fuel (parentPath path))

def inheritedApp (store : ProgramStatusStore) (path : Text) : Option Text := store.inheritedAppWithin path.length path

def summary (store : ProgramStatusStore) : Option ProgramStatusSummary :=
  (mostUrgent store.records).map fun (id,stored) =>
    { state := stored.record.state
      kind := stored.record.kind
      progress := stored.record.progress
      app := stored.record.app.or (store.inheritedApp id)
      title := stored.record.title
      msg := stored.record.msg
      id := if id = [] then none else some id
      changedAt := stored.changedAt }

end ProgramStatusStore

section Paths
variable {path : Text}

def Ancestor (a path : Text) : Prop := path ≠ [] ∧ (a = [] ∨ a ++ ['/'] <+: path)

theorem length_parentPath (h : path ≠ []) : (parentPath path).length < path.length := by
  have hle : (path.rdropWhile (· ≠ '/')).length ≤ path.length := (List.rdropWhile_prefix _ path).length_le
  have hpos : 0 < path.length := length_pos_iff.mpr h
  rw [parentPath, length_dropLast]
  omega

theorem parentPath_of_last {a rest : Text} (h : '/' ∉ rest) : parentPath (a ++ '/' :: rest) = a := by
  have hrest : ∀ c ∈ rest, decide (c ≠ '/') = true := by
    intro c hc
    apply decide_eq_true
    rintro rfl
    exact h hc
  have hdrop : (a ++ '/' :: rest).rdropWhile (· ≠ '/') = a ++ ['/'] := by
    rw [show a ++ '/' :: rest = (a ++ ['/']) ++ rest by simp]
    rw [List.rdropWhile, reverse_append, dropWhile_append_of_pos (by simpa using hrest)]
    simp
  rw [parentPath, hdrop, dropLast_concat]

theorem exists_last_slash (h : '/' ∈ path) : ∃ a rest, path = a ++ '/' :: rest ∧ '/' ∉ rest := by
  obtain ⟨front,back,hsplit,hfront⟩ := eq_append_cons_of_mem (List.mem_reverse.mpr h)
  refine ⟨back.reverse,front.reverse,?_,fun hmem => hfront (List.mem_reverse.mp hmem)⟩
  rw [← reverse_reverse path, hsplit]
  simp

theorem parentPath_of_not_mem (h : '/' ∉ path) : parentPath path = [] := by
  have hall : ∀ c ∈ path, decide (c ≠ '/') = true := by
    intro c hc
    apply decide_eq_true
    rintro rfl
    exact h hc
  rw [parentPath, List.rdropWhile_eq_nil_iff.mpr hall]
  rfl

theorem ancestor_parentPath (h : path ≠ []) : Ancestor (parentPath path) path := by
  refine ⟨h,?_⟩
  by_cases hslash : '/' ∈ path
  · obtain ⟨a,rest,rfl,hrest⟩ := exists_last_slash hslash
    rw [parentPath_of_last hrest]
    exact .inr ⟨rest,by simp⟩
  · exact .inl (parentPath_of_not_mem hslash)

/-- Above a path there are its parent and what is above that. -/
theorem Ancestor.parentPath {a path : Text} (h : Ancestor a path) : a = parentPath path ∨ Ancestor a (parentPath path) := by
  obtain ⟨hne,hroot | ⟨rest,hpath⟩⟩ := h
  · by_cases hparent : Session.parentPath path = []
    · exact .inl (hroot.trans hparent.symm)
    · exact .inr ⟨hparent,.inl hroot⟩
  · have hpath : path = a ++ '/' :: rest := by rw [← hpath]; simp
    subst hpath
    by_cases hslash : '/' ∈ rest
    · obtain ⟨middle,last,rfl,hlast⟩ := exists_last_slash hslash
      have hparent : Session.parentPath (a ++ '/' :: (middle ++ '/' :: last)) = a ++ '/' :: middle := by
        rw [show a ++ '/' :: (middle ++ '/' :: last) = (a ++ '/' :: middle) ++ '/' :: last by simp]
        exact parentPath_of_last hlast
      rw [hparent]
      exact .inr ⟨by simp,.inr ⟨middle,by simp⟩⟩
    · exact .inl (parentPath_of_last hslash).symm

end Paths

namespace ProgramStatusStore
variable {store : ProgramStatusStore} {id : Text}

section Summaries
variable {records : List (Text × StoredRecord)}

def NearestApp (store : ProgramStatusStore) (id : Text) : Option Text → Prop
  | some app => ∃ a, Ancestor a id ∧ store.appOf a = some app ∧
      ∀ b, Ancestor b id → a.length < b.length → store.appOf b = none
  | none => ∀ a, Ancestor a id → store.appOf a = none

theorem nearestApp_within {fuel : ℕ} {path : Text} (h : path.length ≤ fuel) :
    NearestApp store path (store.inheritedAppWithin fuel path) := by
  induction fuel generalizing path with
  | zero =>
    intro a ha
    exact absurd (length_eq_zero_iff.mp (Nat.le_zero.mp h)) ha.1
  | succ fuel ih =>
    rw [inheritedAppWithin]
    split
    · rename_i hroot
      exact fun a ha => absurd hroot ha.1
    · rename_i hne
      have hshort := length_parentPath hne
      have hrest := ih (show (parentPath path).length ≤ fuel by omega)
      cases happ : store.appOf (parentPath path) with
      | some app =>
        refine ⟨parentPath path,ancestor_parentPath hne,happ,?_⟩
        -- the parent is the longest of the ancestors
        intro b hb hlong
        rcases hb.parentPath with rfl | hb
        · exact absurd hlong (Nat.lt_irrefl _)
        · have hle : b.length < (parentPath path).length := by
            rcases hb.2 with rfl | hbegins
            · exact length_pos_iff.mpr hb.1
            · have := hbegins.length_le
              rw [length_append, length_singleton] at this
              omega
          omega
      | none =>
        cases hfound : store.inheritedAppWithin fuel (parentPath path) with
        | none =>
          rw [hfound] at hrest
          intro a ha
          rcases ha.parentPath with rfl | ha
          · exact happ
          · exact hrest a ha
        | some app =>
          rw [hfound] at hrest
          obtain ⟨a,ha,hfound,hnearest⟩ := hrest
          refine ⟨a,⟨hne,?_⟩,hfound,?_⟩
          · rcases ha.2 with rfl | hbegins
            · exact .inl rfl
            · obtain ⟨-,hparent | hparent⟩ := ancestor_parentPath hne
              · exact absurd hparent ha.1
              · exact .inr (hbegins.trans ((prefix_append _ _).trans hparent))
          · intro b hb hlong
            rcases hb.parentPath with rfl | hb
            · exact happ
            · exact hnearest b hb hlong

theorem nearestApp_inheritedApp (store : ProgramStatusStore) (id : Text) : NearestApp store id (store.inheritedApp id) :=
  nearestApp_within le_rfl

theorem mostUrgent_eq_none : mostUrgent records = none ↔ records = [] := by
  cases records with
  | nil => exact ⟨fun _ => rfl,fun _ => rfl⟩
  | cons entry rest =>
    refine ⟨fun h => ?_,nofun⟩
    rw [mostUrgent] at h
    split at h
    · cases h
    · dsimp only at h
      split at h <;> cases h

def Outranked (other best : StoredRecord) : Prop :=
  other.record.state.urgency < best.record.state.urgency ∨
    (other.record.state.urgency = best.record.state.urgency ∧ other.seq ≤ best.seq)

theorem mostUrgent_spec {best : Text × StoredRecord}
    (h : mostUrgent records = some best) : best ∈ records ∧ ∀ other ∈ records, Outranked other.2 best.2 := by
  induction records generalizing best with
  | nil => cases h
  | cons entry rest ih =>
    rw [mostUrgent] at h
    split at h
    · rename_i hnone
      cases h
      rw [mostUrgent_eq_none.mp hnone]
      refine ⟨mem_cons_self,fun other hother => ?_⟩
      rw [mem_singleton.mp hother]
      exact .inr ⟨rfl,le_rfl⟩
    · rename_i found hfound
      obtain ⟨hmem,hall⟩ := ih hfound
      dsimp only at h
      split at h
      · rename_i hgreater
        cases h
        refine ⟨mem_cons_self,fun other hother => ?_⟩
        rcases mem_cons.mp hother with rfl | hother
        · exact .inr ⟨rfl,le_rfl⟩
        · have := hall other hother
          unfold Outranked at this ⊢
          omega
      · rename_i hless
        cases h
        refine ⟨mem_cons_of_mem _ hmem,fun other hother => ?_⟩
        rcases mem_cons.mp hother with rfl | hother
        · unfold Outranked
          omega
        · exact hall other hother

end Summaries

section Soundness
variable {records : List (Text × StoredRecord)}

def LastReport (reported : List Text) (id : Text) (number : ℕ) : Prop :=
  ∃ earlier later, reported = earlier ++ id :: later ∧ earlier.length + 1 = number ∧ id ∉ later

/-- One record for each id, with the number of the last report for it; `reported` lists the
ids of the reports so far. -/
structure Sound (reported : List Text) (store : ProgramStatusStore) : Prop where
  ids : (store.records.map (·.1)).Nodup
  counted : store.clock = reported.length
  numbered : ∀ entry ∈ store.records, LastReport reported entry.1 entry.2.seq
  bounded : store.records.length ≤ maxRecords

variable {reported : List Text}

theorem LastReport.le {number : ℕ} (h : LastReport reported id number) : number ≤ reported.length := by
  obtain ⟨earlier,later,rfl,rfl,-⟩ := h
  rw [length_append, length_cons]
  omega

theorem LastReport.inj {other : Text} {number : ℕ} (h : LastReport reported id number)
    (h' : LastReport reported other number) : id = other := by
  obtain ⟨earlier,later,rfl,rfl,-⟩ := h
  obtain ⟨earlier',later',hsplit,hlength,-⟩ := h'
  obtain ⟨-,hrest⟩ := append_inj hsplit (by omega)
  exact (List.cons.inj hrest).1

theorem LastReport.snoc {other : Text} {number : ℕ} (h : LastReport reported id number) (hne : id ≠ other) :
    LastReport (reported ++ [other]) id number := by
  obtain ⟨earlier,later,rfl,hnumber,hlater⟩ := h
  refine ⟨earlier,later ++ [other],by simp,hnumber,?_⟩
  intro hmem
  rcases mem_append.mp hmem with hmem | hmem
  · exact hlater hmem
  · exact hne (mem_singleton.mp hmem)

theorem lastReport_self (reported : List Text) (id : Text) : LastReport (reported ++ [id]) id (reported.length + 1) :=
  ⟨reported,[],rfl,rfl,not_mem_nil⟩

/-- Of two records the one with the greater number was reported later. -/
theorem LastReport.later {other : Text} {number number' : ℕ} (h : LastReport reported id number)
    (h' : LastReport reported other number') (hlt : number < number') :
    ∃ earlier later, reported = earlier ++ other :: later ∧ id ∈ earlier ∧ id ∉ later ∧ other ∉ later := by
  obtain ⟨before,after,rfl,rfl,hafter⟩ := h
  obtain ⟨earlier,later,hsplit,hlength,hlater⟩ := h'
  have hbegins : before ++ [id] <+: earlier := by
    have hfirst : before ++ [id] <+: before ++ id :: after := ⟨after,by simp⟩
    have hsecond : earlier <+: before ++ id :: after := ⟨other :: later,hsplit.symm⟩
    apply prefix_of_prefix_length_le hfirst hsecond
    rw [length_append, length_singleton]
    omega
  obtain ⟨middle,rfl⟩ := hbegins
  have hrest : after = middle ++ other :: later := by
    rw [append_assoc, append_assoc] at hsplit
    exact (List.cons.inj (append_cancel_left hsplit)).2
  refine ⟨before ++ [id] ++ middle,later,hsplit,by simp,?_,hlater⟩
  intro hmem
  apply hafter
  rw [hrest]
  exact mem_append_right _ (mem_cons_of_mem _ hmem)

theorem sound_empty : Sound [] empty := ⟨nodup_nil,rfl,nofun,Nat.zero_le _⟩

theorem Sound.filter (h : Sound reported store) (keep : Text × StoredRecord → Bool) :
    Sound reported { store with records := store.records.filter keep } where
  ids := h.ids.sublist (filter_sublist.map _)
  counted := h.counted
  numbered := fun entry hentry => h.numbered entry (mem_filter.mp hentry).1
  bounded := (length_filter_le ..).trans h.bounded

theorem Sound.cleared (h : Sound reported store) : Sound reported { store with records := [] } :=
  ⟨nodup_nil,h.counted,nofun,Nat.zero_le _⟩

theorem Sound.get (h : Sound reported store) {entry : Text × StoredRecord} (hentry : entry ∈ store.records) :
    store.get entry.1 = some entry.2 := by
  unfold ProgramStatusStore.get
  have hunique : ∀ other ∈ store.records, other.1 = entry.1 → other = entry :=
    fun other hother heq => inj_on_of_nodup_map h.ids hother hentry heq
  cases hfind : store.records.find? (·.1 = entry.1) with
  | none => exact absurd (decide_eq_true rfl) (find?_eq_none.mp hfind entry hentry)
  | some found =>
    have hkey : found.1 = entry.1 := by simpa using find?_some hfind
    rw [hunique found (mem_of_find?_eq_some hfind) hkey]
    rfl

theorem mem_of_get {stored : StoredRecord} (h : store.get id = some stored) : (id,stored) ∈ store.records := by
  obtain ⟨⟨key,found⟩,hfind,rfl⟩ := Option.map_eq_some_iff.mp h
  have hkey : key = id := by simpa using find?_some hfind
  rw [← hkey]
  exact mem_of_find?_eq_some hfind

theorem get_eq_none : store.get id = none ↔ ∀ entry ∈ store.records, entry.1 ≠ id := by
  unfold ProgramStatusStore.get
  rw [Option.map_eq_none_iff, find?_eq_none]
  exact forall₂_congr fun entry _ => by rw [decide_eq_true_eq]

theorem leastRecent_mem {oldest : Text × StoredRecord} (h : leastRecent records = some oldest) : oldest ∈ records := by
  induction records generalizing oldest with
  | nil => cases h
  | cons entry rest ih =>
    rw [leastRecent] at h
    split at h
    · cases h
      exact mem_cons_self
    · rename_i found hfound
      split at h
      · cases h
        exact mem_cons_of_mem _ (ih hfound)
      · cases h
        exact mem_cons_self

theorem leastRecent_eq_none (h : leastRecent records = none) : records = [] := by
  cases records with
  | nil => rfl
  | cons entry rest =>
    rw [leastRecent] at h
    split at h
    · cases h
    · split at h <;> cases h

theorem evict_sublist (records : List (Text × StoredRecord)) : (evict records).Sublist records := by
  unfold evict
  split
  · split
    · exact List.Sublist.refl _
    · exact filter_sublist
  · exact List.Sublist.refl _

theorem length_evict (h : records.length ≤ maxRecords + 1) : (evict records).length ≤ maxRecords := by
  unfold evict
  split
  · rename_i hover
    split
    · rename_i hnone
      rw [leastRecent_eq_none hnone]
      exact Nat.zero_le _
    · rename_i oldest holdest
      have hlt : (records.filter (·.1 ≠ oldest.1)).length < records.length := by
        apply List.length_filter_lt_length_iff_exists.mpr
        exact ⟨oldest,leastRecent_mem holdest,by simp⟩
      omega
  · omega

theorem restate_seq (stored : StoredRecord) (record : ProgramRecord) (seq : ℕ) (owner : Option ProcessOwner) (nowMs : ℕ) :
    (restate stored record seq owner nowMs).seq = seq := by
  unfold restate
  dsimp only
  split <;> rfl

def restateEntry (id : Text) (record : ProgramRecord) (seq : ℕ) (owner : Option ProcessOwner) (nowMs : ℕ)
    (entry : Text × StoredRecord) : Text × StoredRecord :=
  if entry.1 = id then (entry.1,restate entry.2 record seq owner nowMs) else entry

@[simp] theorem restateEntry_id (record : ProgramRecord) (seq : ℕ) (owner : Option ProcessOwner) (nowMs : ℕ)
    (entry : Text × StoredRecord) : (restateEntry id record seq owner nowMs entry).1 = entry.1 := by
  unfold restateEntry
  split <;> rfl

theorem Sound.restate (h : Sound reported store) (record : ProgramRecord) (owner : Option ProcessOwner) (nowMs : ℕ) :
    Sound (reported ++ [id]) ⟨store.records.map (restateEntry id record (store.clock + 1) owner nowMs),store.clock + 1⟩ := by
  constructor
  · have hids : (store.records.map (restateEntry id record (store.clock + 1) owner nowMs)).map (·.1) =
        store.records.map (·.1) := by
      rw [map_map]
      exact map_congr_left fun entry _ => restateEntry_id ..
    rw [hids]
    exact h.ids
  · rw [h.counted, length_append, length_singleton]
  · intro entry hentry
    obtain ⟨old,hold,rfl⟩ := mem_map.mp hentry
    unfold restateEntry
    split
    · rename_i hid
      rw [restate_seq, hid, h.counted]
      exact lastReport_self reported id
    · rename_i hid
      exact (h.numbered old hold).snoc hid
  · rw [length_map]
    exact h.bounded

theorem Sound.insert (h : Sound reported store) (hid : store.get id = none) {stored : StoredRecord}
    (hseq : stored.seq = store.clock + 1) :
    Sound (reported ++ [id]) ⟨evict (store.records ++ [(id,stored)]),store.clock + 1⟩ := by
  constructor
  · apply List.Nodup.sublist ((evict_sublist _).map _)
    rw [map_append, map_singleton]
    refine nodup_append.mpr ⟨h.ids,nodup_singleton _,?_⟩
    intro key hkey other hother
    obtain ⟨entry,hentry,rfl⟩ := mem_map.mp hkey
    rw [mem_singleton.mp hother]
    exact get_eq_none.mp hid entry hentry
  · rw [h.counted, length_append, length_singleton]
  · intro entry hentry
    rcases mem_append.mp ((evict_sublist _).subset hentry) with hentry | hentry
    · exact (h.numbered entry hentry).snoc (get_eq_none.mp hid entry hentry)
    · rw [mem_singleton.mp hentry, hseq, h.counted]
      exact lastReport_self reported id
  · apply length_evict
    rw [length_append, length_singleton]
    exact Nat.succ_le_succ h.bounded

def reportedAfter (reported : List Text) : Report → List Text
  | .set id _ => reported ++ [id]
  | .clear _ => reported

theorem Sound.clear (h : Sound reported store) (id : Text) : Sound reported (store.clear id).1 := by
  show Sound reported { store with records := if id = [] then [] else _ }
  split
  · exact h.cleared
  · exact h.filter _

theorem Sound.apply (h : Sound reported store) (report : Report) (owner : Option ProcessOwner) (nowMs : ℕ) :
    Sound (reportedAfter reported report) (store.apply report owner nowMs).1 := by
  cases report with
  | clear id => exact h.clear id
  | set id record =>
    unfold ProgramStatusStore.apply
    dsimp only
    split
    · exact h.restate record owner nowMs
    · rename_i hnone
      exact h.insert hnone rfl

end Soundness

section Clearing
variable {entry : Text × StoredRecord}

theorem under_eq_true (h : id ≠ []) (key : Text) : under id key = true ↔ key = id ∨ Ancestor id key := by
  unfold under Ancestor
  rw [Bool.or_eq_true, decide_eq_true_eq, isPrefixOf_iff_prefix]
  constructor
  · rintro (hkey | hbegins)
    · exact .inl hkey
    · refine .inr ⟨?_,.inr hbegins⟩
      rintro rfl
      exact absurd (List.prefix_nil.mp hbegins) (by simp)
  · rintro (hkey | ⟨-,hid | hbegins⟩)
    · exact .inl hkey
    · exact absurd hid h
    · exact .inr hbegins

theorem mem_clear : entry ∈ (store.clear id).1.records ↔ entry ∈ store.records ∧ entry.1 ≠ id ∧ ¬Ancestor id entry.1 := by
  show entry ∈ (if id = [] then [] else _) ↔ _
  split
  · rename_i hid
    subst hid
    refine ⟨fun hmem => absurd hmem not_mem_nil,?_⟩
    rintro ⟨-,hne,hnot⟩
    exact absurd ⟨hne,.inl rfl⟩ hnot
  · rename_i hid
    rw [mem_filter, Bool.not_eq_true', ← Bool.not_eq_true, under_eq_true hid, not_or]

end Clearing

section Speaking
variable {reported : List Text} {entry : Text × StoredRecord}
variable {store' : ProgramStatusStore}

def speaker (store : ProgramStatusStore) : Option Text := (mostUrgent store.records).map (·.1)

def said (store : ProgramStatusStore) : List (Text × ProgramRecord × ℕ) :=
  store.records.map fun entry => (entry.1,entry.2.record,entry.2.changedAt)

def topUrgency (store : ProgramStatusStore) : Option ℕ := (mostUrgent store.records).map (·.2.record.state.urgency)

theorem Outranked.seq_eq {a b : StoredRecord} (h : Outranked a b) (h' : Outranked b a) : a.seq = b.seq := by
  unfold Outranked at h h'
  omega

theorem Sound.mostUrgent_eq (h : Sound reported store) (hentry : entry ∈ store.records)
    (htop : ∀ other ∈ store.records, Outranked other.2 entry.2) : mostUrgent store.records = some entry := by
  cases hbest : mostUrgent store.records with
  | none =>
    rw [mostUrgent_eq_none.mp hbest] at hentry
    exact absurd hentry not_mem_nil
  | some best =>
    obtain ⟨hmem,hall⟩ := mostUrgent_spec hbest
    have hseq : best.2.seq = entry.2.seq := (htop best hmem).seq_eq (hall entry hentry)
    have hbestNumber := h.numbered best hmem
    rw [hseq] at hbestNumber
    have hid : best.1 = entry.1 := hbestNumber.inj (h.numbered entry hentry)
    have hstored : some best.2 = some entry.2 := by
      rw [← h.get hmem, ← h.get hentry, hid]
    rw [Prod.ext hid (Option.some.inj hstored)]

theorem get_said (store : ProgramStatusStore) (id : Text) :
    (store.get id).map (fun stored => (stored.record,stored.changedAt)) = (store.said.find? (·.1 = id)).map (·.2) := by
  unfold ProgramStatusStore.get said
  rw [find?_map, Option.map_map, Option.map_map]
  rfl

theorem appOf_said (store : ProgramStatusStore) (id : Text) :
    store.appOf id = ((store.said.find? (·.1 = id)).map (·.2)).bind (·.1.app) := by
  rw [← get_said, Option.bind_map]
  rfl

theorem inheritedApp_congr (h : store.said = store'.said) (path : Text) :
    store.inheritedApp path = store'.inheritedApp path := by
  have hwithin : ∀ fuel path, store.inheritedAppWithin fuel path = store'.inheritedAppWithin fuel path := by
    intro fuel
    induction fuel with
    | zero => exact fun _ => rfl
    | succ fuel ih =>
      intro path
      rw [inheritedAppWithin, inheritedAppWithin, ih, appOf_said, appOf_said, h]
  exact hwithin path.length path

def summaryOf (store : ProgramStatusStore) (id : Text) (record : ProgramRecord) (changedAt : ℕ) : ProgramStatusSummary :=
  ⟨record.state,record.kind,record.progress,record.app.or (store.inheritedApp id),record.title,record.msg,
    if id = [] then none else some id,changedAt⟩

theorem Sound.summary_eq (h : Sound reported store) :
    store.summary = store.speaker.bind fun id =>
      ((store.said.find? (·.1 = id)).map (·.2)).map fun found => store.summaryOf id found.1 found.2 := by
  unfold summary speaker
  cases hbest : mostUrgent store.records with
  | none => rfl
  | some best =>
    have hget := h.get (mostUrgent_spec hbest).1
    rw [Option.map_some, Option.map_some, Option.bind_some, ← get_said, hget]
    rfl

theorem Sound.summary_congr {reported' : List Text} (h : Sound reported store)
    (h' : Sound reported' store') (hsaid : store'.said = store.said) (hspeaker : store'.speaker = store.speaker) :
    store'.summary = store.summary := by
  rw [h.summary_eq, h'.summary_eq, hsaid, hspeaker]
  unfold summaryOf
  simp only [inheritedApp_congr hsaid]

end Speaking

section Repeating
variable {reported : List Text}
variable {record : ProgramRecord}

def Repeated (store : ProgramStatusStore) (id : Text) (record : ProgramRecord) : Prop :=
  (store.get id).map (·.record) = some record

instance (store : ProgramStatusStore) (id : Text) (record : ProgramRecord) : Decidable (store.Repeated id record) :=
  inferInstanceAs (Decidable (_ = _))

theorem restate_repeated {stored : StoredRecord} (h : stored.record = record) (seq : ℕ)
    (owner : Option ProcessOwner) (nowMs : ℕ) :
    restate stored record seq owner nowMs = { stored with seq := seq, owner := owner.or stored.owner } := by
  exact if_pos h

theorem apply_set_of_repeated (h : store.Repeated id record) (owner : Option ProcessOwner)
    (nowMs : ℕ) : store.apply (.set id record) owner nowMs =
      (⟨store.records.map (restateEntry id record (store.clock + 1) owner nowMs),store.clock + 1⟩,false) := by
  obtain ⟨stored,hget,hrecord⟩ := Option.map_eq_some_iff.mp h
  simp only [apply, hget, hrecord, ne_eq, not_true_eq_false, decide_false]
  rfl

theorem apply_set_of_not_repeated (h : ¬store.Repeated id record) (owner : Option ProcessOwner)
    (nowMs : ℕ) : (store.apply (.set id record) owner nowMs).2 = true := by
  unfold Repeated at h
  cases hget : store.get id with
  | none => simp only [apply, hget]
  | some stored =>
    rw [hget, Option.map_some, Option.some_inj] at h
    simp only [apply, hget]
    exact decide_eq_true h

/-- A repeated report leaves everything but the order: its record speaks if none is more urgent. -/
theorem Sound.apply_repeated (h : Sound reported store) (hrep : store.Repeated id record)
    (owner : Option ProcessOwner) (nowMs : ℕ) : (store.apply (.set id record) owner nowMs).1.said = store.said ∧
      (store.apply (.set id record) owner nowMs).1.topUrgency = store.topUrgency ∧
      (store.apply (.set id record) owner nowMs).1.speaker =
        if store.topUrgency = some record.state.urgency then some id else store.speaker := by
  have hsound := h.apply (.set id record) owner nowMs
  rw [apply_set_of_repeated hrep] at hsound ⊢
  obtain ⟨stored,hget,hrecord⟩ := Option.map_eq_some_iff.mp hrep
  have hmem : (id,stored) ∈ store.records := mem_of_get hget
  have hself : ∀ entry ∈ store.records, entry.1 = id → entry.2.record = record := by
    intro entry hentry hid
    have hfound := h.get hentry
    rw [hid, hget] at hfound
    rw [← Option.some.inj hfound, hrecord]
  have hentry : ∀ entry ∈ store.records,
      (restateEntry id record (store.clock + 1) owner nowMs entry).2.record = entry.2.record ∧
        (restateEntry id record (store.clock + 1) owner nowMs entry).2.changedAt = entry.2.changedAt := by
    intro entry hentry
    unfold restateEntry
    split
    · rename_i hid
      rw [restate_repeated (hself entry hentry hid)]
      exact ⟨rfl,rfl⟩
    · exact ⟨rfl,rfl⟩
  have hsaid : said ⟨store.records.map (restateEntry id record (store.clock + 1) owner nowMs),store.clock + 1⟩ =
      store.said := by
    unfold said
    rw [map_map]
    apply map_congr_left
    intro entry hmem
    show (_,_,_) = _
    rw [restateEntry_id, (hentry entry hmem).1, (hentry entry hmem).2]
  refine ⟨hsaid,?_⟩
  cases hbest : mostUrgent store.records with
  | none =>
    rw [mostUrgent_eq_none.mp hbest] at hmem
    exact absurd hmem not_mem_nil
  | some best =>
    obtain ⟨hbestMem,hall⟩ := mostUrgent_spec hbest
    have hlast : ∀ entry ∈ store.records, entry.2.seq ≤ store.clock := by
      intro entry hmem
      rw [h.counted]
      exact (h.numbered entry hmem).le
    by_cases hurgent : record.state.urgency = best.2.record.state.urgency
    · -- the record reported again is now the latest of the most urgent
      have hnew : mostUrgent (store.records.map (restateEntry id record (store.clock + 1) owner nowMs)) =
          some (restateEntry id record (store.clock + 1) owner nowMs (id,stored)) := by
        apply hsound.mostUrgent_eq (mem_map_of_mem hmem)
        intro other hother
        obtain ⟨old,hold,rfl⟩ := mem_map.mp hother
        have holdTop := hall old hold
        have hseq : (restateEntry id record (store.clock + 1) owner nowMs old).2.seq ≤ store.clock + 1 := by
          unfold restateEntry
          split
          · rw [restate_seq]
          · exact Nat.le_succ_of_le (hlast old hold)
        have hself : (restateEntry id record (store.clock + 1) owner nowMs (id,stored)).2.seq = store.clock + 1 := by
          rw [restateEntry, if_pos rfl, restate_seq]
        have hold := (hentry old hold).1
        have hnew := (hentry (id,stored) hmem).1
        unfold Outranked at holdTop ⊢
        rw [hold, hnew, hself]
        rw [hrecord]
        omega
      unfold topUrgency speaker
      rw [hnew, hbest]
      dsimp only [Option.map_some]
      rw [(hentry _ hmem).1, restateEntry_id, hrecord, hurgent]
      exact ⟨rfl,(if_pos rfl).symm⟩
    · have hbestId : best.1 ≠ id := by
        intro hid
        exact hurgent (by rw [hself best hbestMem hid])
      have hnew : mostUrgent (store.records.map (restateEntry id record (store.clock + 1) owner nowMs)) = some best := by
        have hkept : restateEntry id record (store.clock + 1) owner nowMs best = best := if_neg hbestId
        apply hsound.mostUrgent_eq
        · exact mem_map.mpr ⟨best,hbestMem,hkept⟩
        · intro other hother
          obtain ⟨old,hold,rfl⟩ := mem_map.mp hother
          have holdTop := hall old hold
          by_cases hid : old.1 = id
          · have hold := (hentry old hold).1
            unfold Outranked at holdTop ⊢
            rw [hold, hself old ‹_› hid]
            rw [hself old ‹_› hid] at holdTop
            omega
          · rw [restateEntry, if_neg hid]
            exact holdTop
      unfold topUrgency speaker
      rw [hnew, hbest]
      refine ⟨rfl,(if_neg ?_).symm⟩
      intro heq
      exact hurgent (Option.some.inj heq).symm

end Repeating

end ProgramStatusStore

end Unpeel.Session
