import Unpeel.Journal.OutputReaders

/-! # What is on the disk

Whatever the Host does, a hole lies below the published floor: floors are published
before anything is reclaimed, and one that is taken back was not above a hole.
-/
namespace Unpeel.Journal
open Runs List

namespace Host

def writer? : Host → Option RetainedOutputWriter
  | .ready writer => some writer
  | .publishing writer _ => some writer
  | .punching writer _ => some writer
  | .restoring writer => some writer
  | _ => none

def Stage (s : JournalUse) : Host → Prop
  | .marking initialOffset =>
    max s.disk.file.length s.disk.floor < initialOffset ∨ s.disk.floor = 0 ∧ s.written = []
  | .truncating initialOffset => s.disk.floor = initialOffset ∧ s.written.length ≤ initialOffset
  | .extending initialOffset =>
    s.disk.floor = initialOffset ∧ s.written.length ≤ initialOffset ∧ s.disk.file = []
  | .publishing writer nextRetainedFrom => writer.retainedFrom < nextRetainedFrom
  | .punching writer nextRetainedFrom => s.disk.floor = nextRetainedFrom ∧ writer.retainedFrom < nextRetainedFrom
  | _ => True

end Host

structure DiskInv (s : JournalUse) : Prop where
  agrees : ∀ (i : ℕ) (b : UInt8), s.disk.file[i]? = some (some b) → s.written[i]? = some (some b)
  holes : ∀ i : ℕ, s.disk.file[i]? = some none → i < s.disk.floor
  length : s.written.length ≤ max s.disk.file.length s.disk.floor
  fresh : s.exists = false → s.written = [] ∧ s.host = .gone
  writer : ∀ w, s.host.writer? = some w → s.disk.file.length = s.written.length ∧
    w.retainedFrom ≤ s.disk.floor ∧ ∀ i : ℕ, s.disk.file[i]? = some none → i < w.retainedFrom
  stage : s.host.Stage s

/-- The floor is above `start`, and no step of the Host takes it back so far. -/
def Behind (s : JournalUse) (start : ℕ) : Prop :=
  start < s.disk.floor ∧ ∀ w, s.host.writer? = some w → start < w.retainedFrom

structure Moved (s t : JournalUse) : Prop where
  readers : t.readers = s.readers
  written : s.written <+: t.written
  behind : ∀ start, Behind s start → Behind t start
  grown : (t.discards = s.discards ∧ t.exists = s.exists ∧ s.disk.file.length ≤ t.disk.file.length) ∨
    t.discards = s.discards + 1

theorem DiskInv.start : DiskInv startJournal where
  agrees := by simp [startJournal]
  holes := by simp [startJournal]
  length := by simp [startJournal]
  fresh := fun _ => ⟨rfl,rfl⟩
  writer := by simp [startJournal, Host.writer?]
  stage := trivial

variable {w : RetainedOutputWriter} {outcome : Outcome} {initialOffset : ℕ} {next : ℕ}

section HostSteps
variable {retainBytes advanceBytes blockSize : ℕ} {s t : JournalUse}

theorem DiskInv.not_fresh (h : DiskInv s) (hhost : s.host ≠ .gone) : s.exists ≠ false :=
  fun hx => hhost (h.fresh hx).2

theorem DiskInv.gone (h : DiskInv s) : DiskInv { s with host := .gone } where
  agrees := h.agrees
  holes := h.holes
  length := h.length
  fresh := fun hx => ⟨(h.fresh hx).1,rfl⟩
  writer := by simp [Host.writer?]
  stage := trivial

theorem Moved.host {host : Host} (hw : ∀ w, host.writer? = some w → ∃ v, s.host.writer? = some v ∧
      v.retainedFrom = w.retainedFrom) : Moved s { s with host := host } where
  readers := rfl
  written := prefix_rfl
  behind := by
    intro start hb
    refine ⟨hb.1,fun w hsome => ?_⟩
    obtain ⟨v,hv,he⟩ := hw w hsome
    exact he ▸ hb.2 v hv
  grown := Or.inl ⟨rfl,rfl,le_rfl⟩

theorem DiskInv.replace (h : DiskInv s) :
    DiskInv { s with «exists» := true, discards := s.discards + 1, host := .marking (journalStartOffset s) } where
  agrees := h.agrees
  holes := h.holes
  length := h.length
  fresh := fun hx => by cases hx
  writer := by simp [Host.writer?]
  stage := by
    simp only [Host.Stage, journalStartOffset]
    split
    · exact Or.inl (Nat.lt_succ_self _)
    · next hnone =>
      simp only [not_or, Bool.not_eq_true, Option.isSome_eq_false_iff, Option.isNone_iff_eq_none] at hnone
      exact Or.inr ⟨by simp [OutputJournal.floor, hnone.2],(h.fresh hnone.1).1⟩

theorem Moved.replace {host : Host} (hh : host.writer? = none) :
    Moved s { s with «exists» := true, discards := s.discards + 1, host := host } where
  readers := rfl
  written := prefix_rfl
  behind := fun start hb => ⟨hb.1,by simp [hh]⟩
  grown := Or.inr rfl

theorem saveMarker_floor (disk : OutputJournal) (floor : ℕ) (outcome : Outcome) :
    (disk.saveMarker floor outcome).floor = if outcome = .failed then disk.floor else floor := by
  unfold OutputJournal.saveMarker
  split <;> rfl

theorem saveMarker_file (disk : OutputJournal) (floor : ℕ) (outcome : Outcome) :
    (disk.saveMarker floor outcome).file = disk.file := by
  unfold OutputJournal.saveMarker
  split <;> rfl

/-- A floor above every hole may be saved. -/
theorem DiskInv.saveMarker (h : DiskInv s) {floor : ℕ} {host : Host}
    (hholes : ∀ i : ℕ, s.disk.file[i]? = some none → i < floor)
    (hlen : s.written.length ≤ max s.disk.file.length floor)
    (hfresh : s.host ≠ .gone)
    (hwriter : ∀ w, host.writer? = some w → (∃ v, s.host.writer? = some v ∧ v.retainedFrom = w.retainedFrom) ∧
      w.retainedFrom ≤ floor)
    (hstage : host.Stage { s with disk := s.disk.saveMarker floor outcome, host := host }) :
    DiskInv { s with disk := s.disk.saveMarker floor outcome, host := host } where
  agrees := by
    dsimp only
    rw [saveMarker_file]
    exact h.agrees
  holes := by
    intro i hi
    dsimp only at hi ⊢
    rw [saveMarker_file] at hi
    rw [saveMarker_floor]
    split
    · exact h.holes i hi
    · exact hholes i hi
  length := by
    dsimp only
    rw [saveMarker_file, saveMarker_floor]
    split
    · exact h.length
    · exact hlen
  fresh := fun hx => absurd hx (h.not_fresh hfresh)
  writer := by
    intro w hw
    obtain ⟨⟨v,hv,he⟩,hle⟩ := hwriter w hw
    obtain ⟨hl,hf,hh⟩ := h.writer v hv
    dsimp only
    rw [saveMarker_file, saveMarker_floor, ← he]
    refine ⟨hl,?_,hh⟩
    split
    · exact hf
    · rw [he]
      exact hle
  stage := hstage

/-- A floor no lower than the writer's own, or than the published one. -/
theorem Moved.saveMarker {floor : ℕ} {host : Host}
    (hfloor : ∀ start, Behind s start → start < floor)
    (hwriter : ∀ w, host.writer? = some w → ∃ v, s.host.writer? = some v ∧ v.retainedFrom = w.retainedFrom) :
    Moved s { s with disk := s.disk.saveMarker floor outcome, host := host } where
  readers := rfl
  written := prefix_rfl
  behind := by
    intro start hb
    constructor
    · dsimp only
      rw [saveMarker_floor]
      split
      · exact hb.1
      · exact hfloor start hb
    · intro w hw
      obtain ⟨v,hv,he⟩ := hwriter w hw
      exact he ▸ hb.2 v hv
  grown := by
    refine Or.inl ⟨rfl,rfl,?_⟩
    dsimp only
    rw [saveMarker_file]

theorem setLen_floor (disk : OutputJournal) (len : ℕ) : (disk.setLen len).floor = disk.floor := rfl

theorem DiskInv.truncate (h : DiskInv s) (hh : s.host = .truncating initialOffset) :
    DiskInv { s with disk := s.disk.setLen 0, discards := s.discards + 1, host := .extending initialOffset } := by
  have hstage := h.stage
  rw [hh] at hstage
  have hnil : (s.disk.setLen 0).file = [] := by simp [OutputJournal.setLen]
  constructor
  case agrees => simp [hnil]
  case holes => simp [hnil]
  case length =>
    rw [setLen_floor, hstage.1]
    exact hstage.2.trans (le_max_right _ _)
  case fresh => exact fun hx => absurd hx (h.not_fresh (by simp [hh]))
  case writer => simp [Host.writer?]
  case stage => exact ⟨hstage.1,hstage.2,hnil⟩

theorem Moved.truncate {host : Host} (hw : host.writer? = none) :
    Moved s { s with disk := s.disk.setLen 0, discards := s.discards + 1, host := host } where
  readers := rfl
  written := prefix_rfl
  behind := fun start hb => ⟨hb.1,by simp [hw]⟩
  grown := Or.inr rfl

theorem DiskInv.extend (h : DiskInv s) (hh : s.host = .extending initialOffset) :
    DiskInv { s with disk := s.disk.setLen initialOffset
                     written := s.written ++ List.replicate (initialOffset - s.written.length) none
                     host := .ready (.openAt initialOffset initialOffset retainBytes advanceBytes) } := by
  have hstage := h.stage
  rw [hh] at hstage
  obtain ⟨hfloor,hlen,hnil⟩ := hstage
  have hfile : (s.disk.setLen initialOffset).file = List.replicate initialOffset none := by
    simp [OutputJournal.setLen, hnil]
  have hbelow (i : ℕ) (hi : (List.replicate initialOffset (none : Option UInt8))[i]? = some none) :
      i < initialOffset := by
    obtain ⟨hlt,-⟩ := List.getElem?_eq_some_iff.mp hi
    simpa using hlt
  constructor
  case agrees =>
    intro i b hi
    rw [hfile] at hi
    exact absurd (eq_of_mem_replicate (mem_of_getElem? hi)) (by simp)
  case holes =>
    intro i hi
    rw [hfile] at hi
    rw [setLen_floor, hfloor]
    exact hbelow i hi
  case length =>
    rw [hfile]
    simp only [length_append, length_replicate]
    omega
  case fresh => exact fun hx => absurd hx (h.not_fresh (by simp [hh]))
  case writer =>
    intro w hw
    simp only [Host.writer?, Option.some.injEq] at hw
    subst hw
    rw [hfile, setLen_floor, hfloor]
    refine ⟨?_,le_rfl,hbelow⟩
    simp only [length_append, length_replicate]
    omega
  case stage => trivial

theorem Moved.extend (h : DiskInv s) (hh : s.host = .extending initialOffset) :
    Moved s { s with disk := s.disk.setLen initialOffset
                     written := s.written ++ List.replicate (initialOffset - s.written.length) none
                     host := .ready (.openAt initialOffset initialOffset retainBytes advanceBytes) } := by
  have hstage := h.stage
  rw [hh] at hstage
  obtain ⟨hfloor,-,hnil⟩ := hstage
  refine ⟨rfl,prefix_append _ _,fun start hb => ⟨hb.1,fun w hw => ?_⟩,Or.inl ⟨rfl,rfl,by simp [hnil]⟩⟩
  simp only [Host.writer?, Option.some.injEq] at hw
  subst hw
  exact hfloor ▸ hb.1

theorem punchBelow_getElem? {next i : ℕ} {disk : OutputJournal} {cell : Option UInt8}
    (h : (w.punchBelow blockSize next disk).file[i]? = some cell) :
    disk.file[i]? = some cell ∨ cell = none ∧ i < next := by
  simp only [RetainedOutputWriter.punchBelow, OutputJournal.punch, getElem?_mapIdx, Option.map_eq_some_iff] at h
  obtain ⟨old,hold,hcell⟩ := h
  split at hcell
  · next hin =>
    right
    exact ⟨hcell.symm,lt_of_lt_of_le hin.2 (Nat.sub_le _ _)⟩
  · left
    rw [hold, hcell]

theorem DiskInv.punch (h : DiskInv s) (hh : s.host = .punching w next) :
    DiskInv { s with disk := w.punchBelow blockSize next s.disk, host := .ready (w.advanced next) } := by
  have hstage := h.stage
  rw [hh] at hstage
  obtain ⟨hfloor,hup⟩ := hstage
  obtain ⟨hlen,-,hholes⟩ := h.writer w (by rw [hh]; rfl)
  have hpunched : (w.punchBelow blockSize next s.disk).file.length = s.disk.file.length :=
    OutputJournal.punch_length _ _ _
  have hbelow (i : ℕ) (hi : (w.punchBelow blockSize next s.disk).file[i]? = some none) : i < next := by
    rcases punchBelow_getElem? hi with hold | hnew
    · exact (hholes i hold).trans hup
    · exact hnew.2
  constructor
  case agrees =>
    intro i b hi
    rcases punchBelow_getElem? hi with hold | ⟨hnone,-⟩
    · exact h.agrees i b hold
    · cases hnone
  case holes =>
    intro i hi
    exact lt_of_lt_of_eq (hbelow i hi) hfloor.symm
  case length =>
    rw [hpunched, hlen]
    exact le_max_left _ _
  case fresh => exact fun hx => absurd hx (h.not_fresh (by simp [hh]))
  case writer =>
    intro v hv
    simp only [Host.writer?, Option.some.injEq] at hv
    subst hv
    exact ⟨hpunched.trans hlen,hfloor.ge,hbelow⟩
  case stage => trivial

theorem Moved.punch (h : DiskInv s) (hh : s.host = .punching w next) :
    Moved s { s with disk := w.punchBelow blockSize next s.disk, host := .ready (w.advanced next) } := by
  have hstage := h.stage
  rw [hh] at hstage
  refine ⟨rfl,prefix_rfl,fun start hb => ⟨hb.1,fun v hv => ?_⟩,Or.inl ⟨rfl,rfl,?_⟩⟩
  · simp only [Host.writer?, Option.some.injEq] at hv
    subst hv
    exact hstage.1 ▸ hb.1
  · exact (OutputJournal.punch_length _ _ _).ge

theorem DiskInv.restoring (h : DiskInv s) (hh : s.host = .punching w next) :
    DiskInv { s with host := .restoring w } where
  agrees := h.agrees
  holes := h.holes
  length := h.length
  fresh := fun hx => absurd hx (h.not_fresh (by simp [hh]))
  writer := by
    intro v hv
    exact h.writer v (by rw [hh]; exact hv)
  stage := trivial

theorem DiskInv.marking (h : DiskInv s)
    (hh : s.host = .marking initialOffset) {t : JournalUse}
    (ht : t = { s with disk := s.disk.saveMarker initialOffset outcome
                       host := if outcome = .done then .truncating initialOffset else .gone }) :
    DiskInv t ∧ Moved s t := by
  subst ht
  have hstage := h.stage
  rw [hh] at hstage
  have hnone : (if outcome = .done then Host.truncating initialOffset else .gone).writer? = none := by
    split <;> rfl
  have hlen : s.written.length ≤ initialOffset := by
    have hlength := h.length
    rcases hstage with hlt | ⟨-,hnil⟩
    · exact (hlength.trans hlt.le)
    · simp [hnil]
  constructor
  · refine h.saveMarker ?_ (hlen.trans (le_max_right _ _)) (by simp [hh]) (by simp [hnone]) ?_
    · intro i hi
      have hlow := h.holes i hi
      rcases hstage with hlt | ⟨hzero,-⟩ <;> omega
    · split
      · next hdone =>
        refine ⟨?_,hlen⟩
        rw [saveMarker_floor, hdone]
        rfl
      · trivial
  · refine Moved.saveMarker ?_ (by simp [hnone])
    intro start hb
    have hlow := hb.1
    rcases hstage with hlt | ⟨hzero,-⟩ <;> omega

theorem DiskInv.publishing (h : DiskInv s)
    (hh : s.host = .publishing w next) {t : JournalUse}
    (ht : t = { s with disk := s.disk.saveMarker next outcome
                       host := if outcome = .done then .punching w next
                         else .ready { w with retentionDisabled := true } }) : DiskInv t ∧ Moved s t := by
  subst ht
  have hup := h.stage
  rw [hh] at hup
  have hw : s.host.writer? = some w := by rw [hh]; rfl
  obtain ⟨hlen,-,hholes⟩ := h.writer w hw
  have hsame (v : RetainedOutputWriter) (hv : (if outcome = .done then Host.punching w next
      else .ready { w with retentionDisabled := true }).writer? = some v) : w.retainedFrom = v.retainedFrom := by
    split at hv <;> cases hv <;> rfl
  constructor
  · refine h.saveMarker (fun i hi => (hholes i hi).trans hup) (hlen ▸ le_max_left _ _) (by simp [hh])
      (fun v hv => ⟨⟨w,hw,hsame v hv⟩,hsame v hv ▸ hup.le⟩) ?_
    split
    · next hdone =>
      refine ⟨?_,hup⟩
      rw [saveMarker_floor, hdone]
      rfl
    · trivial
  · exact Moved.saveMarker (fun start hb => (hb.2 w hw).trans hup) fun v hv => ⟨w,hw,hsame v hv⟩

theorem DiskInv.restored (h : DiskInv s) (hh : s.host = .restoring w) :
    DiskInv { s with disk := s.disk.saveMarker w.retainedFrom outcome
                     host := .ready { w with retentionDisabled := true } } ∧
    Moved s { s with disk := s.disk.saveMarker w.retainedFrom outcome
                     host := .ready { w with retentionDisabled := true } } := by
  have hw : s.host.writer? = some w := by rw [hh]; rfl
  obtain ⟨hlen,-,hholes⟩ := h.writer w hw
  have hsame (v : RetainedOutputWriter)
      (hv : (Host.ready { w with retentionDisabled := true }).writer? = some v) : w.retainedFrom = v.retainedFrom := by
    cases hv
    rfl
  constructor
  · exact h.saveMarker hholes (hlen ▸ le_max_left _ _) (by simp [hh])
      (fun v hv => ⟨⟨w,hw,hsame v hv⟩,(hsame v hv).ge⟩) trivial
  · exact Moved.saveMarker (fun start hb => hb.2 w hw) fun v hv => ⟨w,hw,hsame v hv⟩

/-- Every file operation of the Host. -/
theorem hostStep_inv (h : DiskInv s)
    (ht : hostStep retainBytes advanceBytes blockSize s outcome = some t) : DiskInv t ∧ Moved s t := by
  unfold hostStep at ht
  split at ht
  · cases ht
  · next initialOffset hh => exact h.marking hh (Option.some.inj ht).symm
  · next initialOffset hh =>
    split at ht <;> cases ht
    · exact ⟨h.truncate hh,Moved.truncate rfl⟩
    · exact ⟨h.gone,Moved.host (by simp [Host.writer?])⟩
  · next initialOffset hh =>
    split at ht <;> cases ht
    · exact ⟨h.extend hh,Moved.extend h hh⟩
    · exact ⟨h.gone,Moved.host (by simp [Host.writer?])⟩
  · cases ht
  · next w next hh => exact h.publishing hh (Option.some.inj ht).symm
  · next w next hh =>
    split at ht <;> cases ht
    · exact ⟨h.punch hh,Moved.punch h hh⟩
    · exact ⟨h.restoring hh,Moved.host fun v hv => ⟨w,by rw [hh]; rfl,by cases hv; rfl⟩⟩
  · next w hh =>
    cases ht
    exact h.restored hh

theorem RetainedOutputWriter.planAdvance_retainedFrom (w : RetainedOutputWriter) (blockSize : ℕ) (file : SparseFile) :
    (w.planAdvance blockSize file).1.retainedFrom = w.retainedFrom ∧
      ∀ next, (w.planAdvance blockSize file).2 = some next → w.retainedFrom < next := by
  unfold planAdvance
  dsimp only
  split
  · exact ⟨rfl,fun _ hn => by cases hn⟩
  split
  · exact ⟨rfl,fun _ hn => by cases hn⟩
  split
  · exact ⟨rfl,fun _ hn => by cases hn⟩
  · next hmove =>
    refine ⟨rfl,fun next hn => ?_⟩
    cases hn
    omega

/-- An append, after which the Host may have an advance to make. -/
theorem DiskInv.append (h : DiskInv s) {w v : RetainedOutputWriter} (host : Host) (bytes : List UInt8)
    (hw : s.host.writer? = some w) (hv : host.writer? = some v) (hsame : v.retainedFrom = w.retainedFrom)
    (hstage : host.Stage { s with disk := s.disk.append bytes, written := s.written ++ bytes.map some, host := host }) :
    DiskInv { s with disk := s.disk.append bytes, written := s.written ++ bytes.map some, host := host } ∧
    Moved s { s with disk := s.disk.append bytes, written := s.written ++ bytes.map some, host := host } := by
  obtain ⟨hlen,hfloor,hholes⟩ := h.writer w hw
  have hold (i : ℕ) (hi : (s.disk.append bytes).file[i]? = some none) : s.disk.file[i]? = some none := by
    simp only [OutputJournal.append] at hi
    rcases lt_or_ge i s.disk.file.length with hlt | hge
    · rwa [getElem?_append_left hlt] at hi
    · rw [getElem?_append_right hge] at hi
      simp at hi
  constructor
  · constructor
    case agrees =>
      intro i b hi
      simp only [OutputJournal.append] at hi
      rcases lt_or_ge i s.disk.file.length with hlt | hge
      · rw [getElem?_append_left hlt] at hi
        rw [getElem?_append_left (hlen ▸ hlt)]
        exact h.agrees i b hi
      · rw [getElem?_append_right hge] at hi
        rw [getElem?_append_right (hlen ▸ hge), ← hlen]
        exact hi
    case holes => exact fun i hi => h.holes i (hold i hi)
    case length =>
      rw [OutputJournal.append_length, length_append, length_map, hlen]
      exact le_max_left _ _
    case fresh =>
      intro hx
      rw [(h.fresh hx).2] at hw
      cases hw
    case writer =>
      intro u hu
      obtain rfl : v = u := Option.some.inj (hv.symm.trans hu)
      refine ⟨?_,hsame ▸ hfloor,fun i hi => hsame ▸ hholes i (hold i hi)⟩
      rw [OutputJournal.append_length, length_append, length_map, hlen]
    case stage => exact hstage
  · refine ⟨rfl,prefix_append _ _,fun start hb => ⟨hb.1,fun u hu => ?_⟩,Or.inl ⟨rfl,rfl,?_⟩⟩
    · obtain rfl : v = u := Option.some.inj (hv.symm.trans hu)
      exact hsame ▸ hb.2 w hw
    · dsimp only
      rw [OutputJournal.append_length]
      exact Nat.le_add_right _ _

/-- A write of the Host. -/
theorem write_inv (h : DiskInv s) {bytes : List UInt8}
    (ht : journalStep retainBytes advanceBytes blockSize s (.write bytes) = some t) : DiskInv t ∧ Moved s t := by
  simp only [journalStep] at ht
  split at ht
  swap
  · cases ht
  next w hhost =>
  split at ht
  · cases ht
  obtain ⟨hsame,hup⟩ := w.planAdvance_retainedFrom blockSize (s.disk.append bytes).file
  have hw : s.host.writer? = some w := by rw [hhost]; rfl
  generalize w.planAdvance blockSize (s.disk.append bytes).file = plan at ht hsame hup
  obtain ⟨v,next⟩ := plan
  cases next with
  | none =>
    cases ht
    exact h.append (.ready v) bytes hw rfl hsame trivial
  | some next =>
    cases ht
    exact h.append (.publishing v next) bytes hw rfl hsame (lt_of_eq_of_lt hsame (hup next rfl))

theorem DiskInv.readers (h : DiskInv s) (readers : ℕ → Reader) : DiskInv { s with readers := readers } :=
  ⟨h.agrees,h.holes,h.length,h.fresh,h.writer,h.stage⟩

theorem journalStep_disk (h : DiskInv s) {event : JournalEvent}
    (ht : journalStep retainBytes advanceBytes blockSize s event = some t) : DiskInv t := by
  cases event with
  | replace =>
    cases ht
    exact h.replace
  | hostStep outcome => exact (hostStep_inv h ht).1
  | hostFails =>
    cases ht
    exact h.gone
  | write bytes => exact (write_inv h ht).1
  | call k request | restatFails k =>
    simp only [journalStep] at ht
    split at ht <;> cases ht
    exact h.readers _
  | read k =>
    obtain ⟨r,-,rfl⟩ := Option.map_eq_some_iff.mp ht
    exact h.readers _
  | readFails k =>
    cases ht
    exact h.readers _

end HostSteps

end Unpeel.Journal
