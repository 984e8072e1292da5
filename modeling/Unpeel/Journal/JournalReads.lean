import Unpeel.Journal.JournalDisk

/-! # Readers never see reclaimed bytes

A sample with a hole in it starts below the floor, and stays below it whatever the
Host does. So the second look at the floor finds it out, unless the file is shorter
than the start of the sample just then: the floor a reader sees is cut off there.
-/
namespace Unpeel.Journal
open Runs List

theorem WrittenAt.nil (written : List (Option UInt8)) (offset : ℕ) : WrittenAt written offset [] := by
  simp [WrittenAt]

theorem WrittenAt.mono {written written' : List (Option UInt8)} (hw : written <+: written') {offset : ℕ}
    {data : List UInt8} (h : WrittenAt written offset data) : WrittenAt written' offset data := by
  obtain ⟨more,rfl⟩ := hw
  unfold WrittenAt at h ⊢
  have hlen := congrArg List.length h
  simp only [length_map, length_take, length_drop] at hlen
  rw [drop_append, take_append_of_le_length (by rw [length_drop]; omega)]
  exact h

namespace ReaderPc

def Sampled (s : JournalUse) : ReaderPc → Prop
  | .sampled fileLen start data holes =>
    (holes = true → Behind s start ∧ start < fileLen) ∧ (holes = false → WrittenAt s.written start data)
  | .restatted start data holes newestFileLen =>
    (holes = true → Behind s start ∧ start < newestFileLen) ∧ (holes = false → WrittenAt s.written start data)
  | _ => True

def Ordered : ReaderPc → Prop
  | .floored fileLen retainedFrom => retainedFrom ≤ fileLen
  | .aligned fileLen start _ => start ≤ fileLen
  | .sampled fileLen start data _ => start + data.length ≤ fileLen
  | _ => True

/-- Nothing the reader knows of lies beyond `len`. -/
def UpTo (len : ℕ) : ReaderPc → Prop
  | .statted fileLen => fileLen ≤ len
  | .floored fileLen _ => fileLen ≤ len
  | .aligned fileLen _ _ => fileLen ≤ len
  | .sampled fileLen _ _ _ => fileLen ≤ len
  | .restatted start data _ newestFileLen => start + data.length ≤ len ∧ newestFileLen ≤ len
  | _ => True

/-- The reader does not go back behind `offset`. -/
def From (offset : ℕ) : ReaderPc → Prop
  | .statted fileLen => offset ≤ fileLen
  | .floored fileLen _ => offset ≤ fileLen
  | .aligned _ start _ => offset ≤ start
  | .sampled _ start _ _ => offset ≤ start
  | .restatted start _ _ _ => offset ≤ start
  | _ => True

theorem UpTo.mono {pc : ReaderPc} {len len' : ℕ} (hle : len ≤ len') (h : pc.UpTo len) : pc.UpTo len' := by
  cases pc with
  | idle | opening => trivial
  | statted fileLen | floored fileLen retainedFrom | aligned fileLen start limit
  | sampled fileLen start data holes => exact le_trans h hle
  | restatted start data holes newestFileLen => exact ⟨h.1.trans hle,h.2.trans hle⟩

theorem Sampled.mono {s t : JournalUse} (hm : Moved s t) {pc : ReaderPc} (h : pc.Sampled s) : pc.Sampled t := by
  cases pc with
  | sampled fileLen start data holes | restatted start data holes newestFileLen =>
    exact ⟨fun hx => ⟨hm.behind _ (h.1 hx).1,(h.1 hx).2⟩,fun hx => (h.2 hx).mono hm.written⟩
  | _ => trivial

end ReaderPc

structure ReaderInv (s : JournalUse) (r : Reader) : Prop where
  sampled : r.pc.Sampled s
  ordered : r.pc.Ordered
  began : r.began ≤ s.discards
  upTo : r.began = s.discards → r.pc.UpTo s.disk.file.length
  fed : ∀ x ∈ r.results, x.began = s.discards → r.request.offset = some x.nextOffset → r.pc.From x.nextOffset
  past : ∀ x ∈ r.results, x.began ≤ s.discards ∧
    (s.exists = true → x.began = s.discards → x.nextOffset ≤ s.disk.file.length)
  data : ∀ x ∈ r.results, x.data.length ≤ x.nextOffset ∧ WrittenAt s.written (x.nextOffset - x.data.length) x.data
  cursor : r.results.Pairwise fun earlier later =>
    later.offset = some earlier.nextOffset → later.ended = earlier.began → earlier.nextOffset ≤ later.nextOffset

namespace ReaderInv
variable {s t : JournalUse} {r : Reader}
variable {data : List UInt8}

theorem start (k : ℕ) : ReaderInv startJournal (startJournal.readers k) where
  sampled := trivial
  ordered := trivial
  began := le_rfl
  upTo := fun _ => trivial
  fed := by simp [startJournal]
  past := by simp [startJournal]
  data := by simp [startJournal]
  cursor := List.Pairwise.nil

/-- What the Host does is nothing to a reader's facts. -/
theorem moved (h : ReaderInv s r) (hm : Moved s t) : ReaderInv t r where
  sampled := h.sampled.mono hm
  ordered := h.ordered
  began := by
    rcases hm.grown with ⟨hd,-,-⟩ | hd
    · exact hd ▸ h.began
    · exact hd ▸ h.began.trans (Nat.le_succ _)
  upTo := by
    intro hb
    rcases hm.grown with ⟨hd,-,hlen⟩ | hd
    · exact (h.upTo (hb.trans hd)).mono hlen
    · have hle := h.began
      omega
  fed := by
    intro x hx hb ho
    rcases hm.grown with ⟨hd,-,-⟩ | hd
    · exact h.fed x hx (hb.trans hd) ho
    · have hle := (h.past x hx).1
      omega
  past := by
    intro x hx
    have hle := (h.past x hx).1
    rcases hm.grown with ⟨hd,he,hlen⟩ | hd
    · exact ⟨by omega,fun hex hb => ((h.past x hx).2 (he ▸ hex) (hb.trans hd)).trans hlen⟩
    · exact ⟨by omega,fun _ hb => by omega⟩
  data := fun x hx => ⟨(h.data x hx).1,(h.data x hx).2.mono hm.written⟩
  cursor := h.cursor

theorem goto (h : ReaderInv s r) (pc : ReaderPc) (retries : ℕ) (hsampled : pc.Sampled s) (hordered : pc.Ordered)
    (hupTo : r.began = s.discards → pc.UpTo s.disk.file.length)
    (hfed : ∀ x ∈ r.results, x.began = s.discards → r.request.offset = some x.nextOffset → pc.From x.nextOffset) :
    ReaderInv s { r with pc := pc, retries := retries } :=
  ⟨hsampled,hordered,h.began,hupTo,hfed,h.past,h.data,h.cursor⟩

theorem give_up (h : ReaderInv s r) : ReaderInv s { r with pc := .idle } :=
  h.goto .idle r.retries trivial trivial (fun _ => trivial) fun _ _ _ _ => trivial

theorem call (h : ReaderInv s r) (request : ReadRequest) (retries : ℕ) :
    ReaderInv s { r with request := request, retries := retries, pc := .opening, began := s.discards } where
  sampled := trivial
  ordered := trivial
  began := le_rfl
  upTo := fun _ => trivial
  fed := fun _ _ _ _ => trivial
  past := h.past
  data := h.data
  cursor := h.cursor

/-- A chunk that may be returned. -/
theorem finish (h : ReaderInv s r) {nextOffset : ℕ} (hle : data.length ≤ nextOffset)
    (hdata : WrittenAt s.written (nextOffset - data.length) data)
    (hlen : s.exists = true → r.began = s.discards → nextOffset ≤ s.disk.file.length)
    (hup : ∀ x ∈ r.results, x.began = s.discards → r.request.offset = some x.nextOffset → x.nextOffset ≤ nextOffset) :
    ReaderInv s (r.finish data nextOffset s.discards) where
  sampled := trivial
  ordered := trivial
  began := h.began
  upTo := fun _ => trivial
  fed := fun _ _ _ _ => trivial
  past := by
    intro x hx
    rcases mem_append.mp hx with hx | hx
    · exact h.past x hx
    · rw [mem_singleton.mp hx]
      exact ⟨h.began,hlen⟩
  data := by
    intro x hx
    rcases mem_append.mp hx with hx | hx
    · exact h.data x hx
    · rw [mem_singleton.mp hx]
      exact ⟨hle,hdata⟩
  cursor := by
    refine pairwise_append.mpr ⟨h.cursor,pairwise_singleton _ _,?_⟩
    intro x hx y hy ho hb
    rw [mem_singleton.mp hy] at ho hb ⊢
    exact hup x hx hb.symm ho

theorem align_from {request : ReadRequest} {file : SparseFile} {fileLen retainedFrom start limit offset : ℕ}
    (h : Reader.align request file fileLen retainedFrom = some (start,limit)) (ho : request.offset = some offset)
    (hle : offset ≤ fileLen) : offset ≤ start := by
  unfold Reader.align at h
  rw [ho] at h
  by_cases hret : retainedFrom ≤ offset
  · simp only [Option.filter_some, hret, hle, and_self, decide_true, ↓reduceIte, Option.some.injEq,
      Prod.mk.injEq] at h
    exact h.1.le
  · simp only [Option.filter_some, hret, false_and, decide_false, Bool.false_eq_true, ↓reduceIte] at h
    obtain ⟨found,hfound,he⟩ := Option.map_eq_some_iff.mp h
    obtain ⟨rfl,-⟩ := Prod.mk.inj he
    have hlow := (alignReplayTailStart_bounds hfound).1
    omega

/-- A sample without holes is what was written; one with holes starts below the floor. -/
theorem sample (hd : DiskInv s) {start toRead : ℕ} (hread : readExact s.disk.file start toRead = some data) :
    (((s.disk.file.drop start).take toRead).any Option.isNone = true → Behind s start) ∧
    (((s.disk.file.drop start).take toRead).any Option.isNone = false → WrittenAt s.written start data) := by
  have hcell (i : ℕ) (hi : i < toRead) :
      ((s.disk.file.drop start).take toRead)[i]? = s.disk.file[start + i]? := by
    rw [getElem?_take_of_lt hi, getElem?_drop]
  constructor
  · intro hany
    obtain ⟨cell,hmem,hnone⟩ := any_eq_true.mp hany
    obtain ⟨i,hi⟩ := List.mem_iff_getElem?.mp hmem
    have hlt : i < toRead := by
      obtain ⟨hl,-⟩ := List.getElem?_eq_some_iff.mp hi
      rw [length_take] at hl
      omega
    rw [hcell i hlt, Option.isNone_iff_eq_none.mp hnone] at hi
    have hfloor := hd.holes _ hi
    refine ⟨by omega,fun w hw => ?_⟩
    have hret := (hd.writer w hw).2.2 _ hi
    omega
  · intro hany
    have hlen := readExact_length hread
    unfold readExact at hread
    split at hread
    swap
    · cases hread
    next hin =>
    cases hread
    unfold WrittenAt
    rw [hlen]
    apply ext_getElem?
    intro i
    rcases lt_or_ge i toRead with hi | hi
    · rw [getElem?_map, getElem?_map, hcell i hi, getElem?_take_of_lt hi, getElem?_drop]
      obtain ⟨cell,hfile⟩ : ∃ cell, s.disk.file[start + i]? = some cell :=
        ⟨_,getElem?_eq_getElem (by omega)⟩
      cases cell with
      | none =>
        have hmem := mem_of_getElem? ((hcell i hi).trans hfile)
        have hcontra := any_eq_false.mp hany none hmem
        exact absurd rfl hcontra
      | some b =>
        rw [hfile, hd.agrees _ b hfile]
        rfl
    · rw [getElem?_eq_none (by rw [length_map, hlen]; exact hi),
        getElem?_eq_none (by rw [length_take]; omega)]

theorem step (h : ReaderInv s r) (hd : DiskInv s) {r' : Reader} (hr : r.step s = some r')
    (hok : r.pc.InSight s.disk.file.length) : ReaderInv s r' := by
  have hsampled := h.sampled
  have hordered := h.ordered
  have hupTo := h.upTo
  have hfed := h.fed
  unfold Reader.step at hr
  cases hpc : r.pc with
  | idle =>
    rw [hpc] at hr
    cases hr
  | opening =>
    rw [hpc] at hr
    dsimp only at hr
    split at hr
    · next hex =>
      cases hr
      exact h.goto (.statted _) r.retries trivial trivial (fun _ => le_rfl) fun x hx hb _ => (h.past x hx).2 hex hb
    · next hex =>
      cases hr
      refine h.finish (Nat.zero_le _) (WrittenAt.nil _ _) (fun he => absurd he hex) fun x hx _ ho => ?_
      rw [ho]
      exact le_rfl
  | statted fileLen =>
    rw [hpc] at hr hupTo hfed
    cases hr
    exact h.goto (.floored _ _) r.retries trivial (min_le_right _ _) hupTo hfed
  | floored fileLen retainedFrom =>
    rw [hpc] at hr hupTo hfed
    dsimp only at hr
    split at hr
    · cases hr
      exact h.give_up
    · next start limit halign =>
      cases hr
      refine h.goto (.aligned _ _ _) r.retries trivial (min_le_right _ _) hupTo fun x hx hb ho => ?_
      exact le_min (align_from halign ho (hfed x hx hb ho)) (hfed x hx hb ho)
  | aligned fileLen start limit =>
    rw [hpc] at hr hupTo hfed hordered
    have hstart : start ≤ fileLen := hordered
    dsimp only at hr
    split at hr
    · cases hr
      exact h.goto (.sampled _ _ _ _) r.retries ⟨(by simp),fun _ => WrittenAt.nil _ _⟩ hstart hupTo hfed
    next hpos =>
    split at hr
    · cases hr
      exact h.give_up
    · next data hread =>
      cases hr
      have hlen := readExact_length hread
      obtain ⟨hholes,hclean⟩ := sample hd hread
      refine h.goto (.sampled _ _ _ _) r.retries ⟨fun hx => ⟨hholes hx,?_⟩,hclean⟩ ?_ hupTo hfed
      · omega
      · change start + data.length ≤ fileLen
        omega
  | sampled fileLen start data holes =>
    rw [hpc] at hr hupTo hfed hordered hsampled hok
    have hrange : start + data.length ≤ fileLen := hordered
    cases hr
    refine h.goto (.restatted _ _ _ _) r.retries ⟨fun hx => ⟨(hsampled.1 hx).1,?_⟩,hsampled.2⟩ trivial
      (fun hb => ⟨hrange.trans (hupTo hb),le_rfl⟩) hfed
    by_contra hshort
    have hclean := hok (Nat.le_of_not_lt hshort)
    rw [hx] at hclean
    cases hclean
  | restatted start data holes newestFileLen =>
    rw [hpc] at hr hupTo hfed hsampled
    dsimp only at hr
    split at hr
    · next hstale =>
      split at hr
      · cases hr
        exact h.goto .opening (r.retries - 1) trivial trivial (fun _ => trivial) fun _ _ _ _ => trivial
      · cases hr
        refine h.finish (Nat.zero_le _) (WrittenAt.nil _ _) (fun _ hb => ?_) fun x hx hb ho => ?_
        · exact (min_le_right _ _).trans (hupTo hb).2
        · exact le_trans (hfed x hx hb ho) hstale.le
    · next hfresh =>
      cases hr
      have hclean : holes = false := by
        by_contra hx
        obtain ⟨hbehind,hlen⟩ := hsampled.1 (by simpa using hx)
        exact hfresh (lt_min hbehind.1 hlen)
      refine h.finish (Nat.le_add_left _ _) ?_ (fun _ hb => (hupTo hb).1) fun x hx hb ho => ?_
      · rw [Nat.add_sub_cancel]
        exact hsampled.2 hclean
      · exact le_trans (hfed x hx hb ho) (Nat.le_add_right _ _)

theorem restatFails (h : ReaderInv s r) {fileLen start : ℕ} {holes : Bool}
    (hpc : r.pc = .sampled fileLen start data holes) :
    ReaderInv s { r with pc := .restatted start data holes fileLen } := by
  have hsampled := h.sampled
  have hordered := h.ordered
  have hupTo := h.upTo
  have hfed := h.fed
  rw [hpc] at hsampled hordered hupTo hfed
  have hrange : start + data.length ≤ fileLen := hordered
  exact h.goto (.restatted _ _ _ _) r.retries hsampled trivial (fun hb => ⟨hrange.trans (hupTo hb),hupTo hb⟩) hfed

theorem others (h : ReaderInv s r) (readers : ℕ → Reader) : ReaderInv { s with readers := readers } r :=
  ⟨h.sampled,h.ordered,h.began,h.upTo,h.fed,h.past,h.data,h.cursor⟩

end ReaderInv

structure JournalInv (s : JournalUse) : Prop where
  disk : DiskInv s
  readers : ∀ k, ReaderInv s (s.readers k)

namespace JournalInv
variable {retainBytes advanceBytes blockSize : ℕ} {s t : JournalUse}

theorem start : JournalInv startJournal := ⟨DiskInv.start,ReaderInv.start⟩

theorem moved (h : JournalInv s) (hdisk : DiskInv t) (hm : Moved s t) : JournalInv t := by
  refine ⟨hdisk,fun k => ?_⟩
  rw [hm.readers]
  exact (h.readers k).moved hm

theorem update (h : JournalInv s) {k : ℕ} {r : Reader} (hr : ReaderInv s r) :
    JournalInv { s with readers := Function.update s.readers k r } := by
  refine ⟨h.disk.readers _,fun j => ?_⟩
  apply ReaderInv.others
  dsimp only
  by_cases hj : j = k
  · subst hj
    rw [Function.update_self]
    exact hr
  · rw [Function.update_of_ne hj]
    exact h.readers j

theorem step (h : JournalInv s) {event : JournalEvent} (hok : HolesInSight s event)
    (ht : journalStep retainBytes advanceBytes blockSize s event = some t) : JournalInv t := by
  cases event with
  | replace =>
    cases ht
    exact h.moved h.disk.replace (Moved.replace rfl)
  | hostStep outcome =>
    obtain ⟨hdisk,hm⟩ := hostStep_inv h.disk ht
    exact h.moved hdisk hm
  | hostFails =>
    cases ht
    exact h.moved h.disk.gone (Moved.host (by simp [Host.writer?]))
  | write bytes =>
    obtain ⟨hdisk,hm⟩ := write_inv h.disk ht
    exact h.moved hdisk hm
  | call k request =>
    simp only [journalStep] at ht
    split at ht <;> cases ht
    exact h.update ((h.readers k).call request 3)
  | read k =>
    obtain ⟨r,hr,rfl⟩ := Option.map_eq_some_iff.mp ht
    exact h.update ((h.readers k).step h.disk hr hok)
  | restatFails k =>
    simp only [journalStep] at ht
    split at ht <;> cases ht
    next fileLen start data holes hpc =>
    exact h.update ((h.readers k).restatFails hpc)
  | readFails k =>
    cases ht
    exact h.update (h.readers k).give_up

end JournalInv

/-- While no look at an emptied file belongs to a sample with holes, every chunk holds
what was written and every cursor rises. -/
theorem readers_see_what_was_written (retainBytes advanceBytes blockSize : ℕ) (events : List JournalEvent)
    (h : Guarded (journalStep retainBytes advanceBytes blockSize) HolesInSight startJournal events) :
    Always (journalStep retainBytes advanceBytes blockSize) ReadsTrue startJournal events :=
  always_of_guarded (fun _ _ _ hs hok ht => hs.step hok ht)
    (fun _ hs => ⟨fun k => (hs.readers k).data,fun k => (hs.readers k).cursor⟩) JournalInv.start h

/-- `new` from its first to its last file operation. -/
def replacement : List JournalEvent := [.replace,.hostStep .done,.hostStep .done,.hostStep .done]

def reads (count : ℕ) : List JournalEvent := List.replicate count (.read 0)

def plannedRead : List JournalEvent :=
  replacement ++ (.write [65,66] :: .call 0 ⟨some 0,none,none⟩ :: reads 3 : List JournalEvent)

def oneReplacement : List JournalEvent := plannedRead ++ replacement ++ reads 9

/-- The reader finds out and starts over. -/
theorem one_replacement_is_found_out :
    (run (journalStep 100 100 1) startJournal oneReplacement).map
        (fun s => (s.readers 0).results.map ReadResult.data) = some [[]] ∧
    Always (journalStep 100 100 1) ReadsTrue startJournal oneReplacement :=
  ⟨by decide +kernel,readers_see_what_was_written 100 100 1 _ (by decide +kernel)⟩

/-- Two replacements during one read: the sample is taken between them, and the second
look at the file comes while the second one has emptied it. -/
def twoReplacements : List JournalEvent :=
  plannedRead ++ replacement ++ reads 1 ++ replacement.take 3 ++ reads 2

/-- The reader returns two zeros for the two letters. -/
theorem twoReplacements_show_zeros : ¬ Always (journalStep 100 100 1) ReadsTrue startJournal twoReplacements := by
  intro h
  have hrun : (run (journalStep 100 100 1) startJournal twoReplacements).map
      (fun s => (s.written,(s.readers 0).results)) =
      some ([some 65,some 66,none],[⟨some 0,[0,0],2,2,6⟩]) := by
    decide +kernel
  obtain ⟨s,hs,he⟩ := Option.map_eq_some_iff.mp hrun
  obtain ⟨hwritten,hresults⟩ := Prod.mk.inj he
  have hdata := (always_iff.mp h twoReplacements [] s (append_nil _).symm hs).data 0
  rw [hresults] at hdata
  have hzeros := (hdata _ mem_cons_self).2
  rw [hwritten,WrittenAt] at hzeros
  revert hzeros
  decide

end Unpeel.Journal
