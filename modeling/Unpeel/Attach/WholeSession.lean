import Unpeel.Attach.LiveOutput

/-! # Attach shows the whole Session

While the stream is in use, its thread is the only one that shows anything, and what it
has shown ends at its offset. The live loop goes on from there, one drain at a time.
-/
namespace Unpeel.Attach
open Journal Runs

/-- The replay begins where the alignment puts it on a disk of this attach, given the floor
that the marker of a disk of this attach tells. -/
def AlignedAt (h : AttachedHost) (replayBytes fileLen start : ℕ) : Prop :=
  ∃ looked ∈ h.disks, ∃ disk ∈ h.disks, fileLen ≤ disk.file.length ∧
    (∀ (i : ℕ) (b : UInt8), disk.file[i]? = some (some b) → h.published[i]? = some (some b)) ∧
    alignReplayTailStart disk.file (max (fileLen - replayBytes) (min looked.floor fileLen)) (min looked.floor fileLen) = some start

/-- A replay that ends at `nextOffset`. -/
structure AlignedTail (h : AttachedHost) (replayBytes : ℕ) (replay : List UInt8) (nextOffset : ℕ) : Prop where
  length : replay.length ≤ nextOffset
  within : nextOffset ≤ h.published.length
  written : WrittenAt h.published (nextOffset - replay.length) replay
  aligned : replay = [] ∨ AlignedAt h replayBytes nextOffset (nextOffset - replay.length)

/-- The terminal shows what was published from `attachedAt` on: each piece goes on where
the one before ended, but for a reset with an aligned replay. -/
inductive Shows (h : AttachedHost) (replayBytes attachedAt : ℕ) : List Output → ℕ → Prop where
  | nothing : attachedAt ≤ h.published.length → Shows h replayBytes attachedAt [] attachedAt
  | live {shown : List Output} {offset : ℕ} {data : List UInt8} : Shows h replayBytes attachedAt shown offset →
      WrittenAt h.published offset data → offset + data.length ≤ h.published.length →
      Shows h replayBytes attachedAt (shown ++ [.live data]) (offset + data.length)
  | reset {shown : List Output} {offset : ℕ} {replay : List UInt8} {nextOffset : ℕ} :
      Shows h replayBytes attachedAt shown offset → AlignedTail h replayBytes replay nextOffset →
      Shows h replayBytes attachedAt (shown ++ [.reset replay nextOffset]) nextOffset

section Properties
variable (replayBytes : ℕ)

/-- So far the terminal shows the Session up to `offset`, and no more. -/
def Attached.Shown (s : Attached) (offset : ℕ) : Prop :=
  Shows s.host replayBytes s.attachedAt s.stdout offset

def Attached.Concluded (s : Attached) : Prop :=
  s.host.exited = true ∧ ∃ shown, s.stdout = shown ++ [.banner] ∧
    Shows s.host replayBytes s.attachedAt shown s.host.published.length

/-- What attach shows is the Session, and when it ends because the Session ended, all of
it. -/
structure ShowsSession (s : Attached) : Prop where
  contiguous : s.main ≠ .idle → (∃ offset, s.Shown replayBytes offset) ∨ s.Concluded replayBytes
  complete : s.main = .ended .sessionEnded → s.Concluded replayBytes

end Properties

/-- Where the look at the manifest finds the Host gone, the live loop follows the journal,
has it open, and the journal is closed. -/
def FollowsClosedJournal (s : Attached) : AttachEvent → Prop
  | .checkManifest due readable childExists ping =>
    s.main = .checking → due = true → hostIsAlive (s.host.loadManifest readable) childExists ping = false →
      s.useStream = false ∧ s.opened = true ∧ s.host.closed = true
  | _ => True

instance (s : Attached) : (event : AttachEvent) → Decidable (FollowsClosedJournal s event)
  | .checkManifest _ _ _ _ => inferInstanceAs (Decidable (_ → _ → _ → _))
  | .journal _ | .publish _ | .flush _ | .retain _ | .hostExits | .hostCloses | .manifestExits | .attach _ _ _ | .frame _ _ _
  | .streamCloses | .streamStops | .stream | .main | .openFile _ | .readFile _ | .mainFails | .stdinCloses =>
    inferInstanceAs (Decidable True)

/-! ### What more output leaves as it was -/

variable {offset : ℕ}

section Growth
variable {h h' : AttachedHost} {replayBytes attachedAt : ℕ}

theorem AlignedAt.mono (hp : h.published <+: h'.published) (hd : h.disks ⊆ h'.disks) {fileLen start : ℕ}
    (ha : AlignedAt h replayBytes fileLen start) : AlignedAt h' replayBytes fileLen start := by
  obtain ⟨looked,hlooked,disk,hdisk,hlen,hagrees,halign⟩ := ha
  refine ⟨looked,hd hlooked,disk,hd hdisk,hlen,fun i b hi => ?_,halign⟩
  obtain ⟨more,hmore⟩ := hp
  have hb := hagrees i b hi
  rw [← hmore, List.getElem?_append_left (List.getElem?_eq_some_iff.mp hb).1]
  exact hb

theorem AlignedTail.mono (hp : h.published <+: h'.published) (hd : h.disks ⊆ h'.disks) {replay : List UInt8} {nextOffset : ℕ}
    (ht : AlignedTail h replayBytes replay nextOffset) : AlignedTail h' replayBytes replay nextOffset where
  length := ht.length
  within := ht.within.trans hp.length_le
  written := ht.written.mono hp
  aligned := ht.aligned.imp_right (AlignedAt.mono hp hd)

theorem Shows.mono (hp : h.published <+: h'.published) (hd : h.disks ⊆ h'.disks) {shown : List Output}
    (hs : Shows h replayBytes attachedAt shown offset) : Shows h' replayBytes attachedAt shown offset := by
  induction hs with
  | nothing hle => exact .nothing (hle.trans hp.length_le)
  | live _ hdata hle ih => exact ih.live (hdata.mono hp) (hle.trans hp.length_le)
  | reset _ htail ih => exact ih.reset (htail.mono hp hd)

theorem Shows.le {shown : List Output} (hs : Shows h replayBytes attachedAt shown offset) :
    offset ≤ h.published.length := by
  cases hs with
  | nothing hle => exact hle
  | live _ _ hle => exact hle
  | reset _ htail => exact htail.within

theorem Shows.nil (hs : Shows h replayBytes attachedAt [] offset) : offset = attachedAt := by
  generalize hshown : ([] : List Output) = shown at hs
  cases hs with
  | nothing => rfl
  | live => exact absurd hshown.symm (by simp)
  | reset => exact absurd hshown.symm (by simp)

end Growth

/-! ### The Host's steps -/

structure HostInv (h : AttachedHost) : Prop where
  disk : DiskInv h.journal
  now : h.journal.disk ∈ h.disks
  closed : h.closed = true → h.exited = true ∧ h.unwritten = [] ∧ ∃ w, h.journal.host = .ready w

structure HostMoved (h h' : AttachedHost) : Prop where
  journal : Moved h.journal h'.journal
  published : h.published <+: h'.published
  disks : h.disks ⊆ h'.disks
  file : h.journal.disk.file.length ≤ h'.journal.disk.file.length
  writer : h'.journal.host.writer?.isSome
  exited : h.exited = true → h'.exited = true ∧ h'.published = h.published
  closed : h.closed = true → h'.closed = true ∧ h'.journal = h.journal

variable {event : AttachEvent}

section HostSteps
variable {retainBytes advanceBytes blockSize : ℕ} {h h' : AttachedHost}

theorem HostInv.length (hi : HostInv h) (hw : h.journal.host.writer?.isSome) :
    h.journal.disk.file.length = h.journal.written.length := by
  obtain ⟨w,hw⟩ := Option.isSome_iff_exists.mp hw
  exact (hi.disk.writer w hw).1

theorem AttachedHost.published_of_written (h : AttachedHost) : h.journal.written <+: h.published := List.prefix_append _ _

theorem HostInv.length_le (hi : HostInv h) (hw : h.journal.host.writer?.isSome) :
    h.journal.disk.file.length ≤ h.published.length := by
  rw [hi.length hw]
  exact h.published_of_written.length_le

theorem HostInv.length_closed (hi : HostInv h) (hc : h.closed = true) : h.journal.disk.file.length = h.published.length := by
  obtain ⟨-,hnil,w,hw⟩ := hi.closed hc
  rw [hi.length (by rw [hw]; rfl), AttachedHost.published, hnil, List.map_nil, List.append_nil]

/-- A Host that has a writer keeps it, and what was written. -/
theorem hostStep_writer {s t : JournalUse} {outcome : Outcome} (hw : s.host.writer?.isSome)
    (ht : hostStep retainBytes advanceBytes blockSize s outcome = some t) :
    t.host.writer?.isSome ∧ t.written = s.written ∧ t.disk.file.length = s.disk.file.length := by
  unfold hostStep at ht
  cases hh : s.host with
  | gone => rw [hh] at hw; cases hw
  | marking initialOffset => rw [hh] at hw; cases hw
  | truncating initialOffset => rw [hh] at hw; cases hw
  | extending initialOffset => rw [hh] at hw; cases hw
  | ready w => rw [hh] at ht; cases ht
  | publishing w next =>
    rw [hh] at ht
    cases ht
    refine ⟨?_,rfl,by rw [saveMarker_file]⟩
    split <;> rfl
  | punching w next =>
    rw [hh] at ht
    dsimp only at ht
    split at ht <;> cases ht
    · exact ⟨rfl,rfl,OutputJournal.punch_length _ _ _⟩
    · exact ⟨rfl,rfl,rfl⟩
  | restoring w =>
    rw [hh] at ht
    cases ht
    exact ⟨rfl,rfl,by rw [saveMarker_file]⟩

/-- A write appends, and the Host still has its writer. -/
theorem write_appends {s t : JournalUse} {bytes : List UInt8}
    (ht : journalStep retainBytes advanceBytes blockSize s (.write bytes) = some t) :
    t.host.writer?.isSome ∧ t.written = s.written ++ bytes.map some ∧ s.disk.file.length ≤ t.disk.file.length ∧ bytes ≠ [] := by
  simp only [journalStep] at ht
  split at ht
  swap
  · cases ht
  next w hhost =>
  split at ht
  · cases ht
  next hne =>
  generalize w.planAdvance blockSize (s.disk.append bytes).file = plan at ht
  obtain ⟨v,next⟩ := plan
  cases ht
  refine ⟨?_,rfl,?_,hne⟩
  · cases next <;> rfl
  · dsimp only
    rw [OutputJournal.append_length]
    exact Nat.le_add_right _ _

theorem AttachedHost.mem_record (h : AttachedHost) (journal : JournalUse) : journal.disk ∈ (h.record journal).disks :=
  List.mem_append_right _ (List.mem_singleton_self _)

theorem AttachedHost.subset_record (h : AttachedHost) (journal : JournalUse) : h.disks ⊆ (h.record journal).disks :=
  List.subset_append_left _ _

theorem HostInv.flush (hi : HostInv h) {count : ℕ} {journal : JournalUse}
    (ht : journalStep retainBytes advanceBytes blockSize h.journal (.write (h.unwritten.take count)) = some journal) :
    HostInv { h.record journal with unwritten := h.unwritten.drop count } ∧
      HostMoved h { h.record journal with unwritten := h.unwritten.drop count } := by
  obtain ⟨hdisk,hm⟩ := write_inv hi.disk ht
  obtain ⟨hw,hwritten,hlen,hne⟩ := write_appends ht
  have hopen : h.closed ≠ true := by
    intro hc
    rw [(hi.closed hc).2.1, List.take_nil] at hne
    exact hne rfl
  have hsame : AttachedHost.published { h.record journal with unwritten := h.unwritten.drop count } = h.published := by
    simp only [AttachedHost.published, AttachedHost.record]
    rw [hwritten, List.append_assoc, ← List.map_append, List.take_append_drop]
  exact ⟨⟨hdisk,h.mem_record journal,fun hc => absurd hc hopen⟩,hm,hsame ▸ List.prefix_rfl,h.subset_record journal,hlen,hw,
    fun he => ⟨he,hsame⟩,fun hc => absurd hc hopen⟩

theorem HostInv.retain (hi : HostInv h) {outcome : Outcome} {journal : JournalUse}
    (ht : hostStep retainBytes advanceBytes blockSize h.journal outcome = some journal) :
    HostInv (h.record journal) ∧ (h.journal.host.writer?.isSome → HostMoved h (h.record journal)) := by
  obtain ⟨hdisk,hm⟩ := hostStep_inv hi.disk ht
  have hopen : h.closed ≠ true := by
    intro hc
    obtain ⟨-,-,w,hw⟩ := hi.closed hc
    rw [hostStep, hw] at ht
    cases ht
  refine ⟨⟨hdisk,h.mem_record journal,fun hc => absurd hc hopen⟩,fun hw => ?_⟩
  obtain ⟨hw,hwritten,hlen⟩ := hostStep_writer hw ht
  have hsame : (h.record journal).published = h.published := by
    simp only [AttachedHost.published, AttachedHost.record]
    rw [hwritten]
  exact ⟨hm,hsame ▸ List.prefix_rfl,h.subset_record journal,hlen.ge,hw,fun he => ⟨he,hsame⟩,fun hc => absurd hc hopen⟩

theorem HostMoved.ending {exited closed running : Bool} (hw : h.journal.host.writer?.isSome)
    (he : h.exited = true → exited = true) (hc : h.closed = true → closed = true) :
    HostMoved h { h with exited := exited, closed := closed, running := running } where
  journal := Moved.host fun w hw => ⟨w,hw,rfl⟩
  published := List.prefix_rfl
  disks := List.Subset.refl _
  file := le_rfl
  writer := hw
  exited := fun h => ⟨he h,rfl⟩
  closed := fun h => ⟨hc h,rfl⟩

/-- Every step of the Host. -/
theorem AttachedHost.step_inv (hi : HostInv h)
    (ht : h.step retainBytes advanceBytes blockSize event = some h') :
    HostInv h' ∧ (h.journal.host.writer?.isSome → HostMoved h h') := by
  cases event with
  | publish bytes =>
    simp only [AttachedHost.step] at ht
    split at ht
    · cases ht
    next hrunning =>
    cases ht
    have hopen : h.closed ≠ true := fun hc => hrunning (hi.closed hc).1
    refine ⟨⟨hi.disk,hi.now,fun hc => absurd hc hopen⟩,fun hw => ⟨Moved.host fun w hw => ⟨w,hw,rfl⟩,?_,List.Subset.refl _,le_rfl,hw,?_,?_⟩⟩
    · rw [AttachedHost.published, AttachedHost.published, List.map_append, ← List.append_assoc]
      exact List.prefix_append _ _
    · exact fun he => absurd he hrunning
    · exact fun hc => absurd hc hopen
  | flush count =>
    obtain ⟨journal,hj,rfl⟩ := Option.map_eq_some_iff.mp ht
    exact ⟨(hi.flush hj).1,fun _ => (hi.flush hj).2⟩
  | retain outcome =>
    obtain ⟨journal,hj,rfl⟩ := Option.map_eq_some_iff.mp ht
    exact hi.retain hj
  | hostExits =>
    cases ht
    exact ⟨⟨hi.disk,hi.now,fun hc => ⟨rfl,(hi.closed hc).2⟩⟩,fun hw => HostMoved.ending hw (fun _ => rfl) id⟩
  | hostCloses =>
    simp only [AttachedHost.step] at ht
    split at ht
    · next w hw =>
      split at ht
      · next hover =>
        cases ht
        exact ⟨⟨hi.disk,hi.now,fun _ => ⟨hover.1,hover.2,w,hw⟩⟩,fun hw => HostMoved.ending hw id fun _ => rfl⟩
      · cases ht
    · cases ht
  | manifestExits =>
    simp only [AttachedHost.step] at ht
    split at ht
    · cases ht
      exact ⟨⟨hi.disk,hi.now,hi.closed⟩,fun hw => HostMoved.ending hw id id⟩
    · cases ht
  | _ => cases ht

end HostSteps

/-! ### Where attach stands -/

def AttachedHost.UpTo (h : AttachedHost) (final : Bool) (len : ℕ) : Prop :=
  len ≤ h.journal.disk.file.length ∧ (final = true → len = h.journal.disk.file.length)

def AttachedHost.Sample (h : AttachedHost) (offset : ℕ) (data : List UInt8) : Prop :=
  WrittenAt h.journal.written offset data ∨ Behind h.journal offset

def TailPc.Sound (h : AttachedHost) (replayBytes : ℕ) (final : Bool) : TailPc → Prop
  | .opening => True
  | .statted fileLen => h.UpTo final fileLen
  | .floored fileLen retainedFrom => h.UpTo final fileLen ∧ ∃ looked ∈ h.disks, retainedFrom = min looked.floor fileLen
  | .aligned fileLen start => h.UpTo final fileLen ∧ start ≤ fileLen ∧ AlignedAt h replayBytes fileLen start
  | .sampled fileLen start data =>
    h.UpTo final fileLen ∧ start + data.length = fileLen ∧ AlignedAt h replayBytes fileLen start ∧ h.Sample start data
  | .restatted fileLen start data newestFileLen =>
    (h.UpTo final fileLen ∧ start + data.length = fileLen ∧ AlignedAt h replayBytes fileLen start ∧ h.Sample start data) ∧
      fileLen ≤ newestFileLen ∧ h.UpTo final newestFileLen

def DrainPc.Sound (h : AttachedHost) (replayBytes offset : ℕ) (final : Bool) : DrainPc → Prop
  | .stat => True
  | .restat len => h.UpTo final len
  | .floor len fileLen => h.UpTo final len ∧ h.UpTo final fileLen
  | .read len => h.UpTo final len ∧ offset < len
  | .rereadStat data => data ≠ [] ∧ offset + data.length ≤ h.journal.disk.file.length ∧ h.Sample offset data
  | .refloor data fileLen =>
    data ≠ [] ∧ offset + data.length ≤ fileLen ∧ fileLen ≤ h.journal.disk.file.length ∧ h.Sample offset data
  | .tail t => t.pc.Sound h replayBytes final

namespace Attached
variable (replayBytes : ℕ)

def Reported (s : Attached) : Prop :=
  s.status = .failed ∧ s.Shown replayBytes s.currentOffset ∨ s.status = .exited ∧ s.Concluded replayBytes

def Streaming (s : Attached) : Prop :=
  match s.stream with
  | .off => False
  | .reading expectedOffset =>
    s.status = .running ∧ s.woken = false ∧ s.currentOffset = expectedOffset ∧ s.Shown replayBytes expectedOffset
  | .wrote nextOffset exited => s.status = .running ∧ s.woken = false ∧ s.Shown replayBytes nextOffset ∧
      (exited = true → s.host.exited = true ∧ nextOffset = s.host.published.length)
  | .ending => s.status = .running ∧ s.woken = false ∧ s.host.exited = true ∧ s.Shown replayBytes s.host.published.length
  | .ended => s.status = .running ∧ s.woken = false ∧ s.Concluded replayBytes
  | .waking => s.woken = false ∧ s.Reported replayBytes
  | .finished => s.Reported replayBytes ∨ s.status = .running ∧ s.woken = false ∧ s.Shown replayBytes s.currentOffset

def Beside (s : Attached) : Prop :=
  match s.main with
  | .top | .waking | .opening | .checking | .ended .stdinClosed | .ended .failed => True
  | .ended .sessionEnded => s.stream = .finished ∧ s.Concluded replayBytes
  | _ => False

def Following (s : Attached) : Prop :=
  (s.stream = .off ∨ s.stream = .finished) ∧
  match s.main with
  | .idle => False
  | .top | .waking | .fallingBack | .opening | .checking => s.Shown replayBytes s.offset
  | .draining final pc => s.Shown replayBytes s.offset ∧ (final = true → s.host.closed = true) ∧
      pc.Sound s.host replayBytes s.offset final
  | .banner => s.host.closed = true ∧ s.Shown replayBytes s.host.published.length
  | .ended .sessionEnded => s.Concluded replayBytes
  | .ended .stdinClosed | .ended .failed => ∃ offset, s.Shown replayBytes offset

structure Inv (s : Attached) : Prop where
  host : HostInv s.host
  idle : s.main = .idle → s.stream = .off ∧ s.status = .running ∧ s.woken = false ∧ s.stdout = []
  writer : s.main ≠ .idle → s.host.journal.host.writer?.isSome
  stream : s.main ≠ .idle → s.useStream = true → s.Streaming replayBytes ∧ s.Beside replayBytes
  file : s.main ≠ .idle → s.useStream = false → s.Following replayBytes

end Attached

/-! ### The Host goes on -/

variable {data : List UInt8}

section HostGoesOn
variable {replayBytes : ℕ} {h h' : AttachedHost} {final : Bool}

theorem HostMoved.upTo (hm : HostMoved h h') (hfinal : final = true → h.closed = true) {len : ℕ} (hl : h.UpTo final len) :
    h'.UpTo final len := by
  refine ⟨hl.1.trans hm.file,fun hf => ?_⟩
  rw [(hm.closed (hfinal hf)).2]
  exact hl.2 hf

theorem HostMoved.sample (hm : HostMoved h h') (hs : h.Sample offset data) :
    h'.Sample offset data :=
  hs.imp (fun hw => hw.mono hm.journal.written) (hm.journal.behind offset)

theorem HostMoved.tail (hm : HostMoved h h') (hfinal : final = true → h.closed = true) {pc : TailPc}
    (hs : pc.Sound h replayBytes final) : pc.Sound h' replayBytes final := by
  cases pc with
  | opening => trivial
  | statted fileLen => exact hm.upTo hfinal hs
  | floored fileLen retainedFrom =>
    obtain ⟨hlen,looked,hlooked,rfl⟩ := hs
    exact ⟨hm.upTo hfinal hlen,looked,hm.disks hlooked,rfl⟩
  | aligned fileLen start => exact ⟨hm.upTo hfinal hs.1,hs.2.1,hs.2.2.mono hm.published hm.disks⟩
  | sampled fileLen start data =>
    obtain ⟨hlen,hdata,halign,hsample⟩ := hs
    exact ⟨hm.upTo hfinal hlen,hdata,halign.mono hm.published hm.disks,hm.sample hsample⟩
  | restatted fileLen start data newestFileLen =>
    obtain ⟨⟨hlen,hdata,halign,hsample⟩,hle,hnewest⟩ := hs
    exact ⟨⟨hm.upTo hfinal hlen,hdata,halign.mono hm.published hm.disks,hm.sample hsample⟩,hle,hm.upTo hfinal hnewest⟩

theorem HostMoved.drain (hm : HostMoved h h') (hfinal : final = true → h.closed = true) {pc : DrainPc}
    (hs : pc.Sound h replayBytes offset final) : pc.Sound h' replayBytes offset final := by
  cases pc with
  | stat => trivial
  | restat len => exact hm.upTo hfinal hs
  | floor len fileLen => exact ⟨hm.upTo hfinal hs.1,hm.upTo hfinal hs.2⟩
  | read len => exact ⟨hm.upTo hfinal hs.1,hs.2⟩
  | rereadStat data => exact ⟨hs.1,hs.2.1.trans hm.file,hm.sample hs.2.2⟩
  | refloor data fileLen => exact ⟨hs.1,hs.2.1,hs.2.2.1.trans hm.file,hm.sample hs.2.2.2⟩
  | tail t => exact hm.tail hfinal hs

end HostGoesOn

section AttachedSteps
variable {retainBytes advanceBytes blockSize replayBytes : ℕ} {s t : Attached} {host : AttachedHost}

theorem Attached.Shown.moved (hm : HostMoved s.host host) (h : s.Shown replayBytes offset) :
    { s with host := host }.Shown replayBytes offset :=
  Shows.mono hm.published hm.disks h

theorem Attached.Concluded.moved (hm : HostMoved s.host host) (h : s.Concluded replayBytes) :
    { s with host := host }.Concluded replayBytes := by
  obtain ⟨hexited,shown,hout,hshows⟩ := h
  obtain ⟨he,hsame⟩ := hm.exited hexited
  refine ⟨he,shown,hout,?_⟩
  rw [hsame]
  exact hshows.mono hm.published hm.disks

theorem Attached.Reported.moved (hm : HostMoved s.host host) (h : s.Reported replayBytes) :
    { s with host := host }.Reported replayBytes :=
  h.imp (fun hf => ⟨hf.1,hf.2.moved hm⟩) fun he => ⟨he.1,he.2.moved hm⟩

theorem Attached.Streaming.moved (hm : HostMoved s.host host) (h : s.Streaming replayBytes) :
    { s with host := host }.Streaming replayBytes := by
  unfold Attached.Streaming at h ⊢
  cases hstream : s.stream with
  | off => rw [hstream] at h; exact h
  | reading expectedOffset =>
    rw [hstream] at h
    exact ⟨h.1,h.2.1,h.2.2.1,h.2.2.2.moved hm⟩
  | wrote nextOffset exited =>
    rw [hstream] at h
    refine ⟨h.1,h.2.1,h.2.2.1.moved hm,fun hx => ?_⟩
    obtain ⟨he,hn⟩ := h.2.2.2 hx
    obtain ⟨he,hsame⟩ := hm.exited he
    exact ⟨he,by rw [hsame]; exact hn⟩
  | ending =>
    rw [hstream] at h
    obtain ⟨hs,hw,hexited,hshown⟩ := h
    obtain ⟨he,hsame⟩ := hm.exited hexited
    exact ⟨hs,hw,he,by rw [hsame]; exact hshown.moved hm⟩
  | ended => rw [hstream] at h; exact ⟨h.1,h.2.1,h.2.2.moved hm⟩
  | waking => rw [hstream] at h; exact ⟨h.1,h.2.moved hm⟩
  | finished =>
    rw [hstream] at h
    exact h.imp (fun hr => hr.moved hm) fun hq => ⟨hq.1,hq.2.1,hq.2.2.moved hm⟩

theorem Attached.Beside.moved (hm : HostMoved s.host host) (h : s.Beside replayBytes) :
    { s with host := host }.Beside replayBytes := by
  unfold Attached.Beside at h ⊢
  split <;> simp_all only
  exact ⟨trivial,h.2.moved hm⟩

theorem Attached.Following.moved (hi : HostInv s.host) (hm : HostMoved s.host host) (h : s.Following replayBytes) :
    { s with host := host }.Following replayBytes := by
  refine ⟨h.1,?_⟩
  have hmain := h.2
  cases hpc : s.main with
  | idle => rw [hpc] at hmain; exact hmain
  | draining final pc =>
    rw [hpc] at hmain
    obtain ⟨hshown,hfinal,hsound⟩ := hmain
    exact ⟨hshown.moved hm,fun hf => (hm.closed (hfinal hf)).1,hm.drain hfinal hsound⟩
  | banner =>
    rw [hpc] at hmain
    refine ⟨(hm.closed hmain.1).1,?_⟩
    rw [(hm.exited (hi.closed hmain.1).1).2]
    exact hmain.2.moved hm
  | ended how =>
    rw [hpc] at hmain
    cases how with
    | sessionEnded => exact Attached.Concluded.moved hm hmain
    | stdinClosed => exact hmain.imp fun _ hs => hs.moved hm
    | failed => exact hmain.imp fun _ hs => hs.moved hm
  | top | waking | fallingBack | opening | checking =>
    rw [hpc] at hmain
    exact Attached.Shown.moved hm hmain

namespace Attached.Inv

theorem hostMoved (h : s.Inv replayBytes) (hi : HostInv host)
    (hm : s.host.journal.host.writer?.isSome → HostMoved s.host host) : { s with host := host }.Inv replayBytes where
  host := hi
  idle := h.idle
  writer := fun hmain => (hm (h.writer hmain)).writer
  stream := by
    intro hmain huse
    obtain ⟨hs,hb⟩ := h.stream hmain huse
    exact ⟨hs.moved (hm (h.writer hmain)),hb.moved (hm (h.writer hmain))⟩
  file := fun hmain huse => (h.file hmain huse).moved h.host (hm (h.writer hmain))

theorem start : startAttached.Inv replayBytes where
  host := ⟨DiskInv.start,List.mem_singleton_self _,fun h => by cases h⟩
  idle := fun _ => ⟨rfl,rfl,rfl,rfl⟩
  writer := fun h => absurd rfl h
  stream := fun h => absurd rfl h
  file := fun h => absurd rfl h

/-! ### The stream's thread -/

theorem of_stream (h : s.Inv replayBytes) (hoff : s.stream ≠ .off) (hend : s.stream ≠ .finished) :
    s.main ≠ .idle ∧ s.useStream = true := by
  have hmain : s.main ≠ .idle := fun hm => hoff (h.idle hm).1
  refine ⟨hmain,?_⟩
  by_contra huse
  rcases (h.file hmain (Bool.not_eq_true _ ▸ huse)).1 with ho | hf
  · exact hoff ho
  · exact hend hf

theorem streams (h : s.Inv replayBytes) (hoff : s.stream ≠ .off) (hend : s.stream ≠ .finished) (hhost : t.host = s.host)
    (hmain : t.main = s.main) (huse : t.useStream = s.useStream) (ht : t.Streaming replayBytes) : t.Inv replayBytes := by
  obtain ⟨hidle,hstream⟩ := h.of_stream hoff hend
  have hbeside := (h.stream hidle hstream).2
  refine ⟨hhost ▸ h.host,fun hm => absurd (hmain ▸ hm) hidle,fun _ => hhost ▸ h.writer hidle,fun _ _ => ⟨ht,?_⟩,fun _ hu => ?_⟩
  · unfold Attached.Beside at hbeside ⊢
    split at hbeside <;> first | exact absurd hbeside.1 hend | simp_all only
  · rw [huse, hstream] at hu
    cases hu

theorem streamStep (h : s.Inv replayBytes) (ht : s.streamStep event = some t) : t.Inv replayBytes := by
  have hstreaming (hoff : s.stream ≠ .off) (hend : s.stream ≠ .finished) : s.Streaming replayBytes :=
    let hu := h.of_stream hoff hend
    (h.stream hu.1 hu.2).1
  cases event with
  | frame data nextOffset exited =>
    simp only [Attached.streamStep] at ht
    split at ht
    swap
    · cases ht
    next expectedOffset hpc =>
    have hs := hstreaming (by simp [hpc]) (by simp [hpc])
    rw [Attached.Streaming, hpc] at hs
    obtain ⟨hstatus,hwoken,hcurrent,hshown⟩ := hs
    split at ht
    swap
    · cases ht
    next hsends =>
    obtain ⟨hle,hwithin,hwritten,hexited⟩ := hsends
    split at ht <;> cases ht
    · exact h.streams (by simp [hpc]) (by simp [hpc]) rfl rfl rfl ⟨hwoken,.inl ⟨rfl,hcurrent ▸ hshown⟩⟩
    · next hstart =>
      have hstart : nextOffset - data.length = expectedOffset := not_not.mp hstart
      rw [hstart] at hwritten
      have hnext : nextOffset = expectedOffset + data.length := by omega
      unfold Attached.write
      split
      · next hnil =>
        subst hnil
        subst hnext
        exact h.streams (by simp [hpc]) (by simp [hpc]) rfl rfl rfl ⟨hstatus,hwoken,hshown,hexited⟩
      · refine h.streams (by simp [hpc]) (by simp [hpc]) rfl rfl rfl ⟨hstatus,hwoken,?_,hexited⟩
        rw [hnext]
        exact Shows.live hshown hwritten (hnext ▸ hwithin)
  | streamCloses =>
    simp only [Attached.streamStep] at ht
    split at ht <;> cases ht
    next expectedOffset hpc =>
    have hs := hstreaming (by simp [hpc]) (by simp [hpc])
    rw [Attached.Streaming, hpc] at hs
    obtain ⟨-,hwoken,hcurrent,hshown⟩ := hs
    exact h.streams (by simp [hpc]) (by simp [hpc]) rfl rfl rfl ⟨hwoken,.inl ⟨rfl,hcurrent ▸ hshown⟩⟩
  | streamStops =>
    simp only [Attached.streamStep] at ht
    split at ht
    swap
    · cases ht
    next expectedOffset hpc =>
    have hs := hstreaming (by simp [hpc]) (by simp [hpc])
    rw [Attached.Streaming, hpc] at hs
    obtain ⟨hstatus,hwoken,hcurrent,hshown⟩ := hs
    split at ht <;> cases ht
    exact h.streams (by simp [hpc]) (by simp [hpc]) rfl rfl rfl (.inr ⟨hstatus,hwoken,hcurrent ▸ hshown⟩)
  | stream =>
    simp only [Attached.streamStep] at ht
    split at ht <;> cases ht
    · next nextOffset exited hpc =>
      have hs := hstreaming (by simp [hpc]) (by simp [hpc])
      rw [Attached.Streaming, hpc] at hs
      obtain ⟨hstatus,hwoken,hshown,hexited⟩ := hs
      cases exited with
      | true =>
        refine h.streams (by simp [hpc]) (by simp [hpc]) rfl rfl rfl ⟨hstatus,hwoken,(hexited rfl).1,?_⟩
        rw [← (hexited rfl).2]
        exact hshown
      | false => exact h.streams (by simp [hpc]) (by simp [hpc]) rfl rfl rfl ⟨hstatus,hwoken,rfl,hshown⟩
    · next hpc =>
      have hs := hstreaming (by simp [hpc]) (by simp [hpc])
      rw [Attached.Streaming, hpc] at hs
      obtain ⟨hstatus,hwoken,hexited,hshown⟩ := hs
      exact h.streams (by simp [hpc]) (by simp [hpc]) rfl rfl rfl ⟨hstatus,hwoken,hexited,s.stdout,rfl,hshown⟩
    · next hpc =>
      have hs := hstreaming (by simp [hpc]) (by simp [hpc])
      rw [Attached.Streaming, hpc] at hs
      obtain ⟨-,hwoken,hconcluded⟩ := hs
      exact h.streams (by simp [hpc]) (by simp [hpc]) rfl rfl rfl ⟨hwoken,.inr ⟨rfl,hconcluded⟩⟩
    · next hpc =>
      have hs := hstreaming (by simp [hpc]) (by simp [hpc])
      rw [Attached.Streaming, hpc] at hs
      exact h.streams (by simp [hpc]) (by simp [hpc]) rfl rfl rfl (.inl hs.2)
  | _ => cases ht

end Attached.Inv
end AttachedSteps

/-! ### The drains -/

section Drains
variable {replayBytes : ℕ} {h : AttachedHost} {final : Bool}

theorem AttachedHost.upTo_length (h : AttachedHost) (final : Bool) : h.UpTo final h.journal.disk.file.length :=
  ⟨le_rfl,fun _ => rfl⟩

theorem HostInv.sample (hi : HostInv h) {start count : ℕ}
    (hread : readExact h.journal.disk.file start count = some data) : h.Sample start data := by
  obtain ⟨hholes,hclean⟩ := ReaderInv.sample hi.disk hread
  cases hany : ((h.journal.disk.file.drop start).take count).any Option.isNone with
  | true => exact .inr (hholes hany)
  | false => exact .inl (hclean hany)

theorem AttachedHost.Sample.written {offset len : ℕ} (hs : h.Sample offset data)
    (hfloor : ¬offset < min h.journal.disk.floor len) (hlen : offset + data.length ≤ len) :
    WrittenAt h.journal.written offset data := by
  rcases hs with hw | hb
  · exact hw
  · have hbelow := hb.1
    have hnil : data.length = 0 := by omega
    rw [List.eq_nil_of_length_eq_zero hnil]
    exact WrittenAt.nil _ _

theorem HostInv.alignedAt (hi : HostInv h) {fileLen start : ℕ} {looked : OutputJournal} (hlooked : looked ∈ h.disks)
    (hlen : fileLen ≤ h.journal.disk.file.length)
    (halign : alignReplayTailStart h.journal.disk.file (max (fileLen - replayBytes) (min looked.floor fileLen))
      (min looked.floor fileLen) = some start) : AlignedAt h replayBytes fileLen start := by
  refine ⟨looked,hlooked,_,hi.now,hlen,fun i b hb => ?_,halign⟩
  have hw := hi.disk.agrees i b hb
  rw [AttachedHost.published, List.getElem?_append_left (List.getElem?_eq_some_iff.mp hw).1]
  exact hw

/-- `read_replay_tail` step by step: it goes on soundly, or returns an aligned tail that ends
at a length of the file. -/
theorem TailRead.step_sound (hi : HostInv h) (hw : h.journal.host.writer?.isSome) {t : TailRead}
    (hs : t.pc.Sound h replayBytes final) {next : TailRead ⊕ List UInt8 × ℕ}
    (ht : t.step replayBytes h.journal.disk = some next) :
    match next with
    | .inl next => next.pc.Sound h replayBytes final
    | .inr (replay,nextOffset) => AlignedTail h replayBytes replay nextOffset ∧ h.UpTo final nextOffset := by
  unfold TailRead.step at ht
  cases hpc : t.pc with
  | opening =>
    rw [hpc] at ht
    cases ht
    exact h.upTo_length final
  | statted fileLen =>
    rw [hpc] at ht hs
    cases ht
    exact ⟨hs,_,hi.now,rfl⟩
  | floored fileLen retainedFrom =>
    rw [hpc] at ht hs
    obtain ⟨start,halign,rfl⟩ := Option.map_eq_some_iff.mp ht
    obtain ⟨hlen,looked,hlooked,rfl⟩ := hs
    have hstart := (alignReplayTailStart_bounds halign).2
    exact ⟨hlen,by omega,hi.alignedAt hlooked hlen.1 halign⟩
  | aligned fileLen start =>
    rw [hpc] at ht hs
    obtain ⟨data,hread,rfl⟩ := Option.map_eq_some_iff.mp ht
    obtain ⟨hlen,hstart,halign⟩ := hs
    have hdata := readExact_length hread
    exact ⟨hlen,by omega,halign,hi.sample hread⟩
  | sampled fileLen start data =>
    rw [hpc] at ht hs
    cases ht
    exact ⟨hs,hs.1.1,h.upTo_length final⟩
  | restatted fileLen start data newestFileLen =>
    rw [hpc] at ht hs
    obtain ⟨⟨hlen,hdata,halign,hsample⟩,hle,hnewest⟩ := hs
    dsimp only at ht
    split at ht
    · split at ht <;> cases ht
      · trivial
      · exact ⟨⟨Nat.zero_le _,hnewest.1.trans (hi.length_le hw),WrittenAt.nil _ _,.inl rfl⟩,hnewest⟩
    · next hfloor =>
      cases ht
      have hwritten := hsample.written hfloor (hdata.le.trans hle)
      have hstart : fileLen - data.length = start := by omega
      exact ⟨⟨by omega,hlen.1.trans (hi.length_le hw),hstart.symm ▸ hwritten.mono h.published_of_written,.inr (hstart.symm ▸ halign)⟩,hlen⟩

end Drains

namespace Attached.Inv
section MainSteps
variable {retainBytes advanceBytes blockSize replayBytes : ℕ} {s t : Attached}

theorem follows (h : s.Inv replayBytes) (hmain : s.main ≠ .idle) (hhost : t.host = s.host) (hidle : t.main ≠ .idle)
    (huse : t.useStream = false) (ht : t.Following replayBytes) : t.Inv replayBytes where
  host := hhost ▸ h.host
  idle := fun hm => absurd hm hidle
  writer := fun _ => hhost ▸ h.writer hmain
  stream := fun _ hu => absurd (huse.symm.trans hu) (by decide)
  file := fun _ _ => ht

theorem alone (h : s.Inv replayBytes) (hmain : s.main ≠ .idle) (hb : ¬s.Beside replayBytes) : s.useStream = false := by
  by_contra hu
  exact hb (h.stream hmain (Bool.not_eq_false _ ▸ hu)).2

/-- A drain step returns: it goes on if it has shown something, else all there was is
shown. -/
theorem drained (h : s.Inv replayBytes) {final : Bool} {pc : DrainPc} (hpc : s.main = .draining final pc)
    (huse : s.useStream = false) {stdout : List Output} {offset shown : ℕ}
    (hshown : { s with stdout := stdout, offset := offset }.Shown replayBytes offset)
    (hall : final = true → shown = 0 → offset = s.host.published.length) :
    ({ s with stdout := stdout, offset := offset }.drained final shown).Inv replayBytes := by
  have hmain : s.main ≠ .idle := by simp [hpc]
  obtain ⟨hstream,hdrain⟩ := h.file hmain huse
  rw [hpc] at hdrain
  unfold Attached.drained
  split
  · exact h.follows hmain rfl (by simp) huse ⟨hstream,hshown,hdrain.2.1,trivial⟩
  · next hnone =>
    split
    · next hfinal =>
      refine h.follows hmain rfl (by simp) huse ⟨hstream,hdrain.2.1 hfinal,?_⟩
      have hend : offset = s.host.published.length := hall hfinal (by omega)
      exact (hend ▸ hshown :)
    · exact h.follows hmain rfl (by simp) huse ⟨hstream,hshown⟩

theorem drainStep (h : s.Inv replayBytes) {final : Bool} {pc : DrainPc} (hpc : s.main = .draining final pc)
    (ht : s.drainStep replayBytes final pc = some t) : t.Inv replayBytes := by
  have hmain : s.main ≠ .idle := by simp [hpc]
  have huse := h.alone hmain (by rw [Attached.Beside, hpc]; exact id)
  obtain ⟨hstream,hdrain⟩ := h.file hmain huse
  rw [hpc] at hdrain
  obtain ⟨hshown,hfinal,hsound⟩ := hdrain
  have hw := h.writer hmain
  have hgo (pc : DrainPc) (hs : pc.Sound s.host replayBytes s.offset final) : { s with main := .draining final pc }.Inv replayBytes :=
    h.follows hmain rfl (by simp) huse ⟨hstream,hshown,hfinal,hs⟩
  cases pc with
  | stat =>
    cases ht
    exact hgo _ (s.host.upTo_length final)
  | restat len =>
    cases ht
    exact hgo _ ⟨hsound,s.host.upTo_length final⟩
  | floor len fileLen =>
    simp only [Attached.drainStep] at ht
    split at ht
    · cases ht
      exact hgo (.tail .start) trivial
    split at ht <;> cases ht
    · next hle =>
      refine @drained replayBytes s h final _ hpc huse s.stdout s.offset 0 hshown fun hf _ => ?_
      have hlen := hsound.1.2 hf
      have hclosed := h.host.length_closed (hfinal hf)
      have hwithin := hshown.le
      omega
    · next hlt => exact hgo _ ⟨hsound.1,not_le.mp hlt⟩
  | read len => cases ht
  | rereadStat data =>
    cases ht
    exact hgo _ ⟨hsound.1,hsound.2.1,le_rfl,hsound.2.2⟩
  | refloor data fileLen =>
    simp only [Attached.drainStep] at ht
    obtain ⟨hne,hin,hlen,hsample⟩ := hsound
    split at ht <;> cases ht
    · exact hgo (.tail .start) trivial
    · next hfloor =>
      have hwritten := hsample.written hfloor hin
      refine h.drained hpc huse ?_ fun _ hnone => absurd (List.eq_nil_of_length_eq_zero hnone) hne
      exact Shows.live hshown (hwritten.mono s.host.published_of_written) ((hin.trans hlen).trans (h.host.length_le hw))
  | tail read =>
    simp only [Attached.drainStep] at ht
    cases hstep : read.step replayBytes s.host.journal.disk with
    | none =>
      rw [hstep] at ht
      cases ht
      exact h.follows hmain rfl (by simp) huse ⟨hstream,s.offset,hshown⟩
    | some next =>
      have hnext := TailRead.step_sound h.host hw hsound hstep
      rw [hstep] at ht
      rcases next with next | ⟨replay,nextOffset⟩ <;> cases ht
      · exact hgo _ hnext
      · refine h.drained hpc huse (Shows.reset hshown hnext.1) fun hf _ => ?_
        rw [hnext.2.2 hf]
        exact h.host.length_closed (hfinal hf)

theorem goes (h : s.Inv replayBytes) (hmain : s.main ≠ .idle) {main : MainPc} {opened shutdown : Bool} (hidle : main ≠ .idle)
    (hbeside : s.useStream = true → { s with main := main }.Beside replayBytes)
    (hfollowing : s.useStream = false → s.Following replayBytes → { s with main := main }.Following replayBytes) :
    { s with main := main, opened := opened, shutdown := shutdown }.Inv replayBytes where
  host := h.host
  idle := fun hm => absurd hm hidle
  writer := fun _ => h.writer hmain
  stream := fun _ hu => ⟨(h.stream hmain hu).1,hbeside hu⟩
  file := fun _ hu => hfollowing hu (h.file hmain hu)

theorem goes_between (h : s.Inv replayBytes) {main : MainPc} {opened : Bool}
    (hfrom : s.main = .top ∨ s.main = .waking ∨ s.main = .fallingBack ∨ s.main = .opening ∨ s.main = .checking)
    (hto : main = .top ∨ main = .waking ∨ main = .opening ∨ main = .checking) :
    { s with main := main, opened := opened }.Inv replayBytes := by
  have hmain : s.main ≠ .idle := by
    rcases hfrom with hpc | hpc | hpc | hpc | hpc <;> simp [hpc]
  refine h.goes hmain ?_ (fun _ => ?_) fun _ hf => ⟨hf.1,?_⟩
  · rcases hto with rfl | rfl | rfl | rfl <;> simp
  · rcases hto with rfl | rfl | rfl | rfl <;> trivial
  · have hshown := hf.2
    rcases hfrom with hpc | hpc | hpc | hpc | hpc <;> rw [hpc] at hshown <;>
      rcases hto with rfl | rfl | rfl | rfl <;> exact hshown

/-- The thread has reported its end. -/
theorem wakes (h : s.Inv replayBytes) (hpc : s.main = .waking) (huse : s.useStream = true) (hwoken : s.woken = true) :
    s.stream = .finished ∧ s.Reported replayBytes := by
  have hs := (h.stream (by simp [hpc]) huse).1
  unfold Attached.Streaming at hs
  cases hstream : s.stream with
  | off => rw [hstream] at hs; exact hs.elim
  | reading expectedOffset => rw [hstream] at hs; exact absurd (hwoken.symm.trans hs.2.1) (by decide)
  | wrote nextOffset exited => rw [hstream] at hs; exact absurd (hwoken.symm.trans hs.2.1) (by decide)
  | ending => rw [hstream] at hs; exact absurd (hwoken.symm.trans hs.2.1) (by decide)
  | ended => rw [hstream] at hs; exact absurd (hwoken.symm.trans hs.2.1) (by decide)
  | waking => rw [hstream] at hs; exact absurd (hwoken.symm.trans hs.1) (by decide)
  | finished =>
    rw [hstream] at hs
    rcases hs with hr | hq
    · exact ⟨rfl,hr⟩
    · exact absurd (hwoken.symm.trans hq.2.1) (by decide)

theorem mainStep (h : s.Inv replayBytes) (ht : s.mainStep replayBytes = some t) : t.Inv replayBytes := by
  unfold Attached.mainStep at ht
  cases hpc : s.main with
  | top =>
    rw [hpc] at ht
    cases ht
    split
    · refine h.goes (by simp [hpc]) (by simp) (fun _ => trivial) fun _ hf => ⟨hf.1,s.offset,?_⟩
      have hshown := hf.2
      rw [hpc] at hshown
      exact hshown
    · exact h.goes_between (.inl hpc) (.inr (.inl rfl))
  | waking =>
    rw [hpc] at ht
    dsimp only at ht
    split at ht
    swap
    · cases ht
      exact h.goes_between (.inr (.inl hpc)) (.inr (.inr (.inl rfl)))
    next hwake =>
    obtain ⟨hfinished,hreported⟩ := h.wakes hpc hwake.1 hwake.2
    have hmain : s.main ≠ .idle := by simp [hpc]
    rcases hreported with ⟨hstatus,hshown⟩ | ⟨hstatus,hconcluded⟩ <;> rw [hstatus] at ht <;> cases ht
    · exact h.follows hmain rfl (by simp) rfl ⟨.inr hfinished,hshown⟩
    · refine ⟨h.host,fun hm => absurd hm (by simp),fun _ => h.writer hmain,fun _ _ => ⟨?_,hfinished,hconcluded⟩,fun _ hu => ?_⟩
      · unfold Attached.Streaming
        rw [hfinished]
        exact .inl (.inr ⟨rfl,hconcluded⟩)
      · exact absurd (hwake.1.symm.trans hu) (by decide)
  | draining final pc =>
    rw [hpc] at ht
    exact h.drainStep hpc ht
  | banner =>
    rw [hpc] at ht
    cases ht
    have hmain : s.main ≠ .idle := by simp [hpc]
    have huse := h.alone hmain (by rw [Attached.Beside, hpc]; exact id)
    obtain ⟨hstream,hbanner⟩ := h.file hmain huse
    rw [hpc] at hbanner
    exact h.follows hmain rfl (by simp) huse ⟨hstream,(h.host.closed hbanner.1).1,s.stdout,rfl,hbanner.2⟩
  | idle | fallingBack | opening | checking | ended how =>
    rw [hpc] at ht
    cases ht

theorem attach (h : s.Inv replayBytes) (hidle : s.main = .idle) (hw : s.host.journal.host.writer?.isSome)
    (hle : offset ≤ s.host.published.length) (connected found : Bool) :
    { s with stream := if connected then .reading offset else .off, currentOffset := offset, main := .top, useStream := connected,
             opened := !connected && found, offset := offset, attachedAt := offset }.Inv replayBytes := by
  obtain ⟨-,hstatus,hwoken,hstdout⟩ := h.idle hidle
  have hshown : Shows s.host replayBytes offset s.stdout offset := hstdout ▸ .nothing hle
  refine ⟨h.host,fun hm => absurd hm (by simp),fun _ => hw,fun _ hu => ?_,fun _ hu => ?_⟩ <;> cases hu
  · exact ⟨⟨hstatus,hwoken,rfl,hshown⟩,trivial⟩
  · exact ⟨.inl rfl,hshown⟩

theorem openFile (h : s.Inv replayBytes) {found : Bool}
    (ht : s.step retainBytes advanceBytes blockSize replayBytes (.openFile found) = some t) : t.Inv replayBytes := by
  simp only [Attached.step] at ht
  split at ht
  · next hpc =>
    cases ht
    exact h.goes_between (.inr (.inr (.inl hpc))) (.inr (.inr (.inl rfl)))
  · next hpc =>
    cases ht
    generalize (if !s.useStream && !s.opened then found else s.opened) = opened
    split
    · next hopened =>
      have huse : s.useStream = false := by
        rw [Bool.and_eq_true, Bool.not_eq_true'] at hopened
        exact hopened.1
      refine h.goes (by simp [hpc]) (by simp) (fun hu => absurd (hu.symm.trans huse) (by decide)) fun _ hf => ⟨hf.1,?_⟩
      have hshown := hf.2
      rw [hpc] at hshown
      exact ⟨hshown,fun hf => absurd hf (by decide),trivial⟩
    · exact h.goes_between (.inr (.inr (.inr (.inl hpc)))) (.inr (.inr (.inr rfl)))
  · cases ht

theorem readFile (h : s.Inv replayBytes) {count : ℕ}
    (ht : s.step retainBytes advanceBytes blockSize replayBytes (.readFile count) = some t) : t.Inv replayBytes := by
  simp only [Attached.step] at ht
  split at ht
  swap
  · cases ht
  next final len hpc =>
  split at ht
  swap
  · cases ht
  next hcount =>
  obtain ⟨data,hread,rfl⟩ := Option.map_eq_some_iff.mp ht
  have hmain : s.main ≠ .idle := by simp [hpc]
  have huse := h.alone hmain (by rw [Attached.Beside, hpc]; exact id)
  obtain ⟨hstream,hdrain⟩ := h.file hmain huse
  rw [hpc] at hdrain
  obtain ⟨hshown,hfinal,hlen,hlt⟩ := hdrain
  have hdata := readExact_length hread
  refine h.follows hmain rfl (by simp) huse ⟨hstream,hshown,hfinal,?_,?_,h.host.sample hread⟩
  · rintro rfl
    rw [List.length_nil] at hdata
    omega
  · have hfile := hlen.1
    dsimp only
    omega

theorem checkManifest (h : s.Inv replayBytes) {due readable childExists ping : Bool}
    (hok : FollowsClosedJournal s (.checkManifest due readable childExists ping))
    (ht : s.step retainBytes advanceBytes blockSize replayBytes (.checkManifest due readable childExists ping) = some t) :
    t.Inv replayBytes := by
  simp only [Attached.step] at ht
  split at ht
  swap
  · cases ht
  next hpc =>
  split at ht <;> cases ht
  · next hgone =>
    obtain ⟨huse,hopened,hclosed⟩ := hok hpc hgone.1 hgone.2
    rw [if_pos (by rw [huse, hopened]; rfl)]
    refine h.goes (by simp [hpc]) (by simp) (fun hu => absurd (hu.symm.trans huse) (by decide)) fun _ hf => ⟨hf.1,?_⟩
    have hshown := hf.2
    rw [hpc] at hshown
    exact ⟨hshown,fun _ => hclosed,trivial⟩
  · exact h.goes_between (.inr (.inr (.inr (.inr hpc)))) (.inl rfl)

/-- Whatever fails, what is shown stays. -/
theorem mainFails (h : s.Inv replayBytes)
    (ht : s.step retainBytes advanceBytes blockSize replayBytes .mainFails = some t) : t.Inv replayBytes := by
  simp only [Attached.step] at ht
  split at ht <;> cases ht
  next hidle hended =>
  refine h.goes hidle (by simp) (fun _ => trivial) fun _ hf => ⟨hf.1,?_⟩
  have hmain := hf.2
  cases hpc : s.main with
  | idle => exact absurd hpc hidle
  | ended how => exact absurd hpc (hended how)
  | draining final pc =>
    rw [hpc] at hmain
    exact ⟨_,hmain.1⟩
  | banner =>
    rw [hpc] at hmain
    exact ⟨_,hmain.2⟩
  | top | waking | fallingBack | opening | checking =>
    rw [hpc] at hmain
    exact ⟨_,hmain⟩

theorem step (h : s.Inv replayBytes) (hok : FollowsClosedJournal s event)
    (ht : s.step retainBytes advanceBytes blockSize replayBytes event = some t) : t.Inv replayBytes := by
  have hother (hhost : ∀ host, s.host.step retainBytes advanceBytes blockSize event = some host → { s with host := host } = t)
      (hstream : s.host.step retainBytes advanceBytes blockSize event = none → s.streamStep event = some t) : t.Inv replayBytes := by
    cases hstep : s.host.step retainBytes advanceBytes blockSize event with
    | some host =>
      obtain ⟨hi,hm⟩ := AttachedHost.step_inv h.host hstep
      exact hhost host hstep ▸ h.hostMoved hi hm
    | none => exact h.streamStep (hstream hstep)
  cases event with
  | journal event =>
    simp only [Attached.step] at ht
    split at ht
    swap
    · cases ht
    next hbefore =>
    obtain ⟨journal,hj,rfl⟩ := Option.map_eq_some_iff.mp ht
    have hrunning : s.host.closed ≠ true := fun hc => by
      have he := (h.host.closed hc).1
      rw [hbefore.2.2] at he
      cases he
    exact ⟨⟨journalStep_disk h.host.disk hj,List.mem_singleton_self _,fun hc => absurd hc hrunning⟩,h.idle,fun hm => absurd hbefore.1 hm,
      fun hm => absurd hbefore.1 hm,fun hm => absurd hbefore.1 hm⟩
  | attach offset connected found =>
    simp only [Attached.step] at ht
    split at ht <;> cases ht
    next hready => exact h.attach hready.1 hready.2.1 hready.2.2 connected found
  | main => exact h.mainStep ht
  | openFile found => exact h.openFile ht
  | readFile count => exact h.readFile ht
  | checkManifest due readable childExists ping => exact h.checkManifest hok ht
  | mainFails => exact h.mainFails ht
  | stdinCloses =>
    cases ht
    exact ⟨h.host,h.idle,h.writer,h.stream,h.file⟩
  | publish _ | flush _ | retain _ | hostExits | hostCloses | manifestExits | frame _ _ _ | streamCloses | streamStops | stream =>
    refine hother (fun host hstep => ?_) fun hstep => ?_ <;> simp only [Attached.step, hstep] at ht
    · exact Option.some.inj ht
    · exact ht

theorem shown_of_streaming (h : s.Streaming replayBytes) : (∃ offset, s.Shown replayBytes offset) ∨ s.Concluded replayBytes := by
  have hreported (hr : s.Reported replayBytes) : (∃ offset, s.Shown replayBytes offset) ∨ s.Concluded replayBytes :=
    hr.imp (fun hf => ⟨_,hf.2⟩) And.right
  unfold Attached.Streaming at h
  cases hstream : s.stream with
  | off => rw [hstream] at h; exact h.elim
  | reading expectedOffset => rw [hstream] at h; exact .inl ⟨_,h.2.2.2⟩
  | wrote nextOffset exited => rw [hstream] at h; exact .inl ⟨_,h.2.2.1⟩
  | ending => rw [hstream] at h; exact .inl ⟨_,h.2.2.2⟩
  | ended => rw [hstream] at h; exact .inr h.2.2
  | waking => rw [hstream] at h; exact hreported h.2
  | finished =>
    rw [hstream] at h
    exact h.elim hreported fun hq => .inl ⟨_,hq.2.2⟩

theorem shown_of_following (h : s.Following replayBytes) : (∃ offset, s.Shown replayBytes offset) ∨ s.Concluded replayBytes := by
  have hmain := h.2
  cases hpc : s.main with
  | idle => rw [hpc] at hmain; exact hmain.elim
  | draining final pc => rw [hpc] at hmain; exact .inl ⟨_,hmain.1⟩
  | banner => rw [hpc] at hmain; exact .inl ⟨_,hmain.2⟩
  | ended how =>
    rw [hpc] at hmain
    cases how with
    | sessionEnded => exact .inr hmain
    | stdinClosed => exact .inl hmain
    | failed => exact .inl hmain
  | top | waking | fallingBack | opening | checking => rw [hpc] at hmain; exact .inl ⟨_,hmain⟩

theorem showsSession (h : s.Inv replayBytes) : ShowsSession replayBytes s where
  contiguous := by
    intro hmain
    cases huse : s.useStream with
    | true => exact shown_of_streaming (h.stream hmain huse).1
    | false => exact shown_of_following (h.file hmain huse)
  complete := by
    intro hpc
    have hmain : s.main ≠ .idle := by simp [hpc]
    cases huse : s.useStream with
    | true =>
      have hbeside := (h.stream hmain huse).2
      rw [Attached.Beside, hpc] at hbeside
      exact hbeside.2
    | false =>
      have hended := (h.file hmain huse).2
      rw [hpc] at hended
      exact hended

end MainSteps
end Attached.Inv

/-- In every run in which the manifest is never found to say that the Host is gone but when
the live loop follows the closed journal, the terminal shows the Host's output without a
gap and without a repetition but for resets, and to its end before the one banner. -/
theorem attach_shows_whole_session (retainBytes advanceBytes blockSize replayBytes : ℕ) (events : List AttachEvent)
    (h : Guarded (Attached.step retainBytes advanceBytes blockSize replayBytes) FollowsClosedJournal startAttached events) :
    Always (Attached.step retainBytes advanceBytes blockSize replayBytes) (ShowsSession replayBytes) startAttached events :=
  always_of_guarded (fun _ _ _ hs hok ht => hs.step hok ht) (fun _ hs => hs.showsSession) Attached.Inv.start h

def hostStarts : List AttachEvent :=
  [.journal .replace,.journal (.hostStep .done),.journal (.hostStep .done),.journal (.hostStep .done)]

def fallenBack : List AttachEvent :=
  hostStarts ++ [.attach 0 true false,.publish [65,66],.frame [65] 1 false,.stream,.streamCloses,.stream,.flush 2,.hostExits,
    .hostCloses,.manifestExits,.main,.main,.openFile true,.openFile true,.main,.main,.main,.readFile 1,.main,.main,.main,.main,
    .main,.checkManifest true true false false,.main,.main,.main,.main]

theorem fallenBack_shows_all :
    (run (Attached.step 100 100 1 50) startAttached fallenBack).map Attached.stdout = some [.live [65],.live [66],.banner] ∧
    Always (Attached.step 100 100 1 50) (ShowsSession 50) startAttached fallenBack :=
  ⟨by decide +kernel,attach_shows_whole_session 100 100 1 50 _ (by decide +kernel)⟩

def overtaken : List AttachEvent :=
  hostStarts ++ [.attach 0 true false,.publish [65],.flush 1,.hostExits,.hostCloses,.manifestExits,.main,.main,.openFile false,
    .checkManifest true true false false,.main]

/-- Only the banner is shown. -/
theorem overtaken_shows_nothing :
    ¬∀ events : List AttachEvent, Always (Attached.step 100 100 1 50) (ShowsSession 50) startAttached events := by
  intro h
  have hrun : (run (Attached.step 100 100 1 50) startAttached overtaken).map
      (fun s => (s.main,s.stdout,s.host.published,s.attachedAt)) = some (.ended .sessionEnded,[.banner],[some 65],0) := by
    decide +kernel
  obtain ⟨s,hs,he⟩ := Option.map_eq_some_iff.mp hrun
  simp only [Prod.mk.injEq] at he
  obtain ⟨hmain,hstdout,hpublished,hat⟩ := he
  obtain ⟨-,shown,hout,hshows⟩ := ((h overtaken).last hs).complete hmain
  have hnil : shown = [] := List.append_cancel_right (hout.symm.trans hstdout)
  rw [hnil] at hshows
  have hshort := hshows.nil
  rw [hpublished, hat] at hshort
  exact absurd hshort (by decide)

end Unpeel.Attach
