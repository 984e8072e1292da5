import Unpeel.Session.StreamHandoff

/-! # A handoff and the output stream

The query scanner holds back an unfinished escape sequence: bytes that have left
the PTY and are not published yet. A handoff does not list them, so the stream
of the two cores is the stream of one core exactly when nothing was held.
-/
namespace Unpeel.Session
open Runs List

def Scanned.kept (r : Scanned) : ℕ := r.out.length + r.scanner.seq.length

namespace OutputQueryScanner
variable {s t : OutputQueryScanner}

structure PtyRead where
  bytes : List UInt8
  interceptProbes : Bool
  deriving DecidableEq, Repr

def scanReads (s : OutputQueryScanner) : List PtyRead → Scanned
  | [] => ⟨s,[],[]⟩
  | read :: reads =>
    let head := s.scan read.bytes read.interceptProbes
    let tail := head.scanner.scanReads reads
    ⟨tail.scanner,head.out ++ tail.out,head.queries ++ tail.queries⟩

theorem scanReads_wellFormed (hs : s.WellFormed) (reads : List PtyRead) : (s.scanReads reads).scanner.WellFormed := by
  induction reads generalizing s with
  | nil => exact hs
  | cons read reads ih => exact ih (scan_wellFormed hs read.bytes read.interceptProbes)

theorem scanReads_append (s : OutputQueryScanner) (xs ys : List PtyRead) :
    s.scanReads (xs ++ ys) =
      ⟨((s.scanReads xs).scanner.scanReads ys).scanner,
        (s.scanReads xs).out ++ ((s.scanReads xs).scanner.scanReads ys).out,
        (s.scanReads xs).queries ++ ((s.scanReads xs).scanner.scanReads ys).queries⟩ := by
  induction xs generalizing s with
  | nil => rfl
  | cons x xs ih => simp [scanReads, ih]

/-- How a scanner that holds a sequence and one that does not stand to each other
on the same bytes: still apart, both inside the same ESC, or together again. -/
inductive Trails : OutputQueryScanner → OutputQueryScanner → Prop where
  | holding {s : OutputQueryScanner} (hs : s.seq ≠ []) : Trails s new
  | terminator {seq : List UInt8} : Trails ⟨.oscEscape,seq⟩ ⟨.escape,[esc]⟩
  | together (s : OutputQueryScanner) : Trails s s

/-- The two scanners go on with the same queries and the same lead in bytes, or
the held sequence has become a query that only one of them saw. -/
def Diverges (s t : OutputQueryScanner) (a b : Scanned) : Prop :=
  (a.queries = b.queries ∧ a.kept + t.seq.length = b.kept + s.seq.length ∧
    Trails a.scanner b.scanner) ∨
  (a.queries.length = b.queries.length + 1 ∧ a.scanner = b.scanner)

theorem settle_diverges (query : Option HostAnsweredQuery) (byte : UInt8) :
    Diverges s new (settle query (s.seq ++ [byte])) ⟨new,[byte],[]⟩ := by
  cases query with
  | some q => exact .inr ⟨rfl,rfl⟩
  | none =>
    refine .inl ⟨rfl,?_,.together _⟩
    simp [settle, flush, new, Scanned.kept]
    omega

theorem hold_diverges (state : QueryScanState) (byte : UInt8) :
    Diverges s new (hold state (s.seq ++ [byte])) ⟨new,[byte],[]⟩ := by
  unfold hold
  split
  · exact .inl ⟨rfl,by simp [flush, new, Scanned.kept]; omega,.together _⟩
  · exact .inl ⟨rfl,by simp [new, Scanned.kept]; omega,.holding (by simp)⟩

theorem scanByte_new (probes : Bool) (byte : UInt8) :
    new.scanByte probes byte = if byte = esc then ⟨⟨.escape,[esc]⟩,[],[]⟩ else ⟨new,[byte],[]⟩ := by
  simp only [scanByte, new, nil_append]
  split
  · next h => rw [h]
  · rfl

/-- A scanner inside an ESC against one on the ground, `pre` being held before it. -/
theorem scanEscape_diverges {pre : List UInt8} (hs : s.seq = pre ++ [esc]) (probes : Bool) (byte : UInt8) :
    Diverges s new (scanEscape [esc] pre byte) (new.scanByte probes byte) := by
  rw [scanByte_new]
  by_cases hesc : byte = esc
  · subst hesc
    refine .inl ⟨rfl,?_,.together _⟩
    simp [scanEscape, esc, new, Scanned.kept, hs]
    omega
  unfold scanEscape
  split_ifs
  · exact .inr ⟨rfl,rfl⟩
  · exact .inl ⟨rfl,by simp [new, Scanned.kept, hs]; omega,.holding (by simp)⟩
  · exact .inl ⟨rfl,by simp [new, Scanned.kept, hs]; omega,.holding (by simp)⟩
  · exact .inl ⟨rfl,by simp [flush, new, Scanned.kept, hs]; omega,.together _⟩

theorem scanEscape_out (seq out : List UInt8) (byte : UInt8) :
    (scanEscape seq out byte).scanner = (scanEscape seq [] byte).scanner ∧
    (scanEscape seq out byte).queries = (scanEscape seq [] byte).queries ∧
    (scanEscape seq out byte).out = out ++ (scanEscape seq [] byte).out := by
  unfold scanEscape
  split_ifs <;> simp [flush]

theorem scanByte_diverges (hs : s.WellFormed) (h : Trails s t) (probes : Bool) (byte : UInt8) :
    Diverges s t (s.scanByte probes byte) (t.scanByte probes byte) := by
  cases h with
  | together => exact .inl ⟨rfl,rfl,.together _⟩
  | @terminator seq =>
    obtain ⟨held,he,_⟩ := hs
    subst he
    simp only [scanByte, dropLast_concat]
    split_ifs with hst
    · subst hst
      have ht : scanEscape [esc] [] 0x5c = ⟨new,[esc,0x5c],[]⟩ := by decide
      rw [ht]
      cases oscQuery (held ++ [esc] ++ [0x5c]) probes with
      | some q => exact .inr ⟨rfl,rfl⟩
      | none => exact .inl ⟨rfl,by simp [settle, flush, new, Scanned.kept]; omega,.together _⟩
    · obtain ⟨h1,h2,h3⟩ := scanEscape_out [esc] held byte
      refine .inl ⟨h2,?_,h1 ▸ .together _⟩
      simp [Scanned.kept, h1, h3]
      omega
  | holding hne =>
    rw [scanByte_new]
    rcases s with ⟨state,seq⟩
    cases state with
    | ground => exact absurd hs hne
    | escape =>
      cases (show seq = [esc] from hs)
      rw [← scanByte_new probes]
      exact scanEscape_diverges rfl probes byte
    | csi =>
      simp only [scanByte]
      by_cases hesc : byte = esc
      · subst hesc
        exact .inl ⟨rfl,by simp [new, Scanned.kept, esc, Nat.add_comm],.together _⟩
      · rw [if_neg hesc]
        split_ifs
        · exact hold_diverges .csi byte
        · exact settle_diverges _ byte
        · exact settle_diverges none byte
    | osc =>
      simp only [scanByte]
      by_cases hesc : byte = esc
      · subst hesc
        exact .inl ⟨rfl,by simp [new, Scanned.kept, esc, Nat.add_comm],.terminator⟩
      · rw [if_neg hesc]
        split_ifs
        · exact settle_diverges _ byte
        · exact hold_diverges .osc byte
    | oscEscape =>
      obtain ⟨held,he,_⟩ := hs
      subst he
      simp only [scanByte, dropLast_concat]
      by_cases hst : byte = 0x5c
      · subst hst
        exact settle_diverges _ 0x5c
      · rw [if_neg hst, ← scanByte_new probes]
        exact scanEscape_diverges rfl probes byte

theorem Diverges.trans {a b c d : Scanned} (h : Diverges s t a b)
    (g : Trails a.scanner b.scanner → Diverges a.scanner b.scanner c d) (heq : a.scanner = b.scanner → c = d) :
    Diverges s t ⟨c.scanner,a.out ++ c.out,a.queries ++ c.queries⟩
      ⟨d.scanner,b.out ++ d.out,b.queries ++ d.queries⟩ := by
  rcases h with ⟨hq,hk,ht⟩ | ⟨hq,he⟩
  · rcases g ht with ⟨hq',hk',ht'⟩ | ⟨hq',he'⟩
    · refine .inl ⟨by rw [hq, hq'],?_,ht'⟩
      simp only [Scanned.kept, length_append] at hk hk' ⊢
      omega
    · refine .inr ⟨?_,he'⟩
      simp only [length_append, hq, hq']
      omega
  · cases heq he
    refine .inr ⟨?_,rfl⟩
    simp only [length_append, hq]
    omega

theorem scan_diverges (hs : s.WellFormed) (h : Trails s t)
    (bytes : List UInt8) (probes : Bool) : Diverges s t (s.scan bytes probes) (t.scan bytes probes) := by
  induction bytes generalizing s t with
  | nil => exact .inl ⟨rfl,by simp [scan, Scanned.kept, Nat.add_comm],h⟩
  | cons byte bytes ih =>
    exact (scanByte_diverges hs h probes byte).trans
      (fun ht => ih (scanByte_wellFormed hs probes byte) ht) (fun he => by rw [he])

theorem scanReads_diverges (hs : s.WellFormed) (h : Trails s t)
    (reads : List PtyRead) : Diverges s t (s.scanReads reads) (t.scanReads reads) := by
  induction reads generalizing s t with
  | nil => exact .inl ⟨rfl,by simp [scanReads, Scanned.kept, Nat.add_comm],h⟩
  | cons read reads ih =>
    exact (scan_diverges hs h read.bytes read.interceptProbes).trans
      (fun ht => ih (scan_wellFormed hs _ _) ht) (fun he => by rw [he])

/-- What a Session publishes of a sequence of reads, up to its `finish`. -/
def publishes (s : OutputQueryScanner) (reads : List PtyRead) : List UInt8 :=
  (s.scanReads reads).out ++ (s.scanReads reads).scanner.takePending

/-- A scanner that starts afresh does what the old one would have done exactly
when the old one held nothing. -/
theorem fresh_scanner_iff (hs : s.WellFormed) (reads : List PtyRead) :
    (new.publishes reads = s.publishes reads ∧ (new.scanReads reads).queries = (s.scanReads reads).queries) ↔
      s.seq = [] := by
  constructor
  · rintro ⟨hp,hq⟩
    by_contra hne
    rcases scanReads_diverges hs (.holding hne) reads with ⟨_,hk,_⟩ | ⟨hl,_⟩
    · have hlen := congrArg List.length hp
      simp only [publishes, takePending, length_append] at hlen
      have := length_pos_iff.mpr hne
      simp only [Scanned.kept, new, length_nil] at hk hlen
      omega
    · rw [hq] at hl
      omega
  · intro he
    have : s = new := by
      rcases s with ⟨state,seq⟩
      have hg := (hs.ground_iff).mpr he
      dsimp only at he hg
      rw [he, hg]
      rfl
    rw [this]
    exact ⟨rfl,rfl⟩

end OutputQueryScanner

section Runs
open OutputQueryScanner SessionIo
variable {s t : SessionIo}

def SessionEvent.SameCore : SessionEvent → Prop
  | .commitHandoff _ _ => False
  | _ => True

def SessionEvent.ptyReads (s : SessionIo) : SessionEvent → List PtyRead
  | .ptyReadable _ _ _ bytes _ => [⟨bytes,s.interceptProbes⟩]
  | _ => []

def SessionEvent.answers (s : SessionIo) : SessionEvent → List HostAnsweredQuery
  | .ptyReadable _ _ _ bytes _ => (s.queryScanner.scan bytes s.interceptProbes).queries
  | _ => []

def ptyTrace (s : SessionIo) : List SessionEvent → List PtyRead
  | [] => []
  | a :: as => (sessionStep s a).elim [] (fun t => a.ptyReads s ++ ptyTrace t as)

def answeredQueries (s : SessionIo) : List SessionEvent → List HostAnsweredQuery
  | [] => []
  | a :: as => (sessionStep s a).elim [] (fun t => a.answers s ++ answeredQueries t as)

theorem processPtyBytes_text {now : ℕ} {cursor : ℕ × ℕ} {replies : List WriteResult}
    {bytes : List UInt8} (h : s.processPtyBytes now cursor replies bytes = some t) :
    t.journal = s.journal ++ (s.queryScanner.scan bytes s.interceptProbes).out ∧
    t.queryScanner = (s.queryScanner.scan bytes s.interceptProbes).scanner ∧
    t.broadcaster.nextOffset = s.broadcaster.nextOffset + (s.queryScanner.scan bytes s.interceptProbes).out.length := by
  unfold processPtyBytes at h
  simp only [Option.bind_eq_bind, Option.bind_eq_some_iff, Option.pure_def, Option.some.injEq] at h
  obtain ⟨reply,_,rfl⟩ := h
  split
  · next he => exact ⟨by rw [he, append_nil],rfl,by rw [he]; rfl⟩
  · exact ⟨rfl,rfl,OutputBroadcaster.broadcastChunk_nextOffset _ _ _⟩

/-- One event on one core: the scanner reads on, and what it lets through is
appended to the stream. -/
theorem sessionStep_text {a : SessionEvent} (ha : a.SameCore) (h : sessionStep s a = some t) :
    t.journal = s.journal ++ (s.queryScanner.scanReads (a.ptyReads s)).out ∧
    t.queryScanner = (s.queryScanner.scanReads (a.ptyReads s)).scanner ∧
    a.answers s = (s.queryScanner.scanReads (a.ptyReads s)).queries ∧
    t.broadcaster.nextOffset =
      s.broadcaster.nextOffset + (s.queryScanner.scanReads (a.ptyReads s)).out.length := by
  have same : SameText s t → t.journal = s.journal ++ (s.queryScanner.scanReads []).out ∧
      t.queryScanner = (s.queryScanner.scanReads []).scanner ∧
      ([] : List HostAnsweredQuery) = (s.queryScanner.scanReads []).queries ∧
      t.broadcaster.nextOffset =
        s.broadcaster.nextOffset + (s.queryScanner.scanReads []).out.length :=
    fun h => ⟨by simp [scanReads, h.journal],h.queryScanner,rfl,h.nextOffset⟩
  cases a with
  | ptyReadable now cursor replies bytes backlog =>
    simp only [sessionStep] at h
    split at h
    · cases h
    · obtain ⟨u,hu,rfl⟩ := Option.map_eq_some_iff.mp h
      have hb := (onlyInput_applyJournalBackpressure u backlog).io.text
      obtain ⟨hj,hq,ho⟩ := processPtyBytes_text hu
      simp only [SessionEvent.ptyReads, SessionEvent.answers, scanReads, append_nil]
      exact ⟨hb.journal.trans hj,hb.queryScanner.trans hq,trivial,hb.nextOffset.trans ho⟩
  | accept now fd => exact same (Option.some.inj h ▸ (onlyClients_acceptClient s now fd).io.text)
  | clientReadable now token reads later command socket writes =>
    exact same (Option.some.inj h ▸ (onlyClientIo_clientReadable _ _ _ _ _ _ _ _).text)
  | clientWritable now token socket =>
    exact same (Option.some.inj h ▸ (onlyClients_clientWritable _ _ _ _).io.text)
  | flush now sockets => exact same (Option.some.inj h ▸ (onlyClients_flushStreamClients _ _ _).io.text)
  | ptyWritable results => exact same (Option.some.inj h ▸ (onlyInput_drainPendingInput s results).io.text)
  | write writeId data results =>
    obtain ⟨⟨u,r⟩,hw,rfl⟩ := Option.map_eq_some_iff.mp h
    exact same (sameOutput_dispatchWrite hw).text
  | journalDrained => exact same (Option.some.inj h ▸ (onlyInput_journalDrained s).io.text)
  | idleTick now => exact same (Option.some.inj h ▸ (onlyClients_idleTick _ _).io.text)
  | abandonHandoff now sockets => exact same (Option.some.inj h ▸ (onlyClientIo_abandonHandoff _ _ _).text)
  | commitHandoff now sockets => exact absurd ha id

theorem run_text {as : List SessionEvent} (ha : ∀ a ∈ as, a.SameCore) (h : run sessionStep s as = some t) :
    t.journal = s.journal ++ (s.queryScanner.scanReads (ptyTrace s as)).out ∧
    t.queryScanner = (s.queryScanner.scanReads (ptyTrace s as)).scanner ∧
    answeredQueries s as = (s.queryScanner.scanReads (ptyTrace s as)).queries := by
  induction as generalizing s with
  | nil =>
    cases h
    exact ⟨by simp [ptyTrace, scanReads],rfl,rfl⟩
  | cons a as ih =>
    obtain ⟨u,hu,h⟩ := run_cons.mp h
    obtain ⟨hj,hq,hans,_⟩ := sessionStep_text (ha a (by simp)) hu
    obtain ⟨hj',hq',hans'⟩ := ih (fun b hb => ha b (by simp [hb])) h
    simp only [ptyTrace, answeredQueries, hu, Option.elim_some, scanReads_append, ← hq]
    exact ⟨by rw [hj', hj, append_assoc],hq',by rw [hans, hans']⟩

theorem finish_journal (s : SessionIo) (now : ℕ) (sockets : ℕ → List WriteResult) :
    (s.finish now sockets).journal = s.journal ++ s.queryScanner.takePending := by
  refine (onlyClients_flushStreamClients _ _ _).io.text.journal.trans ?_
  split
  · next h =>
    rw [h, append_nil]
  · rfl

theorem commitHandoff_text {now : ℕ} {sockets : ℕ → List WriteResult}
    (h : s.commitHandoff now sockets = some t) : t.journal = s.journal ∧ t.queryScanner = .new := by
  obtain ⟨_,_,rfl⟩ := commitHandoff_some h
  have hr := (onlyClients_register (rebuildFromHandoff (s.pauseForHandoff now sockets).handoffExport
    (s.pauseForHandoff now sockets).journal) now).io.text
  exact ⟨hr.journal.trans (onlyClientIo_pauseForHandoff s now sockets).text.journal,hr.queryScanner⟩

/-- A Session moved between two cores publishes and answers what it would have
on one core, for the same reads and flags, exactly when the scanner held nothing
at the handoff. -/
theorem output_preserved_iff {pty : PtyMaster} {darkMode : Bool} {base start : ℕ}
    {before after whole : List SessionEvent} {s1 s2 s3 u : SessionIo} {now : ℕ}
    {sockets : ℕ → List WriteResult} (hb : ∀ a ∈ before, a.SameCore) (ha : ∀ a ∈ after, a.SameCore)
    (hw : ∀ a ∈ whole, a.SameCore)
    (h1 : run sessionStep (launched pty darkMode base start) before = some s1)
    (h2 : s1.commitHandoff now sockets = some s2) (h3 : run sessionStep s2 after = some s3)
    (hu : run sessionStep (launched pty darkMode base start) whole = some u)
    (htrace : ptyTrace (launched pty darkMode base start) whole =
      ptyTrace (launched pty darkMode base start) before ++ ptyTrace s2 after)
    (end1 end2 : ℕ) (last1 last2 : ℕ → List WriteResult) :
    ((s3.finish end1 last1).journal = (u.finish end2 last2).journal ∧
      answeredQueries (launched pty darkMode base start) before ++ answeredQueries s2 after =
        answeredQueries (launched pty darkMode base start) whole) ↔
      s1.queryScanner.seq = [] := by
  obtain ⟨hj1,hq1,ha1⟩ := run_text hb h1
  obtain ⟨hj2,hq2⟩ := commitHandoff_text h2
  obtain ⟨hj3,hq3,ha3⟩ := run_text ha h3
  obtain ⟨hju,hqu,hau⟩ := run_text hw hu
  have hwf : s1.queryScanner.WellFormed := by
    rw [hq1]
    exact scanReads_wellFormed new_wellFormed _
  rw [htrace, scanReads_append, ← hq1] at hju hqu hau
  rw [hq2] at hj3 hq3 ha3
  rw [finish_journal, finish_journal, hju, hqu, hj3, hq3, hj2, hj1, ha1, ha3, hau,
    ← fresh_scanner_iff hwf (ptyTrace s2 after)]
  simp only [publishes, append_assoc, append_cancel_left_eq]

def readOnly (bytes : List UInt8) : SessionEvent := .ptyReadable 0 (0,0) [] bytes 0

theorem output_preserved_between_letters :
    ∃ s1 s2 s3 u, run sessionStep (launched ⟨[]⟩ false 0 0) [readOnly [0x61]] = some s1 ∧
      s1.commitHandoff 0 (fun _ => []) = some s2 ∧ run sessionStep s2 [readOnly [0x62]] = some s3 ∧
      run sessionStep (launched ⟨[]⟩ false 0 0) [readOnly [0x61],readOnly [0x62]] = some u ∧
      (s3.finish 0 (fun _ => [])).journal = (u.finish 0 (fun _ => [])).journal := by
  refine ⟨_,_,_,_,rfl,rfl,rfl,rfl,?_⟩
  have h := @output_preserved_iff ⟨[]⟩ false 0 0 [readOnly [0x61]] [readOnly [0x62]]
    [readOnly [0x61],readOnly [0x62]] _ _ _ _ 0 (fun _ => []) (by simp [readOnly, SessionEvent.SameCore])
    (by simp [readOnly, SessionEvent.SameCore]) (by simp [readOnly, SessionEvent.SameCore])
    rfl rfl rfl rfl rfl 0 0 (fun _ => []) (fun _ => [])
  exact (h.mpr rfl).1

/-- The child writes `ESC [ A` and the handoff falls after the bracket: the new
core publishes the letter alone. -/
theorem split_sequence_is_lost :
    ∃ s1 s2 s3 u, run sessionStep (launched ⟨[]⟩ false 0 0) [readOnly [0x1b,0x5b]] = some s1 ∧
      s1.commitHandoff 0 (fun _ => []) = some s2 ∧ run sessionStep s2 [readOnly [0x41]] = some s3 ∧
      run sessionStep (launched ⟨[]⟩ false 0 0) [readOnly [0x1b,0x5b],readOnly [0x41]] = some u ∧
      ptyTrace (launched ⟨[]⟩ false 0 0) [readOnly [0x1b,0x5b],readOnly [0x41]] =
        ptyTrace (launched ⟨[]⟩ false 0 0) [readOnly [0x1b,0x5b]] ++ ptyTrace s2 [readOnly [0x41]] ∧
      (s3.finish 0 (fun _ => [])).journal = [0x41] ∧
      (u.finish 0 (fun _ => [])).journal = [0x1b,0x5b,0x41] :=
  ⟨_,_,_,_,rfl,rfl,rfl,rfl,rfl,rfl,rfl⟩

end Runs
end Unpeel.Session
