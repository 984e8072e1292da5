import Mathlib.Data.List.Infix
import Unpeel.Session.QueryScanner

/-! # What the query scanner leaves of the output

The output of the child falls into the bytes that pass through and the queries that are cut
out. However it is cut into chunks the scanner finds the same pieces, and put back in their
places the queries give the output again.
-/
namespace Unpeel.Session
open List

namespace OutputQueryScanner

section Forms
variable {body : List UInt8} {query : HostAnsweredQuery}

inductive OscTerminator : List UInt8 → Prop
  | bel : OscTerminator [0x07]
  | st : OscTerminator [esc,0x5c]

def csiOf (params : List UInt8) : List UInt8 := esc :: 0x5b :: params

def oscOf (body : List UInt8) : List UInt8 := esc :: 0x5d :: body

/-- The sequences the Host answers, and the query each of them is. Without `interceptProbes` an
attached terminal answers all but the first three. -/
inductive HostAnsweredForm (interceptProbes : Bool) : List UInt8 → HostAnsweredQuery → Prop
  | decid : HostAnsweredForm interceptProbes [esc,0x5a] .da1
  | da1 {params : List UInt8} (h : params.all (fun b => isAsciiDigit b || b == 0x3b) = true) :
      HostAnsweredForm interceptProbes (csiOf (params ++ [0x63])) .da1
  | programStatus {terminator : List UInt8} (h : OscTerminator terminator) :
      HostAnsweredForm interceptProbes (oscOf (ascii ['7','5','0','1',';','?'] ++ terminator)) .programStatus
  | cursorPosition (h : interceptProbes = true) : HostAnsweredForm interceptProbes (csiOf (ascii ['6','n'])) .cursorPosition
  | kittyFlags (h : interceptProbes = true) : HostAnsweredForm interceptProbes (csiOf (ascii ['?','u'])) .kittyFlags
  | foreground {terminator : List UInt8} (h : OscTerminator terminator) (hp : interceptProbes = true) :
      HostAnsweredForm interceptProbes (oscOf (ascii ['1','0',';','?'] ++ terminator)) (.oscColor 10)
  | background {terminator : List UInt8} (h : OscTerminator terminator) (hp : interceptProbes = true) :
      HostAnsweredForm interceptProbes (oscOf (ascii ['1','1',';','?'] ++ terminator)) (.oscColor 11)
  | palette {terminator indexBytes : List UInt8} {index : ℕ} (h : OscTerminator terminator) (hp : interceptProbes = true)
      (hparse : parseU16 indexBytes = some index) (hlen : indexBytes.length ≤ 3) (hlt : index < 256) :
      HostAnsweredForm interceptProbes
        (oscOf (ascii ['4',';'] ++ indexBytes ++ ascii [';','?'] ++ terminator)) (.oscPalette index)

theorem stripSuffix_eq_some {suffix rest : List UInt8} (h : stripSuffix suffix body = some rest) :
    body = rest ++ suffix := by
  unfold stripSuffix at h
  split_ifs at h with hsuffix
  obtain ⟨front,rfl⟩ := hsuffix
  cases h
  simp

theorem stripPrefix_eq_some {start rest : List UInt8} (h : stripPrefix start body = some rest) :
    body = start ++ rest := by
  unfold stripPrefix at h
  split_ifs at h with hstart
  obtain ⟨back,rfl⟩ := hstart
  cases h
  simp

theorem oscBody_eq_some {inner : List UInt8} (h : oscBody (oscOf body) = some inner) :
    ∃ terminator, OscTerminator terminator ∧ body = inner ++ terminator := by
  rcases Option.or_eq_some_iff.mp h with h | ⟨-,h⟩
  · exact ⟨_,.bel,stripSuffix_eq_some h⟩
  · exact ⟨_,.st,stripSuffix_eq_some h⟩

theorem csiQuery_form {params : List UInt8} {byte : UInt8} {probes : Bool}
    (h : csiQuery (csiOf (params ++ [byte])) probes = some query) :
    HostAnsweredForm probes (csiOf (params ++ [byte])) query := by
  have hdrop : (csiOf (params ++ [byte])).drop 2 = params ++ [byte] := rfl
  unfold csiQuery at h
  split_ifs at h with hda hprobes
  · cases h
    unfold isDa1Query at hda
    rw [hdrop, getLast?_concat, dropLast_concat, Bool.and_eq_true, beq_iff_eq] at hda
    obtain ⟨rfl,hparams⟩ := hda
    exact .da1 hparams
  · unfold probeQuery at h
    rw [hdrop] at h
    split_ifs at h with hcpr hkitty <;> cases h
    · rw [hcpr]
      exact .cursorPosition hprobes
    · rw [hkitty]
      exact .kittyFlags hprobes

theorem oscColorQuery_form (h : oscColorQuery (oscOf body) = some query) :
    HostAnsweredForm true (oscOf body) query := by
  unfold oscColorQuery at h
  rw [Option.bind_eq_bind, Option.bind_eq_some_iff] at h
  obtain ⟨inner,hinner,h⟩ := h
  obtain ⟨terminator,hterminator,rfl⟩ := oscBody_eq_some hinner
  split_ifs at h with hten heleven
  · cases h
    rw [hten]
    exact .foreground hterminator rfl
  · cases h
    rw [heleven]
    exact .background hterminator rfl
  · simp only [Option.bind_eq_bind, Option.bind_eq_some_iff] at h
    obtain ⟨rest,hrest,indexBytes,hindex,h⟩ := h
    have hrest := stripPrefix_eq_some hrest
    have hindex := stripSuffix_eq_some hindex
    split_ifs at h with hlen
    · simp at h
    · simp only [Option.bind_eq_some_iff] at h
      obtain ⟨index,hparse,h⟩ := h
      split_ifs at h with hlt
      cases h
      rw [hrest, hindex, ← append_assoc]
      exact .palette hterminator rfl hparse (by omega) hlt

theorem oscQuery_form {probes : Bool}
    (h : oscQuery (oscOf body) probes = some query) : HostAnsweredForm probes (oscOf body) query := by
  unfold oscQuery at h
  rw [Option.bind_eq_bind, Option.bind_eq_some_iff] at h
  obtain ⟨inner,hinner,h⟩ := h
  obtain ⟨terminator,hterminator,hbody⟩ := oscBody_eq_some hinner
  split_ifs at h with hstatus hprobes
  · cases h
    rw [hbody, hstatus]
    exact .programStatus hterminator
  · rw [hprobes]
    exact oscColorQuery_form h

end Forms

inductive Piece where
  | passed (bytes : List UInt8)
  | excised (sequence : List UInt8) (query : HostAnsweredQuery)
deriving DecidableEq

namespace Piece

def bytes : Piece → List UInt8
  | .passed bytes => bytes
  | .excised sequence _ => sequence

def out : Piece → List UInt8
  | .passed bytes => bytes
  | .excised _ _ => []

def queries : Piece → List HostAnsweredQuery
  | .passed _ => []
  | .excised _ query => [query]

end Piece

structure Recovers (probes : Bool) (held input : List UInt8) (result : Scanned) (pieces : List Piece) : Prop where
  bytes : held ++ input = pieces.flatMap Piece.bytes ++ result.scanner.seq
  out : result.out = pieces.flatMap Piece.out
  queries : result.queries = pieces.flatMap Piece.queries
  forms : ∀ sequence query, .excised sequence query ∈ pieces → HostAnsweredForm probes sequence query

def Shaped (s : OutputQueryScanner) : Prop :=
  match s.state with
  | .ground => s.seq = []
  | .escape => s.seq = [esc]
  | .csi => ∃ params, s.seq = csiOf params
  | .osc => ∃ body, s.seq = oscOf body
  | .oscEscape => ∃ body, s.seq = oscOf (body ++ [esc])

section Steps
variable {probes : Bool} {held input seq : List UInt8} {byte : UInt8}

theorem recovers_passed {result : Scanned} (h : held ++ input = result.out ++ result.scanner.seq) (hq : result.queries = []) :
    Recovers probes held input result [.passed result.out] where
  bytes := by simpa [Piece.bytes] using h
  out := by simp [Piece.out]
  queries := by simp [Piece.queries, hq]
  forms := by simp

theorem hold_recovers (state : QueryScanState) (hseq : held ++ input = seq) :
    Recovers probes held input (hold state seq) [.passed (hold state seq).out] := by
  unfold hold
  split_ifs
  · exact recovers_passed (by simp [flush, new, hseq]) rfl
  · exact recovers_passed (by simp [hseq]) rfl

theorem flush_recovers {out : List UInt8} (hseq : held ++ input = out ++ seq) :
    Recovers probes held input (flush seq out) [.passed (out ++ seq)] :=
  recovers_passed (by simpa [flush, new] using hseq) rfl

theorem settle_recovers {query : Option HostAnsweredQuery} (hseq : held ++ input = seq)
    (hform : ∀ q, query = some q → HostAnsweredForm probes seq q) :
    ∃ pieces, Recovers probes held input (settle query seq) pieces := by
  cases query with
  | none => exact ⟨_,flush_recovers (by simpa using hseq)⟩
  | some q =>
    refine ⟨[.excised seq q],?_,rfl,rfl,?_⟩
    · simpa [settle, new, Piece.bytes] using hseq
    · intro sequence query hmem
      cases mem_singleton.mp hmem
      exact hform q rfl

theorem scanEscape_recovers {out : List UInt8} (hseq : held ++ input = out ++ [esc,byte]) :
    ∃ pieces, Recovers probes held input (scanEscape [esc] out byte) pieces := by
  unfold scanEscape
  split_ifs with hdecid hcsi hosc hesc
  · refine ⟨[.passed out,.excised [esc,0x5a] .da1],?_,by simp [Piece.out],by simp [Piece.queries],?_⟩
    · simpa [new, Piece.bytes, hdecid] using hseq
    · intro sequence query hmem
      have heq : Piece.excised sequence query = .excised [esc,0x5a] .da1 := by simpa using hmem
      cases heq
      exact .decid
  · exact ⟨_,recovers_passed (by simpa using hseq) rfl⟩
  · exact ⟨_,recovers_passed (by simpa using hseq) rfl⟩
  · exact ⟨_,recovers_passed (by simpa [hesc] using hseq) rfl⟩
  · exact ⟨_,flush_recovers (by simpa using hseq)⟩

theorem hold_shaped {state : QueryScanState} (h : Shaped ⟨state,seq⟩) : Shaped (hold state seq).scanner := by
  unfold hold
  split_ifs
  · exact rfl
  · exact h

theorem settle_shaped (query : Option HostAnsweredQuery) (seq : List UInt8) : Shaped (settle query seq).scanner := by
  cases query <;> exact rfl

theorem scanEscape_shaped (out : List UInt8) (byte : UInt8) : Shaped (scanEscape [esc] out byte).scanner := by
  unfold scanEscape
  split_ifs with hdecid hcsi hosc hesc
  · exact rfl
  · exact ⟨[],by rw [hcsi]; rfl⟩
  · exact ⟨[],by rw [hosc]; rfl⟩
  · exact rfl
  · exact rfl

/-- One byte keeps the shape and loses nothing. -/
theorem scanByte_recovers {s : OutputQueryScanner} (hs : Shaped s) (probes : Bool) (byte : UInt8) :
    Shaped (s.scanByte probes byte).scanner ∧ ∃ pieces, Recovers probes s.seq [byte] (s.scanByte probes byte) pieces := by
  rcases s with ⟨state,seq⟩
  cases state with
  | ground =>
    obtain rfl : seq = [] := hs
    simp only [scanByte]
    split_ifs with hesc
    · exact ⟨congrArg (fun b => [b]) hesc,_,recovers_passed rfl rfl⟩
    · exact ⟨rfl,_,recovers_passed (by simp) rfl⟩
  | escape =>
    obtain rfl : seq = [esc] := hs
    exact ⟨scanEscape_shaped [] byte,scanEscape_recovers rfl⟩
  | csi =>
    obtain ⟨params,rfl⟩ : ∃ params, seq = csiOf params := hs
    have hmore : csiOf params ++ [byte] = csiOf (params ++ [byte]) := rfl
    simp only [scanByte]
    split_ifs with hparam hfinal hesc
    · exact ⟨hold_shaped ⟨_,hmore⟩,_,hold_recovers _ rfl⟩
    · exact ⟨settle_shaped _ _,settle_recovers rfl fun q hq => csiQuery_form hq⟩
    · exact ⟨rfl,_,recovers_passed (by rw [hesc]) rfl⟩
    · exact ⟨rfl,_,flush_recovers (by simp)⟩
  | osc =>
    obtain ⟨body,rfl⟩ : ∃ body, seq = oscOf body := hs
    have hmore : oscOf body ++ [byte] = oscOf (body ++ [byte]) := rfl
    simp only [scanByte]
    split_ifs with hbel hesc
    · exact ⟨settle_shaped _ _,settle_recovers rfl fun q hq => oscQuery_form hq⟩
    · exact ⟨⟨body,by rw [hesc]; rfl⟩,_,recovers_passed rfl rfl⟩
    · exact ⟨hold_shaped ⟨_,hmore⟩,_,hold_recovers _ rfl⟩
  | oscEscape =>
    obtain ⟨body,rfl⟩ : ∃ body, seq = oscOf (body ++ [esc]) := hs
    have hmore : oscOf (body ++ [esc]) = oscOf body ++ [esc] := rfl
    simp only [scanByte]
    split_ifs with hst
    · exact ⟨settle_shaped _ _,settle_recovers rfl fun q hq => oscQuery_form hq⟩
    · refine ⟨scanEscape_shaped _ byte,scanEscape_recovers ?_⟩
      rw [hmore, dropLast_concat, append_assoc]
      rfl

end Steps

/-- A whole chunk loses nothing either. -/
theorem scan_recovers {s : OutputQueryScanner} (hs : Shaped s) (probes : Bool) (input : List UInt8) :
    Shaped (s.scan input probes).scanner ∧ ∃ pieces, Recovers probes s.seq input (s.scan input probes) pieces := by
  induction input generalizing s with
  | nil => exact ⟨hs,[],by simp [scan],rfl,rfl,fun _ _ hno => nomatch hno⟩
  | cons byte rest ih =>
    obtain ⟨hhead,first,hfirst⟩ := scanByte_recovers hs probes byte
    obtain ⟨htail,more,hmore⟩ := ih hhead
    refine ⟨htail,first ++ more,?_,?_,?_,?_⟩
    · calc s.seq ++ byte :: rest = (s.seq ++ [byte]) ++ rest := by simp
        _ = first.flatMap Piece.bytes ++ ((s.scanByte probes byte).scanner.seq ++ rest) := by rw [hfirst.bytes, append_assoc]
        _ = (first ++ more).flatMap Piece.bytes ++ (s.scan (byte :: rest) probes).scanner.seq := by
          rw [hmore.bytes, flatMap_append, append_assoc]
          rfl
    · rw [flatMap_append, ← hfirst.out, ← hmore.out]
      rfl
    · rw [flatMap_append, ← hfirst.queries, ← hmore.queries]
      rfl
    · intro sequence query hmem
      rcases mem_append.mp hmem with hmem | hmem
      · exact hfirst.forms sequence query hmem
      · exact hmore.forms sequence query hmem

section Chunks

def scanChunks (s : OutputQueryScanner) (chunks : List (List UInt8)) (interceptProbes : Bool) : Scanned :=
  match chunks with
  | [] => ⟨s,[],[]⟩
  | chunk :: rest =>
    let head := s.scan chunk interceptProbes
    let tail := head.scanner.scanChunks rest interceptProbes
    ⟨tail.scanner,head.out ++ tail.out,head.queries ++ tail.queries⟩

theorem scan_append (s : OutputQueryScanner) (probes : Bool) (a b : List UInt8) :
    s.scan (a ++ b) probes = ⟨((s.scan a probes).scanner.scan b probes).scanner,
      (s.scan a probes).out ++ ((s.scan a probes).scanner.scan b probes).out,
      (s.scan a probes).queries ++ ((s.scan a probes).scanner.scan b probes).queries⟩ := by
  induction a generalizing s with
  | nil => simp [scan]
  | cons byte rest ih => simp [scan, ih]

theorem scanChunks_eq_scan (s : OutputQueryScanner) (chunks : List (List UInt8)) (probes : Bool) :
    s.scanChunks chunks probes = s.scan chunks.flatten probes := by
  induction chunks generalizing s with
  | nil => rfl
  | cons chunk rest ih => rw [scanChunks, ih, flatten_cons, scan_append]

end Chunks

/-- The scanner finds the same queries however the output is cut, and nothing but these is lost. -/
theorem query_scanner_is_lossless (probes : Bool) (chunks : List (List UInt8)) :
    ((new.scanChunks chunks probes).out ++ (new.scanChunks chunks probes).scanner.takePending =
        (new.scan chunks.flatten probes).out ++ (new.scan chunks.flatten probes).scanner.takePending ∧
      (new.scanChunks chunks probes).queries = (new.scan chunks.flatten probes).queries) ∧
    (∃ pieces : List Piece, pieces.flatMap Piece.bytes = chunks.flatten ∧
      pieces.flatMap Piece.out =
        (new.scanChunks chunks probes).out ++ (new.scanChunks chunks probes).scanner.takePending ∧
      pieces.flatMap Piece.queries = (new.scanChunks chunks probes).queries ∧
      ∀ sequence query, .excised sequence query ∈ pieces → HostAnsweredForm probes sequence query) ∧
    ∀ scanned rest, chunks.flatten = scanned ++ rest →
      (new.scan scanned probes).scanner.takePending.length ≤ queryScanMaxSequenceBytes + 2 := by
  rw [scanChunks_eq_scan]
  refine ⟨⟨rfl,rfl⟩,?_,fun scanned rest _ => ?_⟩
  · obtain ⟨-,pieces,hpieces⟩ := scan_recovers (s := new) rfl probes chunks.flatten
    refine ⟨pieces ++ [.passed (new.scan chunks.flatten probes).scanner.takePending],?_,?_,?_,?_⟩
    · simpa [Piece.bytes, takePending, new] using hpieces.bytes.symm
    · simp [Piece.out, hpieces.out]
    · simp [Piece.queries, hpieces.queries]
    · intro sequence query hmem
      exact hpieces.forms sequence query (by simpa using hmem)
  · have hheld := (scan_wellFormed new_wellFormed scanned probes).seq_length
    exact hheld.trans (Nat.le_succ _)

end OutputQueryScanner
end Unpeel.Session
