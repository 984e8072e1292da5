import Unpeel.Journal.RetentionSafety

/-! # Where a replay starts

The Host and attach each have a scan for the start of a replay. They agree, and the start
is in no sequence; it can be in a character that comes right after an Escape.
-/
namespace Unpeel.Attach
open Journal List
variable {byte : UInt8} {bytes skipped front rest : List UInt8} {start : ℕ}

def alignByte (scan : ReplayScanState × ℕ) (byteAt : UInt8 × ℕ) : ReplayScanState × ℕ :=
  let (state,lastBoundary) := scan
  let (byte,absolute) := byteAt
  if byte = 0x18 ∨ byte = 0x1a then (.ground,absolute + 1)
  else match state with
    | .ground =>
      if byte = 0x1b then (.escape,absolute)
      else if byte = 0x0a ∨ byte = 0x0d then (.ground,absolute + 1)
      else (.ground,lastBoundary)
    | .escape =>
      if byte = 0x1b then (.escape,absolute)
      else if byte = 0x5b then (.csi,lastBoundary)
      else if byte = 0x5d then (.osc,lastBoundary)
      else if byte = 0x50 then (.dcs,lastBoundary)
      else if byte = 0x58 ∨ byte = 0x5e ∨ byte = 0x5f then (.sosPmApc,lastBoundary)
      else if 0x20 ≤ byte ∧ byte ≤ 0x2f then (.escapeIntermediate,lastBoundary)
      else (.ground,absolute + 1)
    | .escapeIntermediate =>
      if byte = 0x1b then (.escape,absolute)
      else if 0x30 ≤ byte ∧ byte ≤ 0x7e then (.ground,absolute + 1)
      else (.escapeIntermediate,lastBoundary)
    | .csi =>
      if byte = 0x1b then (.escape,absolute)
      else if 0x40 ≤ byte ∧ byte ≤ 0x7e then (.ground,absolute + 1)
      else (.csi,lastBoundary)
    | .osc =>
      if byte = 0x07 then (.ground,absolute + 1)
      else if byte = 0x1b then (.oscEscape,lastBoundary)
      else (.osc,lastBoundary)
    | .oscEscape => if byte = 0x5c then (.ground,absolute + 1) else (.osc,lastBoundary)
    | .dcs => (if byte = 0x1b then .dcsEscape else .dcs,lastBoundary)
    | .dcsEscape => if byte = 0x5c then (.ground,absolute + 1) else (.dcs,lastBoundary)
    | .sosPmApc => (if byte = 0x1b then .sosPmApcEscape else .sosPmApc,lastBoundary)
    | .sosPmApcEscape => if byte = 0x5c then (.ground,absolute + 1) else (.sosPmApc,lastBoundary)

/-- `align_tail_start_in_window`. -/
def alignTailStartInWindow (window : List UInt8) (scanStart desiredStart : ℕ) : ℕ :=
  let initialIndex := (window.takeWhile isUtf8ContinuationByte).length
  let scan := ((window.zipIdx scanStart).drop initialIndex).foldl alignByte (.ground,scanStart + initialIndex)
  min scan.2 desiredStart

/-- `align_replay_tail_start_from`. -/
def alignReplayTailStartFrom (file : SparseFile) (desiredStart retainedFrom : ℕ) : Option ℕ :=
  if desiredStart ≤ retainedFrom then some retainedFrom
  else
    let scanStart := max (desiredStart - replayTailAlignmentLookbackBytes) retainedFrom
    let scanLen := desiredStart - scanStart
    if scanLen = 0 then some desiredStart
    else (readExact file scanStart scanLen).map fun window => alignTailStartInWindow window scanStart desiredStart

/-! ### The two scans -/

theorem alignByte_eq (state : ReplayScanState) (lastBoundary absolute : ℕ) (byte : UInt8) :
    alignByte (state,lastBoundary) (byte,absolute) = scanByte (· == 0x1b) absolute state lastBoundary byte := by
  cases state <;> simp only [alignByte, scanByte, reduceCtorEq, or_self, or_false, or_true, and_false, and_true, if_false, beq_iff_eq] <;>
    split_ifs <;> rfl

theorem foldl_alignByte (window : List UInt8) (absolute : ℕ) (state : ReplayScanState) (lastBoundary : ℕ) :
    ((window.zipIdx absolute).foldl alignByte (state,lastBoundary)).2 =
      scanReplay (· == 0x1b) window absolute state lastBoundary := by
  induction window generalizing absolute state lastBoundary with
  | nil => rfl
  | cons byte window ih =>
    rw [zipIdx_cons, foldl_cons, alignByte_eq, ih]
    rfl

theorem drop_zipIdx {α : Type*} (l : List α) (k n : ℕ) : (l.zipIdx k).drop n = (l.drop n).zipIdx (k + n) := by
  induction l generalizing k n with
  | nil => rw [zipIdx_nil, drop_nil, drop_nil, zipIdx_nil]
  | cons a l ih =>
    cases n with
    | zero => rfl
    | succ n => rw [zipIdx_cons, drop_succ_cons, drop_succ_cons, ih, Nat.add_assoc, Nat.add_comm 1 n]

theorem alignReplayTailStartFrom_eq (file : SparseFile) (desiredStart retainedFrom : ℕ) :
    alignReplayTailStartFrom file desiredStart retainedFrom = alignReplayTailStart file desiredStart retainedFrom := by
  unfold alignReplayTailStartFrom alignReplayTailStart alignTailStartInWindow
  simp only [drop_zipIdx, foldl_alignByte]

/-! ### The start -/

def scanStartOf (desiredStart retainedFrom : ℕ) : ℕ := max (desiredStart - replayTailAlignmentLookbackBytes) retainedFrom

def BetweenSequences (bytes : List UInt8) (n : ℕ) : Prop :=
  scanState (bytes.take n) = .ground ∨ bytes[n]? = some 0x1b ∧
    (scanState (bytes.take n) = .escape ∨ scanState (bytes.take n) = .escapeIntermediate ∨ scanState (bytes.take n) = .csi)

/-- Both scans find the same start, between the floor and the desired start, and from the beginning
of a character on, in no sequence and in no character. -/
structure AlignsSafely (file : SparseFile) (desiredStart retainedFrom : ℕ) : Prop where
  same : alignReplayTailStartFrom file desiredStart retainedFrom = alignReplayTailStart file desiredStart retainedFrom
  bounds : ∀ start, alignReplayTailStart file desiredStart retainedFrom = some start → retainedFrom ≤ start ∧ start ≤ desiredStart
  outside : ∀ start, alignReplayTailStart file desiredStart retainedFrom = some start →
    ¬InsideChar (content file) (scanStartOf desiredStart retainedFrom) →
    BetweenSequences ((content file).drop (scanStartOf desiredStart retainedFrom)) (start - scanStartOf desiredStart retainedFrom) ∧
      ¬InsideChar (content file) start

def MovesStart (byte : UInt8) : Prop := byte = 0x1b ∨ byte = 0x0a ∨ byte = 0x0d ∨ byte = 0x18 ∨ byte = 0x1a

/-- The window ends behind the first byte of a longer character that comes right after an Escape,
and nothing in it moves the start any more. -/
def EndsBehindEscapedByte (file : SparseFile) (desiredStart retainedFrom : ℕ) : Prop :=
  desiredStart ≤ file.length ∧ ¬InsideChar (content file) (scanStartOf desiredStart retainedFrom) ∧
    ∃ front byte rest c after,
      ((content file).drop (scanStartOf desiredStart retainedFrom)).take (desiredStart - scanStartOf desiredStart retainedFrom) =
        front ++ byte :: rest ∧
      byte :: rest ++ (content file).drop desiredStart = String.utf8EncodeChar c ++ after ∧
      1 < (String.utf8EncodeChar c).length ∧ scanState front = .escape ∧ ∀ b ∈ rest, ¬MovesStart b

/-! ### What the scan finds -/

/-- The start moves before an Escape that no string takes in, or behind the end of a sequence or
of a line; in ordinary text it stays otherwise. -/
theorem scanByte_moves (absolute : ℕ) (state : ReplayScanState) (lastBoundary : ℕ) (byte : UInt8) :
    (scanByte (· == 0x1b) absolute state lastBoundary byte).2 = lastBoundary ∧ (state = .ground → ¬MovesStart byte) ∨
    (scanByte (· == 0x1b) absolute state lastBoundary byte).2 = absolute ∧ byte = 0x1b ∧
      (state = .ground ∨ state = .escape ∨ state = .escapeIntermediate ∨ state = .csi) ∨
    (scanByte (· == 0x1b) absolute state lastBoundary byte).2 = absolute + 1 ∧ nextState state byte = .ground ∧
      (byte < 0x80 ∨ state = .escape) := by
  by_cases hground : state = .ground
  · subst hground
    by_cases hmoves : MovesStart byte
    · rcases hmoves with rfl | rfl | rfl | rfl | rfl
      · exact .inr (.inl ⟨rfl,rfl,.inl rfl⟩)
      all_goals exact .inr (.inr ⟨rfl,rfl,.inl (by decide)⟩)
    · refine .inl ⟨?_,fun _ => hmoves⟩
      simp only [MovesStart, not_or] at hmoves
      obtain ⟨hesc,hlf,hcr,hcan,hsub⟩ := hmoves
      simp only [scanByte, hesc, hlf, hcr, hcan, hsub, or_self, false_and, if_false, beq_iff_eq]
  · rcases scanByte_snd (· == 0x1b) absolute state lastBoundary byte with ⟨h,-⟩ | ⟨h,hbyte⟩ | h
    · exact .inl ⟨h,fun hg => absurd hg hground⟩
    · obtain ⟨rfl,hnext⟩ := hbyte.resolve_right fun hg => hground hg.1
      refine .inr (.inl ⟨h,rfl,?_⟩)
      cases state with
      | ground | escape | escapeIntermediate | csi => simp
      | osc | oscEscape | dcs | dcsEscape | sosPmApc | sosPmApcEscape => cases hnext
    · exact .inr (.inr h)

theorem scanByte_quiet (h : ¬MovesStart byte) (absolute lastBoundary : ℕ) :
    scanByte (· == 0x1b) absolute .ground lastBoundary byte = (.ground,lastBoundary) := by
  simp only [MovesStart, not_or] at h
  obtain ⟨hesc,hlf,hcr,hcan,hsub⟩ := h
  simp only [scanByte, hesc, hlf, hcr, hcan, hsub, or_self, false_and, if_false, beq_iff_eq]

theorem scanReplay_quiet (h : ∀ b ∈ bytes, ¬MovesStart b) (absolute lastBoundary : ℕ) :
    scanReplay (· == 0x1b) bytes absolute .ground lastBoundary = lastBoundary := by
  induction bytes generalizing absolute with
  | nil => rfl
  | cons byte bytes ih =>
    rw [scanReplay, scanByte_quiet (h byte mem_cons_self)]
    exact ih (fun b hb => h b (mem_cons_of_mem _ hb)) _

theorem scanState_quiet (h : ∀ b ∈ bytes, ¬MovesStart b) : scanState bytes = .ground := by
  unfold scanState
  induction bytes with
  | nil => rfl
  | cons byte bytes ih =>
    have hnext : nextState .ground byte = .ground := by
      rw [← scanByte_fst (· == 0x1b) 0 .ground 0 byte, scanByte_quiet (h byte mem_cons_self)]
    rw [foldl_cons, hnext]
    exact ih fun b hb => h b (mem_cons_of_mem _ hb)

theorem not_movesStart_of_continuation (h : isUtf8ContinuationByte byte = true) : ¬MovesStart byte := by
  rintro (rfl | rfl | rfl | rfl | rfl) <;> exact absurd h (by decide)

/-- Only continuation bytes separate the two places, so a character that is open at the second one
is open at the first. -/
theorem outside_of_continuation {content after : List UInt8} (hinside : ¬InsideChar content start)
    (hsplit : content.drop start = skipped ++ after) (hskipped : ∀ b ∈ skipped, isUtf8ContinuationByte b = true) :
    ¬InsideChar content (start + skipped.length) := by
  rintro ⟨before,c,rest,hchar,hlow,hhigh⟩
  rcases Nat.lt_or_ge before.length start with hlt | hge
  · exact hinside ⟨before,c,rest,hchar,hlt,by omega⟩
  · obtain ⟨first,tail,hc,-,hfirst⟩ := encodeChar_first c
    have hat : content[before.length]? = some first := by
      rw [hchar, hc, append_assoc, getElem?_append_right (Nat.le_refl _), Nat.sub_self]
      rfl
    obtain ⟨k,hk⟩ : ∃ k, before.length = start + k := ⟨before.length - start,by omega⟩
    rw [hk, ← getElem?_drop, hsplit, getElem?_append_left (by omega)] at hat
    rw [hskipped first (mem_of_getElem? hat)] at hfirst
    cases hfirst

def BehindEscapedByte (bytes : List UInt8) (n : ℕ) : Prop :=
  ∃ front byte rest, bytes = front ++ byte :: rest ∧ n = front.length + 1 ∧ scanState front = .escape ∧ 0x80 ≤ byte.toNat ∧
    ∀ b ∈ rest, ¬MovesStart b

theorem BehindEscapedByte.scanState_eq {n : ℕ} (h : BehindEscapedByte bytes n) : scanState bytes = .ground := by
  obtain ⟨front,byte,rest,rfl,-,hescape,hhigh,hrest⟩ := h
  have hnext : nextState .escape byte = .ground := by
    rcases scanByte_snd (fun _ => false) 0 .escape 0 byte with ⟨h,-⟩ | ⟨h,-⟩ | ⟨-,h,-⟩
    · exact absurd (h.symm.trans (scanByte_high _ 0 0 hhigh)) (by decide)
    · exact absurd (h.symm.trans (scanByte_high _ 0 0 hhigh)) (by decide)
    · exact h
  have hfold : scanState (front ++ byte :: rest) = rest.foldl nextState (nextState (scanState front) byte) := by
    unfold scanState
    rw [foldl_append, foldl_cons]
  rw [hfold, hescape, hnext]
  exact scanState_quiet hrest

section Scan
variable {content skipped window more : List UInt8} {start : ℕ}

/-- What the scan has found at any place: it is between sequences, and it is in no character or
behind the first byte of one that comes right after an Escape. -/
theorem scan_spec (hstart : start ≤ content.length) (hsplit : content.drop start = skipped ++ window ++ more)
    (hskipped : scanState skipped = .ground) (hinside : ¬InsideChar content (start + skipped.length)) :
    ∃ n, scanReplay (· == 0x1b) window (start + skipped.length) .ground (start + skipped.length) = start + n ∧
      BetweenSequences (content.drop start) n ∧
      (¬InsideChar content (start + n) ∨ BehindEscapedByte (skipped ++ window) n) := by
  induction window using List.reverseRecOn generalizing more with
  | nil =>
    refine ⟨skipped.length,rfl,.inl ?_,.inl hinside⟩
    rw [hsplit, append_nil, take_left]
    exact hskipped
  | append_singleton window byte ih =>
    have hread : content.drop start = skipped ++ window ++ (byte :: more) := by
      rw [hsplit, ← append_assoc, append_assoc, singleton_append]
    have hwhole : content = (content.take start ++ (skipped ++ window)) ++ byte :: more := by
      rw [append_assoc, ← hread, take_append_drop]
    have hlength : (content.take start ++ (skipped ++ window)).length = start + (skipped ++ window).length := by
      rw [length_append, length_take_of_le hstart]
    have hstate : window.foldl nextState .ground = scanState (skipped ++ window) := by
      rw [← hskipped]
      exact (foldl_append ..).symm
    obtain ⟨n,hscan,hbetween,hplace⟩ := ih hread
    rw [scanReplay_concat, hscan, hstate]
    rcases scanByte_moves (start + skipped.length + window.length) (scanState (skipped ++ window)) (start + n) byte with
      ⟨h,hquiet⟩ | ⟨h,rfl,hopen⟩ | ⟨h,hground,hlow⟩
    · refine ⟨n,h,hbetween,hplace.imp_right fun hbehind => ?_⟩
      have hmoves := hquiet hbehind.scanState_eq
      obtain ⟨front,first,rest,hbytes,hn,hescape,hhigh,hrest⟩ := hbehind
      refine ⟨front,first,rest ++ [byte],by rw [← append_assoc, hbytes, append_assoc]; rfl,hn,hescape,hhigh,fun b hb => ?_⟩
      rcases mem_append.mp hb with hb | hb
      · exact hrest b hb
      · rw [mem_singleton.mp hb]
        exact hmoves
    · refine ⟨(skipped ++ window).length,by rw [h, length_append, Nat.add_assoc],?_,.inl fun hin => ?_⟩
      · unfold BetweenSequences
        rw [hread, take_left, getElem?_append_right le_rfl, Nat.sub_self]
        exact hopen.imp_right fun ho => ⟨rfl,ho⟩
      · have hcontinues := InsideChar.continuation (hlength.symm ▸ hin) hwhole
        exact absurd hcontinues (by decide)
    · refine ⟨(skipped ++ window).length + 1,by rw [h, length_append, Nat.add_assoc, Nat.add_assoc, Nat.add_assoc],.inl ?_,?_⟩
      · have hafter : content.drop start = (skipped ++ window ++ [byte]) ++ more := by
          rw [hread, append_assoc _ [byte], singleton_append]
        have hcount : (skipped ++ window ++ [byte]).length = (skipped ++ window).length + 1 := by
          rw [length_append, length_singleton]
        rw [hafter, ← hcount, take_left, scanState_concat]
        exact hground
      · by_cases hhigh : 0x80 ≤ byte.toNat
        · refine .inr ⟨skipped ++ window,byte,[],(append_assoc ..).symm,rfl,?_,hhigh,fun b hb => absurd hb not_mem_nil⟩
          exact hlow.resolve_left fun hl => absurd (UInt8.lt_iff_toNat_lt.mp hl) (Nat.not_lt_of_ge hhigh)
        · refine .inl fun hin => hhigh ?_
          have hplaced : InsideChar content ((content.take start ++ (skipped ++ window)).length + 1) := by
            rwa [hlength, Nat.add_assoc]
          exact (InsideChar.byte_before hplaced hwhole).1

end Scan

/-- What the scan reads, and what it finds. -/
theorem alignReplayTailStart_eq {file : SparseFile} {desiredStart retainedFrom : ℕ} (hlt : retainedFrom < desiredStart)
    (hfile : desiredStart ≤ file.length) {window : List UInt8}
    (hskipped : ∀ b ∈ skipped, isUtf8ContinuationByte b = true) (hwindow : ∀ b ∈ window.head?, isUtf8ContinuationByte b = false)
    (hbytes : ((content file).drop (scanStartOf desiredStart retainedFrom)).take (desiredStart - scanStartOf desiredStart retainedFrom) =
      skipped ++ window) :
    alignReplayTailStart file desiredStart retainedFrom =
      some (scanReplay (· == 0x1b) window (scanStartOf desiredStart retainedFrom + skipped.length) .ground
        (scanStartOf desiredStart retainedFrom + skipped.length)) := by
  have hbefore : scanStartOf desiredStart retainedFrom < desiredStart := by
    have hlook : 0 < replayTailAlignmentLookbackBytes := by decide
    unfold scanStartOf
    omega
  have htake : (skipped ++ window).takeWhile isUtf8ContinuationByte = skipped := by
    rw [takeWhile_append_of_pos hskipped]
    cases window with
    | nil => rw [takeWhile_nil, append_nil]
    | cons byte window => rw [takeWhile_cons_of_neg (by rw [hwindow byte rfl]; decide), append_nil]
  have hcount := congrArg List.length hbytes
  rw [length_take, length_drop, length_content, length_append] at hcount
  change (if _ then _ else if desiredStart - scanStartOf desiredStart retainedFrom = 0 then _ else
    (readExact file (scanStartOf desiredStart retainedFrom) (desiredStart - scanStartOf desiredStart retainedFrom)).map _) = _
  rw [if_neg (by omega), if_neg (by omega), readExact_content (by omega), Option.map_some, hbytes, htake]
  dsimp only
  rw [drop_left]
  have hhigh := (scanReplay_bounds (· == 0x1b) window .ground
    (le_refl (scanStartOf desiredStart retainedFrom + skipped.length))).2
  exact congrArg some (Nat.min_eq_left (hhigh.trans (by omega)))

/-- The scan finds the place behind a first byte, if nothing moves it any more. -/
theorem scan_behind {window : List UInt8}
    (hskipped : ∀ b ∈ skipped, isUtf8ContinuationByte b = true) (hbytes : skipped ++ window = front ++ byte :: rest)
    (hescape : scanState front = .escape) (hhigh : 0x80 ≤ byte.toNat) (hrest : ∀ b ∈ rest, ¬MovesStart b) :
    scanReplay (· == 0x1b) window (start + skipped.length) .ground (start + skipped.length) = start + (front.length + 1) := by
  have hground : scanState skipped = .ground := scanState_quiet fun b hb => not_movesStart_of_continuation (hskipped b hb)
  obtain ⟨earlier,rfl⟩ := scanState_escape hescape
  obtain ⟨later,hfront⟩ : ∃ later, earlier ++ [0x1b] = skipped ++ later := by
    rcases List.append_eq_append_iff.mp hbytes with ⟨later,hlater,-⟩ | ⟨later,hlater,-⟩
    · exact ⟨later,hlater⟩
    · have hmem : (0x1b : UInt8) ∈ skipped := by
        rw [hlater]
        simp
      exact absurd (hskipped _ hmem) (by decide)
  have hwindow : window = later ++ byte :: rest := by
    rw [hfront, append_assoc] at hbytes
    exact append_cancel_left hbytes
  have hstate : later.foldl nextState .ground = .escape := by
    rw [← hescape, hfront, ← hground]
    exact (foldl_append ..).symm
  have hnext : nextState .escape byte = .ground := by
    have h := BehindEscapedByte.scanState_eq ⟨[0x1b],byte,[],rfl,rfl,rfl,hhigh,fun b hb => absurd hb not_mem_nil⟩
    exact h
  have hmove : scanByte (· == 0x1b) (start + skipped.length + later.length) .escape
      (scanReplay (· == 0x1b) later (start + skipped.length) .ground (start + skipped.length)) byte =
        (.ground,start + skipped.length + later.length + 1) :=
    Prod.ext ((scanByte_fst ..).trans hnext) (scanByte_high _ _ _ hhigh)
  rw [hwindow, scanReplay_append, hstate, scanReplay, hmove]
  dsimp only
  rw [scanReplay_quiet hrest, hfront, length_append]
  omega

theorem exists_takeWhile (p : UInt8 → Bool) (bytes : List UInt8) : ∃ skipped window, bytes = skipped ++ window ∧
    (∀ b ∈ skipped, p b = true) ∧ ∀ b ∈ window.head?, p b = false := by
  refine ⟨_,_,(takeWhile_append_dropWhile (p := p)).symm,fun b hb => mem_takeWhile_imp hb,fun b hb => ?_⟩
  have h := head?_dropWhile_not p bytes
  rw [Option.mem_def.mp hb] at h
  exact h

theorem drop_scanStart (file : SparseFile) {desiredStart retainedFrom : ℕ} (hlt : retainedFrom < desiredStart) :
    (content file).drop (scanStartOf desiredStart retainedFrom) =
      ((content file).drop (scanStartOf desiredStart retainedFrom)).take (desiredStart - scanStartOf desiredStart retainedFrom) ++
        (content file).drop desiredStart := by
  have hle : scanStartOf desiredStart retainedFrom ≤ desiredStart := by
    unfold scanStartOf
    omega
  conv_lhs => rw [← take_append_drop (desiredStart - scanStartOf desiredStart retainedFrom)
    ((content file).drop (scanStartOf desiredStart retainedFrom))]
  rw [drop_drop, Nat.add_sub_cancel' hle]

theorem insideChar_behind {after : List UInt8} {c : Char} (hstart : start ≤ bytes.length)
    (hsplit : bytes.drop start = front ++ byte :: rest) (hchar : byte :: rest = String.utf8EncodeChar c ++ after)
    (hlong : 1 < (String.utf8EncodeChar c).length) : InsideChar bytes (start + (front.length + 1)) := by
  have hlength : (bytes.take start ++ front).length = start + front.length := by
    rw [length_append, length_take_of_le hstart]
  refine ⟨bytes.take start ++ front,c,after,?_,by omega,by omega⟩
  rw [append_assoc, append_assoc, ← hchar, ← hsplit, take_append_drop]

theorem not_insideChar_behind (hstart : start ≤ bytes.length)
    (hsplit : bytes.drop start = front ++ byte :: rest) (hescape : scanState front = .escape)
    (hnone : ∀ c after, byte :: rest = String.utf8EncodeChar c ++ after → ¬1 < (String.utf8EncodeChar c).length) :
    ¬InsideChar bytes (start + (front.length + 1)) := by
  intro hinside
  have hlength : (bytes.take start ++ front).length = start + front.length := by
    rw [length_append, length_take_of_le hstart]
  have hbytes : bytes = (bytes.take start ++ front) ++ byte :: rest := by
    rw [append_assoc, ← hsplit, take_append_drop]
  rw [← Nat.add_assoc, ← hlength] at hinside
  obtain ⟨-,⟨c,after,hchar,hlong⟩ | ⟨earlier,last,hlast,hhigh⟩⟩ := InsideChar.byte_before hinside hbytes
  · exact hnone c after hchar hlong
  · obtain ⟨begun,rfl⟩ := scanState_escape hescape
    rw [← append_assoc] at hlast
    obtain rfl : (0x1b : UInt8) = last := (append_inj' hlast rfl).2 |> List.singleton_inj.mp
    exact absurd hhigh (by decide)

/-- The two scans agree and start a replay well, unless the floor is beyond the desired start or the
last thing that moved the start is a longer character right behind an Escape. -/
theorem replay_start_is_safe_iff (file : SparseFile) (desiredStart retainedFrom : ℕ) :
    AlignsSafely file desiredStart retainedFrom ↔
      retainedFrom ≤ desiredStart ∧ ¬EndsBehindEscapedByte file desiredStart retainedFrom := by
  rcases Nat.lt_or_ge retainedFrom desiredStart with hlt | hge
  swap
  · -- nothing is scanned
    have hstart : alignReplayTailStart file desiredStart retainedFrom = some retainedFrom := if_pos hge
    have hscan : scanStartOf desiredStart retainedFrom = retainedFrom := by
      unfold scanStartOf
      omega
    refine ⟨fun h => ⟨(h.bounds _ hstart).2,?_⟩,fun h => ⟨alignReplayTailStartFrom_eq ..,?_,?_⟩⟩
    · rintro ⟨-,-,front,byte,rest,c,after,hbytes,-⟩
      rw [hscan, Nat.sub_eq_zero_of_le hge, take_zero] at hbytes
      exact absurd hbytes.symm (by simp)
    · intro start hs
      obtain rfl := Option.some.inj (hstart.symm.trans hs)
      exact ⟨le_rfl,h.1⟩
    · intro start hs hinside
      obtain rfl := Option.some.inj (hstart.symm.trans hs)
      rw [hscan] at hinside ⊢
      rw [Nat.sub_self]
      exact ⟨.inl rfl,hinside⟩
  have hbefore : scanStartOf desiredStart retainedFrom < desiredStart := by
    have hlook : 0 < replayTailAlignmentLookbackBytes := by decide
    unfold scanStartOf
    omega
  rcases Nat.lt_or_ge file.length desiredStart with hshort | hfile
  · -- the window cannot be read
    have hnone : alignReplayTailStart file desiredStart retainedFrom = none := by
      change (if _ then _ else if desiredStart - scanStartOf desiredStart retainedFrom = 0 then _ else Option.map _ (if scanStartOf
        desiredStart retainedFrom + (desiredStart - scanStartOf desiredStart retainedFrom) ≤ _ then _ else _)) = _
      rw [if_neg (by omega), if_neg (by omega), if_neg (by omega), Option.map_none]
    refine ⟨fun _ => ⟨hlt.le,fun hends => absurd hends.1 (by omega)⟩,fun _ => ⟨alignReplayTailStartFrom_eq ..,?_,?_⟩⟩
    · intro start hs
      rw [hnone] at hs
      cases hs
    · intro start hs
      rw [hnone] at hs
      cases hs
  obtain ⟨skipped,window,hbytes,hskipped,hwindow⟩ := exists_takeWhile isUtf8ContinuationByte
    (((content file).drop (scanStartOf desiredStart retainedFrom)).take (desiredStart - scanStartOf desiredStart retainedFrom))
  have heq := alignReplayTailStart_eq hlt hfile hskipped hwindow hbytes
  have hsplit := drop_scanStart file hlt
  have hlength : scanStartOf desiredStart retainedFrom ≤ (content file).length := by
    rw [length_content]
    omega
  constructor
  · rintro h
    refine ⟨hlt.le,?_⟩
    rintro ⟨-,hinside,front,byte,rest,c,after,hends,hchar,hlong,hescape,hrest⟩
    have hhigh : 0x80 ≤ byte.toNat := by
      obtain ⟨first,tail,hc,-⟩ := encodeChar_first c
      rw [hc, cons_append, cons_append] at hchar
      rw [(List.cons.inj hchar).1]
      exact Utf8.low_of_encodeChar hlong (hc ▸ mem_cons_self)
    rw [scan_behind hskipped (hbytes.symm.trans hends) hescape hhigh hrest] at heq
    rw [hends, append_assoc, cons_append] at hsplit
    exact (h.outside _ heq hinside).2 (insideChar_behind hlength hsplit hchar hlong)
  · rintro ⟨-,hends⟩
    refine ⟨alignReplayTailStartFrom_eq ..,fun start hs => ?_,fun start hs hinside => ?_⟩
    · have hbounds := alignReplayTailStart_bounds hs
      rwa [Nat.max_eq_left hlt.le] at hbounds
    · have hstart := Option.some.inj (heq.symm.trans hs)
      rw [hbytes] at hsplit
      have hout : ¬InsideChar (content file) (scanStartOf desiredStart retainedFrom + skipped.length) :=
        outside_of_continuation hinside (hsplit.trans (append_assoc ..)) hskipped
      have hground : scanState skipped = .ground := scanState_quiet fun b hb => not_movesStart_of_continuation (hskipped b hb)
      obtain ⟨n,hscan,hbetween,hplace⟩ := scan_spec hlength hsplit hground hout
      obtain rfl := hscan.symm.trans hstart
      rw [Nat.add_sub_cancel_left]
      refine ⟨hbetween,hplace.elim id ?_⟩
      rintro ⟨front,byte,rest,hfront,rfl,hescape,-,hrest⟩
      rw [hfront, append_assoc, cons_append] at hsplit
      refine not_insideChar_behind hlength hsplit hescape fun c after hchar hlong => hends ?_
      exact ⟨hfile,hinside,front,byte,rest,c,after,hbytes.trans hfront,hchar,hlong,hescape,hrest⟩

/-- An accented letter comes right after an Escape, and the replay would start in it. -/
theorem replay_starts_inside_char : ¬AlignsSafely ([0x1b,0xc3,0xa9,0x78].map some) 2 0 := by
  intro h
  have hstart : alignReplayTailStart ([0x1b,0xc3,0xa9,0x78].map some) 2 0 = some 2 := by decide
  have hscan : ¬InsideChar (content ([0x1b,0xc3,0xa9,0x78].map some)) (scanStartOf 2 0) := by
    rintro ⟨before,c,after,-,hlow,-⟩
    exact Nat.not_lt_zero _ hlow
  exact (h.outside 2 hstart hscan).2 ⟨[0x1b],'é',[0x78],by decide,by decide,by decide⟩

end Unpeel.Attach
