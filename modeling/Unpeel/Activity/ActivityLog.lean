import Unpeel.Foundation.Collapsing
import Unpeel.Stdio.JsonText

/-! # The activity log

Frontends share one file of entries, a line each. Each of them keeps the last entries in memory,
without the repetitions, and replaces the file by them once it counts too many lines.
-/
namespace Unpeel.Activity
open Manifest Remote Stdio Collapsing List

inductive ActivityLogKind where
  | started
  | needsInput
  | finished
  | exited
  | alert
deriving DecidableEq

def ActivityLogKind.name : ActivityLogKind → String
  | .started => "started"
  | .needsInput => "needs_input"
  | .finished => "finished"
  | .exited => "exited"
  | .alert => "alert"

structure ActivityLogEntry where
  id : Text
  sessionId : Text
  kind : ActivityLogKind
  at' : UInt64
  title : Text
  command : Text
  projectId : Text
  projectName : Text
  message : Option Text
deriving DecidableEq

namespace ActivityLogEntry

def json (e : ActivityLogEntry) : JsonValue := .obj <|
  [("id".toList,.str e.id),("session_id".toList,.str e.sessionId),("kind".toList,.str e.kind.name.toList),
    ("at".toList,.unsigned e.at'),("title".toList,.str e.title),("command".toList,.str e.command),
    ("project_id".toList,.str e.projectId),("project_name".toList,.str e.projectName)] ++
    e.message.toList.map fun message => ("message".toList,.str message)

/-- What `to_vec` writes. -/
def line (e : ActivityLogEntry) : Bytes := e.json.bytes

/-- What a repetition has in common with the entry it takes the place of. -/
def said (e : ActivityLogEntry) : ActivityLogKind × Option Text := (e.kind,if e.kind = .alert then e.message else none)

end ActivityLogEntry

structure ActivityLogStore where
  entries : List ActivityLogEntry := []
  physicalLineCount : ℕ := 0

def maxEntries : ℕ := 300

def compactAtPhysicalLines : ℕ := maxEntries * 2

def lineFeed : UInt8 := 0x0a

def rposition {α : Type} (p : α → Bool) : List α → Option ℕ
  | [] => none
  | x :: rest => ((rposition p rest).map (· + 1)).or (if p x then some 0 else none)

def appendCollapsing (entries : List ActivityLogEntry) (entry : ActivityLogEntry) : List ActivityLogEntry :=
  let entries := match rposition (fun existing => existing.sessionId = entry.sessionId) entries with
    | some index =>
      if entries[index]?.any fun existing =>
        existing.kind = entry.kind && (entry.kind ≠ .alert || existing.message = entry.message) then entries.eraseIdx index
      else entries
    | none => entries
  entries ++ [entry]

def trimToLimit (entries : List ActivityLogEntry) : List ActivityLogEntry :=
  if maxEntries < entries.length then entries.drop (entries.length - maxEntries) else entries

def countPhysicalLines (raw : Bytes) : ℕ :=
  raw.count lineFeed + if raw ≠ [] ∧ raw.getLast? ≠ some lineFeed then 1 else 0

section
variable (fromSlice : Bytes → Option ActivityLogEntry)

/-- The entries of the lines that can be read. -/
def recorded (raw : Bytes) : List ActivityLogEntry :=
  (raw.splitOn lineFeed).filterMap fun line => if line = [] then none else fromSlice line

namespace ActivityLogStore

/-- `compact`, with whether the new file could be written and renamed. -/
def compact (renamed : Bool) (file : Option Bytes) (s : ActivityLogStore) : Bool × Option Bytes × ActivityLogStore :=
  if renamed then
    (true,some (s.entries.flatMap fun e => e.line ++ [lineFeed]),{ s with physicalLineCount := s.entries.length })
  else (false,file,s)

def refresh (readable renamed : Bool) (file : Option Bytes) (s : ActivityLogStore) : Bool × Option Bytes × ActivityLogStore :=
  if !readable then (false,file,s) else
    match file with
    | none => (true,none,{})
    | some raw =>
      let s := ⟨(recorded fromSlice raw).foldl (fun entries e => trimToLimit (appendCollapsing entries e)) [],countPhysicalLines raw⟩
      if compactAtPhysicalLines ≤ s.physicalLineCount then s.compact renamed file else (true,file,s)

end ActivityLogStore

end

/-- How far the line of an entry comes to the file. -/
inductive LineWrite where
  | nothing
  | torn (bytes : ℕ)
  | whole

def ActivityLogStore.append (write : LineWrite) (renamed : Bool) (file : Option Bytes) (s : ActivityLogStore) (entry : ActivityLogEntry) :
    Bool × Option Bytes × ActivityLogStore :=
  let s := { s with entries := trimToLimit (appendCollapsing s.entries entry) }
  let line := entry.line ++ [lineFeed]
  match write with
  | .nothing => (false,file,s)
  | .torn bytes => (false,some (file.getD [] ++ line.take bytes),s)
  | .whole =>
    let file := some (file.getD [] ++ line)
    let s := { s with physicalLineCount := s.physicalLineCount + 1 }
    if compactAtPhysicalLines ≤ s.physicalLineCount then s.compact renamed file else (true,file,s)

section Lines

theorem lineFeed_not_mem_encode {text : Text} (h : '\n' ∉ text) : lineFeed ∉ Utf8.encode text := by
  intro hmem
  obtain ⟨c,hc,hbyte⟩ := mem_flatMap.mp hmem
  have hvalue : c.toNat ≠ 10 := fun heq => h ((Char.toNat_inj (d := '\n')).mp heq ▸ hc)
  have hother {n : ℕ} (hne : n ≠ 10) (hlt : n < 256) : lineFeed ≠ UInt8.ofNat n := by
    intro heq
    have hn := congrArg UInt8.toNat heq
    rw [Utf8.toNat_ofNat_of_lt hlt] at hn
    exact hne hn.symm
  have hval : c.val.toNat = c.toNat := rfl
  unfold String.utf8EncodeChar at hbyte
  dsimp only at hbyte
  split_ifs at hbyte <;> simp only [mem_cons, not_mem_nil, or_false] at hbyte
  · exact hother hvalue (by omega) hbyte
  · rcases hbyte with hbyte | hbyte <;> exact hother (by omega) (by omega) hbyte
  · rcases hbyte with hbyte | hbyte | hbyte <;> exact hother (by omega) (by omega) hbyte
  · rcases hbyte with hbyte | hbyte | hbyte | hbyte <;> exact hother (by omega) (by omega) hbyte

theorem lineFeed_not_mem_stringText (s : Text) : '\n' ∉ stringText s := by
  have hdigit (n : ℕ) (h : n < 16) : hexDigit n ≠ '\n' := by
    revert n
    decide
  have hescaped (c : Char) : '\n' ∉ escaped c := by
    unfold escaped
    split_ifs with h1 h2 h3 h4 h5 h6 h7 h8
    any_goals decide
    · simp only [mem_cons, not_mem_nil, or_false, not_or]
      exact ⟨by decide,by decide,by decide,by decide,(hdigit _ (by omega)).symm,(hdigit _ (by omega)).symm⟩
    · exact fun h => h5 (mem_singleton.mp h).symm
  intro h
  rcases mem_append.mp h with h | h
  · obtain ⟨c,-,hc⟩ := mem_flatMap.mp h
    exact hescaped c hc
  · revert h
    decide

theorem lineFeed_not_mem_obj {fields : List (Text × JsonValue)} (h : ∀ field ∈ fields, '\n' ∉ field.2.text) :
    '\n' ∉ (JsonValue.obj fields).text := by
  have hrest (fields : List (Text × JsonValue)) (h : ∀ field ∈ fields, '\n' ∉ field.2.text) : '\n' ∉ JsonValue.fieldsText fields := by
    induction fields with
    | nil => decide
    | cons field fields ih =>
      obtain ⟨hfield,hfields⟩ := forall_mem_cons.mp h
      simp [JsonValue.fieldsText, lineFeed_not_mem_stringText, hfield, ih hfields]
  cases fields with
  | nil => decide
  | cons field fields =>
    obtain ⟨hfield,hfields⟩ := forall_mem_cons.mp h
    simp [JsonValue.text, lineFeed_not_mem_stringText, hfield, hrest fields hfields]

/-- Whatever an App reports, an entry is one line. -/
theorem lineFeed_not_mem_line (e : ActivityLogEntry) : lineFeed ∉ e.line := by
  have hstr (s : Text) : '\n' ∉ (JsonValue.str s).text := by simp [JsonValue.text, lineFeed_not_mem_stringText]
  have hunsigned (n : UInt64) : '\n' ∉ (JsonValue.unsigned n).text := fun h => absurd (isDigit_toDigits h) (by decide)
  refine lineFeed_not_mem_encode (lineFeed_not_mem_obj (forall_mem_append.mpr ⟨?_,fun field hfield => ?_⟩))
  · simp only [forall_mem_cons, hstr, hunsigned, not_false_eq_true, true_and]
    exact fun _ h => absurd h not_mem_nil
  · obtain ⟨message,-,rfl⟩ := mem_map.mp hfield
    exact hstr message

end Lines

section Feed
variable {fromSlice : Bytes → Option ActivityLogEntry} {e : ActivityLogEntry} {raw : Bytes}

theorem line_ne_nil (e : ActivityLogEntry) : e.line ≠ [] := by
  have hfirst : e.json.text = '\x7b' :: e.json.text.tail := by rw [ActivityLogEntry.json, cons_append, JsonValue.text]; rfl
  unfold ActivityLogEntry.line JsonValue.bytes
  rw [hfirst, Utf8.encode_cons, Utf8.encodeChar_ascii (by decide)]
  exact cons_ne_nil _ _

theorem recorded_append (a b : Bytes) : recorded fromSlice (a ++ lineFeed :: b) = recorded fromSlice a ++ recorded fromSlice b := by
  unfold recorded
  rw [splitOn_append_cons_self, filterMap_append]

theorem recorded_nil : recorded fromSlice [] = [] := rfl

theorem recorded_line (h : fromSlice e.line = some e) (rest : Bytes) :
    recorded fromSlice (e.line ++ lineFeed :: rest) = e :: recorded fromSlice rest := by
  have hone : recorded fromSlice e.line = [e] := by
    rw [recorded, splitOn_eq_singleton (lineFeed_not_mem_line e), filterMap_cons, if_neg (line_ne_nil e), h]
    rfl
  rw [recorded_append, hone]
  rfl

theorem recorded_lines {entries : List ActivityLogEntry} (h : ∀ e ∈ entries, fromSlice e.line = some e) :
    recorded fromSlice (entries.flatMap fun e => e.line ++ [lineFeed]) = entries := by
  induction entries with
  | nil => rfl
  | cons e entries ih =>
    obtain ⟨he,hentries⟩ := forall_mem_cons.mp h
    rw [flatMap_cons, append_assoc, singleton_append, recorded_line he, ih hentries]

/-- Every line has its end. -/
def Ended (raw : Bytes) : Prop := raw = [] ∨ ∃ lines, raw = lines ++ [lineFeed]

theorem recorded_ended (hraw : Ended raw) (h : fromSlice e.line = some e) :
    recorded fromSlice (raw ++ (e.line ++ [lineFeed])) = recorded fromSlice raw ++ [e] := by
  have hlast : recorded fromSlice (e.line ++ [lineFeed]) = [e] := recorded_line h []
  rcases hraw with rfl | ⟨lines,rfl⟩
  · exact hlast
  · rw [append_assoc, singleton_append, recorded_append, hlast, recorded_append, recorded_nil, append_nil]

theorem ended_append (raw line : Bytes) : Ended (raw ++ (line ++ [lineFeed])) := .inr ⟨raw ++ line,(append_assoc ..).symm⟩

theorem ended_lines (entries : List ActivityLogEntry) : Ended (entries.flatMap fun e => e.line ++ [lineFeed]) := by
  induction entries using List.reverseRecOn with
  | nil => exact .inl rfl
  | append_singleton entries e _ =>
    rw [flatMap_append, flatMap_singleton]
    exact ended_append _ _

end Feed

section View

/-- What the log of these entries shows. -/
def shownLast (log : List ActivityLogEntry) : List ActivityLogEntry :=
  (shown ActivityLogEntry.sessionId ActivityLogEntry.said log).rtake maxEntries

theorem trimToLimit_eq (entries : List ActivityLogEntry) : trimToLimit entries = entries.rtake maxEntries := by
  unfold trimToLimit
  split_ifs with h
  · rfl
  · rw [List.rtake, Nat.sub_eq_zero_of_le (Nat.not_lt.mp h), drop_zero]

theorem rposition_isSome {α : Type} (p : α → Bool) (l : List α) : (rposition p l).isSome = l.any p := by
  induction l with
  | nil => rfl
  | cons x rest ih =>
    rw [rposition, Option.isSome_or, Option.isSome_map, ih, any_cons, Bool.or_comm]
    cases p x <;> rfl

theorem repeats_eq (existing entry : ActivityLogEntry) :
    (existing.kind = entry.kind && (entry.kind ≠ .alert || existing.message = entry.message)) = decide (existing.said = entry.said) := by
  have h : existing.said = entry.said ↔ existing.kind = entry.kind ∧ (entry.kind ≠ .alert ∨ existing.message = entry.message) := by
    unfold ActivityLogEntry.said
    rw [Prod.mk.injEq]
    constructor
    · rintro ⟨hkind,hmessage⟩
      rw [hkind] at hmessage
      by_cases halert : entry.kind = .alert
      · rw [if_pos halert, if_pos halert] at hmessage
        exact ⟨hkind,.inr hmessage⟩
      · exact ⟨hkind,.inl halert⟩
    · rintro ⟨hkind,hmessage⟩
      rw [hkind]
      rcases hmessage with hother | hmessage
      · exact ⟨rfl,by rw [if_neg hother, if_neg hother]⟩
      · exact ⟨rfl,by rw [hmessage]⟩
  simp [h]

theorem appendCollapsing_eq (entries : List ActivityLogEntry) (entry : ActivityLogEntry) :
    appendCollapsing entries entry = unsaid ActivityLogEntry.sessionId ActivityLogEntry.said entry entries ++ [entry] := by
  unfold appendCollapsing
  simp only [repeats_eq]
  congr 1
  induction entries with
  | nil => rfl
  | cons x rest ih =>
    have hany := rposition_isSome (fun existing => decide (existing.sessionId = entry.sessionId)) rest
    rw [rposition]
    cases hrest : rposition (fun existing => decide (existing.sessionId = entry.sessionId)) rest with
    | some i =>
      rw [hrest] at hany ih
      have hlater : (rest.any fun existing => decide (existing.sessionId = entry.sessionId)) = true := hany.symm
      rw [unsaid, if_pos hlater, ← ih]
      simp only [Option.map_some, Option.some_or, getElem?_cons_succ, eraseIdx_cons_succ]
      split_ifs <;> rfl
    | none =>
      rw [hrest] at hany
      rw [unsaid_last hany.symm, Option.map_none, Option.none_or]
      by_cases hkey : x.sessionId = entry.sessionId
      · simp [hkey]
      · simp [hkey]

theorem read_eq (log : List ActivityLogEntry) :
    log.foldl (fun entries e => trimToLimit (appendCollapsing entries e)) [] = shownLast log := by
  rw [shownLast, ← view_eq]
  simp only [trimToLimit_eq, appendCollapsing_eq]
  rfl

theorem shownLast_concat (log : List ActivityLogEntry) (e : ActivityLogEntry) :
    trimToLimit (appendCollapsing (shownLast log) e) = shownLast (log ++ [e]) := by
  rw [← read_eq, ← read_eq, foldl_append]
  rfl

/-- A file that is replaced by what it shows goes on as before. -/
theorem shownLast_append (log more : List ActivityLogEntry) : shownLast (shownLast log ++ more) = shownLast (log ++ more) := by
  simp only [shownLast, ← view_eq]
  exact view_append_view ..

theorem shownLast_shownLast (log : List ActivityLogEntry) : shownLast (shownLast log) = shownLast log := by
  simpa using shownLast_append log []

theorem mem_of_shownLast {log : List ActivityLogEntry} {e : ActivityLogEntry} (h : e ∈ shownLast log) : e ∈ log :=
  mem_of_shown (mem_of_mem_drop h)

end View

section Shared
variable {ι : Type} [DecidableEq ι] {fromSlice : Bytes → Option ActivityLogEntry}

/-- The file, and what each frontend holds. -/
structure SharedLog (ι : Type) where
  file : Option Bytes
  stores : ι → ActivityLogStore

def SharedLog.set (w : SharedLog ι) (i : ι) (r : Bool × Option Bytes × ActivityLogStore) : SharedLog ι :=
  ⟨r.2.1,Function.update w.stores i r.2.2⟩

variable (fromSlice) in
def recordedIn (file : Option Bytes) : List ActivityLogEntry := (file.map (recorded fromSlice)).getD []

variable (fromSlice) in
/-- Runs in which lines come to the file as a whole or not at all, with what was written and with the frontends that have
read the file and all that was written since, as nobody else wrote. Only such a frontend reaches the limit by an entry. -/
inductive Shares (start : SharedLog ι) : List ActivityLogEntry → Set ι → SharedLog ι → Prop where
  | start : Shares start [] ∅ start
  | refresh {written : List ActivityLogEntry} {current : Set ι} {w : SharedLog ι} (h : Shares start written current w)
      (i : ι) (readable renamed : Bool) :
      Shares start written (if readable then insert i current else current)
        (w.set i ((w.stores i).refresh fromSlice readable renamed w.file))
  | append {written : List ActivityLogEntry} {current : Set ι} {w : SharedLog ι} (h : Shares start written current w)
      (i : ι) (renamed : Bool) (e : ActivityLogEntry)
      (hcurrent : (w.stores i).physicalLineCount + 1 < compactAtPhysicalLines ∨ i ∈ current) :
      Shares start (written ++ [e]) (current ∩ {i}) (w.set i ((w.stores i).append .whole renamed w.file e))
  | missed {written : List ActivityLogEntry} {current : Set ι} {w : SharedLog ι} (h : Shares start written current w)
      (i : ι) (renamed : Bool) (e : ActivityLogEntry) :
      Shares start written (current \ {i}) (w.set i ((w.stores i).append .nothing renamed w.file e))

variable (fromSlice) in
/-- The file stands for the log. -/
structure Keeps (log : List ActivityLogEntry) (file : Option Bytes) : Prop where
  ended : Ended (file.getD [])
  shown : shownLast (recordedIn fromSlice file) = shownLast log
  known : ∀ e ∈ recordedIn fromSlice file, e ∈ log

variable {log : List ActivityLogEntry} {file : Option Bytes} {s : ActivityLogStore} {readable renamed : Bool}

theorem Keeps.compact (hread : ∀ e ∈ log, fromSlice e.line = some e) (h : Keeps fromSlice log file) (hs : s.entries = shownLast log) :
    Keeps fromSlice log (s.compact renamed file).2.1 := by
  unfold ActivityLogStore.compact
  split_ifs
  · have hrecorded := recorded_lines fun e he => hread e (mem_of_shownLast (hs ▸ he))
    refine ⟨ended_lines _,?_,fun e he => mem_of_shownLast (hs ▸ hrecorded ▸ he)⟩
    show shownLast (recorded fromSlice _) = _
    rw [hrecorded, hs, shownLast_shownLast]
  · exact h

theorem entries_compact : (s.compact renamed file).2.2.entries = s.entries := by
  unfold ActivityLogStore.compact
  split_ifs <;> rfl

theorem Keeps.append {e : ActivityLogEntry} (h : Keeps fromSlice log file) (hread : fromSlice e.line = some e) :
    Keeps fromSlice (log ++ [e]) (some (file.getD [] ++ (e.line ++ [lineFeed]))) := by
  have hrecorded : recordedIn fromSlice (some (file.getD [] ++ (e.line ++ [lineFeed]))) = recordedIn fromSlice file ++ [e] := by
    refine (recorded_ended h.ended hread).trans ?_
    cases file <;> rfl
  refine ⟨ended_append _ _,?_,fun d hd => ?_⟩
  · rw [hrecorded, ← shownLast_append, h.shown, shownLast_append]
  · rw [hrecorded] at hd
    exact mem_append.mpr ((mem_append.mp hd).imp_left (h.known d))

theorem Keeps.refresh (hread : ∀ e ∈ log, fromSlice e.line = some e) (h : Keeps fromSlice log file) :
    Keeps fromSlice log (s.refresh fromSlice readable renamed file).2.1 ∧
      (readable = true → (s.refresh fromSlice readable renamed file).2.2.entries = shownLast log) := by
  unfold ActivityLogStore.refresh
  cases readable with
  | false => exact ⟨h,fun hreadable => absurd hreadable Bool.false_ne_true⟩
  | true =>
    cases file with
    | none =>
      have hnone : shownLast [] = [] := rtake_nil _
      exact ⟨h,fun _ => hnone.symm.trans h.shown⟩
    | some raw =>
      have hentries : (recorded fromSlice raw).foldl (fun entries e => trimToLimit (appendCollapsing entries e)) [] = shownLast log :=
        (read_eq _).trans h.shown
      simp only [Bool.not_true, Bool.false_eq_true, if_false, forall_const]
      split_ifs
      · exact ⟨h.compact hread hentries,entries_compact.trans hentries⟩
      · exact ⟨h,hentries⟩

theorem update_entries {stores : ι → ActivityLogStore} {current : Set ι} {i : ι} (h : ∀ j ∈ current, j ≠ i → (stores j).entries = shownLast log)
    (hi : i ∈ current → s.entries = shownLast log) :
    ∀ j ∈ current, (Function.update stores i s j).entries = shownLast log := by
  intro j hj
  by_cases hji : j = i
  · subst hji
    rw [Function.update_self]
    exact hi hj
  · rw [Function.update_of_ne hji]
    exact h j hj hji

/-- Whichever frontends read and write, the file shows the last of all that was written, and so do the frontends that are up
to date: replacing the file loses nothing that would be shown. -/
theorem activity_log_shows_what_was_written {start w : SharedLog ι} {written : List ActivityLogEntry} {current : Set ι}
    (h : Shares fromSlice start written current w) (hended : Ended (start.file.getD []))
    (hread : ∀ e ∈ recordedIn fromSlice start.file ++ written, fromSlice e.line = some e) :
    shownLast (recordedIn fromSlice w.file) = shownLast (recordedIn fromSlice start.file ++ written) ∧
      ∀ i ∈ current, (w.stores i).entries = shownLast (recordedIn fromSlice start.file ++ written) := by
  suffices hkeeps : Keeps fromSlice (recordedIn fromSlice start.file ++ written) w.file ∧
      ∀ i ∈ current, (w.stores i).entries = shownLast (recordedIn fromSlice start.file ++ written) from ⟨hkeeps.1.shown,hkeeps.2⟩
  induction h with
  | start => exact ⟨⟨hended,by rw [append_nil],by simp⟩,fun i hi => absurd hi (Set.notMem_empty i)⟩
  | @refresh written current w _ i readable renamed ih =>
    obtain ⟨hfile,hstores⟩ := ih hread
    obtain ⟨hfile',hentries⟩ := @Keeps.refresh _ _ _ (w.stores i) readable renamed hread hfile
    refine ⟨hfile',update_entries (fun j hj hji => hstores j ?_) fun hi => ?_⟩
    · split_ifs at hj
      · exact hj.resolve_left hji
      · exact hj
    · cases readable with
      | true => exact hentries rfl
      | false => exact hstores i hi
  | @append written current w _ i renamed e hcurrent ih =>
    rw [← append_assoc] at hread ⊢
    obtain ⟨hfile,hstores⟩ := ih fun d hd => hread d (mem_append_left _ hd)
    have happend := hfile.append (hread e (mem_append_right _ mem_cons_self))
    have hentries (hi : i ∈ current) : trimToLimit (appendCollapsing (w.stores i).entries e) =
        shownLast (recordedIn fromSlice start.file ++ written ++ [e]) := by rw [hstores i hi, shownLast_concat]
    unfold ActivityLogStore.append SharedLog.set
    dsimp only
    split_ifs with hlimit
    · have hi : i ∈ current := hcurrent.resolve_left (Nat.not_lt.mpr hlimit)
      exact ⟨happend.compact hread (hentries hi),update_entries (fun j hj hji => absurd hj.2 hji) fun _ => entries_compact.trans (hentries hi)⟩
    · exact ⟨happend,update_entries (fun j hj hji => absurd hj.2 hji) fun hi => hentries hi.1⟩
  | @missed written current w _ i renamed e ih =>
    obtain ⟨hfile,hstores⟩ := ih hread
    exact ⟨hfile,update_entries (fun j hj _ => hstores j hj.1) fun hi => absurd rfl hi.2⟩

def SharedLog.appendAll (w : SharedLog ι) (i : ι) (entries : List ActivityLogEntry) : SharedLog ι :=
  entries.foldl (fun w e => w.set i ((w.stores i).append .whole true w.file e)) w

theorem SharedLog.appendAll_concat (w : SharedLog ι) (i : ι) (log : List ActivityLogEntry) (e : ActivityLogEntry) :
    w.appendAll i (log ++ [e]) =
      (w.appendAll i log).set i (((w.appendAll i log).stores i).append .whole true (w.appendAll i log).file e) := by
  rw [SharedLog.appendAll, foldl_append]
  rfl

theorem Shares.appendAll {start w : SharedLog ι} {written : List ActivityLogEntry} {i : ι} (h : Shares fromSlice start written {i} w)
    (entries : List ActivityLogEntry) : Shares fromSlice start (written ++ entries) {i} (w.appendAll i entries) := by
  induction entries generalizing written w with
  | nil =>
    rw [append_nil]
    exact h
  | cons e entries ih =>
    have happend := h.append i true e (.inr rfl)
    rw [Set.inter_self] at happend
    have hrest := ih happend
    rw [append_assoc] at hrest
    exact hrest

theorem stores_appendAll {w : SharedLog ι} {i : ι} (hnew : w.stores i = {}) (hfew : log.length < compactAtPhysicalLines) :
    (w.appendAll i log).stores i = ⟨shownLast log,log.length⟩ := by
  induction log using List.reverseRecOn with
  | nil =>
    exact hnew
  | append_singleton log e ih =>
    rw [length_append, length_singleton] at hfew
    rw [SharedLog.appendAll_concat, ih (by omega)]
    simp only [SharedLog.set, Function.update_self, ActivityLogStore.append, shownLast_concat, length_append, length_singleton]
    rw [if_neg (by omega)]

/-- A frontend that has not read the file replaces it, once it reaches the limit, by what it wrote itself: the lines of the
others are lost. -/
theorem unread_lines_are_lost {w : SharedLog ι} {i : ι} (hnew : w.stores i = {}) (hread : ∀ e ∈ log, fromSlice e.line = some e)
    (hlimit : log.length = compactAtPhysicalLines) : recordedIn fromSlice (w.appendAll i log).file = shownLast log := by
  rcases eq_nil_or_concat' log with rfl | ⟨log,e,rfl⟩
  · exact absurd hlimit (by decide)
  · rw [length_append, length_singleton] at hlimit
    rw [SharedLog.appendAll_concat, stores_appendAll hnew (by omega)]
    simp only [SharedLog.set, ActivityLogStore.append, shownLast_concat]
    rw [if_pos hlimit.ge, ActivityLogStore.compact, if_pos rfl, recordedIn, Option.map_some, Option.getD_some]
    dsimp only
    apply recorded_lines
    intro e he
    exact hread e (mem_of_shownLast he)

def askedEntry : ActivityLogEntry :=
  ⟨"1".toList,"s".toList,.needsInput,5,"Fix".toList,"claude".toList,"p".toList,"Unpeel".toList,none⟩

def finishedEntry : ActivityLogEntry := { askedEntry with id := "2".toList, sessionId := "t".toList, kind := .finished }

def readAsked (line : Bytes) : Option ActivityLogEntry := [askedEntry,finishedEntry].find? (·.line = line)

def freshLog : SharedLog Bool := ⟨none,fun _ => {}⟩

/-- Two Sessions say the same again and again, until the file is replaced. -/
def oftenAsked : List ActivityLogEntry := (List.replicate maxEntries [askedEntry,finishedEntry]).flatten

def askedLog : SharedLog Bool := (freshLog.set true (ActivityLogStore.refresh readAsked true true none {})).appendAll true oftenAsked

/-- What one frontend writes, another one shows. -/
theorem oftenAsked_shown :
    recordedIn readAsked askedLog.file = shownLast oftenAsked ∧
      ((askedLog.set false ((askedLog.stores false).refresh readAsked true true askedLog.file)).stores false).entries =
        shownLast oftenAsked := by
  have hread : ∀ e ∈ oftenAsked, readAsked e.line = some e := by
    have hboth : ∀ e ∈ [askedEntry,finishedEntry], readAsked e.line = some e := by decide +kernel
    intro e he
    obtain ⟨pair,hpair,he⟩ := List.mem_flatten.mp he
    exact hboth e (eq_of_mem_replicate hpair ▸ he)
  have hfresh : Shares readAsked freshLog [] {true} (freshLog.set true (ActivityLogStore.refresh readAsked true true none {})) := by
    have hrefresh := @Shares.refresh _ _ readAsked freshLog _ _ _ Shares.start true true true
    rw [if_pos rfl, insert_empty_eq] at hrefresh
    exact hrefresh
  have hrun := Shares.refresh (hfresh.appendAll oftenAsked) false true true
  have hlimit : oftenAsked.length = compactAtPhysicalLines := by
    simp [oftenAsked, compactAtPhysicalLines]
  rw [askedLog]
  have hwritten : recordedIn readAsked freshLog.file ++ ([] ++ oftenAsked) = oftenAsked := by
    rw [show recordedIn readAsked freshLog.file = [] from rfl, nil_append, nil_append]
  have hshown := activity_log_shows_what_was_written hrun (.inl rfl) (by rw [hwritten]; exact hread)
  refine ⟨unread_lines_are_lost ?_ hread hlimit,hshown.2 false (Set.mem_insert _ _)⟩
  simp [SharedLog.set, freshLog, ActivityLogStore.refresh]

end Shared

end Unpeel.Activity
