import Unpeel.Foundation.ByteReads
import Unpeel.Foundation.Utf8Lossy
import Unpeel.Pairing.PairingWindow

/-! # Reading a request

A request is read off a stream that may be cut anywhere. What is behind its body is put
back in front of the connection.
-/
namespace Unpeel.Remote
open Manifest Pairing Utf8 ByteReads List

def maxHeaderBytes : ℕ := 16 * 1024

def maxBodyBytes : ℕ := 1024 * 1024

def headerTerminator : List UInt8 := [0x0d,0x0a,0x0d,0x0a]

structure Request where
  method : Text
  path : Text
  query : Text → Option Text
  headers : Text → Option Text
  body : List UInt8

structure PrefixedStream where
  prefixBytes : List UInt8
  pos : ℕ
  inner : List ReadEvent

def PrefixedStream.read (n : ℕ) (stream : PrefixedStream) : Except Text (List UInt8) × PrefixedStream :=
  if stream.pos < stream.prefixBytes.length then
    let k := min (stream.prefixBytes.length - stream.pos) n
    (.ok ((stream.prefixBytes.drop stream.pos).take k),{ stream with pos := stream.pos + k })
  else
    let (result,inner) := ByteReads.read n stream.inner
    (result,{ stream with inner := inner })

/-! ### Text -/

/-- `str::split("\r\n")`. -/
def splitLines : Text → List Text
  | [] => [[]]
  | '\r' :: '\n' :: text => [] :: splitLines text
  | c :: text => ((c :: (splitLines text).headD []) :: (splitLines text).tail)

def splitWhitespace (text : Text) : List Text := (text.splitOnP isWhitespace).filter (· ≠ [])

/-- `str::parse::<usize>`. -/
def parseUsize (text : Text) : Option ℕ :=
  let digits := (strip ['+'] text).getD text
  if digits ≠ [] ∧ digits.all Char.isDigit then
    let n := digits.foldl (fun n c => n * 10 + (c.toNat - '0'.toNat)) 0
    if n < 2 ^ 64 then some n else none
  else none

def hexValue (c : Char) : Option ℕ :=
  if c.isDigit then some (c.toNat - '0'.toNat)
  else if 'a'.toNat ≤ c.toNat ∧ c.toNat ≤ 'f'.toNat then some (c.toNat - 'a'.toNat + 10)
  else if 'A'.toNat ≤ c.toNat ∧ c.toNat ≤ 'F'.toNat then some (c.toNat - 'A'.toNat + 10)
  else none

/-- `u8::from_str_radix` with radix 16; a plus sign may come first. -/
def byteFromHex (text : Text) : Option UInt8 :=
  let digits := (strip ['+'] text).getD text
  if digits = [] then none
  else do
    let values ← digits.mapM hexValue
    let n := values.foldl (fun n value => n * 16 + value) 0
    if n < 2 ^ 8 then some (UInt8.ofNat n) else none

def urlDecodeBytes : List UInt8 → List UInt8
  | [] => []
  | b :: bytes =>
    if b = 0x25 then
      match if 2 ≤ bytes.length then byteFromHex (fromUtf8Lossy (bytes.take 2)) else none with
      | some byte => byte :: urlDecodeBytes (bytes.drop 2)
      | none => 0x25 :: urlDecodeBytes bytes
    else if b = 0x2b then 0x20 :: urlDecodeBytes bytes
    else b :: urlDecodeBytes bytes
termination_by bytes => bytes.length
decreasing_by all_goals (simp only [List.length_cons, List.length_drop]; omega)

def urlDecode (value : Text) : Text := fromUtf8Lossy (urlDecodeBytes (encode value))

/-- `split_target`. -/
def splitTarget (target : Text) : Text × (Text → Option Text) :=
  let (path,rawQuery) := (splitOnce '?' target).getD (target,[])
  let pairs := (rawQuery.splitOn '&').filter (· ≠ [])
  (path,pairs.foldl (fun query pair =>
    let (key,value) := (splitOnce '=' pair).getD (pair,[])
    Function.update query (urlDecode key) (some (urlDecode value))) fun _ => none)

/-! ### Reading -/

def findHeaderEnd : List UInt8 → Option ℕ
  | [] => none
  | b :: buffer => if headerTerminator <+: b :: buffer then some 0 else (findHeaderEnd buffer).map (· + 1)

def readHeader (buffer : List UInt8) (stream : List ReadEvent) : Except Text (ℕ × List UInt8) × List ReadEvent :=
  if maxHeaderBytes < buffer.length then (.error "Request headers too large".toList,stream)
  else
    match _h : ByteReads.read 1024 stream with
    | (.error error,stream) => (.error ("Failed to read request: ".toList ++ error),stream)
    | (.ok [],stream) => (.error "Connection closed before request was complete".toList,stream)
    | (.ok (b :: chunk),rest) =>
      match findHeaderEnd (buffer ++ b :: chunk) with
      | some headerEnd => (.ok (headerEnd,buffer ++ b :: chunk),rest)
      | none => readHeader (buffer ++ b :: chunk) rest
termination_by remaining stream
decreasing_by exact remaining_read_cons _h

def readBody (contentLength : ℕ) (rest : List UInt8) (stream : List ReadEvent) : Except Text (List UInt8) × List ReadEvent :=
  if rest.length < contentLength then
    match _h : ByteReads.read 4096 stream with
    | (.error error,stream) => (.error ("Failed to read request body: ".toList ++ error),stream)
    | (.ok [],stream) => (.error "Connection closed before body was complete".toList,stream)
    | (.ok (b :: chunk),stream) => readBody contentLength (rest ++ b :: chunk) stream
  else (.ok rest,stream)
termination_by remaining stream
decreasing_by exact remaining_read_cons _h

section Request
variable (toUppercase toLowercase : Text → Text)

def headerOf (line : Text) : Option (Text × Text) :=
  (splitOnce ':' line).map fun (name,value) => (toLowercase (trim name),trim value)

def parseHeader (head : List UInt8) : Except Text (Text × Text × (Text → Option Text)) :=
  let lines := splitLines (fromUtf8Lossy head)
  let parts := splitWhitespace (lines.headD [])
  let method := toUppercase (parts.headD [])
  let target := parts.tail.headD []
  if method = [] ∨ target = [] then .error "Malformed request line".toList
  else
    .ok (method,target,lines.tail.foldl (fun headers line =>
      match headerOf toLowercase line with
      | some (name,value) => Function.update headers name (some value)
      | none => headers) fun _ => none)

def contentLength (headers : Text → Option Text) : ℕ := ((headers "content-length".toList).bind parseUsize).getD 0

/-- `read_request`: the request, and the bytes that were read behind its body. -/
def readRequest (stream : List ReadEvent) : Except Text (Request × List UInt8) × List ReadEvent :=
  match readHeader [] stream with
  | (.error error,stream) => (.error error,stream)
  | (.ok (headerEnd,buffer),stream) =>
    match parseHeader toUppercase toLowercase (buffer.take headerEnd) with
    | .error error => (.error error,stream)
    | .ok (method,target,headers) =>
      let (path,query) := splitTarget target
      if maxBodyBytes < contentLength headers then (.error "Request body too large".toList,stream)
      else
        match readBody (contentLength headers) (buffer.drop (headerEnd + 4)) stream with
        | (.error error,stream) => (.error error,stream)
        | (.ok rest,stream) =>
          (.ok (⟨method,path,query,headers,rest.take (contentLength headers)⟩,rest.drop (contentLength headers)),stream)

/-! ### The requests of a stream -/

def lastValue (lines : List Text) (name : Text) : Option Text :=
  ((lines.filterMap (headerOf toLowercase)).reverse.find? (·.1 = name)).map (·.2)

def EndsFirst (head : List UInt8) : Prop := ∀ front back, head ++ headerTerminator = front ++ headerTerminator ++ back → back = []

structure Parses (bytes head : List UInt8) (request : Request) (after : List UInt8) : Prop where
  split : bytes = head ++ headerTerminator ++ (request.body ++ after)
  first : EndsFirst head
  line : ∃ word target more, splitWhitespace ((splitLines (fromUtf8Lossy head)).headD []) = word :: target :: more ∧
    request.method = toUppercase word ∧ toUppercase word ≠ [] ∧ (request.path,request.query) = splitTarget target
  headers : request.headers = lastValue toLowercase (splitLines (fromUtf8Lossy head)).tail
  length : request.body.length = contentLength request.headers
  small : contentLength request.headers ≤ maxBodyBytes

end Request

def PrefixedStream.readAll : List ℕ → PrefixedStream → List UInt8
  | [], _ => []
  | n :: sizes, stream =>
    match stream.read n with
    | (.ok bytes,stream) => bytes ++ stream.readAll sizes
    | (.error _,_) => []

structure PrefixedStream.Serves (stream : PrefixedStream) (bytes : List UInt8) : Prop where
  inOrder : ∀ sizes, stream.readAll sizes <+: bytes
  complete : ∀ sizes, (∀ n ∈ sizes, 0 < n) → bytes.length ≤ sizes.length → stream.readAll sizes = bytes

/-- From this stream the request is read that the bytes are, and a reader gets the rest of them;
a head that is too long is refused. -/
def Agrees (toUppercase toLowercase : Text → Text) (bytes : List UInt8) (stream : List ReadEvent) : Prop :=
  ∀ request after,
    (∃ leftover rest, readRequest toUppercase toLowercase stream = (.ok (request,leftover),rest) ∧
      (PrefixedStream.mk leftover 0 rest).Serves after) ↔
    ∃ head, Parses toUppercase toLowercase bytes head request after ∧ head.length ≤ maxHeaderBytes

/-! ### The end of the head -/

variable {bytes buffer head rest : List UInt8} {stream : List ReadEvent} {headerEnd : ℕ}

theorem findHeaderEnd_eq_some : findHeaderEnd bytes = some headerEnd ↔
    ∃ head rest, bytes = head ++ headerTerminator ++ rest ∧ headerEnd = head.length ∧ EndsFirst head := by
  induction bytes generalizing headerEnd with
  | nil =>
    refine ⟨fun h => (by cases h),?_⟩
    rintro ⟨head,rest,h,-,-⟩
    exact absurd h.symm (by simp [headerTerminator])
  | cons b bytes ih =>
    rw [findHeaderEnd]
    by_cases hstart : headerTerminator <+: b :: bytes
    · rw [if_pos hstart]
      constructor
      · intro h
        obtain ⟨rest,hrest⟩ := hstart
        refine ⟨[],rest,hrest.symm,(Option.some.inj h).symm,fun front back hback => ?_⟩
        have hlength := congrArg List.length hback
        simp only [length_append, length_nil] at hlength
        exact eq_nil_of_length_eq_zero (by omega)
      · rintro ⟨head,rest,hbytes,rfl,hfirst⟩
        cases head with
        | nil => rfl
        | cons c head =>
          have hlength : headerTerminator.length ≤ (c :: head ++ headerTerminator).length := by
            rw [length_append]
            omega
          rw [hbytes] at hstart
          obtain ⟨back,hback⟩ := prefix_of_prefix_length_le hstart (prefix_append _ rest) hlength
          have hnil := hfirst [] back hback.symm
          rw [hnil, append_nil] at hback
          have hcount := congrArg List.length hback
          rw [length_append, length_cons] at hcount
          omega
    · rw [if_neg hstart]
      constructor
      · intro h
        obtain ⟨k,hk,rfl⟩ := Option.map_eq_some_iff.mp h
        obtain ⟨head,rest,rfl,rfl,hfirst⟩ := ih.mp hk
        refine ⟨b :: head,rest,rfl,rfl,fun front back hback => ?_⟩
        cases front with
        | nil => exact absurd ⟨back ++ rest,by rw [← append_assoc, ← nil_append headerTerminator, ← hback]; rfl⟩ hstart
        | cons c front => exact hfirst front back (List.cons.inj hback).2
      · rintro ⟨head,rest,hbytes,rfl,hfirst⟩
        cases head with
        | nil => exact absurd ⟨rest,hbytes.symm⟩ hstart
        | cons c head =>
          obtain ⟨rfl,hrest⟩ := List.cons.inj hbytes
          refine Option.map_eq_some_iff.mpr ⟨head.length,ih.mpr ⟨head,rest,hrest,rfl,fun front back hback => ?_⟩,rfl⟩
          exact hfirst (b :: front) back (congrArg (b :: ·) hback)

theorem findHeaderEnd_split (h : findHeaderEnd bytes = some headerEnd) :
    ∃ head rest, bytes = head ++ headerTerminator ++ rest ∧ headerEnd = head.length ∧ EndsFirst head := findHeaderEnd_eq_some.mp h

theorem findHeaderEnd_length (h : findHeaderEnd bytes = some headerEnd) : headerEnd + 4 ≤ bytes.length := by
  obtain ⟨head,rest,rfl,rfl,-⟩ := findHeaderEnd_split h
  rw [length_append, length_append]
  exact Nat.le_add_right _ _

theorem findHeaderEnd_append (h : findHeaderEnd bytes = some headerEnd) (more : List UInt8) :
    findHeaderEnd (bytes ++ more) = some headerEnd := by
  obtain ⟨head,rest,rfl,hlength,hfirst⟩ := findHeaderEnd_split h
  exact findHeaderEnd_eq_some.mpr ⟨head,rest ++ more,by rw [append_assoc],hlength,hfirst⟩

theorem findHeaderEnd_front {more : List UInt8} (h : findHeaderEnd (bytes ++ more) = some headerEnd)
    (hlength : headerEnd + 4 ≤ bytes.length) : findHeaderEnd bytes = some headerEnd := by
  obtain ⟨head,rest,hsplit,rfl,hfirst⟩ := findHeaderEnd_split h
  have hle : (head ++ headerTerminator).length ≤ bytes.length := by
    rwa [length_append]
  have hprefix := prefix_of_prefix_length_le (prefix_append (head ++ headerTerminator) rest)
    (hsplit ▸ prefix_append bytes more) hle
  obtain ⟨later,rfl⟩ := hprefix
  exact findHeaderEnd_eq_some.mpr ⟨head,later,rfl,rfl,hfirst⟩

/-! ### The head, however it comes -/

theorem readHeader_step (h : Cut stream bytes) (hsize : buffer.length ≤ maxHeaderBytes) :
    (bytes = [] ∧ ∃ error rest, readHeader buffer stream = (.error error,rest)) ∨
    ∃ b chunk bytes' stream', bytes = b :: chunk ++ bytes' ∧ chunk.length ≤ 1023 ∧ Cut stream' bytes' ∧
      ByteReads.read 1024 stream = (.ok (b :: chunk),stream') ∧
      ((∃ headerEnd, findHeaderEnd (buffer ++ b :: chunk) = some headerEnd ∧
          readHeader buffer stream = (.ok (headerEnd,buffer ++ b :: chunk),stream')) ∨
        findHeaderEnd (buffer ++ b :: chunk) = none ∧ readHeader buffer stream = readHeader (buffer ++ b :: chunk) stream') := by
  rw [readHeader, if_neg (Nat.not_lt_of_le hsize)]
  by_cases hne : bytes = []
  · subst hne
    refine .inl ⟨rfl,?_⟩
    split
    next error rest hread => exact ⟨_,_,rfl⟩
    next rest hread => exact ⟨_,_,rfl⟩
    next b chunk rest hread =>
      rw [h.read_nil] at hread
      cases hread
  · obtain ⟨b,chunk,bytes',stream',hread,hchunk,hbytes,hcut⟩ := h.read_cons hne 1023
    refine .inr ⟨b,chunk,bytes',stream',hbytes,hchunk,hcut,hread,?_⟩
    split
    next error rest hother =>
      rw [hread] at hother
      cases hother
    next rest hother =>
      rw [hread] at hother
      cases hother
    next b' chunk' rest hother =>
      rw [hread] at hother
      cases hother
      split
      next headerEnd hfound => exact .inl ⟨headerEnd,hfound,rfl⟩
      next hfound => exact .inr ⟨hfound,rfl⟩

theorem readHeader_too_large (h : maxHeaderBytes < buffer.length) (stream : List ReadEvent) :
    readHeader buffer stream = (.error "Request headers too large".toList,stream) := by
  rw [readHeader, if_pos h]

/-- A head that was read is the head of the stream, and is not much too long. -/
theorem readHeader_sound {buffer' : List UInt8} {stream' : List ReadEvent} (h : Cut stream bytes)
    (hread : readHeader buffer stream = (.ok (headerEnd,buffer'),stream')) :
    findHeaderEnd buffer' = some headerEnd ∧ headerEnd + 4 ≤ maxHeaderBytes + 1024 ∧
      ∃ rest, buffer ++ bytes = buffer' ++ rest ∧ Cut stream' rest := by
  induction hn : remaining stream using Nat.strong_induction_on generalizing buffer stream bytes with
  | _ n ih =>
    rcases Nat.lt_or_ge maxHeaderBytes buffer.length with hlarge | hsize
    · rw [readHeader_too_large hlarge] at hread
      cases hread
    obtain ⟨-,error,rest,herror⟩ | ⟨b,chunk,bytes',stream₁,rfl,hchunk,hcut,hpiece,hfound⟩ := readHeader_step h hsize
    · rw [herror] at hread
      cases hread
    rcases hfound with ⟨found,hfound,hok⟩ | ⟨hnone,hgo⟩
    · rw [hok] at hread
      cases hread
      have hlength := findHeaderEnd_length hfound
      rw [length_append, length_cons] at hlength
      exact ⟨hfound,by omega,bytes',by rw [append_assoc],hcut⟩
    · rw [hgo] at hread
      obtain ⟨hend,hbound,rest,hrest,hcut'⟩ := ih _ (hn ▸ remaining_read_cons hpiece) hcut hread rfl
      exact ⟨hend,hbound,rest,by rw [← hrest, append_assoc],hcut'⟩

theorem readHeader_start {stream' : List ReadEvent} (h : Cut stream bytes)
    (hread : readHeader [] stream = (.ok (headerEnd,buffer),stream')) :
    findHeaderEnd buffer = some headerEnd ∧ findHeaderEnd bytes = some headerEnd ∧ headerEnd + 4 ≤ maxHeaderBytes + 1024 ∧
      ∃ rest, bytes = buffer ++ rest ∧ Cut stream' rest := by
  obtain ⟨hfound,hbound,rest,hrest,hcut⟩ := readHeader_sound h hread
  rw [nil_append] at hrest
  exact ⟨hfound,hrest ▸ findHeaderEnd_append hfound rest,hbound,rest,hrest,hcut⟩

/-- A head that is short enough is read. -/
theorem readHeader_complete (h : Cut stream bytes) (hnone : findHeaderEnd buffer = none)
    (hend : findHeaderEnd (buffer ++ bytes) = some headerEnd) (hshort : headerEnd + 4 ≤ maxHeaderBytes + 1) :
    ∃ result stream', readHeader buffer stream = (.ok result,stream') := by
  induction hn : remaining stream using Nat.strong_induction_on generalizing buffer stream bytes with
  | _ n ih =>
    have hsize : buffer.length ≤ maxHeaderBytes := by
      by_contra hlarge
      have hfound := findHeaderEnd_front hend (by omega)
      rw [hnone] at hfound
      cases hfound
    obtain ⟨rfl,-⟩ | ⟨b,chunk,bytes',stream₁,rfl,-,hcut,hpiece,hfound⟩ := readHeader_step h hsize
    · rw [append_nil, hnone] at hend
      cases hend
    rcases hfound with ⟨found,hfound,hok⟩ | ⟨hnone',hgo⟩
    · exact ⟨_,_,hok⟩
    · rw [hgo]
      rw [← append_assoc] at hend
      exact ih _ (hn ▸ remaining_read_cons hpiece) hcut hnone' hend rfl

def bytewise (bytes : List UInt8) : List ReadEvent := bytes.map fun b => .data [b]

theorem cut_bytewise (bytes : List UInt8) : Cut (bytewise bytes) bytes := by
  induction bytes with
  | nil => exact .done
  | cons b bytes ih => exact .data b [] ih

def whole : List UInt8 → List ReadEvent
  | [] => []
  | b :: bytes => [.data (b :: bytes)]

theorem cut_whole (bytes : List UInt8) : Cut (whole bytes) bytes := by
  cases bytes with
  | nil => exact .done
  | cons b bytes =>
    have h := Cut.data b bytes .done
    rwa [append_nil] at h

theorem read_whole (n : ℕ) (hne : bytes ≠ []) : ByteReads.read n (whole bytes) = (.ok (bytes.take n),whole (bytes.drop n)) := by
  cases bytes with
  | nil => exact absurd rfl hne
  | cons b bytes =>
    rw [whole, ByteReads.read]
    split
    next hle => rw [take_of_length_le hle, drop_of_length_le hle, whole]
    next hle =>
      obtain ⟨c,later,hlater⟩ : ∃ c later, (b :: bytes).drop n = c :: later := exists_cons_of_ne_nil fun hnil =>
        hle (drop_eq_nil_iff.mp hnil)
      rw [hlater, whole]

/-- Byte by byte, a head is refused as soon as the limit lies before its end. -/
theorem readHeader_bytewise (hnone : findHeaderEnd buffer = none) (hend : findHeaderEnd (buffer ++ bytes) = some headerEnd)
    (hlong : maxHeaderBytes + 1 < headerEnd + 4) : ∃ error rest, readHeader buffer (bytewise bytes) = (.error error,rest) := by
  induction bytes generalizing buffer with
  | nil =>
    rw [append_nil, hnone] at hend
    cases hend
  | cons b bytes ih =>
    rcases Nat.lt_or_ge maxHeaderBytes buffer.length with hlarge | hsize
    · exact ⟨_,_,readHeader_too_large hlarge _⟩
    obtain ⟨hnil,-⟩ | ⟨c,chunk,bytes',stream',-,-,-,hpiece,hfound⟩ := readHeader_step (cut_bytewise (b :: bytes)) hsize
    · cases hnil
    obtain ⟨hchunk,rfl⟩ := Prod.mk.inj (show (Except.ok [b],bytewise bytes) = _ from hpiece)
    obtain ⟨rfl,rfl⟩ := List.cons.inj (Except.ok.inj hchunk)
    rw [append_cons] at hend
    rcases hfound with ⟨found,hfound,-⟩ | ⟨hnone',hgo⟩
    · have hsame := Option.some.inj ((findHeaderEnd_append hfound bytes).symm.trans hend)
      have hlength := findHeaderEnd_length hfound
      rw [length_append, length_singleton] at hlength
      omega
    · rw [hgo]
      exact ih hnone' hend

/-- In full reads, a head is read that ends within one read of the limit. -/
theorem readHeader_whole (haligned : 1024 ∣ buffer.length) (hnone : findHeaderEnd buffer = none)
    (hend : findHeaderEnd (buffer ++ bytes) = some headerEnd) (hshort : headerEnd + 4 ≤ maxHeaderBytes + 1024) :
    ∃ result stream', readHeader buffer (whole bytes) = (.ok result,stream') := by
  induction hn : bytes.length using Nat.strong_induction_on generalizing buffer bytes with
  | _ n ih =>
    have hsize : buffer.length ≤ maxHeaderBytes := by
      by_contra hlarge
      have hfull : maxHeaderBytes + 1024 ≤ buffer.length := by
        unfold maxHeaderBytes at hlarge ⊢
        omega
      have hfound := findHeaderEnd_front hend (by omega)
      rw [hnone] at hfound
      cases hfound
    have hne : bytes ≠ [] := by
      rintro rfl
      rw [append_nil, hnone] at hend
      cases hend
    obtain ⟨hnil,-⟩ | ⟨c,chunk,bytes',stream',-,-,-,hpiece,hfound⟩ := readHeader_step (cut_whole bytes) hsize
    · exact absurd hnil hne
    obtain ⟨hchunk,rfl⟩ := Prod.mk.inj ((read_whole 1024 hne).symm.trans hpiece)
    rcases hfound with ⟨found,-,hok⟩ | ⟨hnone',hgo⟩
    · exact ⟨_,_,hok⟩
    · rw [hgo]
      have hread := Except.ok.inj hchunk
      rw [← hread] at hnone' ⊢
      rcases Nat.lt_or_ge bytes.length 1024 with hlast | hmore
      · rw [take_of_length_le hlast.le, hend] at hnone'
        cases hnone'
      · refine ih (bytes.drop 1024).length ?_ ?_ hnone' ?_ rfl
        · rw [length_drop]
          omega
        · rw [length_append, length_take_of_le hmore]
          exact Nat.dvd_add haligned (Nat.dvd_refl _)
        · rwa [append_assoc, take_append_drop]

/-! ### The body -/

theorem readBody_enough {contentLength : ℕ} (h : Cut stream bytes) (hlength : contentLength ≤ (buffer ++ bytes).length) :
    ∃ read rest stream', readBody contentLength buffer stream = (.ok read,stream') ∧ buffer ++ bytes = read ++ rest ∧
      contentLength ≤ read.length ∧ Cut stream' rest := by
  induction hn : remaining stream using Nat.strong_induction_on generalizing buffer stream bytes with
  | _ n ih =>
    rw [readBody]
    split
    next hshort =>
      have hne : bytes ≠ [] := by
        rintro rfl
        rw [append_nil] at hlength
        omega
      obtain ⟨b,chunk,bytes',stream₁,hread,-,rfl,hcut⟩ := h.read_cons hne 4095
      split
      next error rest hother =>
        rw [hread] at hother
        cases hother
      next rest hother =>
        rw [hread] at hother
        cases hother
      next b' chunk' rest hother =>
        rw [hread] at hother
        cases hother
        rw [← append_assoc] at hlength ⊢
        exact ih _ (hn ▸ remaining_read_cons hread) hcut hlength rfl
    next henough => exact ⟨buffer,bytes,stream,rfl,rfl,Nat.le_of_not_lt henough,h⟩

theorem readBody_short {contentLength : ℕ} (h : Cut stream bytes) (hlength : (buffer ++ bytes).length < contentLength) :
    ∃ error rest, readBody contentLength buffer stream = (.error error,rest) := by
  induction hn : remaining stream using Nat.strong_induction_on generalizing buffer stream bytes with
  | _ n ih =>
    rw [readBody, if_pos (by rw [length_append] at hlength; omega)]
    split
    next error rest hread => exact ⟨_,_,rfl⟩
    next rest hread => exact ⟨_,_,rfl⟩
    next b chunk rest hread =>
      by_cases hne : bytes = []
      · subst hne
        rw [h.read_nil] at hread
        cases hread
      · obtain ⟨b',chunk',bytes',stream₁,hsame,-,rfl,hcut⟩ := h.read_cons hne 4095
        obtain ⟨hchunk,rfl⟩ := Prod.mk.inj (hsame.symm.trans hread)
        obtain ⟨rfl,rfl⟩ := List.cons.inj (Except.ok.inj hchunk)
        rw [← append_assoc] at hlength
        exact ih _ (hn ▸ remaining_read_cons hread) hcut hlength rfl

/-! ### What is in the head -/

section Head
variable {toUppercase toLowercase : Text → Text}

theorem lastValue_concat (lines : List Text) (line : Text) : lastValue toLowercase (lines ++ [line]) =
    match headerOf toLowercase line with
    | some (name,value) => Function.update (lastValue toLowercase lines) name (some value)
    | none => lastValue toLowercase lines := by
  funext name
  unfold lastValue
  rw [filterMap_append, filterMap_cons, filterMap_nil]
  cases headerOf toLowercase line with
  | none => rw [append_nil]
  | some header =>
    obtain ⟨key,value⟩ := header
    rw [reverse_append, reverse_singleton, singleton_append, find?_cons]
    by_cases hname : key = name
    · rw [hname]
      simp
    · simp [hname, Function.update_of_ne (Ne.symm hname)]

theorem foldl_headers (lines : List Text) : lines.foldl (fun (headers : Text → Option Text) line =>
    match headerOf toLowercase line with
    | some (name,value) => Function.update headers name (some value)
    | none => headers) (fun _ => none) = lastValue toLowercase lines := by
  induction lines using List.reverseRecOn with
  | nil => rfl
  | append_singleton lines line ih =>
    rw [foldl_append, ih, lastValue_concat]
    rfl

theorem mem_splitWhitespace {text word : Text} (h : word ∈ splitWhitespace text) : word ≠ [] :=
  of_decide_eq_true (mem_filter.mp h).2

theorem parseHeader_eq_ok {method target : Text} {headers : Text → Option Text} :
    parseHeader toUppercase toLowercase head = .ok (method,target,headers) ↔
      (∃ word more, splitWhitespace ((splitLines (fromUtf8Lossy head)).headD []) = word :: target :: more ∧
        method = toUppercase word ∧ toUppercase word ≠ []) ∧
      headers = lastValue toLowercase (splitLines (fromUtf8Lossy head)).tail := by
  unfold parseHeader
  dsimp only
  rw [foldl_headers]
  cases hwords : splitWhitespace ((splitLines (fromUtf8Lossy head)).headD []) with
  | nil =>
    rw [if_pos (.inr rfl)]
    refine ⟨fun h => (by cases h),?_⟩
    rintro ⟨⟨word,more,h,-⟩,-⟩
    cases h
  | cons word words =>
    cases words with
    | nil =>
      rw [if_pos (.inr rfl)]
      refine ⟨fun h => (by cases h),?_⟩
      rintro ⟨⟨word,more,h,-⟩,-⟩
      cases h
    | cons second more =>
      have hsecond : second ≠ [] := mem_splitWhitespace (hwords ▸ mem_cons_of_mem _ mem_cons_self)
      by_cases hmethod : toUppercase word = []
      · rw [if_pos (.inl hmethod)]
        refine ⟨fun h => (by cases h),?_⟩
        rintro ⟨⟨word',more',h,-,hne⟩,-⟩
        obtain ⟨rfl,-⟩ := List.cons.inj h
        exact absurd hmethod hne
      · rw [if_neg (by rintro (h | h) <;> contradiction)]
        constructor
        · intro h
          cases h
          exact ⟨⟨word,more,rfl,rfl,hmethod⟩,rfl⟩
        · rintro ⟨⟨word',more',h,rfl,-⟩,rfl⟩
          obtain ⟨rfl,rfl,-⟩ := h
          rfl

end Head

/-! ### What is behind the request -/

def PrefixedStream.Rest (stream : PrefixedStream) (bytes : List UInt8) : Prop :=
  ∃ later, bytes = stream.prefixBytes.drop stream.pos ++ later ∧ Cut stream.inner later

theorem cut_read_zero {later : List UInt8} (h : Cut stream later) : ByteReads.read 0 stream = (.ok [],stream) := by
  cases h with
  | done => rfl
  | data b piece _ =>
    rw [ByteReads.read, length_cons, if_neg (Nat.not_succ_le_zero _), take_zero, drop_zero]

theorem PrefixedStream.read_spec {stream : PrefixedStream} (h : stream.Rest bytes) (n : ℕ) :
    ∃ out stream' rest, stream.read n = (.ok out,stream') ∧ bytes = out ++ rest ∧ stream'.Rest rest ∧
      (0 < n → bytes ≠ [] → out ≠ []) := by
  obtain ⟨later,rfl,hcut⟩ := h
  by_cases hpos : stream.pos < stream.prefixBytes.length
  · have hlength : (stream.prefixBytes.drop stream.pos).length = stream.prefixBytes.length - stream.pos := length_drop
    refine ⟨_,_,stream.prefixBytes.drop (stream.pos + min (stream.prefixBytes.length - stream.pos) n) ++ later,if_pos hpos,?_,
      ⟨later,rfl,hcut⟩,fun hn _ hnil => ?_⟩
    · rw [← append_assoc, ← drop_drop, take_append_drop]
    · rw [take_eq_nil_iff] at hnil
      rcases hnil with hzero | hnil
      · omega
      · rw [hnil, length_nil] at hlength
        omega
  · have hnone : stream.prefixBytes.drop stream.pos = [] := drop_eq_nil_of_le (Nat.le_of_not_lt hpos)
    have hread : stream.read n = ((ByteReads.read n stream.inner).1,{ stream with inner := (ByteReads.read n stream.inner).2 }) :=
      if_neg hpos
    rw [hread, hnone, nil_append]
    have hrest : ∀ inner later', Cut inner later' → ({ stream with inner := inner } : PrefixedStream).Rest later' := by
      intro inner later' hcut'
      refine ⟨later',?_,hcut'⟩
      rw [hnone, nil_append]
    cases n with
    | zero =>
      rw [cut_read_zero hcut]
      exact ⟨[],_,later,rfl,rfl,hrest _ _ hcut,fun h => absurd h (Nat.lt_irrefl 0)⟩
    | succ n =>
      by_cases hne : later = []
      · subst hne
        rw [hcut.read_nil]
        exact ⟨[],_,[],rfl,rfl,hrest _ _ hcut,fun _ h => absurd rfl h⟩
      · obtain ⟨b,chunk,rest,inner,hpiece,-,hsplit,hcut'⟩ := hcut.read_cons hne n
        rw [hpiece]
        exact ⟨b :: chunk,_,rest,rfl,hsplit,hrest _ _ hcut',fun _ _ => cons_ne_nil _ _⟩

theorem PrefixedStream.Rest.serves {stream : PrefixedStream} (h : stream.Rest bytes) : stream.Serves bytes := by
  constructor
  · intro sizes
    induction sizes generalizing stream bytes with
    | nil => exact ⟨bytes,rfl⟩
    | cons n sizes ih =>
      obtain ⟨out,stream',rest,hread,rfl,hrest,-⟩ := stream.read_spec h n
      rw [readAll, hread]
      exact (prefix_append_right_inj out).mpr (ih hrest)
  · intro sizes hpos hlength
    induction sizes generalizing stream bytes with
    | nil => exact (eq_nil_of_length_eq_zero (Nat.le_zero.mp hlength)).symm
    | cons n sizes ih =>
      obtain ⟨out,stream',rest,hread,hsplit,hrest,hout⟩ := stream.read_spec h n
      rw [readAll, hread, hsplit]
      refine congrArg (out ++ ·) (ih hrest (fun k hk => hpos k (mem_cons_of_mem _ hk)) ?_)
      by_cases hne : bytes = []
      · rw [(append_eq_nil_iff.mp (hsplit.symm.trans hne)).2]
        exact Nat.zero_le _
      · have hsome := length_pos_of_ne_nil (hout (hpos n mem_cons_self) hne)
        rw [hsplit, length_append, length_cons] at hlength
        omega

theorem PrefixedStream.Serves.unique {stream : PrefixedStream} {more : List UInt8} (h : stream.Serves bytes) (h' : stream.Serves more) :
    bytes = more := by
  have hpos : ∀ n ∈ List.replicate (max bytes.length more.length) 1, 0 < n := fun n hn => by
    rw [eq_of_mem_replicate hn]
    exact Nat.one_pos
  have hone := h.complete _ hpos (by rw [length_replicate]; exact Nat.le_max_left _ _)
  have hother := h'.complete _ hpos (by rw [length_replicate]; exact Nat.le_max_right _ _)
  exact hone.symm.trans hother

/-! ### The whole request -/

section Whole
variable {toUppercase toLowercase : Text → Text}

theorem Parses.found {request : Request} {after : List UInt8} (h : Parses toUppercase toLowercase bytes head request after) :
    findHeaderEnd bytes = some head.length := findHeaderEnd_eq_some.mpr ⟨head,_,h.split,rfl,h.first⟩

theorem Parses.take_head {request : Request} {after : List UInt8} (h : Parses toUppercase toLowercase bytes head request after)
    (hend : findHeaderEnd bytes = some headerEnd) : bytes.take headerEnd = head := by
  rw [← Option.some.inj (h.found.symm.trans hend), h.split, append_assoc, take_left]

/-- The request that stands behind a head. -/
theorem parses_iff {tail : List UInt8} (hbytes : bytes = head ++ headerTerminator ++ tail) (hfirst : EndsFirst head) (request : Request)
    (after : List UInt8) : Parses toUppercase toLowercase bytes head request after ↔
      ∃ target, parseHeader toUppercase toLowercase head = .ok (request.method,target,request.headers) ∧
        (request.path,request.query) = splitTarget target ∧ contentLength request.headers ≤ maxBodyBytes ∧
        contentLength request.headers ≤ tail.length ∧ request.body = tail.take (contentLength request.headers) ∧
        after = tail.drop (contentLength request.headers) := by
  constructor
  · rintro ⟨hsplit,-,⟨word,target,more,hwords,hmethod,hne,htarget⟩,hheaders,hlength,hsmall⟩
    have htail : tail = request.body ++ after := append_cancel_left (hbytes.symm.trans hsplit)
    refine ⟨target,parseHeader_eq_ok.mpr ⟨⟨word,more,hwords,hmethod,hne⟩,hheaders⟩,htarget,hsmall,?_,?_,?_⟩
    · rw [htail, length_append, hlength]
      exact Nat.le_add_right _ _
    · rw [htail, ← hlength, take_left]
    · rw [htail, ← hlength, drop_left]
  · rintro ⟨target,hparse,htarget,hsmall,hlength,hbody,hafter⟩
    obtain ⟨⟨word,more,hwords,hmethod,hne⟩,hheaders⟩ := parseHeader_eq_ok.mp hparse
    refine ⟨?_,hfirst,⟨word,target,more,hwords,hmethod,hne,htarget⟩,hheaders,?_,hsmall⟩
    · rw [hbody, hafter, take_append_drop, hbytes]
    · rw [hbody, length_take_of_le hlength]

/-- Where the head was read, the answer is that of the bytes. -/
theorem readRequest_of_header {stream' : List ReadEvent} (hread : readHeader [] stream = (.ok (headerEnd,buffer),stream'))
    (hend : findHeaderEnd buffer = some headerEnd) (hbytes : bytes = buffer ++ rest) (hcut : Cut stream' rest) (request : Request)
    (after : List UInt8) :
    (∃ leftover rest, readRequest toUppercase toLowercase stream = (.ok (request,leftover),rest) ∧
      (PrefixedStream.mk leftover 0 rest).Serves after) ↔
      Parses toUppercase toLowercase bytes (bytes.take headerEnd) request after := by
  obtain ⟨head,tail,rfl,rfl,hfirst⟩ := findHeaderEnd_split hend
  have hhead : bytes.take head.length = head := by
    rw [hbytes, append_assoc, append_assoc, take_left]
  have hparsed : (head ++ headerTerminator ++ tail).take head.length = head := by
    rw [append_assoc, take_left]
  have htail : (head ++ headerTerminator ++ tail).drop (head.length + 4) = tail := drop_left' (by rw [length_append]; rfl)
  rw [hhead, parses_iff (hbytes.trans (append_assoc ..)) hfirst]
  unfold readRequest
  rw [hread]
  dsimp only
  rw [hparsed, htail]
  cases hparse : parseHeader toUppercase toLowercase head with
  | error error =>
    constructor
    · rintro ⟨leftover,rest,h,-⟩
      cases h
    · rintro ⟨target,h,-⟩
      cases h
  | ok parsed =>
    obtain ⟨method,target,headers⟩ := parsed
    dsimp only
    by_cases hlarge : maxBodyBytes < contentLength headers
    · rw [if_pos hlarge]
      constructor
      · rintro ⟨leftover,rest,h,-⟩
        cases h
      · rintro ⟨target',h,-,hsmall,-⟩
        cases h
        omega
    · rw [if_neg hlarge]
      rcases Nat.lt_or_ge (tail ++ rest).length (contentLength headers) with hshort | henough
      · obtain ⟨error,rest',hbody⟩ := readBody_short hcut hshort
        rw [hbody]
        constructor
        · rintro ⟨leftover,rest,h,-⟩
          cases h
        · rintro ⟨target',h,-,-,hlength,-⟩
          cases h
          omega
      · obtain ⟨read,back,stream'',hbody,hsplit,hlength,hcut'⟩ := readBody_enough hcut henough
        rw [hbody]
        have hserves : (PrefixedStream.mk (read.drop (contentLength headers)) 0 stream'').Serves
            ((tail ++ rest).drop (contentLength headers)) := by
          refine PrefixedStream.Rest.serves ⟨back,?_,hcut'⟩
          rw [hsplit, drop_append_of_le_length hlength]
          rfl
        have hfront : read.take (contentLength headers) = (tail ++ rest).take (contentLength headers) := by
          rw [hsplit, take_append_of_le_length hlength]
        dsimp only
        constructor
        · rintro ⟨leftover,rest',h,hs⟩
          cases h
          exact ⟨target,rfl,rfl,Nat.le_of_not_lt hlarge,henough,hfront,hs.unique hserves⟩
        · rintro ⟨target',h,htarget,-,-,hbody',rfl⟩
          cases h
          refine ⟨_,_,?_,hserves⟩
          rw [hfront, ← htarget, ← hbody']

/-- A refused head is a refused request. -/
theorem readRequest_of_error {error : Text} {stream' : List ReadEvent} (h : readHeader [] stream = (.error error,stream')) :
    readRequest toUppercase toLowercase stream = (.error error,stream') := by
  unfold readRequest
  rw [h]

/-! ### A head of one line -/

theorem splitLines_plain {text : Text} (h : '\r' ∉ text) : splitLines text = [text] := by
  induction text with
  | nil => rfl
  | cons c text ih =>
    have hc : c ≠ '\r' := fun heq => h (heq ▸ mem_cons_self)
    have hrest := ih fun hmem => h (mem_cons_of_mem c hmem)
    rw [splitLines, hrest]
    · rfl
    · exact fun _ hcr => absurd hcr hc

theorem splitWhitespace_spaces (text : Text) (n : ℕ) : splitWhitespace (text ++ List.replicate n ' ') = splitWhitespace text := by
  induction n generalizing text with
  | zero => rw [replicate_zero, append_nil]
  | succ n ih =>
    rw [replicate_succ, splitWhitespace, splitOnP_append_cons text (List.replicate n ' ') (rfl : isWhitespace ' ' = true), List.filter_append]
    have hnone : (List.splitOnP isWhitespace (List.replicate n ' ')).filter (· ≠ []) = [] := ih []
    rw [hnone, append_nil]
    rfl

def padded (n : ℕ) : Text := ['G','E','T',' ','/'] ++ List.replicate n ' '

theorem mem_padded {n : ℕ} {c : Char} (h : c ∈ padded n) : c.toNat < 128 ∧ c ≠ '\r' := by
  rcases mem_append.mp h with hword | hspace
  · simp only [mem_cons, not_mem_nil, or_false] at hword
    rcases hword with rfl | rfl | rfl | rfl | rfl <;> decide
  · rw [eq_of_mem_replicate hspace]
    decide

theorem encode_padded (n : ℕ) : encode (padded n) = (padded n).map fun c => UInt8.ofNat c.toNat :=
  encode_ascii fun _ hc => (mem_padded hc).1

theorem length_padded (n : ℕ) : (encode (padded n)).length = 5 + n := by
  rw [encode_padded, length_map, padded, length_append, length_replicate]
  rfl

theorem endsFirst_of_not_mem (h : 0x0d ∉ head) : EndsFirst head := by
  intro front back hsplit
  rcases Nat.lt_or_ge front.length head.length with hlt | hge
  · have hat : (head ++ headerTerminator)[front.length]? = some 0x0d := by
      rw [hsplit, append_assoc, getElem?_append_right le_rfl, Nat.sub_self]
      rfl
    rw [getElem?_append_left hlt] at hat
    exact absurd (mem_of_getElem? hat) h
  · have hlength := congrArg List.length hsplit
    simp only [length_append] at hlength
    exact eq_nil_of_length_eq_zero (by omega)

theorem parses_padded (toLowercase : Text → Text) (n : ℕ) : Parses (List.map Char.toUpper) toLowercase
    (encode (padded n) ++ headerTerminator) (encode (padded n))
    ⟨"GET".toList,"/".toList,fun _ => none,fun _ => none,[]⟩ [] := by
  have hlines : splitLines (fromUtf8Lossy (encode (padded n))) = [padded n] := by
    rw [fromUtf8Lossy_encode, splitLines_plain fun hmem => (mem_padded hmem).2 rfl]
  refine ⟨by rw [append_nil, append_nil],endsFirst_of_not_mem fun hmem => ?_,?_,?_,rfl,Nat.zero_le _⟩
  · rw [encode_padded] at hmem
    obtain ⟨c,hc,hbyte⟩ := mem_map.mp hmem
    have hnat := congrArg UInt8.toNat hbyte
    rw [toNat_ofNat_of_lt ((mem_padded hc).1.trans (by decide))] at hnat
    exact (mem_padded hc).2 (Char.toNat_inj.mp hnat)
  · rw [hlines]
    refine ⟨"GET".toList,"/".toList,[],?_,by decide,by decide,by rfl⟩
    rw [headD_cons, padded, splitWhitespace_spaces]
    decide
  · rw [hlines]
    rfl

end Whole

/-- Requests are read alike, however they arrive, unless a request that is complete has a head that
ends about where the limit is. -/
theorem request_reading_iff (toUppercase toLowercase : Text → Text) (bytes : List UInt8) :
    (∀ stream, Cut stream bytes → Agrees toUppercase toLowercase bytes stream) ↔
      ¬∃ head request after, Parses toUppercase toLowercase bytes head request after ∧ maxHeaderBytes < head.length + 3 ∧
        head.length ≤ maxHeaderBytes + 1020 := by
  constructor
  · rintro hagrees ⟨head,request,after,hparses,hlow,hhigh⟩
    have hend : findHeaderEnd ([] ++ bytes) = some head.length := hparses.found
    rcases Nat.lt_or_ge maxHeaderBytes head.length with hlong | hshort
    · -- in full reads it is accepted
      have haligned : 1024 ∣ ([] : List UInt8).length := Nat.dvd_zero 1024
      obtain ⟨⟨headerEnd,buffer⟩,stream',hread⟩ := readHeader_whole haligned rfl hend (by omega)
      obtain ⟨hfound,hwhole,-,rest,hrest,hcut⟩ := readHeader_start (cut_whole bytes) hread
      have htake := hparses.take_head hwhole
      have hok := (readRequest_of_header hread hfound hrest hcut request after).mpr (htake.symm ▸ hparses)
      obtain ⟨head',hparses',hsmall⟩ := (hagrees _ (cut_whole bytes) request after).mp hok
      have hlength := Option.some.inj (hparses'.found.symm.trans hend)
      omega
    · -- byte by byte it is refused
      obtain ⟨error,rest,hread⟩ := readHeader_bytewise rfl hend (by omega)
      obtain ⟨leftover,rest',hok,-⟩ := (hagrees _ (cut_bytewise bytes) request after).mpr ⟨head,hparses,hshort⟩
      rw [readRequest_of_error hread] at hok
      cases hok
  · intro hnone stream hcut request after
    constructor
    · intro hok
      cases hread : readHeader [] stream with
      | mk result stream' =>
        cases result with
        | error error =>
          obtain ⟨leftover,rest,h,-⟩ := hok
          rw [readRequest_of_error hread] at h
          cases h
        | ok result =>
          obtain ⟨headerEnd,buffer⟩ := result
          obtain ⟨hfound,hwhole,hbound,rest,hrest,hcut'⟩ := readHeader_start hcut hread
          have hparses := (readRequest_of_header hread hfound hrest hcut' request after).mp hok
          have hlength : (bytes.take headerEnd).length = headerEnd := Option.some.inj (hparses.found.symm.trans hwhole)
          refine ⟨_,hparses,Nat.le_of_not_lt fun hlong => hnone ⟨_,request,after,hparses,?_,?_⟩⟩
          · omega
          · omega
    · rintro ⟨head,hparses,hshort⟩
      have hend : findHeaderEnd ([] ++ bytes) = some head.length := hparses.found
      have hlow : ¬maxHeaderBytes < head.length + 3 := fun hlong => hnone
        ⟨head,request,after,hparses,hlong,hshort.trans (Nat.le_add_right _ _)⟩
      obtain ⟨⟨headerEnd,buffer⟩,stream',hread⟩ := readHeader_complete hcut rfl hend (by omega)
      obtain ⟨hfound,hwhole,-,rest,hrest,hcut'⟩ := readHeader_start hcut hread
      have htake := hparses.take_head hwhole
      exact (readRequest_of_header hread hfound hrest hcut' request after).mpr (htake.symm ▸ hparses)

/-- A head that is exactly as long as it may be is refused where it comes byte by byte. -/
theorem full_head_is_refused : ¬∀ stream, Cut stream (encode (padded (maxHeaderBytes - 5)) ++ headerTerminator) →
    Agrees (List.map Char.toUpper) (List.map Char.toLower) (encode (padded (maxHeaderBytes - 5)) ++ headerTerminator) stream := by
  intro hagrees
  have hparses := parses_padded (List.map Char.toLower) (maxHeaderBytes - 5)
  have hlength : (encode (padded (maxHeaderBytes - 5))).length = maxHeaderBytes := by
    rw [length_padded]
    rfl
  have hlong : maxHeaderBytes + 1 < (encode (padded (maxHeaderBytes - 5))).length + 4 := by
    rw [hlength]
    exact Nat.add_lt_add_left (by decide) _
  have hend : findHeaderEnd ([] ++ (encode (padded (maxHeaderBytes - 5)) ++ headerTerminator)) = _ := hparses.found
  obtain ⟨error,rest,hread⟩ := readHeader_bytewise rfl hend hlong
  obtain ⟨leftover,rest',hok,-⟩ := (hagrees _ (cut_bytewise _) _ _).mpr ⟨_,hparses,hlength.le⟩
  rw [readRequest_of_error hread] at hok
  cases hok

end Unpeel.Remote
