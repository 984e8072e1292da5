import Unpeel.Remote.HttpRequest
import Unpeel.Sites.LocalUrls

/-! # The probe of a local site

A candidate counts as a website if what listens on its port answers like one. The answer is
whatever that process sends, and the front of its body is cut off at a fixed byte.
-/
namespace Unpeel.Sites
open Manifest Pairing Remote TextSlices Utf8 ByteReads List
variable {data : List UInt8}

def maxHead : ℕ := 16 * 1024

def sniffBody : ℕ := 2048

structure Connection where
  writes : Text → Bool
  answers : Text → List ReadEvent

/-! ### Text -/

def asciiLower (text : Text) : Text := text.map Char.toLower

/-- `str::lines`. -/
def textLines (text : Text) : List Text :=
  let pieces := text.splitOn '\n'
  pieces.dropLast.map (fun line => if line.getLast? = some '\r' then line.dropLast else line) ++
    pieces.getLast?.toList.filter (· ≠ [])

/-- `str::split_once` with a text. -/
def splitOnceText (pattern : Text) : Text → Option (Text × Text)
  | [] => if pattern = [] then some ([],[]) else none
  | c :: text =>
    if pattern <+: c :: text then some ([],(c :: text).drop pattern.length)
    else (splitOnceText pattern text).map fun (front,back) => (c :: front,back)

/-! ### The answer -/

def declaredLength (head : List UInt8) : Option ℕ :=
  (textLines (asciiLower (fromUtf8Lossy head))).findSome? fun line =>
    (strip "content-length:".toList line).bind fun value => parseUsize (trim value)

def enough (data : List UInt8) : Bool :=
  maxHead ≤ data.length ||
    (findHeaderEnd data).any fun headerEnd =>
      let bodyLen := data.length - (headerEnd + 4)
      sniffBody ≤ bodyLen || (declaredLength (data.take headerEnd)).any (· ≤ bodyLen)

def readAnswer (data : List UInt8) : List ReadEvent → List UInt8
  | [] => data
  | event :: events =>
    if enough data then data
    else
      match event with
      | .data (b :: chunk) => readAnswer (data ++ b :: chunk) events
      | .data [] | .interrupted | .failed _ => data

def statusOf (statusLine : Text) : Option ℕ :=
  let parts := splitWhitespace statusLine
  if parts.head?.any ("HTTP/".toList <+: ·) then parts.tail.head?.bind parseU16 else none

def headersPromisePage (lines : List Text) (body : Text) : Option Bool :=
  ((lines.takeWhile (· ≠ [])).foldlM (fun (html,emptyBody) line =>
    let lower := asciiLower line
    let html := html || decide ("content-type:".toList <+: lower ∧ "text/html".toList <:+: lower)
    if "content-length:".toList <+: lower then
      (sliceFrom lower (byteLen "content-length:".toList)).map fun value => (html,emptyBody || trim value = ['0'])
    else some (html,emptyBody)) (false,decide (body = []))).map fun (html,emptyBody) => html && !emptyBody

def judgeAnswer (data : List UInt8) : Option Bool :=
  match splitOnceText "\r\n\r\n".toList (fromUtf8Lossy data) with
  | none => some false
  | some (head,body) =>
    match textLines head with
    | [] => some false
    | statusLine :: lines =>
      match statusOf statusLine with
      | none => some false
      | some status =>
        if 300 ≤ status ∧ status < 400 then some true
        else (sliceTo body (min (byteLen body) sniffBody)).bind fun sniff =>
          let sniff := asciiLower sniff
          if "<html".toList <:+: sniff ∨ "<!doctype".toList <:+: sniff then some true else headersPromisePage lines body

def requestFor (rest : Text) : Text :=
  let (hostPort,path) := match splitOnce '/' rest with
    | none => (rest,['/'])
    | some (host,path) => (host,'/' :: path)
  "GET ".toList ++ path ++ " HTTP/1.1\r\nHost: ".toList ++ hostPort ++
    "\r\nAccept: text/html\r\nConnection: close\r\n\r\n".toList

/-- `http_head_looks_like_website`, or nothing where a slice fails. -/
def httpHeadLooksLikeWebsite (stream : Connection) (url : Text) : Option Bool :=
  match strip httpScheme url with
  | none => some false
  | some rest =>
    if stream.writes (requestFor rest) then judgeAnswer (readAnswer [] (stream.answers (requestFor rest))) else some false

/-! ### Where the body is cut off -/

/-- The answer is one whose body is looked into, and the byte at which the body is cut off is
inside a character. -/
def CutsCharacter (data : List UInt8) : Prop :=
  ∃ head body statusLine lines status, splitOnceText "\r\n\r\n".toList (fromUtf8Lossy data) = some (head,body) ∧
    textLines head = statusLine :: lines ∧ statusOf statusLine = some status ∧ ¬(300 ≤ status ∧ status < 400) ∧
    ∃ front c back, body = front ++ c :: back ∧ byteLen front < sniffBody ∧ sniffBody < byteLen front + c.utf8Size

def Received (events : List ReadEvent) (data : List UInt8) : Prop :=
  ∃ pieces rest, events = pieces.map ReadEvent.data ++ rest ∧ data = pieces.flatten ∧ (∀ piece ∈ pieces, piece ≠ []) ∧
    (∀ before piece after, pieces = before ++ piece :: after → enough before.flatten = false) ∧
    (enough data = true ∨ ∀ b chunk, rest.head? ≠ some (.data (b :: chunk)))

theorem readAnswer_enough (h : enough data = true) (events : List ReadEvent) : readAnswer data events = data := by
  cases events with
  | nil => rfl
  | cons event events => simp only [readAnswer, h, if_true]

theorem readAnswer_more (h : ¬enough data = true) (b : UInt8) (chunk : List UInt8) (events : List ReadEvent) :
    readAnswer data (.data (b :: chunk) :: events) = readAnswer (data ++ b :: chunk) events := by
  simp only [readAnswer, h, if_false, Bool.false_eq_true]

theorem readAnswer_end {event : ReadEvent} (h : ∀ b chunk, event ≠ .data (b :: chunk)) (data : List UInt8) (events : List ReadEvent) :
    readAnswer data (event :: events) = data := by
  cases event with
  | interrupted | failed error => simp only [readAnswer, ite_self]
  | data bytes =>
    cases bytes with
    | nil => simp only [readAnswer, ite_self]
    | cons b chunk => exact absurd rfl (h b chunk)

theorem readAnswer_spec (data : List UInt8) (events : List ReadEvent) : ∃ pieces rest, events = pieces.map ReadEvent.data ++ rest ∧
    readAnswer data events = data ++ pieces.flatten ∧ (∀ piece ∈ pieces, piece ≠ []) ∧
    (∀ before piece after, pieces = before ++ piece :: after → enough (data ++ before.flatten) = false) ∧
    (enough (data ++ pieces.flatten) = true ∨ ∀ b chunk, rest.head? ≠ some (.data (b :: chunk))) := by
  have hnone : ∀ (before : List (List UInt8)) piece after, [] = before ++ piece :: after → enough (data ++ before.flatten) = false :=
    fun before piece after h => absurd h (by simp)
  induction events generalizing data with
  | nil =>
    refine ⟨[],[],rfl,(append_nil data).symm,fun piece h => absurd h not_mem_nil,hnone,.inr fun b chunk h => ?_⟩
    cases h
  | cons event events ih =>
    by_cases henough : enough data = true
    · refine ⟨[],event :: events,rfl,?_,fun piece h => absurd h not_mem_nil,hnone,.inl ?_⟩
      · rw [readAnswer_enough henough]
        exact (append_nil data).symm
      · rwa [flatten_nil, append_nil]
    by_cases hpiece : ∃ b chunk, event = .data (b :: chunk)
    · obtain ⟨b,chunk,rfl⟩ := hpiece
      obtain ⟨pieces,rest,hevents,hread,hne,hbefore,hlast⟩ := ih (data ++ b :: chunk) fun before piece after h => absurd h (by simp)
      refine ⟨(b :: chunk) :: pieces,rest,by rw [hevents]; rfl,?_,?_,?_,?_⟩
      · rw [readAnswer_more henough, hread, flatten_cons, append_assoc]
      · intro piece hpiece
        rcases mem_cons.mp hpiece with rfl | hpiece
        · exact cons_ne_nil _ _
        · exact hne piece hpiece
      · intro before piece after h
        cases before with
        | nil =>
          rw [flatten_nil, append_nil]
          exact (Bool.not_eq_true _).mp henough
        | cons first before =>
          obtain ⟨rfl,htail⟩ := List.cons.inj h
          rw [flatten_cons, ← append_assoc]
          exact hbefore before piece after htail
      · rwa [flatten_cons, ← append_assoc]
    · have hother : ∀ b chunk, event ≠ .data (b :: chunk) := fun b chunk h => hpiece ⟨b,chunk,h⟩
      refine ⟨[],event :: events,rfl,?_,fun piece h => absurd h not_mem_nil,hnone,.inr ?_⟩
      · rw [readAnswer_end hother]
        exact (append_nil data).symm
      · exact fun b chunk h => hother b chunk (Option.some.inj h)

theorem received_readAnswer (events : List ReadEvent) : Received events (readAnswer [] events) := by
  obtain ⟨pieces,rest,hevents,hread,hne,hbefore,hlast⟩ := readAnswer_spec [] events
  exact ⟨pieces,rest,hevents,hread,hne,hbefore,hread ▸ hlast⟩

theorem readAnswer_eq {pieces : List (List UInt8)} {rest : List ReadEvent} (data : List UInt8) (hne : ∀ piece ∈ pieces, piece ≠ [])
    (hbefore : ∀ before piece after, pieces = before ++ piece :: after → enough (data ++ before.flatten) = false)
    (hlast : enough (data ++ pieces.flatten) = true ∨ ∀ b chunk, rest.head? ≠ some (.data (b :: chunk))) :
    readAnswer data (pieces.map ReadEvent.data ++ rest) = data ++ pieces.flatten := by
  induction pieces generalizing data with
  | nil =>
    rw [flatten_nil, append_nil] at hlast ⊢
    cases rest with
    | nil => rfl
    | cons event rest =>
      rcases hlast with henough | hother
      · exact readAnswer_enough henough _
      · exact readAnswer_end (fun b chunk h => hother b chunk (congrArg some h)) data rest
  | cons piece pieces ih =>
    obtain ⟨b,chunk,rfl⟩ := exists_cons_of_ne_nil (hne piece mem_cons_self)
    have hmore := hbefore [] (b :: chunk) pieces rfl
    rw [flatten_nil, append_nil] at hmore
    rw [map_cons, cons_append, readAnswer_more (by rw [hmore]; exact Bool.false_ne_true), flatten_cons,
      ← append_assoc]
    refine ih (data ++ b :: chunk) (fun piece h => hne piece (mem_cons_of_mem _ h)) (fun before piece after h => ?_) ?_
    · have hearlier := hbefore ((b :: chunk) :: before) piece after (by rw [h]; rfl)
      rwa [flatten_cons, ← append_assoc] at hearlier
    · rwa [flatten_cons, ← append_assoc] at hlast

theorem Received.eq {events : List ReadEvent} (h : Received events data) : readAnswer [] events = data := by
  obtain ⟨pieces,rest,rfl,rfl,hne,hbefore,hlast⟩ := h
  exact readAnswer_eq [] hne hbefore hlast

theorem headersPromisePage_isSome (lines : List Text) (body : Text) : ∃ page, headersPromisePage lines body = some page := by
  unfold headersPromisePage
  generalize (false,decide (body = [])) = start
  induction lines.takeWhile (· ≠ []) generalizing start with
  | nil => exact ⟨_,rfl⟩
  | cons line lines ih =>
    rw [foldlM_cons]
    dsimp only
    split_ifs with hlength
    · obtain ⟨value,hvalue⟩ := hlength
      rw [← hvalue, sliceFrom_append]
      exact ih _
    · exact ih _

theorem judgeAnswer_eq_none (data : List UInt8) : judgeAnswer data = none ↔ CutsCharacter data := by
  unfold judgeAnswer CutsCharacter
  cases hsplit : splitOnceText "\r\n\r\n".toList (fromUtf8Lossy data) with
  | none => simp
  | some parts =>
    obtain ⟨head,body⟩ := parts
    dsimp only
    cases hlines : textLines head with
    | nil => simp [hlines]
    | cons statusLine lines =>
      dsimp only
      cases hstatus : statusOf statusLine with
      | none => simp [hlines, hstatus]
      | some status =>
        have hrest : ∀ sniff, (if "<html".toList <:+: asciiLower sniff ∨ "<!doctype".toList <:+: asciiLower sniff then some true
            else headersPromisePage lines body) ≠ none := by
          intro sniff
          obtain ⟨page,hpage⟩ := headersPromisePage_isSome lines body
          rw [hpage]
          split_ifs <;> exact Option.some_ne_none _
        constructor
        · intro h
          dsimp only at h
          split_ifs at h with hredirect
          refine ⟨head,body,statusLine,lines,status,rfl,hlines,hstatus,hredirect,sliceTo_min_eq_none.mp ?_⟩
          refine Option.eq_none_iff_forall_ne_some.mpr fun sniff hsniff => hrest sniff ?_
          exact Option.bind_eq_none_iff.mp h sniff hsniff
        · rintro ⟨head',body',statusLine',lines',status',hparts,hlines',hstatus',hredirect,hcut⟩
          cases hparts
          obtain ⟨rfl,rfl⟩ := List.cons.inj (hlines.symm.trans hlines')
          obtain rfl := Option.some.inj (hstatus.symm.trans hstatus')
          dsimp only
          rw [if_neg hredirect, sliceTo_min_eq_none.mpr hcut, Option.bind_none]

/-- A probe that does not end is one that got such an answer. -/
theorem httpHeadLooksLikeWebsite_eq_none (stream : Connection) (url : Text) : httpHeadLooksLikeWebsite stream url = none ↔
    ∃ rest data, strip httpScheme url = some rest ∧ stream.writes (requestFor rest) = true ∧
      Received (stream.answers (requestFor rest)) data ∧ CutsCharacter data := by
  unfold httpHeadLooksLikeWebsite
  cases hurl : strip httpScheme url with
  | none => simp
  | some rest =>
    dsimp only
    by_cases hwrite : stream.writes (requestFor rest) = true
    · rw [if_pos hwrite, judgeAnswer_eq_none]
      constructor
      · exact fun h => ⟨rest,_,rfl,hwrite,received_readAnswer _,h⟩
      · rintro ⟨rest',data,hrest,-,hreceived,hcut⟩
        obtain rfl := Option.some.inj hrest
        rwa [hreceived.eq]
    · rw [if_neg hwrite]
      refine ⟨fun h => (by cases h),?_⟩
      rintro ⟨rest',data,hrest,hwrite',-⟩
      obtain rfl := Option.some.inj hrest
      exact absurd hwrite' hwrite

/-- Every slice of a screen text exists, and the probe ends with an answer unless the cut through
the body of what was received lies inside a character. -/
theorem local_site_probe_ends_iff (text : Text) (stream : Connection) (url : Text) :
    ((∃ urls, extractLocalUrls text = some urls) ∧ ∃ site, httpHeadLooksLikeWebsite stream url = some site) ↔
      ¬∃ rest data, strip httpScheme url = some rest ∧ stream.writes (requestFor rest) = true ∧
        Received (stream.answers (requestFor rest)) data ∧ CutsCharacter data := by
  rw [← httpHeadLooksLikeWebsite_eq_none, ← ne_eq, Option.ne_none_iff_exists']
  exact and_iff_right ⟨_,extractLocalUrls_eq text⟩

def strayPage : List UInt8 := List.replicate 2047 0x61 ++ [0xff]

def okHead : Text := "HTTP/1.1 200 OK\r\n\r\n".toList

theorem not_enough_okHead : enough (encode okHead) = false := by
  have hend : findHeaderEnd (encode okHead) = some 15 := by decide
  have hlength : (encode okHead).length = 19 := by decide
  have hhead : (encode okHead).take 15 = encode "HTTP/1.1 200 OK".toList := by decide
  have hdeclared : declaredLength (encode "HTTP/1.1 200 OK".toList) = none := by
    rw [declaredLength, fromUtf8Lossy_encode]
    decide
  rw [enough, hend, hlength, Option.any_some, hhead, hdeclared]
  decide

theorem enough_strayPage : enough (encode okHead ++ strayPage) = true := by
  have hend : findHeaderEnd (encode okHead) = some 15 := by decide
  have hlength : (encode okHead ++ strayPage).length = 19 + 2048 := by
    rw [length_append, strayPage, length_append, length_replicate]
    rfl
  rw [enough, findHeaderEnd_append hend, hlength, Option.any_some]
  simp [sniffBody]

theorem received_strayPage : Received [.data (encode okHead),.data strayPage] (encode okHead ++ strayPage) := by
  refine ⟨[encode okHead,strayPage],[],rfl,?_,?_,?_,.inl enough_strayPage⟩
  · rw [flatten_cons, flatten_cons, flatten_nil, append_nil]
  · intro piece hpiece
    rw [mem_pair] at hpiece
    rcases hpiece with rfl | rfl
    · decide
    · exact append_ne_nil_of_right_ne_nil _ (cons_ne_nil _ _)
  · intro before piece after h
    rcases List.cons_eq_append_iff.mp h with ⟨rfl,-⟩ | ⟨later,rfl,hlater⟩
    · decide
    rcases List.cons_eq_append_iff.mp hlater with ⟨rfl,-⟩ | ⟨last,rfl,hlast⟩
    · rw [flatten_cons, flatten_nil, append_nil]
      exact not_enough_okHead
    · exact absurd hlast (by simp)

theorem byteLen_replicate (n : ℕ) : byteLen (List.replicate n 'a') = n := by
  induction n with
  | zero => rfl
  | succ n ih => rw [replicate_succ, byteLen_cons, ih, Nat.add_comm]; rfl

theorem strayPage_cutsCharacter : CutsCharacter (encode okHead ++ strayPage) := by
  have hbytes : strayPage = encode (List.replicate 2047 'a') ++ [0xff] := by
    rw [encode_ascii fun c hc => eq_of_mem_replicate hc ▸ by decide, map_replicate]
    rfl
  have hstray : fromUtf8Lossy [0xff] = [replacement] := by
    simp [fromUtf8Lossy, readHead, tailRanges]
  have htext : fromUtf8Lossy (encode okHead ++ strayPage) = okHead ++ (List.replicate 2047 'a' ++ replacement :: []) := by
    rw [hbytes, fromUtf8Lossy_append, fromUtf8Lossy_append, hstray]
  refine ⟨"HTTP/1.1 200 OK".toList,_,"HTTP/1.1 200 OK".toList,[],200,?_,by decide,by decide,by decide,List.replicate 2047 'a',replacement,[],
    rfl,?_,?_⟩
  · rw [htext]
    rfl
  · rw [byteLen_replicate]
    decide
  · rw [byteLen_replicate]
    decide

/-- The probe of that page does not end. -/
theorem stray_page_breaks_probe : ¬((∃ urls, extractLocalUrls [] = some urls) ∧
    ∃ site, httpHeadLooksLikeWebsite ⟨fun _ => true,fun _ => [.data (encode okHead),.data strayPage]⟩ "http://localhost:3000/".toList =
      some site) := by
  rintro ⟨-,site,hsite⟩
  have hnone := (httpHeadLooksLikeWebsite_eq_none ⟨fun _ => true,fun _ => [.data (encode okHead),.data strayPage]⟩
    "http://localhost:3000/".toList).mpr ⟨"localhost:3000/".toList,_,by decide,rfl,received_strayPage,strayPage_cutsCharacter⟩
  rw [hnone] at hsite
  cases hsite

end Unpeel.Sites
