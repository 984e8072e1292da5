import Unpeel.Foundation.TextSlices
import Unpeel.Pairing.PairingWindow

/-! # Local URLs on a screen

URLs with a loopback host and a port are looked for in the bytes of the screen text, and cut
out of the text by byte offsets. No such slice fails.
-/
namespace Unpeel.Sites
open Manifest Pairing TextSlices Utf8 List
variable {text scheme : Text}
variable {rest : Text}

def httpScheme : Text := "http://".toList

def httpsScheme : Text := "https://".toList

/-- `find_scheme`, from the place `i` of these bytes on. -/
def findScheme : List UInt8 → ℕ → Option ℕ
  | [], _ => none
  | b :: bytes, i =>
    if (b :: bytes).length < 7 then none
    else if b = 0x68 ∧ (encode httpScheme <+: b :: bytes ∨ encode httpsScheme <+: b :: bytes) then some i
    else findScheme bytes (i + 1)

/-- `scheme_at`: the length of the scheme, and whether it is `https`. -/
def schemeAt (bytes : List UInt8) : ℕ × Bool := if encode httpsScheme <+: bytes then (8,true) else (7,false)

def hosts : List Text := ["localhost".toList,"127.0.0.1".toList,"[::1]".toList,"0.0.0.0".toList]

/-- `parse_loopback_authority`, or nothing where a slice fails. -/
def parseLoopbackAuthority (rest : Text) : Option (Option (ℕ × ℕ × ℕ)) :=
  match hosts.find? (· <+: rest) with
  | none => some none
  | some host => (sliceFrom rest (byteLen host)).map fun after =>
      (strip [':'] after).bind fun after =>
        let digits := after.takeWhile Char.isDigit
        if digits = [] ∨ 5 < byteLen digits then none
        else (parseU16 digits).bind fun port => if port = 0 then none else some (byteLen host,port,byteLen digits)

def endsUrl (c : Char) : Bool := isWhitespace c || c ∈ ['\x27','\x22',')',']','>','\x60','|','&']

def pathLength (afterPort : Text) : ℕ := if ['/'] <+: afterPort then byteLen (afterPort.takeWhile fun c => !endsUrl c) else 0

def trimUrl (url : Text) : Text := url.rdropWhile fun c => c ∈ ['.',',',';',':',')',']','\x27','\x22']

theorem findScheme_bounds {bytes : List UInt8} {i pos : ℕ} (h : findScheme bytes i = some pos) : i ≤ pos ∧ pos < i + bytes.length := by
  induction bytes generalizing i with
  | nil => cases h
  | cons b bytes ih =>
    rw [findScheme] at h
    split_ifs at h
    · cases h
      omega
    · obtain ⟨hlow,hhigh⟩ := ih h
      rw [length_cons]
      omega

theorem schemeAt_pos (bytes : List UInt8) : 0 < (schemeAt bytes).1 := by
  unfold schemeAt
  split_ifs <;> decide

/-- `extract_local_urls` from a place on, or nothing where a slice fails. -/
def extractFrom (text : Text) (i : ℕ) (out : List (ℕ × Text)) : Option (List (ℕ × Text)) :=
  match _h : findScheme ((encode text).drop i) i with
  | none => some out
  | some pos =>
    let schemeLen := (schemeAt ((encode text).drop pos)).1
    (sliceFrom text (pos + schemeLen)).bind fun rest =>
      (parseLoopbackAuthority rest).bind fun
        | none => extractFrom text (pos + schemeLen) out
        | some (hostLen,port,portLen) =>
          (sliceFrom rest (hostLen + 1 + portLen)).bind fun afterPort =>
            let stop := pos + schemeLen + hostLen + 1 + portLen + pathLength afterPort
            (slice text pos stop).bind fun url => extractFrom text stop (out ++ [(port,trimUrl url)])
termination_by (encode text).length - i
decreasing_by
  all_goals
    have hbounds := findScheme_bounds _h
    have hscheme := schemeAt_pos ((encode text).drop pos)
    rw [List.length_drop] at hbounds
    omega

def extractLocalUrls (text : Text) : Option (List (ℕ × Text)) := extractFrom text 0 []

/-! ### The URLs of a text -/

def schemeOf (text : Text) : Option Text :=
  if httpsScheme <+: text then some httpsScheme else if httpScheme <+: text then some httpScheme else none

def authorityOf (rest : Text) : Option (ℕ × Text) :=
  (hosts.find? (· <+: rest)).bind fun host => (strip [':'] (rest.drop host.length)).bind fun after =>
    let digits := after.takeWhile Char.isDigit
    if digits = [] ∨ 5 < digits.length then none
    else (parseU16 digits).bind fun port => if port = 0 then none else some (port,host ++ ':' :: digits)

def pathOf (afterPort : Text) : Text := if ['/'] <+: afterPort then afterPort.takeWhile fun c => !endsUrl c else []

def urlsIn : Text → List (ℕ × Text)
  | [] => []
  | c :: text =>
    match schemeOf (c :: text) with
    | none => urlsIn text
    | some scheme =>
      match authorityOf (text.drop (scheme.length - 1)) with
      | none => urlsIn (text.drop (scheme.length - 1))
      | some (port,authority) =>
        let afterPort := text.drop (scheme.length - 1 + authority.length)
        (port,trimUrl (scheme ++ authority ++ pathOf afterPort)) :: urlsIn (afterPort.drop (pathOf afterPort).length)
termination_by text => text.length
decreasing_by all_goals (simp only [List.length_cons, List.length_drop]; omega)

/-! ### Schemes in the bytes -/

theorem schemeOf_eq_some (h : schemeOf text = some scheme) :
    (scheme = httpScheme ∨ scheme = httpsScheme) ∧ ∃ rest, text = scheme ++ rest := by
  unfold schemeOf at h
  split_ifs at h with hhttps hhttp
  · cases h
    obtain ⟨rest,rfl⟩ := hhttps
    exact ⟨.inr rfl,rest,rfl⟩
  · cases h
    obtain ⟨rest,rfl⟩ := hhttp
    exact ⟨.inl rfl,rest,rfl⟩

theorem schemeOf_nil : schemeOf [] = none := by decide

theorem ascii_httpScheme : ∀ c ∈ httpScheme, c.toNat < 128 := by
  have hall : httpScheme.all (fun c => decide (c.toNat < 128)) = true := by decide
  exact fun c hc => of_decide_eq_true (all_eq_true.mp hall c hc)

theorem ascii_httpsScheme : ∀ c ∈ httpsScheme, c.toNat < 128 := by
  have hall : httpsScheme.all (fun c => decide (c.toNat < 128)) = true := by decide
  exact fun c hc => of_decide_eq_true (all_eq_true.mp hall c hc)

theorem httpScheme_bytes_iff (text : Text) : encode httpScheme <+: encode text ↔ httpScheme <+: text :=
  encode_prefix_iff ascii_httpScheme

theorem httpsScheme_bytes_iff (text : Text) : encode httpsScheme <+: encode text ↔ httpsScheme <+: text :=
  encode_prefix_iff ascii_httpsScheme

theorem schemeOf_isSome (text : Text) :
    (schemeOf text).isSome = true ↔ encode httpScheme <+: encode text ∨ encode httpsScheme <+: encode text := by
  rw [httpScheme_bytes_iff, httpsScheme_bytes_iff, schemeOf]
  split_ifs with hhttps hhttp
  · exact iff_of_true rfl (.inr hhttps)
  · exact iff_of_true rfl (.inl hhttp)
  · exact iff_of_false Bool.false_ne_true fun h => h.elim hhttp hhttps

theorem findScheme_short {bytes : List UInt8} (h : bytes.length < 7) (i : ℕ) : findScheme bytes i = none := by
  cases bytes with
  | nil => rfl
  | cons b bytes => exact if_pos h

/-- Where fewer bytes are left than a scheme has, none is found anyway. -/
theorem findScheme_cons (b : UInt8) (bytes : List UInt8) (i : ℕ) : findScheme (b :: bytes) i =
    if b = 0x68 ∧ (encode httpScheme <+: b :: bytes ∨ encode httpsScheme <+: b :: bytes) then some i else findScheme bytes (i + 1) := by
  by_cases hshort : (b :: bytes).length < 7
  · have hnone : ¬(b = 0x68 ∧ (encode httpScheme <+: b :: bytes ∨ encode httpsScheme <+: b :: bytes)) := by
      have hhttp : (encode httpScheme).length = 7 := by decide
      have hhttps : (encode httpsScheme).length = 8 := by decide
      rintro ⟨-,h | h⟩
      · have := h.length_le
        omega
      · have := h.length_le
        omega
    have hrest : bytes.length < 7 := by
      rw [length_cons] at hshort
      omega
    rw [findScheme_short hshort, if_neg hnone, findScheme_short hrest]
  · rw [findScheme, if_neg hshort]

theorem findScheme_skip {tail : List UInt8} (h : ∀ b ∈ tail, 0x80 ≤ b.toNat) (bytes : List UInt8) (i : ℕ) :
    findScheme (tail ++ bytes) i = findScheme bytes (i + tail.length) := by
  induction tail generalizing i with
  | nil => rfl
  | cons b tail ih =>
    have hb : b ≠ 0x68 := by
      rintro rfl
      exact absurd (h _ mem_cons_self) (by decide)
    rw [cons_append, findScheme_cons, if_neg fun hand => hb hand.1, ih fun c hc => h c (mem_cons_of_mem _ hc),
      length_cons, Nat.add_assoc, Nat.add_comm 1]

/-- One character of the text: a scheme begins with it, or it is passed over. -/
theorem findScheme_char (c : Char) (text : Text) (i : ℕ) : findScheme (encode (c :: text)) i =
    if (schemeOf (c :: text)).isSome then some i else findScheme (encode text) (i + c.utf8Size) := by
  have hiff := schemeOf_isSome (c :: text)
  cases hc : String.utf8EncodeChar c with
  | nil => exact absurd hc String.utf8EncodeChar_ne_nil
  | cons first tail =>
    have hsize : c.utf8Size = 1 + tail.length := by
      rw [← String.length_utf8EncodeChar, hc, length_cons, Nat.add_comm]
    rw [encode_cons, hc, cons_append] at hiff ⊢
    rw [findScheme_cons, findScheme_skip fun b hb => ascii_not_mem_tail hc hb, hsize, Nat.add_assoc]
    by_cases hscheme : (schemeOf (c :: text)).isSome = true
    · have hfound := hiff.mp hscheme
      have hfirst : first = 0x68 := by
        rcases hfound with ⟨more,hmore⟩ | ⟨more,hmore⟩
        · exact (List.cons.inj hmore).1.symm
        · exact (List.cons.inj hmore).1.symm
      rw [if_pos ⟨hfirst,hfound⟩, if_pos hscheme]
    · rw [if_neg fun hand => hscheme (hiff.mpr hand.2), if_neg hscheme]

/-- The bytes have a scheme where the text has one. -/
theorem findScheme_encode (text : Text) (i : ℕ) :
    (findScheme (encode text) i = none ∧ ∀ a b, text = a ++ b → schemeOf b = none) ∨
    ∃ middle rest scheme, text = middle ++ rest ∧ findScheme (encode text) i = some (i + byteLen middle) ∧
      schemeOf rest = some scheme ∧ ∀ a b, middle = a ++ b → b ≠ [] → schemeOf (b ++ rest) = none := by
  induction text generalizing i with
  | nil =>
    refine .inl ⟨rfl,fun a b hab => ?_⟩
    rw [(append_eq_nil_iff.mp hab.symm).2]
    exact schemeOf_nil
  | cons c text ih =>
    rw [findScheme_char]
    cases hscheme : schemeOf (c :: text) with
    | some scheme =>
      refine .inr ⟨[],c :: text,scheme,rfl,rfl,hscheme,fun a b hab hb => ?_⟩
      exact absurd (append_eq_nil_iff.mp hab.symm).2 hb
    | none =>
      rw [Option.isSome_none, if_neg Bool.false_ne_true]
      rcases ih (i + c.utf8Size) with ⟨hnone,hall⟩ | ⟨middle,rest,scheme,rfl,hfound,hrest,hall⟩
      · refine .inl ⟨hnone,fun a b hab => ?_⟩
        cases a with
        | nil => rwa [← nil_append b, ← hab]
        | cons d a => exact hall a b (List.cons.inj hab).2
      · refine .inr ⟨c :: middle,rest,scheme,rfl,by rw [hfound, byteLen_cons, Nat.add_assoc],hrest,fun a b hab hb => ?_⟩
        cases a with
        | nil => rwa [← nil_append b, ← hab]
        | cons d a => exact hall a b (List.cons.inj hab).2 hb

theorem schemeAt_encode (h : schemeOf text = some scheme) : (schemeAt (encode text)).1 = byteLen scheme := by
  have hiff := httpsScheme_bytes_iff text
  unfold schemeOf at h
  unfold schemeAt
  split_ifs at h with hhttps hhttp
  · cases h
    rw [if_pos (hiff.mpr hhttps)]
    decide
  · cases h
    rw [if_neg fun hbytes => hhttps (hiff.mp hbytes)]
    decide

theorem drop_encode (front back : Text) : (encode (front ++ back)).drop (byteLen front) = encode back := by
  rw [encode_append, drop_left' (length_encode front)]

/-! ### No slice fails -/

theorem urlsIn_plain {c : Char} (h : schemeOf (c :: text) = none) : urlsIn (c :: text) = urlsIn text := by
  rw [urlsIn, h]

theorem urlsIn_scheme (h : schemeOf (scheme ++ rest) = some scheme) : urlsIn (scheme ++ rest) =
    (authorityOf rest).elim (urlsIn rest) fun found =>
      (found.1,trimUrl (scheme ++ found.2 ++ pathOf (rest.drop found.2.length))) ::
        urlsIn ((rest.drop found.2.length).drop (pathOf (rest.drop found.2.length)).length) := by
  cases scheme with
  | nil => rcases (schemeOf_eq_some h).1 with hnil | hnil <;> cases hnil
  | cons c scheme =>
    rw [cons_append] at h ⊢
    have hdrop : (scheme ++ rest).drop ((c :: scheme).length - 1) = rest := drop_left
    rw [urlsIn, h]
    dsimp only
    rw [hdrop]
    cases hfound : authorityOf rest with
    | none => rfl
    | some found =>
      obtain ⟨port,authority⟩ := found
      have hafter : (scheme ++ rest).drop ((c :: scheme).length - 1 + authority.length) = rest.drop authority.length := by
        rw [← drop_drop, hdrop]
      rw [Option.elim_some]
      dsimp only
      rw [hafter]

theorem urlsIn_skip {middle : Text} (h : ∀ a b, middle = a ++ b → b ≠ [] → schemeOf (b ++ rest) = none) :
    urlsIn (middle ++ rest) = urlsIn rest := by
  induction middle with
  | nil => rfl
  | cons c middle ih =>
    have hplain : schemeOf (c :: (middle ++ rest)) = none := h [] (c :: middle) rfl (cons_ne_nil _ _)
    rw [cons_append, urlsIn_plain hplain]
    exact ih fun a b hab hb => h (c :: a) b (by rw [hab]; rfl) hb

theorem urlsIn_eq_nil (h : ∀ a b, text = a ++ b → schemeOf b = none) : urlsIn text = [] := by
  induction text with
  | nil => rw [urlsIn]
  | cons c text ih =>
    rw [urlsIn_plain (h [] (c :: text) rfl)]
    exact ih fun a b hab => h (c :: a) b (by rw [hab]; rfl)

theorem byteLen_ascii (h : ∀ c ∈ text, c.toNat < 128) : byteLen text = text.length := by
  rw [← length_encode, encode_ascii h, length_map]

theorem ascii_of_isDigit {c : Char} (h : c.isDigit = true) : c.toNat < 128 := by
  have hdigit := Char.isDigit_iff_toNat.mp h
  have hnine : '9'.toNat = 57 := rfl
  omega

theorem strip_eq_some {start : Text} (h : strip start text = some rest) : text = start ++ rest := by
  unfold strip at h
  split_ifs at h with hstart
  obtain ⟨more,rfl⟩ := hstart
  rw [drop_left] at h
  rw [Option.some.inj h]

/-- Host and port are read off the bytes as they stand in the text. -/
theorem parseLoopbackAuthority_eq (rest : Text) :
    (authorityOf rest = none ∧ parseLoopbackAuthority rest = some none) ∨
    ∃ port authority afterPort hostLen portLen, authorityOf rest = some (port,authority) ∧ rest = authority ++ afterPort ∧
      parseLoopbackAuthority rest = some (some (hostLen,port,portLen)) ∧ hostLen + 1 + portLen = byteLen authority := by
  unfold authorityOf parseLoopbackAuthority
  cases hhost : hosts.find? (· <+: rest) with
  | none => exact .inl ⟨rfl,rfl⟩
  | some host =>
    have hstart := find?_some hhost
    obtain ⟨after,rfl⟩ : host <+: rest := of_decide_eq_true hstart
    rw [Option.bind_some]
    dsimp only
    rw [sliceFrom_append, Option.map_some, drop_left]
    cases hcolon : strip [':'] after with
    | none => exact .inl ⟨rfl,rfl⟩
    | some behind =>
      obtain rfl := strip_eq_some hcolon
      have hdigits : ∀ c ∈ behind.takeWhile Char.isDigit, c.toNat < 128 := fun c hc => ascii_of_isDigit (mem_takeWhile_imp hc)
      rw [Option.bind_some, Option.bind_some, byteLen_ascii hdigits]
      split_ifs with hbad
      · exact .inl ⟨rfl,rfl⟩
      · cases hport : parseU16 (behind.takeWhile Char.isDigit) with
        | none => exact .inl ⟨rfl,rfl⟩
        | some port =>
          rw [Option.bind_some, Option.bind_some]
          split_ifs with hzero
          · exact .inl ⟨rfl,rfl⟩
          · refine .inr ⟨port,_,behind.dropWhile Char.isDigit,_,_,rfl,?_,rfl,?_⟩
            · rw [append_assoc, cons_append, cons_append, takeWhile_append_dropWhile]
              rfl
            · rw [byteLen_append, byteLen_cons, byteLen_ascii hdigits, Nat.add_assoc]
              rfl

theorem pathLength_eq (afterPort : Text) : pathLength afterPort = byteLen (pathOf afterPort) ∧
    ∃ more, afterPort = pathOf afterPort ++ more := by
  unfold pathLength pathOf
  split_ifs
  · exact ⟨rfl,_,(takeWhile_append_dropWhile ..).symm⟩
  · exact ⟨rfl,afterPort,rfl⟩

/-- The loop finds the URLs of what is left, and every slice it takes exists. -/
theorem extractFrom_eq (front back : Text) (out : List (ℕ × Text)) :
    extractFrom (front ++ back) (byteLen front) out = some (out ++ urlsIn back) := by
  induction hn : back.length using Nat.strong_induction_on generalizing front back out with
  | _ n ih =>
    rw [extractFrom]
    have hdrop := drop_encode front back
    rcases findScheme_encode back (byteLen front) with ⟨hnone,hall⟩ | ⟨middle,rest,scheme,rfl,hfound,hscheme,hall⟩
    · rw [urlsIn_eq_nil hall, append_nil]
      split
      next => rfl
      next pos hpos =>
        rw [hdrop, hnone] at hpos
        cases hpos
    · split
      next hnone =>
        rw [hdrop, hfound] at hnone
        cases hnone
      next pos hpos =>
        rw [hdrop, hfound] at hpos
        obtain rfl := Option.some.inj hpos
        obtain ⟨-,rest,rfl⟩ := schemeOf_eq_some hscheme
        have hpos : 0 < scheme.length := by
          rcases (schemeOf_eq_some hscheme).1 with rfl | rfl <;> decide
        have hplace : byteLen front + byteLen middle = byteLen (front ++ middle) := (byteLen_append _ _).symm
        have htext : front ++ (middle ++ (scheme ++ rest)) = front ++ middle ++ (scheme ++ rest) := (append_assoc ..).symm
        rw [hplace, htext, drop_encode, schemeAt_encode hscheme, urlsIn_skip hall, urlsIn_scheme hscheme]
        dsimp only
        rw [← byteLen_append, ← append_assoc _ scheme, sliceFrom_append, Option.bind_some]
        rcases parseLoopbackAuthority_eq rest with ⟨hnone,hparse⟩ | ⟨port,authority,afterPort,hostLen,portLen,hsome,rfl,hparse,hlen⟩
        · rw [hparse, hnone, Option.bind_some, Option.elim_none]
          refine ih rest.length ?_ _ _ _ rfl
          simp only [length_append] at hn
          omega
        · obtain ⟨hpath,more,hmore⟩ := pathLength_eq afterPort
          rw [hparse, hsome, Option.bind_some, Option.elim_some]
          dsimp only
          rw [hlen, sliceFrom_append, Option.bind_some, drop_left, hpath]
          generalize pathOf afterPort = path at hmore ⊢
          subst hmore
          have hstop : byteLen (front ++ middle ++ scheme) + hostLen + 1 + portLen + byteLen path =
              byteLen (front ++ middle) + byteLen (scheme ++ authority ++ path) := by
            simp only [byteLen_append] at hlen ⊢
            omega
          have hwhole : front ++ middle ++ scheme ++ (authority ++ (path ++ more)) =
              front ++ middle ++ (scheme ++ authority ++ path ++ more) := by
            simp only [append_assoc]
          have hshort : more.length < n := by
            simp only [length_append] at hn
            omega
          have hrest := ih more.length hshort (front ++ middle ++ (scheme ++ authority ++ path)) more
            (out ++ [(port,trimUrl (scheme ++ authority ++ path))]) rfl
          rw [hstop, hwhole, slice_append, Option.bind_some, drop_left, ← byteLen_append, ← append_assoc, hrest, append_assoc]
          rfl

theorem extractLocalUrls_eq (text : Text) : extractLocalUrls text = some (urlsIn text) := extractFrom_eq [] text []

end Unpeel.Sites
