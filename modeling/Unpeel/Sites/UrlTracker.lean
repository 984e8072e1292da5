import Mathlib.Data.List.MinMax
import Unpeel.Sites.WebsiteProbe

/-! # The candidates of a session

Each port has one candidate, the URL that is nearest to the root of its site. Whoever reads it
later judges it again by the URL alone.
-/
namespace Unpeel.Sites
open Manifest Pairing TextSlices Utf8 List
variable {path : Text} {port : ℕ}

structure Candidate where
  url : Text
  port : ℕ
  https : Bool

structure LocalUrlTracker where
  candidates : ℕ → Option Candidate
  published : List Text

abbrev Loopbacks := Bool → ℕ → Option Connection

def startsHttps (url : Text) : Bool := httpsScheme <+: url

/-- `url_path_len`. -/
def urlPathLen (url : Text) : ℕ :=
  match (strip httpsScheme url).or (strip httpScheme url) with
  | none => 2 ^ 64 - 1
  | some rest =>
    match splitOnce '/' rest with
    | none => 0
    | some (_,path) => byteLen path

def observeUrl (seen : Bool × (ℕ → Option Candidate)) (found : ℕ × Text) : Bool × (ℕ → Option Candidate) :=
  let (added,candidates) := seen
  let (port,url) := found
  match candidates port with
  | some entry =>
    if urlPathLen url < urlPathLen entry.url then (added,Function.update candidates port (some { entry with url := url }))
    else (added,candidates)
  | none => (true,Function.update candidates port (some ⟨url,port,startsHttps url⟩))

/-- `observe_screen`. -/
def observeScreen (tracker : LocalUrlTracker) (screen : Text) : Option (Bool × LocalUrlTracker) :=
  (extractLocalUrls screen).map fun urls =>
    let (added,candidates) := urls.foldl observeUrl (false,tracker.candidates)
    (added,{ tracker with candidates := candidates })

def servesOn (candidate : Candidate) : List (Option Connection) → Option Bool
  | [] => some false
  | none :: streams => servesOn candidate streams
  | some stream :: _ => if candidate.https then some true else httpHeadLooksLikeWebsite stream candidate.url

/-- `url_serves_website`. -/
def urlServesWebsite (loopbacks : Loopbacks) (candidate : Candidate) : Option Bool :=
  servesOn candidate [loopbacks false candidate.port,loopbacks true candidate.port]

/-- `probe`: the URLs to publish, if they are others than before. -/
def probe (loopbacks : Loopbacks) (tracker : LocalUrlTracker) : Option (Option (List Text) × LocalUrlTracker) :=
  (((List.range (2 ^ 16)).filterMap tracker.candidates).filterM (urlServesWebsite loopbacks)).map fun live =>
    let live := live.map Candidate.url
    if live = tracker.published then (none,tracker) else (some live,{ tracker with published := live })

/-- `url_is_openable_site`. -/
def urlIsOpenableSite (loopbacks : Loopbacks) (url : Text) : Option Bool :=
  (extractLocalUrls url).bind fun
    | [] => some false
    | (port,normalized) :: _ => urlServesWebsite loopbacks ⟨normalized,port,startsHttps normalized⟩

/-! ### A URL by itself -/

theorem trimUrl_append (front : Text) {c : Char} (hc : c ∉ ['.',',',';',':',')',']','\x27','\x22']) (back : Text) :
    trimUrl (front ++ [c] ++ back) = front ++ [c] ++ trimUrl back := by
  unfold trimUrl
  induction back using List.reverseRecOn with
  | nil => rw [List.append_nil, List.rdropWhile_nil, List.append_nil, List.rdropWhile_concat_neg _ _ _ (by simpa using hc)]
  | append_singleton back d ih =>
    rw [← List.append_assoc, List.rdropWhile_concat, List.rdropWhile_concat]
    split_ifs
    · exact ih
    · exact List.append_assoc _ _ _

def IsPath (path : Text) : Prop := path = [] ∨ ['/'] <+: path

theorem not_trimmed_of_isDigit {c : Char} (h : c.isDigit = true) : c ∉ ['.',',',';',':',')',']','\x27','\x22'] := by
  intro hmem
  simp only [List.mem_cons, List.not_mem_nil, or_false] at hmem
  rcases hmem with rfl | rfl | rfl | rfl | rfl | rfl | rfl | rfl <;> exact absurd h (by decide)

theorem IsPath.trim (h : IsPath path) : IsPath (trimUrl path) := by
  rcases h with rfl | ⟨more,rfl⟩
  · exact .inl rfl
  · have htrim := trimUrl_append [] (by decide : '/' ∉ ['.',',',';',':',')',']','\x27','\x22']) more
    exact .inr ⟨trimUrl more,htrim.symm⟩

theorem takeWhile_digits {digits : Text} (hdigits : ∀ c ∈ digits, c.isDigit = true) (hpath : IsPath path) :
    (digits ++ path).takeWhile Char.isDigit = digits := by
  rw [takeWhile_append_of_pos hdigits]
  rcases hpath with rfl | ⟨more,rfl⟩
  · rw [takeWhile_nil, append_nil]
  · rw [singleton_append, takeWhile_cons_of_neg (by decide), append_nil]

theorem find_host {host : Text} (h : host ∈ hosts) (rest : Text) : hosts.find? (· <+: host ++ rest) = some host := by
  rcases mem_cons.mp h with rfl | h
  · rfl
  rcases mem_cons.mp h with rfl | h
  · rfl
  rcases mem_cons.mp h with rfl | h
  · rfl
  rcases mem_cons.mp h with rfl | h
  · rfl
  · exact absurd h not_mem_nil

/-- Host and port are read alike before any path. -/
theorem authorityOf_spec {rest authority : Text} (h : authorityOf rest = some (port,authority)) :
    (∃ after, rest = authority ++ after) ∧ (∀ path, IsPath path → authorityOf (authority ++ path) = some (port,authority)) ∧
      ∃ front digit, authority = front ++ [digit] ∧ digit.isDigit = true := by
  obtain ⟨host,hhost,hread⟩ := Option.bind_eq_some_iff.mp h
  obtain ⟨behind,hcolon,hport⟩ := Option.bind_eq_some_iff.mp hread
  have hmem := mem_of_find?_eq_some hhost
  have hstart := find?_some hhost
  obtain ⟨after,rfl⟩ : host <+: rest := of_decide_eq_true hstart
  rw [drop_left] at hcolon
  obtain rfl := strip_eq_some hcolon
  have hdigits : ∀ c ∈ behind.takeWhile Char.isDigit, c.isDigit = true := fun c hc => mem_takeWhile_imp hc
  have hsplit : behind.takeWhile Char.isDigit ++ behind.dropWhile Char.isDigit = behind := takeWhile_append_dropWhile
  dsimp only at hport
  generalize behind.takeWhile Char.isDigit = digits at hport hdigits hsplit
  split_ifs at hport with hbad
  obtain ⟨found,hparse,hfound⟩ := Option.bind_eq_some_iff.mp hport
  split_ifs at hfound with hzero
  cases hfound
  refine ⟨⟨behind.dropWhile Char.isDigit,?_⟩,fun path hpath => ?_,?_⟩
  · rw [append_assoc, cons_append, cons_append, hsplit]
    rfl
  · unfold authorityOf
    have hread : strip [':'] ((host ++ ':' :: digits ++ path).drop host.length) = some (digits ++ path) := by
      rw [append_assoc, drop_left]
      rfl
    rw [append_assoc, find_host hmem, Option.bind_some, ← append_assoc, hread, Option.bind_some]
    rw [takeWhile_digits hdigits hpath, if_neg hbad, hparse, Option.bind_some, if_neg hzero]
  · obtain ⟨front,digit,rfl⟩ : ∃ front digit, digits = front ++ [digit] :=
      (eq_nil_or_concat' digits).resolve_left fun hnil => hbad (.inl hnil)
    exact ⟨host ++ ':' :: front,digit,by simp,hdigits digit (by simp)⟩

structure IsLocalUrl (port : ℕ) (scheme authority path : Text) : Prop where
  kind : scheme = httpScheme ∨ scheme = httpsScheme
  read : authorityOf (authority ++ path) = some (port,authority)
  isPath : IsPath path
  plain : ∀ c ∈ path, endsUrl c = false
  trimmed : trimUrl (scheme ++ authority ++ path) = scheme ++ authority ++ path

theorem schemeOf_append {scheme : Text} (h : scheme = httpScheme ∨ scheme = httpsScheme) (rest : Text) :
    schemeOf (scheme ++ rest) = some scheme := by
  rcases h with rfl | rfl
  · rfl
  · rfl

theorem pathOf_eq_self (h : IsPath path) (hplain : ∀ c ∈ path, endsUrl c = false) : pathOf path = path := by
  unfold pathOf
  rcases h with rfl | h
  · rfl
  · rw [if_pos h, takeWhile_eq_self_iff]
    intro c hc
    rw [hplain c hc]
    rfl

theorem pathOf_spec (text : Text) : IsPath (pathOf text) ∧ ∀ c ∈ pathOf text, endsUrl c = false := by
  unfold pathOf
  split_ifs with h
  · refine ⟨.inr ?_,fun c hc => ?_⟩
    · obtain ⟨more,rfl⟩ := h
      exact ⟨more.takeWhile fun c => !endsUrl c,by rw [singleton_append, singleton_append, takeWhile_cons_of_pos (by decide)]⟩
    · have hkept := mem_takeWhile_imp hc
      exact Bool.not_eq_true' _ ▸ hkept
  · exact ⟨.inl rfl,fun c hc => absurd hc not_mem_nil⟩

theorem IsLocalUrl.urlsIn_eq {scheme authority : Text} (h : IsLocalUrl port scheme authority path) :
    urlsIn (scheme ++ authority ++ path) = [(port,scheme ++ authority ++ path)] := by
  have hscheme := schemeOf_append h.kind (authority ++ path)
  rw [append_assoc, urlsIn_scheme hscheme, h.read, Option.elim_some]
  rw [drop_left, pathOf_eq_self h.isPath h.plain, drop_length, h.trimmed, urlsIn, append_assoc]

/-- Every URL that is found is such a URL. -/
theorem exists_isLocalUrl {text url : Text} (h : (port,url) ∈ urlsIn text) :
    ∃ scheme authority path, url = scheme ++ authority ++ path ∧ IsLocalUrl port scheme authority path := by
  induction hn : text.length using Nat.strong_induction_on generalizing text with
  | _ n ih =>
    cases text with
    | nil =>
      rw [urlsIn] at h
      exact absurd h not_mem_nil
    | cons c text =>
      cases hscheme : schemeOf (c :: text) with
      | none =>
        rw [urlsIn_plain hscheme] at h
        exact ih text.length (by rw [← hn]; exact Nat.lt_succ_self _) h rfl
      | some scheme =>
        obtain ⟨hkind,rest,hrest⟩ := schemeOf_eq_some hscheme
        rw [hrest] at hscheme h hn
        have hpos : 0 < scheme.length := by
          rcases hkind with rfl | rfl <;> decide
        rw [length_append] at hn
        rw [urlsIn_scheme hscheme] at h
        cases hfound : authorityOf rest with
        | none =>
          rw [hfound, Option.elim_none] at h
          exact ih rest.length (by omega) h rfl
        | some found =>
          obtain ⟨port',authority⟩ := found
          rw [hfound, Option.elim_some] at h
          obtain ⟨⟨after,rfl⟩,hany,front,digit,rfl,hdigit⟩ := authorityOf_spec hfound
          rw [drop_left] at h
          rcases mem_cons.mp h with h | h
          · obtain ⟨rfl,rfl⟩ := Prod.mk.inj h
            obtain ⟨hpath,hplain⟩ := pathOf_spec after
            have htrim : trimUrl (scheme ++ (front ++ [digit]) ++ pathOf after) = scheme ++ (front ++ [digit]) ++ trimUrl (pathOf after) := by
              rw [← append_assoc scheme]
              exact trimUrl_append _ (not_trimmed_of_isDigit hdigit) _
            have hshorter : IsPath (trimUrl (pathOf after)) := hpath.trim
            refine ⟨scheme,front ++ [digit],trimUrl (pathOf after),htrim,hkind,hany _ hshorter,hshorter,fun c hc => ?_,?_⟩
            · refine hplain c ?_
              have hwhole := mem_append_left ((pathOf after).rtakeWhile fun c => c ∈ ['.',',',';',':',')',']','\x27','\x22']) hc
              rwa [trimUrl, rdropWhile_append_rtakeWhile] at hwhole
            · rw [← htrim]
              exact rdropWhile_idempotent _ _
          · refine ih _ ?_ h rfl
            rw [length_drop]
            rw [length_append] at hn
            omega

/-! ### One entry for each port -/

def urlsOf (found : List (ℕ × Text)) (port : ℕ) : List Text := (found.filter (·.1 = port)).map (·.2)

def entryOf (found : List (ℕ × Text)) (port : ℕ) : Option Candidate :=
  (List.argmin urlPathLen (urlsOf found port)).map fun best => ⟨best,port,(urlsOf found port).head?.any startsHttps⟩

theorem urlsOf_concat_self (found : List (ℕ × Text)) (port : ℕ) (url : Text) :
    urlsOf (found ++ [(port,url)]) port = urlsOf found port ++ [url] := by
  simp [urlsOf, List.filter_append]

theorem urlsOf_concat_other (found : List (ℕ × Text)) {other : ℕ} (h : other ≠ port) (url : Text) :
    urlsOf (found ++ [(other,url)]) port = urlsOf found port := by
  simp [urlsOf, List.filter_append, h]

theorem entryOf_eq_none {found : List (ℕ × Text)} : entryOf found port = none ↔ urlsOf found port = [] := by
  rw [entryOf, Option.map_eq_none_iff, argmin_eq_none]

/-- Observing one URL keeps the table of entries. -/
theorem observeUrl_entryOf (added : Bool) (found : List (ℕ × Text)) (port : ℕ) (url : Text) :
    (observeUrl (added,entryOf found) (port,url)).2 = entryOf (found ++ [(port,url)]) := by
  funext other
  unfold observeUrl
  dsimp only
  by_cases hport : port = other
  · subst hport
    have hafter : entryOf (found ++ [(port,url)]) port = (List.argmin urlPathLen (urlsOf found port ++ [url])).map fun best =>
        ⟨best,port,(urlsOf found port ++ [url]).head?.any startsHttps⟩ := by
      rw [entryOf, urlsOf_concat_self]
    rw [hafter, argmin_concat]
    cases hbest : List.argmin urlPathLen (urlsOf found port) with
    | none =>
      have hnone : urlsOf found port = [] := argmin_eq_none.mp hbest
      have hentry : entryOf found port = none := entryOf_eq_none.mpr hnone
      rw [hentry, hnone]
      simp
    | some best =>
      have hentry : entryOf found port = some ⟨best,port,(urlsOf found port).head?.any startsHttps⟩ := by
        rw [entryOf, hbest, Option.map_some]
      obtain ⟨first,later,hfirst⟩ : ∃ first later, urlsOf found port = first :: later :=
        exists_cons_of_ne_nil fun hnil => by
          rw [hnil] at hbest
          cases hbest
      rw [hentry, hfirst]
      dsimp only
      split_ifs with hshorter
      · simp
      · dsimp only
        rw [hentry, hfirst]
        simp
  · have hafter : entryOf (found ++ [(port,url)]) other = entryOf found other := by
      rw [entryOf, urlsOf_concat_other found hport, entryOf]
    rw [hafter]
    cases entryOf found port with
    | none => exact Function.update_of_ne (Ne.symm hport) _ _
    | some entry =>
      dsimp only
      split_ifs
      · exact Function.update_of_ne (Ne.symm hport) _ _
      · rfl

theorem foldl_observeUrl (urls found : List (ℕ × Text)) (added : Bool) :
    (urls.foldl observeUrl (added,entryOf found)).2 = entryOf (found ++ urls) := by
  induction urls generalizing found added with
  | nil => rw [append_nil]; rfl
  | cons head urls ih =>
    obtain ⟨port,url⟩ := head
    have hstep := observeUrl_entryOf added found port url
    rw [foldl_cons, append_cons, ← ih (found ++ [(port,url)]) (observeUrl (added,entryOf found) (port,url)).1, ← hstep]

def observeScreens (screens : List Text) : Option LocalUrlTracker :=
  screens.foldlM (fun tracker screen => (observeScreen tracker screen).map (·.2)) ⟨fun _ => none,[]⟩

theorem foldlM_observeScreen (screens : List Text) (found : List (ℕ × Text)) (published : List Text) :
    screens.foldlM (fun tracker screen => (observeScreen tracker screen).map (·.2)) (LocalUrlTracker.mk (entryOf found) published) =
      some ⟨entryOf (found ++ screens.flatMap urlsIn),published⟩ := by
  induction screens generalizing found with
  | nil => rw [flatMap_nil, append_nil]; rfl
  | cons screen screens ih =>
    have hscreen : (observeScreen ⟨entryOf found,published⟩ screen).map (·.2) = some ⟨entryOf (found ++ urlsIn screen),published⟩ := by
      rw [observeScreen, extractLocalUrls_eq, Option.map_some, Option.map_some, ← foldl_observeUrl (urlsIn screen) found false]
    rw [foldlM_cons, hscreen, flatMap_cons, ← append_assoc]
    exact ih _

theorem observeScreens_eq (screens : List Text) : observeScreens screens = some ⟨entryOf (screens.flatMap urlsIn),[]⟩ := by
  have h := foldlM_observeScreen screens [] []
  exact h

/-! ### Coherence -/

def shownFor (screens : List Text) (port : ℕ) : List Text := urlsOf (screens.flatMap fun screen => (extractLocalUrls screen).getD []) port

/-- A candidate is what its URL says, the URL is the nearest one, and whoever extracts it again
judges it by the same rule. -/
structure CoherentCandidate (screens : List Text) (port : ℕ) (candidate : Candidate) : Prop where
  samePort : candidate.port = port
  https : candidate.https = startsHttps candidate.url
  shown : candidate.url ∈ shownFor screens port
  nearest : ∀ url ∈ shownFor screens port, urlPathLen candidate.url ≤ urlPathLen url
  extracted : extractLocalUrls candidate.url = some [(candidate.port,candidate.url)]
  judged : ∀ loopbacks, urlIsOpenableSite loopbacks candidate.url = urlServesWebsite loopbacks candidate

def Coherent (screens : List Text) (tracker : LocalUrlTracker) : Prop :=
  ∀ port candidate, tracker.candidates port = some candidate → CoherentCandidate screens port candidate

theorem shownFor_eq (screens : List Text) : shownFor screens = urlsOf (screens.flatMap urlsIn) := by
  funext port
  unfold shownFor
  simp only [extractLocalUrls_eq, Option.getD_some]

/-- The candidates cohere if and only if on each port the nearest URL has the scheme of the first. -/
theorem candidates_cohere_iff (screens : List Text) : ∃ tracker, observeScreens screens = some tracker ∧
    (Coherent screens tracker ↔ ∀ port first best, (shownFor screens port).head? = some first →
      List.argmin urlPathLen (shownFor screens port) = some best → startsHttps best = startsHttps first) := by
  refine ⟨_,observeScreens_eq screens,?_⟩
  constructor
  · intro hcoherent port first best hfirst hbest
    rw [shownFor_eq] at hfirst hbest
    have hentry : entryOf (screens.flatMap urlsIn) port = some ⟨best,port,startsHttps first⟩ := by
      rw [entryOf, hbest, hfirst, Option.map_some, Option.any_some]
    exact (hcoherent port _ hentry).https.symm
  · intro hsame port candidate hcandidate
    obtain ⟨best,hbest,rfl⟩ := Option.map_eq_some_iff.mp hcandidate
    obtain ⟨first,later,hfirst⟩ : ∃ first later, urlsOf (screens.flatMap urlsIn) port = first :: later :=
      exists_cons_of_ne_nil fun hnil => by
        rw [hnil] at hbest
        cases hbest
    have hshown : best ∈ urlsOf (screens.flatMap urlsIn) port := argmin_mem hbest
    have hhttps : ((urlsOf (screens.flatMap urlsIn) port).head?.any startsHttps) = startsHttps best := by
      rw [hfirst, head?_cons, Option.any_some]
      refine (hsame port first best ?_ ?_).symm
      · rw [shownFor_eq, hfirst, head?_cons]
      · rw [shownFor_eq, hbest]
    have hextracted : extractLocalUrls best = some [(port,best)] := by
      obtain ⟨⟨port',url⟩,hkept,rfl⟩ := mem_map.mp hshown
      obtain ⟨hfound,hport⟩ := mem_filter.mp hkept
      obtain ⟨screen,-,hurl⟩ := mem_flatMap.mp hfound
      rw [← of_decide_eq_true hport]
      obtain ⟨scheme,authority,path,rfl,hlocal⟩ := exists_isLocalUrl hurl
      rw [extractLocalUrls_eq, hlocal.urlsIn_eq]
    refine ⟨rfl,hhttps,?_,?_,hextracted,fun loopbacks => ?_⟩
    · rw [shownFor_eq]
      exact hshown
    · rw [shownFor_eq]
      exact fun url hurl => le_of_mem_argmin hurl hbest
    · rw [urlIsOpenableSite, hextracted, Option.bind_some, hhttps]

theorem isLocalUrl_link : IsLocalUrl 3000 httpScheme "localhost:3000".toList "/link".toList :=
  ⟨.inl rfl,by decide,.inr ⟨"link".toList,rfl⟩,by simp [endsUrl, isWhitespace],by decide⟩

theorem isLocalUrl_root : IsLocalUrl 3000 httpsScheme "localhost:3000".toList [] :=
  ⟨.inr rfl,by decide,.inl rfl,fun c hc => absurd hc not_mem_nil,by decide⟩

/-- The root of a site is shown after a link to it, under the other scheme. -/
theorem link_keeps_its_scheme : ∃ tracker, observeScreens ["http://localhost:3000/link".toList,"https://localhost:3000".toList] =
    some tracker ∧ ¬Coherent ["http://localhost:3000/link".toList,"https://localhost:3000".toList] tracker := by
  refine ⟨_,observeScreens_eq _,fun hcoherent => ?_⟩
  have hlink : urlsIn "http://localhost:3000/link".toList = [(3000,"http://localhost:3000/link".toList)] := isLocalUrl_link.urlsIn_eq
  have hroot : urlsIn "https://localhost:3000".toList = [(3000,"https://localhost:3000".toList)] := isLocalUrl_root.urlsIn_eq
  have hentry : entryOf (["http://localhost:3000/link".toList,"https://localhost:3000".toList].flatMap urlsIn) 3000 =
      some ⟨"https://localhost:3000".toList,3000,false⟩ := by
    rw [flatMap_cons, flatMap_cons, flatMap_nil, hlink, hroot]
    rfl
  exact absurd (hcoherent 3000 _ hentry).https (by decide)

end Unpeel.Sites
