import Unpeel.Stdio.JsonText

/-! # The codec of requests and responses

A Controller writes requests and reads responses. A Host reads requests in a strict or in a
permissive way, and writes responses that fit into a frame.
-/
namespace Unpeel.Stdio
open Manifest Remote Fallible List

section Maps
variable {β : Type*}

def insertKey (key : Text) (value : β) : List (Text × β) → List (Text × β)
  | [] => [(key,value)]
  | entry :: rest =>
    if key = entry.1 then (key,value) :: rest
    else if keyBefore key entry.1 then (key,value) :: entry :: rest
    else entry :: insertKey key value rest

def collectMap (entries : List (Text × β)) : List (Text × β) := entries.foldl (fun map entry => insertKey entry.1 entry.2 map) []

def Ordered (entries : List (Text × β)) : Prop := entries.Pairwise fun f g => keyBefore f.1 g.1 = true

theorem keyBefore_trans {r s t : Text} (h : keyBefore r s = true) (h' : keyBefore s t = true) : keyBefore r t = true := by
  induction r generalizing s t with
  | nil =>
    cases t with
    | nil => cases s <;> cases h'
    | cons => rfl
  | cons c r ih =>
    rcases s with _ | ⟨d,s⟩
    · cases h
    rcases t with _ | ⟨e,t⟩
    · cases h'
    simp only [keyBefore, Bool.or_eq_true, Bool.and_eq_true, decide_eq_true_eq] at h h' ⊢
    rcases h with h | ⟨rfl,h⟩ <;> rcases h' with h' | ⟨rfl,h'⟩
    · exact .inl (h.trans h')
    · exact .inl h
    · exact .inl h'
    · exact .inr ⟨rfl,ih h h'⟩

theorem keyBefore_total {s t : Text} (hne : s ≠ t) (h : keyBefore s t = false) : keyBefore t s = true := by
  induction s generalizing t with
  | nil =>
    cases t with
    | nil => exact absurd rfl hne
    | cons => cases h
  | cons c s ih =>
    rcases t with _ | ⟨d,t⟩
    · rfl
    simp only [keyBefore, Bool.or_eq_true, Bool.and_eq_true, decide_eq_true_eq, Bool.or_eq_false_iff,
      decide_eq_false_iff_not, Nat.not_lt] at h ⊢
    rcases Nat.lt_or_eq_of_le h.1 with hlt | heq
    · exact .inl hlt
    · obtain rfl := Char.toNat_inj.mp heq
      refine .inr ⟨rfl,ih (fun heq => hne (congrArg _ heq)) ?_⟩
      simpa using h.2

theorem mem_insertKey {key : Text} {value : β} {map : List (Text × β)} {entry : Text × β}
    (h : entry ∈ insertKey key value map) : entry = (key,value) ∨ entry ∈ map := by
  induction map with
  | nil => exact .inl (mem_singleton.mp h)
  | cons first rest ih =>
    unfold insertKey at h
    split_ifs at h with heq hbefore
    · exact (mem_cons.mp h).imp_right (mem_cons_of_mem _)
    · exact mem_cons.mp h
    · rcases mem_cons.mp h with rfl | h
      · exact .inr mem_cons_self
      · exact (ih h).imp_right (mem_cons_of_mem _)

theorem Ordered.insertKey {map : List (Text × β)} (h : Ordered map) (key : Text) (value : β) : Ordered (insertKey key value map) := by
  induction map with
  | nil => exact pairwise_singleton _ _
  | cons first rest ih =>
    obtain ⟨hfirst,hrest⟩ := pairwise_cons.mp h
    unfold Stdio.insertKey
    split_ifs with heq hbefore
    · exact pairwise_cons.mpr ⟨fun entry hentry => by rw [heq]; exact hfirst entry hentry,hrest⟩
    · refine pairwise_cons.mpr ⟨fun entry hentry => ?_,h⟩
      rcases mem_cons.mp hentry with rfl | hentry
      · exact hbefore
      · exact keyBefore_trans hbefore (hfirst entry hentry)
    · refine pairwise_cons.mpr ⟨fun entry hentry => ?_,ih hrest⟩
      rcases mem_insertKey hentry with rfl | hentry
      · exact keyBefore_total heq (by simpa using hbefore)
      · exact hfirst entry hentry

theorem insertKey_perm {key : Text} {map : List (Text × β)} (h : key ∉ map.map (·.1)) (value : β) :
    (insertKey key value map).Perm ((key,value) :: map) := by
  induction map with
  | nil => exact List.Perm.refl _
  | cons first rest ih =>
    rw [map_cons, mem_cons, not_or] at h
    unfold insertKey
    rw [if_neg h.1]
    split_ifs
    · exact List.Perm.refl _
    · exact ((ih h.2).cons first).trans (List.Perm.swap _ _ _)

theorem collect_spec (entries : List (Text × β)) :
    Ordered (collectMap entries) ∧ ((entries.map (·.1)).Nodup → (collectMap entries).Perm entries) := by
  induction entries using List.reverseRecOn with
  | nil => exact ⟨List.Pairwise.nil,fun _ => List.Perm.refl _⟩
  | append_singleton entries entry ih =>
    have hstep : collectMap (entries ++ [entry]) = insertKey entry.1 entry.2 (collectMap entries) := by
      unfold collectMap
      rw [foldl_append, foldl_cons, foldl_nil]
    rw [hstep]
    refine ⟨ih.1.insertKey _ _,fun hnodup => ?_⟩
    rw [map_append, nodup_append] at hnodup
    have hperm := ih.2 hnodup.1
    have hnew : entry.1 ∉ (collectMap entries).map (·.1) := fun hmem =>
      hnodup.2.2 _ ((hperm.map _).mem_iff.mp hmem) _ (mem_singleton_self _) rfl
    exact (insertKey_perm hnew entry.2).trans ((hperm.cons _).trans (perm_append_singleton _ _).symm)

end Maps

section Requests
variable {envelope : JsonValue}
variable {fields : List (Text × JsonValue)} {query : List (Text × Text)} {request : TunnelRequest}

def optionalText : Option Text → JsonValue
  | some s => .str s
  | none => .null

def bodyValue (body : Bytes) : JsonValue := if body = [] then .null else .str (Base64.encode body)

def queryEntry (entry : Text × Text) : Text × JsonValue := (entry.1,.str entry.2)

def requestValue (request : TunnelRequest) : JsonValue :=
  .obj [("auth".toList,optionalText request.auth),("bodyB64".toList,bodyValue request.body),
    ("contentType".toList,optionalText request.contentType),("id".toList,.unsigned request.id),
    ("method".toList,.str request.method),("path".toList,.str request.path),
    ("query".toList,.obj (collectMap (request.query.map queryEntry)))]

def encodeTunnelRequest (request : TunnelRequest) : Bytes := (requestValue request).bytes

variable (fromSlice : Bytes → Option JsonValue)

def parseTunnelRequest (plaintext : Bytes) : Option TunnelRequest := do
  let value ← fromSlice plaintext
  let query := match value.get "query" with
    | some (.obj query) => query.filterMap fun (key,value) => value.asStr.map (key,·)
    | _ => []
  let id ← (value.get "id").bind JsonValue.asU64
  let method ← (value.get "method").bind JsonValue.asStr
  let path ← (value.get "path").bind JsonValue.asStr
  some ⟨id,method,path,query,(value.get "auth").bind JsonValue.asStr,(value.get "contentType").bind JsonValue.asStr,
    (((value.get "bodyB64").bind JsonValue.asStr).bind Base64.decode).getD []⟩

variable {fromSlice}

theorem optionalString_eq_ok {key : String} {s : Option Text} (h : optionalString envelope key = .ok s) :
    (envelope.get key).bind JsonValue.asStr = s := by
  unfold optionalString at h
  split at h
  · rename_i hget
    cases h
    rw [hget]
    rfl
  · rename_i hget
    cases h
    rw [hget]
    rfl
  · rename_i value hget
    cases h
    rw [hget]
    rfl
  · cases h

theorem bodyOf_eq_ok {body : Bytes} (h : bodyOf envelope = .ok body) :
    (((envelope.get "bodyB64").bind JsonValue.asStr).bind Base64.decode).getD [] = body := by
  obtain ⟨s,hs,h⟩ := bind_eq_ok h
  rw [optionalString_eq_ok hs]
  cases s with
  | none =>
    cases h
    rfl
  | some s => rw [Option.bind_some, orError_eq_ok h, Option.getD_some]

/-- Strings of an object that are read one by one are the strings it has. -/
theorem filterMap_of_mapM (h : (fields.mapM fun (key,value) => match value.asStr with
      | some value => Except.ok (key,value)
      | none => .error "query values must be strings") = .ok query) :
    (fields.filterMap fun (key,value) => value.asStr.map (key,·)) = query := by
  induction fields generalizing query with
  | nil =>
    cases h
    rfl
  | cons field fields ih =>
    obtain ⟨key,value⟩ := field
    rw [mapM_cons] at h
    obtain ⟨entry,hentry,h⟩ := bind_eq_ok h
    obtain ⟨rest,hrest,h⟩ := bind_eq_ok h
    cases h
    cases hvalue : value.asStr with
    | none => simp [hvalue] at hentry
    | some s =>
      simp only [hvalue, Except.ok.injEq] at hentry
      rw [filterMap_cons_some (b := entry) (by simp [hvalue, hentry]), ih hrest]

theorem queryOf_eq_ok (h : queryOf envelope = .ok query) : (match envelope.get "query" with
      | some (.obj query) => query.filterMap fun (key,value) => value.asStr.map (key,·)
      | _ => []) = query := by
  unfold queryOf at h
  split at h
  · rename_i hget
    cases h
    rw [hget]
  · rename_i hget
    cases h
    rw [hget]
  · rename_i fields hget
    rw [hget]
    exact filterMap_of_mapM h
  · cases h

/-- What the strict reader reads, the permissive one reads as well. -/
theorem parse_of_strict {plaintext : Bytes}
    (h : parseTunnelRequestStrict fromSlice plaintext = .ok request) : parseTunnelRequest fromSlice plaintext = some request := by
  obtain ⟨value,hvalue,h⟩ := bind_eq_ok h
  split at h
  · obtain ⟨query,hquery,h⟩ := bind_eq_ok h
    obtain ⟨body,hbody,h⟩ := bind_eq_ok h
    obtain ⟨id,hid,h⟩ := bind_eq_ok h
    obtain ⟨method,hmethod,h⟩ := bind_eq_ok h
    obtain ⟨path,hpath,h⟩ := bind_eq_ok h
    obtain ⟨auth,hauth,h⟩ := bind_eq_ok h
    obtain ⟨contentType,hcontentType,h⟩ := bind_eq_ok h
    cases h
    unfold parseTunnelRequest
    simp only [orError_eq_ok hvalue, orError_eq_ok hid, orError_eq_ok hmethod, orError_eq_ok hpath, queryOf_eq_ok hquery,
      optionalString_eq_ok hauth, optionalString_eq_ok hcontentType, bodyOf_eq_ok hbody, Option.bind_eq_bind, Option.bind_some]
  · cases h

/-- Values without fractions come back from their text, as long as they are not nested deeper
than the reader goes. -/
def Faithful (fromSlice : Bytes → Option JsonValue) : Prop := ∀ value, JsonValue.Plain 127 value → fromSlice value.bytes = some value

theorem plain_optionalText (n : ℕ) (s : Option Text) : JsonValue.Plain n (optionalText s) := by
  cases s with
  | none => exact .null
  | some s => exact .str s

theorem plain_bodyValue (n : ℕ) (body : Bytes) : JsonValue.Plain n (bodyValue body) := by
  unfold bodyValue
  split
  · exact .null
  · exact .str _

theorem collectMap_query (query : List (Text × Text)) (hnodup : (query.map (·.1)).Nodup) :
    ∃ sorted : List (Text × Text), sorted.Perm query ∧ collectMap (query.map queryEntry) = sorted.map queryEntry := by
  have hkeys : (query.map queryEntry).map (·.1) = query.map (·.1) := map_map
  have hperm := (collect_spec (query.map queryEntry)).2 (hkeys ▸ hnodup)
  have hback (entry : Text × Text) (_ : entry ∈ query) :
      ((fun field : Text × JsonValue => (field.1,field.2.asStr.getD [])) ∘ queryEntry) entry = entry := rfl
  refine ⟨(collectMap (query.map queryEntry)).map fun field => (field.1,field.2.asStr.getD []),?_,?_⟩
  · have h := hperm.map fun field : Text × JsonValue => (field.1,field.2.asStr.getD [])
    rwa [map_map, map_congr_left hback, map_id'] at h
  · rw [map_map]
    conv_lhs => rw [← map_id (collectMap (query.map queryEntry))]
    refine map_congr_left fun field hfield => ?_
    obtain ⟨entry,-,rfl⟩ := mem_map.mp (hperm.mem_iff.mp hfield)
    rfl

theorem mem_insertMap {entries : List (Text × JsonValue)} {field : Text × JsonValue} (h : field ∈ collectMap entries) :
    field ∈ entries := by
  induction entries using List.reverseRecOn with
  | nil => cases h
  | append_singleton entries entry ih =>
    unfold collectMap at h
    rw [foldl_append, foldl_cons, foldl_nil] at h
    rcases mem_insertKey h with rfl | h
    · exact mem_append_right _ mem_cons_self
    · exact mem_append_left _ (ih h)

theorem ordered_of_keys (keys : List Text) (heq : fields.map (·.1) = keys)
    (h : keys.Pairwise fun s t => keyBefore s t = true) : Ordered fields := by
  subst heq
  exact pairwise_map.mp h

theorem plain_requestValue (n : ℕ) (request : TunnelRequest) : JsonValue.Plain (n + 2) (requestValue request) := by
  have hkeys : (["auth","bodyB64","contentType","id","method","path","query"].map String.toList).Pairwise fun s t =>
      keyBefore s t = true := by decide +kernel
  refine .obj (ordered_of_keys _ rfl hkeys) fun field hfield => ?_
  simp only [mem_cons, not_mem_nil, or_false] at hfield
  rcases hfield with rfl | rfl | rfl | rfl | rfl | rfl | rfl
  · exact plain_optionalText _ _
  · exact plain_bodyValue _ _
  · exact plain_optionalText _ _
  · exact .unsigned _
  · exact .str _
  · exact .str _
  · refine .obj (collect_spec _).1 fun field hfield => ?_
    obtain ⟨entry,-,rfl⟩ := mem_map.mp (mem_insertMap hfield)
    exact .str _

theorem mapM_queryEntry (sorted : List (Text × Text)) :
    ((sorted.map queryEntry).mapM fun (key,value) => match value.asStr with
      | some value => Except.ok (key,value)
      | none => .error "query values must be strings") = .ok sorted := by
  induction sorted with
  | nil => rfl
  | cons entry sorted ih =>
    rw [map_cons, mapM_cons, ih]
    rfl

theorem optionalString_optionalText {key : String} {s : Option Text}
    (h : envelope.get key = some (optionalText s)) : optionalString envelope key = .ok s := by
  unfold optionalString
  rw [h]
  cases s <;> rfl

theorem bodyOf_bodyValue {body : Bytes} (h : envelope.get "bodyB64" = some (bodyValue body)) :
    bodyOf envelope = .ok body := by
  unfold bodyOf optionalString
  rw [h]
  unfold bodyValue
  split_ifs with hempty
  · rw [hempty]
    rfl
  · show orError (Base64.decode (Base64.encode body)) _ = _
    rw [Base64.decode_encode]
    rfl

theorem parse_encodeTunnelRequest (hcodec : Faithful fromSlice) (hnodup : (request.query.map (·.1)).Nodup) :
    ∃ query : List (Text × Text), query.Perm request.query ∧
      parseTunnelRequestStrict fromSlice (encodeTunnelRequest request) = .ok { request with query := query } := by
  obtain ⟨sorted,hperm,hsorted⟩ := collectMap_query request.query hnodup
  refine ⟨sorted,hperm,?_⟩
  have hvalue : fromSlice (encodeTunnelRequest request) = some (requestValue request) := hcodec _ (plain_requestValue 125 request)
  have hquery : queryOf (requestValue request) = .ok sorted := by
    show ((collectMap (request.query.map queryEntry)).mapM _) = _
    rw [hsorted]
    exact mapM_queryEntry sorted
  have hauth : optionalString (requestValue request) "auth" = .ok request.auth := optionalString_optionalText rfl
  have htype : optionalString (requestValue request) "contentType" = .ok request.contentType := optionalString_optionalText rfl
  have hbody : bodyOf (requestValue request) = .ok request.body := bodyOf_bodyValue rfl
  unfold parseTunnelRequestStrict
  rw [hvalue]
  show (queryOf (requestValue request)).bind _ = _
  rw [hquery]
  rw [hbody]
  rw [hauth]
  rw [htype]
  rfl

end Requests

section Responses
variable (fromSlice : Bytes → Option JsonValue)

structure TunnelResponse where
  id : UInt64
  status : UInt16
  body : Bytes
deriving DecidableEq

def asU16 (n : UInt64) : Option UInt16 := if n.toNat < 65536 then some (UInt16.ofNat n.toNat) else none

def parseTunnelResponse (plaintext : Bytes) : Except String TunnelResponse := do
  let value ← orError (fromSlice plaintext) "response is not valid JSON"
  if value.isObject then do
    let body ← bodyOf value
    let status ← orError (((value.get "status").bind JsonValue.asU64).bind asU16) "status must be an unsigned 16-bit integer"
    let id ← orError ((value.get "id").bind JsonValue.asU64) "id must be an unsigned integer"
    pure ⟨id,status,body⟩
  else throw "response envelope must be an object"

variable {fromSlice}

def responseValue (id : UInt64) (status : UInt16) (body : Bytes) : JsonValue :=
  .obj [("bodyB64".toList,bodyValue body),("id".toList,.unsigned id),("status".toList,.unsigned status.toUInt64)]

theorem plain_responseValue (n : ℕ) (id : UInt64) (status : UInt16) (body : Bytes) : JsonValue.Plain (n + 1) (responseValue id status body) := by
  have hkeys : (["bodyB64","id","status"].map String.toList).Pairwise fun s t => keyBefore s t = true := by decide +kernel
  refine .obj (ordered_of_keys _ rfl hkeys) fun field hfield => ?_
  simp only [mem_cons, not_mem_nil, or_false] at hfield
  rcases hfield with rfl | rfl | rfl
  · exact plain_bodyValue _ _
  · exact .unsigned _
  · exact .unsigned _

theorem escaped_plain {c : Char} (hquote : c ≠ '"') (hback : c ≠ '\\') (hcontrol : 32 ≤ c.toNat) : escaped c = [c] := by
  have hne : ∀ d : Char, d.toNat < 32 → c ≠ d := by
    rintro d hd rfl
    omega
  unfold escaped
  rw [if_neg hquote, if_neg hback, if_neg (hne _ (by decide)), if_neg (hne _ (by decide)), if_neg (hne _ (by decide)),
    if_neg (hne _ (by decide)), if_neg (hne _ (by decide)), if_neg (by omega)]

theorem flatMap_escaped {s : Text} (h : ∀ c ∈ s, escaped c = [c]) : s.flatMap escaped = s := by
  induction s with
  | nil => rfl
  | cons c s ih =>
    rw [flatMap_cons, h c mem_cons_self, ih fun d hd => h d (mem_cons_of_mem c hd)]
    rfl

theorem text_bodyValue (body : Bytes) : (bodyValue body).text = bodyText body := by
  unfold bodyValue bodyText
  split_ifs
  · rfl
  · have halphabet : (('=' :: Base64.alphabet).all fun c => c != '"' && c != '\\' && decide (32 ≤ c.toNat)) = true := by decide +kernel
    have hplain : ∀ c ∈ Base64.encode body, escaped c = [c] := by
      intro c hc
      have hspec := all_eq_true.mp halphabet c (Base64.mem_encode hc)
      simp only [Bool.and_eq_true, bne_iff_ne, decide_eq_true_eq] at hspec
      exact escaped_plain hspec.1.1 hspec.1.2 hspec.2
    rw [JsonValue.text, stringText, flatMap_escaped hplain]
    rfl

theorem encodeTunnelResponse_eq (id : UInt64) (status : UInt16) (body : Bytes) :
    encodeTunnelResponse id status body = (responseValue id status body).bytes := by
  have htext : (responseValue id status body).text = "\x7b\"bodyB64\":".toList ++ bodyText body ++ ",\"id\":".toList ++
      Nat.toDigits 10 id.toNat ++ ",\"status\":".toList ++ Nat.toDigits 10 status.toNat ++ ['\x7d'] := by
    have hbody : stringText "bodyB64".toList = "bodyB64\"".toList := by decide +kernel
    have hid : stringText "id".toList = "id\"".toList := by decide +kernel
    have hstatus : stringText "status".toList = "status\"".toList := by decide +kernel
    simp only [responseValue, JsonValue.text, JsonValue.fieldsText, text_bodyValue, hbody, hid, hstatus, UInt16.toNat_toUInt64]
    simp
  unfold encodeTunnelResponse JsonValue.bytes
  rw [htext, Utf8.encode_ascii fun c hc => mem_responseText hc]
  rfl

theorem parse_encodeTunnelResponse (hcodec : Faithful fromSlice) (id : UInt64) (status : UInt16) (body : Bytes) :
    parseTunnelResponse fromSlice (encodeTunnelResponse id status body) = .ok ⟨id,status,body⟩ := by
  have hvalue : fromSlice (encodeTunnelResponse id status body) = some (responseValue id status body) := by
    rw [encodeTunnelResponse_eq]
    exact hcodec _ (plain_responseValue 126 id status body)
  have hbody : bodyOf (responseValue id status body) = .ok body := bodyOf_bodyValue rfl
  have hstatus : asU16 status.toUInt64 = some status := by
    unfold asU16
    rw [UInt16.toNat_toUInt64, if_pos status.toNat_lt, UInt16.ofNat_toNat]
  unfold parseTunnelResponse
  rw [hvalue]
  show (bodyOf (responseValue id status body)).bind _ = _
  rw [hbody]
  show (orError (asU16 status.toUInt64) _).bind _ = _
  rw [hstatus]
  rfl

/-- A response comes back unless it is too large for a frame. -/
theorem parse_encodeBounded (hcodec : Faithful fromSlice) (id : UInt64) (status : UInt16) (body : Bytes) :
    parseTunnelResponse fromSlice (encodeBoundedTunnelResponse id status body) =
      .ok (if (encodeTunnelResponse id status body).length ≤ maxPlaintextBytes then ⟨id,status,body⟩
        else ⟨id,413,responseTooLarge⟩) := by
  have hfits : plaintextFrameFits (encodeTunnelResponse id status body).length = true ↔
      (encodeTunnelResponse id status body).length ≤ maxPlaintextBytes := decide_eq_true_iff
  unfold encodeBoundedTunnelResponse
  dsimp only
  split_ifs with h h' h'
  · exact parse_encodeTunnelResponse hcodec id status body
  · exact absurd (hfits.mp h) h'
  · exact absurd (hfits.mpr h') h
  · exact parse_encodeTunnelResponse hcodec id 413 responseTooLarge

end Responses

variable {fromSlice : Bytes → Option JsonValue}

/-- Requests come back up to the order of the query, both readers agree, and a response comes
back unless it is too large for a frame. -/
theorem tunnel_codec_round_trips (hcodec : Faithful fromSlice) :
    (∀ request : TunnelRequest, (request.query.map (·.1)).Nodup → ∃ query : List (Text × Text), query.Perm request.query ∧
      parseTunnelRequestStrict fromSlice (encodeTunnelRequest request) = .ok { request with query := query }) ∧
    (∀ plaintext request, parseTunnelRequestStrict fromSlice plaintext = .ok request →
      parseTunnelRequest fromSlice plaintext = some request) ∧
    ∀ id status body, (encodeBoundedTunnelResponse id status body).length ≤ maxPlaintextBytes ∧
      parseTunnelResponse fromSlice (encodeBoundedTunnelResponse id status body) =
        .ok (if (encodeTunnelResponse id status body).length ≤ maxPlaintextBytes then ⟨id,status,body⟩
          else ⟨id,413,responseTooLarge⟩) := by
  refine ⟨fun request hnodup => parse_encodeTunnelRequest hcodec hnodup,fun plaintext request => parse_of_strict,fun id status body => ?_⟩
  exact ⟨(encodeBounded_fits id status body).2,parse_encodeBounded hcodec id status body⟩

theorem faithful_ofBytes : Faithful JsonValue.ofBytes := fun _ h => JsonValue.ofBytes_bytes h

/-- A request with two query fields, and the reader of this development. -/
theorem upload_request_round_trips :
    ∃ query : List (Text × Text), query.Perm [("name".toList,"a b".toList),("kind".toList,"image".toList)] ∧
      parseTunnelRequestStrict JsonValue.ofBytes (encodeTunnelRequest ⟨19,"POST".toList,"/mobile/upload-chunk".toList,
        [("name".toList,"a b".toList),("kind".toList,"image".toList)],none,some "image/png".toList,[0,1,2,255]⟩) =
      .ok ⟨19,"POST".toList,"/mobile/upload-chunk".toList,query,none,some "image/png".toList,[0,1,2,255]⟩ :=
  (tunnel_codec_round_trips faithful_ofBytes).1 ⟨19,"POST".toList,"/mobile/upload-chunk".toList,
    [("name".toList,"a b".toList),("kind".toList,"image".toList)],none,some "image/png".toList,[0,1,2,255]⟩ (by decide +kernel)

end Unpeel.Stdio
