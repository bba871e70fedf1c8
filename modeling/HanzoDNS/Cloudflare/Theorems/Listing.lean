import HanzoDNS.Api.Theorems.Cloudflare
import HanzoDNS.Cloudflare.Client
import HanzoDNS.Lib.Pages

open Strings Json Prog Pages List Option

namespace Cloudflare

open Strconv Client Hanzodns.Provider Hanzodns.CfEnvelope Nat

open Hanzodns (CfRecord CfZone CfError Answered Response bodyLimit contentOf received connected handleListRecords)

abbrev Server := Request → Exchange

def run (server : Server) (p : Net α) : Served (fun _ : Request => Exchange) α Unit :=
  p.serve (fun _ r => (server r, ())) ()

-- Texts of JSON: what is left of an object that has been cut is not valid, unless only blanks are missing.
structure Text (parse : Http.Bytes → Option Json) : Prop where
  empty : parse [] = none
  cut {body : Http.Bytes} {members : List (Str × Json)} (h : parse body = some (.object members)) (n : Nat) :
    parse (body.take n) = none ∨ parse (body.take n) = parse body

section Server

structure IsInfo (info : List (Str × Json)) (items : List Json) (n k : Nat) : Prop where
  page : Has info "page" (.number (itoa k))
  perPage : Has info "per_page" (.number (itoa n))
  totalPages : Has info "total_pages" (.number (itoa (total items n)))
  count : Has info "count" (.number (itoa (Pages.page items n k).length))
  totalCount : Has info "total_count" (.number (itoa items.length))

structure IsPage (members : List (Str × Json)) (items : List Json) (n k : Nat) : Prop where
  success : Has members "success" (.bool true)
  errors : Has members "errors" (.array [])
  result : Has members "result" (.array (page items n k))
  info : ∃ info, Has members "result_info" (.object info) ∧ IsInfo info items n k

-- Requests for some items at a path are answered with the page that they ask for, by default the first one.
def Paginates (parse : Http.Bytes → Option Json) (server : Server) (path : Http.Bytes) (items : List Json) : Prop :=
  ∀ (r : Request) (n k : Nat), r.method = "GET".toList → r.path = path → 0 < n → 0 < k →
    r.query.lookup "per_page".toList = some (itoa n) →
    (r.query.lookup "page".toList).getD "1".toList = itoa k →
    ∃ body members, server r = .response 200 body none ∧ parse body = some (.object members) ∧
      IsPage members items n k

structure Listing (decode : Decoder α) (zero : α) (decode' : Decoder β) (zero' : β) where
  items : List Json
  provider : List α
  client : List β
  provided : items.mapM (decode zero) = some provider
  listed : items.mapM (decode' zero') = some client

abbrev Zones := Listing CfZone.decode {} Zone.decode {}

abbrev Records := Listing CfRecord.decode {} Record.decode .zero

-- The zones of an account and the records of one of them are found where the clients look for them.
structure Serves (parse : Http.Bytes → Option Json) (server : Server) (zones : Zones) (zoneID : Str)
    (records : Records) : Prop where
  zones : Paginates parse server (bytes ("/zones" : Str)) zones.items
  provider : Paginates parse server (Hanzodns.recordsPath zoneID) records.items
  client : Paginates parse server (recordsPath zoneID) records.items

end Server

section Complete

variable (quote : Str → Str) (parse : Http.Bytes → Option Json) (server : Server)

-- The run ends with this result, after at most one request for each page. There always is a first page.
def Lists (p : Net α) (result : α) (pages : Nat) : Prop :=
  (run server p).result = result ∧ (run server p).events.length ≤ max 1 pages

def Listed : Answered → Prop
  | ⟨.provider _ (.listRecords zoneID), found⟩ =>
    found = (run server (listRecords parse zoneID)).result.mapError CfError.text
  | _ => True

def Totals (zoneID : Str) (n : Nat) : Prop :=
  ∀ org zone token es response, (handleListRecords quote org zone).Path es response →
    connected org zone token zoneID <+: es → (∀ x ∈ es, Listed parse server x) →
    ∃ records, response = { status := 200, body := .records records n }

structure Complete (zones : Zones) (zoneID : Str) (records : Records) : Prop where
  providerZones : Lists server (Hanzodns.Provider.listZones parse)
    (.ok (zones.provider.map CfZone.toProvider)) (total zones.items 50)
  clientZones : Lists server (Client.listZones parse) (.ok zones.client) (total zones.items 50)
  providerRecords : Lists server (Hanzodns.Provider.listRecords parse zoneID)
    (.ok (records.provider.map CfRecord.toProvider)) (total records.items 100)
  clientRecords : ∀ fuel ≥ max 1 (total records.items 100),
    Lists server (Client.listRecords parse fuel zoneID) (some (.ok records.client)) (total records.items 100)
  total : Totals quote parse server zoneID records.items.length

structure Readable (zoneID : Str) : Prop where
  zones : (contentOf parse (server Hanzodns.Provider.zonesRequest)).isSome
  records : (contentOf parse (server (recordsRequest zoneID))).isSome

end Complete

section Replies

variable {parse : Http.Bytes → Option Json} {server : Server} {items : List Json} {n k : Nat}
variable {body : Http.Bytes} {members : List (Str × Json)}

theorem fieldLoose_of_has {name : Str} {decode : Decoder α} {value : Json} {a : α} (h : Has members name value) :
    fieldLoose name decode members a = decodeLoose decode a value := by
  obtain ⟨key, hk⟩ := h
  rw [fieldLoose, hk]
  rfl

theorem received_page {decode : Decoder α} {zero : α} {found : List α} (ht : Text parse)
    (hb : parse body = some (.object members)) (hp : IsPage members items n k)
    (hf : items.mapM (decode zero) = some found) :
    received parse (some (decodeList zero decode)) [] (.response 200 body none) =
      if (contentOf parse (.response 200 body none)).isSome then .ok (page found n k)
      else .error (.api 200 none) := by
  rw [received, Hanzodns.unwrap, if_neg (by decide), contentOf]
  dsimp only
  obtain hc | hc := ht.cut hb bodyLimit
  case inl => simp [hc, Hanzodns.CfEnvelope.err]
  case inr =>
    have hn : body.take bodyLimit ≠ [] := by
      intro hn
      rw [hn, ht.empty, hb] at hc
      cases hc
    have hs : (Hanzodns.CfEnvelope.decode (.object members)).success = true := by
      rw [Hanzodns.CfEnvelope.decode, fieldLoose_of_has hp.success]
      rfl
    have hr : Hanzodns.rawResult (.object members) = some (some (.array (page items n k))) := by
      obtain ⟨key, hk⟩ := hp.result
      rw [Hanzodns.rawResult, hk]
      rfl
    simp [hc, hb, hn, Hanzodns.CfEnvelope.err, hs, hr, decodeList, mapM_page hf]

theorem total_le_length (hn : 0 < n) : total items n ≤ items.length :=
  (total_le_iff hn).mpr (Nat.le_mul_of_pos_right _ hn)

theorem decode_info {info : List (Str × Json)} (h : IsInfo info items n k) (hn : 0 < n) (hb : n < 2 ^ 63)
    (hk : k < 2 ^ 63) (hi : items.length < 2 ^ 63) :
    ∃ i, PageInfo.decode {} (.object info) = some i ∧ i.totalPages = total items n := by
  have ht : total items n < 2 ^ 63 := lt_of_le_of_lt (total_le_length hn) hi
  have hc : (page items n k).length < 2 ^ 63 := by
    rw [page, length_take, length_drop]
    omega
  rw [PageInfo.decode, decodeStruct]
  simp only [field_of_has h.page, field_of_has h.perPage, field_of_has h.totalPages, field_of_has h.count,
    field_of_has h.totalCount, decodeInt64_itoa hk, decodeInt64_itoa hb, decodeInt64_itoa ht, decodeInt64_itoa hc,
    decodeInt64_itoa hi, Option.bind_eq_bind, Option.bind_some, Option.pure_def]
  exact ⟨_, rfl, rfl⟩

theorem decodeReply_page {decode : Decoder α} {zero : α} {found : List α} (hb : parse body = some (.object members))
    (hp : IsPage members items n k) (hf : items.mapM (decode zero) = some found) (hn : 0 < n) (hn' : n < 2 ^ 63)
    (hk : k < 2 ^ 63) (hi : items.length < 2 ^ 63) :
    ∃ resp, decodeReply parse (decodeList zero decode) [] body = .ok resp ∧ resp.result = page found n k ∧
      ∃ i, resp.resultInfo = some i ∧ i.totalPages = total items n := by
  obtain ⟨info, hi', h⟩ := hp.info
  obtain ⟨i, hd, ht⟩ := decode_info h hn hn' hk hi
  have hr : decodeList zero decode [] (.array (page items n k)) = some (page found n k) := by
    rw [decodeList, mapM_page hf]
  have hpi : decodePointer {} PageInfo.decode none (.object info) = some (some i) := by
    rw [decodePointer, getD_none, hd]
    · rfl
    · exact fun h => by cases h
  have he : decodeList {} ApiError.decode [] (.array []) = some [] := rfl
  rw [decodeReply, hb, bind_some, ApiResponse.decode, decodeStruct]
  simp only [field_of_has hp.success, field_of_has hp.errors, field_of_has hp.result, field_of_has hi',
    decodeBool_bool, he, hr, hpi, Option.bind_eq_bind, Option.bind_some, Option.pure_def, Option.elim_some]
  exact ⟨_, rfl, rfl, i, rfl, ht⟩

end Replies

section Runs

variable {parse : Http.Bytes → Option Json} {server : Server} {r : Request} {body : Http.Bytes}
variable {f : Except ClientError Http.Bytes → Net α}

def Served.after (r : Request) (x : Exchange) (s : Served (fun _ : Request => Exchange) α Unit) :
    Served (fun _ : Request => Exchange) α Unit :=
  { s with events := ⟨r, x⟩ :: s.events }

theorem doRequest_run (h : server r = .response 200 body none) :
    run server (doRequest parse r >>= f) = Served.after r (server r) (run server (f (.ok body))) := by
  change Served.after r (server r) (run server (Prog.bind _ f)) = _
  rw [h]
  rfl

end Runs

section Listings

variable {quote : Str → Str} {parse : Http.Bytes → Option Json} {server : Server}
variable {zones : Zones} {zoneID : Str} {records : Records}

theorem received_paginated {items : List Json} {decode : Decoder α} {zero : α} {found : List α} {r : Request} {n : Nat}
    (ht : Text parse) (hs : Paginates parse server r.path items) (hf : items.mapM (decode zero) = some found)
    (hm : r.method = "GET".toList) (hn : 0 < n) (hq : r.query = [("per_page".toList, itoa n)]) :
    received parse (some (decodeList zero decode)) [] (server r) =
      if (contentOf parse (server r)).isSome then .ok (found.take n) else .error (.api 200 none) := by
  obtain ⟨body, members, hr, hb, hp⟩ := hs r n 1 hm rfl hn (by decide) (hq ▸ rfl) (hq ▸ rfl)
  rw [hr, received_page ht hb hp hf, page_one]

theorem listZones_provider (ht : Text parse) (hs : Serves parse server zones zoneID records) :
    (run server (Hanzodns.Provider.listZones parse)).result =
      if (contentOf parse (server Hanzodns.Provider.zonesRequest)).isSome then
        .ok ((zones.provider.take 50).map CfZone.toProvider) else .error (.api 200 none) := by
  change ((received parse _ [] (server _)).map _ : Except CfError _) = _
  rw [received_paginated (n := 50) ht hs.zones zones.provided rfl (by decide) rfl]
  split <;> rfl

theorem listRecords_provider (ht : Text parse) (hs : Serves parse server zones zoneID records) :
    (run server (listRecords parse zoneID)).result =
      if (contentOf parse (server (recordsRequest zoneID))).isSome then
        .ok ((records.provider.take 100).map CfRecord.toProvider) else .error (.api 200 none) := by
  change ((received parse _ [] (server _)).map _ : Except CfError _) = _
  rw [received_paginated (n := 100) ht hs.provider records.provided rfl (by decide) rfl]
  split <;> rfl

theorem listZones_client (hs : Serves parse server zones zoneID records) (hi : zones.items.length < 2 ^ 63) :
    (run server (Client.listZones parse)).result = .ok (zones.client.take 50) ∧
      (run server (Client.listZones parse)).events.length = 1 := by
  obtain ⟨body, members, hr, hb, hp⟩ := hs.zones Client.zonesRequest 50 1 rfl rfl (by decide) (by decide) rfl rfl
  obtain ⟨resp, hd, ha, _⟩ := decodeReply_page hb hp zones.listed (by decide) (by decide) (by decide) hi
  rw [Client.listZones, doRequest_run hr]
  dsimp only
  rw [hd, ← page_one, ← ha]
  exact ⟨rfl, rfl⟩

theorem listRecordsFrom_run {fuel k : Nat} (hs : Serves parse server zones zoneID records)
    (hi : records.items.length < 2 ^ 63) (hk : 0 < k) (hm : k ≤ max 1 (total records.items 100))
    (hf : max 1 (total records.items 100) < k + fuel) :
    let s := run server (listRecordsFrom parse zoneID fuel k (records.client.take ((k - 1) * 100)))
    s.result = some (.ok records.client) ∧ k - 1 + s.events.length ≤ max 1 (total records.items 100) := by
  induction fuel generalizing k
  case zero => omega
  case succ fuel ih =>
    have hl : total records.items 100 ≤ records.items.length := total_le_length (by decide)
    obtain ⟨body, members, hr, hb, hp⟩ :=
      hs.client (recordsRequest zoneID k) 100 k rfl rfl (by decide) hk rfl rfl
    obtain ⟨resp, hd, ha, i, hri, ht⟩ :=
      decodeReply_page hb hp records.listed (by decide) (by decide) (by omega) hi
    rw [listRecordsFrom, doRequest_run hr]
    dsimp only
    rw [hd]
    dsimp only
    rw [ha, take_append_page hk, hri, all_some, ht]
    split
    case isTrue h =>
      have h : total records.items 100 ≤ k := by simpa using h
      have hc : records.client.length ≤ k * 100 :=
        length_of_mapM records.listed ▸ (total_le_iff (by decide)).mp h
      rw [take_of_length_le hc]
      refine ⟨rfl, ?_⟩
      change k - 1 + 1 ≤ _
      omega
    case isFalse h =>
      have h : k < total records.items 100 := by simpa using h
      obtain ⟨hr, he⟩ := ih (k := k + 1) (by omega) (by omega) (by omega)
      rw [Nat.add_sub_cancel] at hr he
      refine ⟨hr, ?_⟩
      rw [Served.after, length_cons]
      omega

theorem listRecords_client {fuel : Nat} (hs : Serves parse server zones zoneID records)
    (hi : records.items.length < 2 ^ 63) (hf : max 1 (total records.items 100) ≤ fuel) :
    Lists server (listRecords parse fuel zoneID) (some (.ok records.client)) (total records.items 100) := by
  obtain ⟨hr, he⟩ := @listRecordsFrom_run parse server zones zoneID records fuel 1 hs hi (by decide) (by omega) (by omega)
  rw [Nat.sub_self, Nat.zero_add] at he
  exact ⟨hr, he⟩

theorem totals {prs : List Hanzodns.ProviderRecord}
    (h : (run server (listRecords parse zoneID)).result = .ok prs) :
    Totals quote parse server zoneID prs.length := by
  rintro org zone token _ response hp ⟨es, rfl⟩ hl
  obtain ⟨_, _, he, hp⟩ := hp
  cases he
  obtain ⟨_, _, he, hp⟩ := hp
  cases he
  obtain ⟨_, _, he, hp⟩ := hp
  cases he
  obtain ⟨found, es, rfl, hp⟩ := hp
  have hf : found = .ok prs := by
    rw [hl ⟨_, found⟩ (mem_append_right _ (.head _)), h]
    rfl
  subst hf
  obtain ⟨now, _, _, _, rfl⟩ := hp
  exact ⟨_, rfl⟩

theorem complete_iff (ht : Text parse) (hs : Serves parse server zones zoneID records) :
    Complete quote parse server zones zoneID records ↔
      zones.items.length ≤ 50 ∧ records.items.length ≤ 100 ∧ Readable parse server zoneID := by
  have hz := listZones_provider ht hs
  have hr := listRecords_provider ht hs
  constructor
  case mp =>
    intro h
    have hzc := hz.symm.trans h.providerZones.left
    have hrc := hr.symm.trans h.providerRecords.left
    split at hzc
    case isFalse => cases hzc
    case isTrue haz =>
      split at hrc
      case isFalse => cases hrc
      case isTrue har =>
        have hzl := congrArg List.length (Except.ok.inj hzc)
        have hrl := congrArg List.length (Except.ok.inj hrc)
        rw [length_map, length_map, length_take, ← length_of_mapM zones.provided] at hzl
        rw [length_map, length_map, length_take, ← length_of_mapM records.provided] at hrl
        exact ⟨by omega, by omega, haz, har⟩
  case mpr =>
    rintro ⟨hzl, hrl, ha⟩
    rw [if_pos ha.zones, take_of_length_le (length_of_mapM zones.provided ▸ hzl)] at hz
    rw [if_pos ha.records, take_of_length_le (length_of_mapM records.provided ▸ hrl)] at hr
    obtain ⟨hc, he⟩ := listZones_client hs (by omega)
    rw [take_of_length_le (length_of_mapM zones.listed ▸ hzl)] at hc
    refine ⟨⟨hz, le_max_left ..⟩, ⟨hc, he ▸ le_max_left ..⟩, ⟨hr, le_max_left ..⟩, ?_, ?_⟩
    case refine_1 => exact fun fuel hf => listRecords_client hs (by omega) hf
    case refine_2 =>
      have ht : Totals quote parse server zoneID (records.provider.map CfRecord.toProvider).length := totals hr
      rw [length_map, ← length_of_mapM records.provided] at ht
      exact ht

end Listings

section Sample

variable {m n k : Nat}

def blank (m : Nat) : List Json :=
  List.replicate m (.object [])

def pageReply (m n k : Nat) : List (Str × Json) := [
  ("result_info".toList, .object [
    ("page".toList, .number (itoa k)), ("per_page".toList, .number (itoa n)),
    ("total_pages".toList, .number (itoa (total (blank m) n))),
    ("count".toList, .number (itoa (page (blank m) n k).length)),
    ("total_count".toList, .number (itoa (blank m).length))]),
  ("success".toList, .bool true), ("errors".toList, .array []), ("result".toList, .array (page (blank m) n k))
]

def text (s : Str) : Http.Bytes :=
  s.map fun c => c.toNat.toUInt8

def afterNumbers (m n k : Nat) : Str :=
  let count := (page (blank m) n k).length
  "\"total_pages\":".toList ++ itoa (total (blank m) n) ++ ",\"count\":".toList ++ itoa count ++
    ",\"total_count\":".toList ++ itoa (blank m).length ++
    "\x7d,\"success\":true,\"errors\":[],\"result\":[".toList ++
    List.intercalate [','] (List.replicate count "\x7b\x7d".toList) ++ "]\x7d".toList

def beforePage : Str := "\x7b\"result_info\":\x7b\"page\":"

def beforePerPage : Str := "\"per_page\":"

def pageText (m n k : Nat) : Http.Bytes :=
  text beforePage ++ (text (itoa k) ++ 44 :: (text beforePerPage ++ (text (itoa n) ++ 44 :: text (afterNumbers m n k))))

-- The number that a comma ends.
def number (b : Http.Bytes) : Nat :=
  (digits ((b.takeWhile (· ≠ 44)).map fun c => Char.ofNat c.toNat)).getD 0

def numbers (body : Http.Bytes) : Nat × Nat :=
  let k := number (body.drop beforePage.length)
  (number (body.drop (beforePage.length + (itoa k).length + 1 + beforePerPage.length)), k)

-- A reader for pages of items without content: the rest of a text is known from two numbers in it.
def pageParse (m : Nat) (body : Http.Bytes) : Option Json :=
  let x := numbers body
  if body = pageText m x.1 x.2 then some (.object (pageReply m x.1 x.2)) else none

def pageServer (m : Nat) : Server := fun r =>
  let param (name : Str) := (digits ((r.query.lookup name).getD "1")).getD 1
  .response 200 (pageText m (param "per_page") (param "page")) none

theorem number_itoa (n : Nat) (b : Http.Bytes) : number (text (itoa n) ++ 44 :: b) = n := by
  have hd : ∀ i < 58, 48 ≤ i → i.toUInt8 ≠ 44 ∧ Char.ofNat i.toUInt8.toNat = Char.ofNat i := by decide +kernel
  have hc {c : Char} (h : c ∈ itoa n) : c.toNat.toUInt8 ≠ 44 ∧ Char.ofNat c.toNat.toUInt8.toNat = c := by
    have hi : 48 ≤ c.toNat ∧ c.toNat ≤ 57 := by simpa [Char.isDigit, UInt32.le_iff_toNat_le] using isDigit_of_mem_itoa h
    simpa using hd c.toNat (by omega) hi.1
  have ht : (text (itoa n) ++ 44 :: b).takeWhile (· ≠ 44) = text (itoa n) := by
    rw [takeWhile_append_of_pos]
    · simp
    · simpa [text] using fun c h => (hc h).1
  have hm : (text (itoa n)).map (fun c => Char.ofNat c.toNat) = itoa n := by
    rw [text, List.map_map]
    exact (map_congr_left fun c h => (hc h).2).trans (map_id _)
  rw [number, ht, hm, digits_itoa]
  rfl

theorem numbers_pageText (q : Http.Bytes) : numbers (pageText m n k ++ q) = (n, k) := by
  have ht (s : Str) : (text s).length = s.length := length_map _
  have hk : number ((pageText m n k ++ q).drop beforePage.length) = k := by
    rw [pageText, append_assoc, ← ht, drop_left, append_assoc, cons_append, number_itoa]
  have hl : beforePage.length + (itoa k).length + 1 + beforePerPage.length =
      (text beforePage ++ (text (itoa k) ++ 44 :: text beforePerPage)).length := by
    simp only [length_append, length_cons, ht]
    omega
  have hp : pageText m n k ++ q = (text beforePage ++ (text (itoa k) ++ 44 :: text beforePerPage)) ++
      (text (itoa n) ++ 44 :: (text (afterNumbers m n k) ++ q)) := by
    simp [pageText]
  rw [numbers, hk, hl, hp, drop_left, number_itoa]

theorem pageParse_pageText : pageParse m (pageText m n k) = some (.object (pageReply m n k)) := by
  have h : numbers (pageText m n k) = (n, k) := append_nil (pageText m n k) ▸ numbers_pageText []
  simp [pageParse, h]

theorem pageParse_text : Text (pageParse m) := by
  refine ⟨rfl, fun {body members} h i => ?_⟩
  rw [pageParse] at h
  split at h
  case isFalse => cases h
  case isTrue hb =>
    by_cases hc : body.take i = pageText m (numbers (body.take i)).1 (numbers (body.take i)).2
    case neg => exact .inl (if_neg hc)
    case pos =>
      -- What is left of the text has the same numbers in it.
      have hn := numbers_pageText (m := m) (n := (numbers (body.take i)).1) (k := (numbers (body.take i)).2) (body.drop i)
      rw [← hc, take_append_drop] at hn
      rw [hn] at hb
      exact .inr (by rw [hc.trans hb.symm])

theorem pageServer_paginates {path : Http.Bytes} : Paginates (pageParse m) (pageServer m) path (blank m) := by
  intro r n k _ _ _ _ hn hk
  refine ⟨pageText m n k, _, ?_, pageParse_pageText, ?_⟩
  case refine_1 =>
    rw [pageServer]
    dsimp only
    rw [hn, hk, getD_some, digits_itoa, digits_itoa]
    rfl
  case refine_2 =>
    exact ⟨⟨_, rfl⟩, ⟨_, rfl⟩, ⟨_, rfl⟩, _, ⟨_, rfl⟩, ⟨_, rfl⟩, ⟨_, rfl⟩, ⟨_, rfl⟩, ⟨_, rfl⟩, ⟨_, rfl⟩⟩

def blanks {decode : Decoder α} {zero : α} {decode' : Decoder β} {zero' : β} (m : Nat)
    (h : decode zero (.object []) = some zero) (h' : decode' zero' (.object []) = some zero') :
    Listing decode zero decode' zero' where
  items := blank m
  provider := List.replicate m zero
  client := List.replicate m zero'
  provided := by rw [mapM_eq_some_iff, blank, map_replicate, map_replicate, h]
  listed := by rw [mapM_eq_some_iff, blank, map_replicate, map_replicate, h']

def blankZones (m : Nat) : Zones :=
  blanks m rfl rfl

def blankRecords (m : Nat) : Records :=
  blanks m rfl rfl

theorem pageServer_serves : Serves (pageParse m) (pageServer m) (blankZones m) "z1" (blankRecords m) :=
  ⟨pageServer_paginates, pageServer_paginates, pageServer_paginates⟩

-- Both clients get fifty of fifty-one zones.
theorem not_complete_zones : Text (pageParse 51) ∧
    Serves (pageParse 51) (pageServer 51) (blankZones 51) "z1" (blankRecords 51) ∧
    ¬Complete id (pageParse 51) (pageServer 51) (blankZones 51) "z1" (blankRecords 51) := by
  refine ⟨pageParse_text, pageServer_serves, fun h => ?_⟩
  have hc := (listZones_client (pageServer_serves (m := 51)) (by decide)).left.symm.trans h.clientZones.left
  exact absurd (congrArg List.length (Except.ok.inj hc)) (by decide)

theorem complete_two : Text (pageParse 2) ∧
    Serves (pageParse 2) (pageServer 2) (blankZones 2) "z1" (blankRecords 2) ∧
    Complete id (pageParse 2) (pageServer 2) (blankZones 2) "z1" (blankRecords 2) := by
  have hr (n : Nat) (h : (pageText 2 n 1).length ≤ bodyLimit) :
      (contentOf (pageParse 2) (.response 200 (pageText 2 n 1) none)).isSome := by
    rw [contentOf, take_of_length_le h, pageParse_pageText]
    rfl
  refine ⟨pageParse_text, pageServer_serves, (complete_iff pageParse_text pageServer_serves).mpr ?_⟩
  refine ⟨by decide, by decide, hr 50 ?_, hr 100 ?_⟩
  all_goals decide +kernel

end Sample
end Cloudflare
