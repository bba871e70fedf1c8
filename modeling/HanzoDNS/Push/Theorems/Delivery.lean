import HanzoDNS.Push.Basic

open Strings Hanzodns List Option

namespace Push

-- A record as a client means to push it. The server chooses an id if there is none.
structure Record where
  id : Str
  name : Str
  type : Str
  ttl : Int
  content : Str
  priority : Int
  proxied : Bool

structure Zone where
  name : Str
  records : List Record

structure Record.StoredAs (p : Record) (r : Hanzodns.Record) : Prop where
  id : p.id ≠ [] → r.id = p.id
  name : r.name = p.name
  type : r.type = p.type
  ttl : (r.ttl.toNat : Int) = p.ttl
  content : r.content = p.content
  priority : (r.priority.toNat : Int) = p.priority
  proxied : r.proxied = p.proxied

def Zone.StoredIn (z : Zone) (s : Store) : Prop :=
  ∃ zd, s.zones.get (normZone z.name) = some zd ∧ Multiset.Rel Record.StoredAs z.records zd.records.values

-- The server takes a request for a sync, answers it with success and stores what was pushed.
def Delivered (quote : Str → Str) (srv : Server) (w : Api.World) (s : Store) (r : HttpRequest)
    (zones : List Zone) : Prop :=
  ∃ org body, srv.dispatch r = .handled org (.sync body) ∧
    (w.serve quote s org (.sync body)).1.response.status = 200 ∧
    ∀ z ∈ zones, z.StoredIn (w.serve quote s org (.sync body)).2

end Push

namespace Watcher

def DBRecord.pushed (r : DBRecord) : Push.Record where
  id := r.id
  name := r.name
  type := r.type
  ttl := r.ttl
  content := r.content
  priority := r.priority.getD 0
  proxied := r.proxied

def ZoneWithRecords.pushed (zwr : ZoneWithRecords) : Push.Zone where
  name := zwr.zone.name
  records := zwr.records.map (·.pushed)

end Watcher

namespace Operator

def DnsRecordSpec.pushed (r : DnsRecordSpec) : Push.Record where
  id := []
  name := r.name
  type := r.type
  ttl := r.ttl
  content := r.content
  priority := r.priority.getD 0
  proxied := r.proxied

def DnsZoneSpec.pushed (zone : DnsZoneSpec) (records : List DnsRecordSpec) : Push.Zone where
  name := zone.zone
  records := records.map (·.pushed)

end Operator

namespace Push

def suffix : Http.Bytes :=
  bytes ("api/v1/sync" : Str)

theorem plain_suffix : ∀ c ∈ suffix, Http.plain c := by
  decide +kernel

theorem bytes_append (a b : Str) : bytes (a ++ b) = bytes a ++ bytes b :=
  flatMap_append

variable {endpoint : Endpoint} {authorization : Str} {zones : Option (List SyncZoneRequest)} {r : HttpRequest}

theorem path_of_post (h : post endpoint authorization zones = some r) :
    r.method = "POST" ∧ ∃ x, r.path = x ++ Http.slash :: suffix := by
  have hs : bytes ("/api/v1/sync" : Str) = Http.slash :: suffix := by decide
  simp only [post] at h
  split at h
  case isTrue => cases h
  case isFalse =>
    obtain ⟨path, hp, rfl⟩ := map_eq_some_iff.mp h
    rw [bytes_append, hs] at hp
    exact ⟨rfl, Http.escapedPath_append plain_suffix hp⟩

def last : List Http.Bytes :=
  ["api", "v1", "sync"].map (bytes ·.toList)

theorem segments_suffix : Http.segments suffix = last := by
  decide

theorem route_of_path {method : Str} {x : Http.Bytes} {route : Route}
    (h : Http.handler registerRoutes method (x ++ Http.slash :: suffix) = .handler route) : route = .zones := by
  obtain ⟨p, hp, hm⟩ := Http.matchesPath_of_handler h
  have hd : last <:+ Http.Pattern.decode (x ++ Http.slash :: suffix) := by
    rw [Http.Pattern.decode_append, segments_suffix]
    exact ⟨_, congrArg _ (by decide)⟩
  simp only [registerRoutes, mem_cons, Prod.mk.injEq, not_mem_nil, or_false] at hp
  obtain ⟨rfl, rfl⟩ | ⟨rfl, rfl⟩ | ⟨rfl, rfl⟩ | ⟨rfl, rfl⟩ := hp
  case inl =>
    rw [Http.Pattern.decode_eq rfl hm] at hd
    exact absurd hd (by decide)
  case inr.inl => rfl
  case inr.inr.inl => rfl
  case inr.inr.inr =>
    rw [Http.Pattern.decode_eq rfl hm] at hd
    exact absurd hd (by decide)

theorem trimPrefix_path (x : Http.Bytes) :
    ∃ y, trimPrefix (x ++ Http.slash :: suffix) (bytes ("/v1/dns" : Str)) = y ++ Http.slash :: suffix := by
  rw [trimPrefix]
  split
  case isFalse => exact ⟨x, rfl⟩
  case isTrue hp =>
    -- What is cut off is no part of the suffix.
    have hl : (bytes ("/v1/dns" : Str)).length ≤ x.length := by
      by_contra hl
      have hx : x <+: bytes ("/v1/dns" : Str) := prefix_of_prefix_length_le (prefix_append _ _) hp (by omega)
      have hn : ∀ x ∈ (bytes ("/v1/dns" : Str)).inits, x.length < (bytes ("/v1/dns" : Str)).length →
          ¬bytes ("/v1/dns" : Str) <+: x ++ Http.slash :: suffix := by decide
      exact hn x (by simpa using hx) (by omega) hp
    exact ⟨x.drop _, by rw [drop_append_of_le_length hl]⟩

theorem segments_path (x : Http.Bytes) :
    ∃ y, Http.segments (trimPrefix (x ++ Http.slash :: suffix) [Http.slash]) = y ++ last := by
  rw [trimPrefix]
  split
  case isFalse => exact ⟨_, by rw [Http.segments_append, segments_suffix]⟩
  case isTrue hp =>
    clear hp
    cases x
    case nil => exact ⟨[], segments_suffix⟩
    case cons b x => exact ⟨Http.segments x, by simp [Http.segments_append, segments_suffix]⟩

theorem routeParts_not_found (method : Str) (payload : Payload) (parts : List Http.Bytes) :
    routeParts method payload (parts ++ last) = routeParts.notFound := by
  obtain ⟨api, v1, sync, hl, ha, hv⟩ : ∃ api v1 sync, last = [api, v1, sync] ∧ api ≠ bytes ("zones" : Str) ∧
      v1 ≠ bytes ("records" : Str) := ⟨_, _, _, rfl, by decide, by decide⟩
  rw [hl]
  cases parts
  case nil => exact if_neg fun h => ha h.1
  case cons part parts =>
    cases parts
    case nil => exact if_neg fun h => hv h.2
    case cons =>
      rw [routeParts.eq_def]
      split
      case h_5 => rfl
      all_goals
        rename_i h
        have hl := congrArg List.length h
        simp at hl

theorem apiRouter_not_found (method : Str) (x : Http.Bytes) (payload : Payload) :
    apiRouter method (x ++ Http.slash :: suffix) payload = routeParts.notFound := by
  obtain ⟨y, hy⟩ := trimPrefix_path x
  have hn : ¬[Http.slash] <:+ y ++ Http.slash :: suffix := by
    have hl : (Http.slash :: suffix).getLast? = some 99 := by decide
    rw [singleton_suffix_iff_getLast?_eq_some, getLast?_append, hl, some_or]
    decide
  obtain ⟨parts, hs⟩ := segments_path y
  rw [apiRouter, hy, trimSuffix, if_neg hn, hs, routeParts_not_found]

theorem dispatch_of_post (srv : Server) (h : post endpoint authorization zones = some r) (org : Org)
    (request : Request) : srv.dispatch r ≠ .handled org request := by
  obtain ⟨-, x, hx⟩ := path_of_post h
  rw [Server.dispatch]
  split
  case h_4 route hr =>
    rw [hx] at hr
    obtain rfl := route_of_path hr
    obtain ⟨y, hy⟩ : ∃ y, (Http.unescape r.path).getD r.path = y ++ Http.slash :: suffix := by
      cases hu : Http.unescape r.path
      case none => exact ⟨x, hx⟩
      case some path =>
        obtain ⟨y, z, -, hz, rfl⟩ := Http.unescape_append_slash (hx ▸ hu)
        rw [Http.unescape_plain plain_suffix] at hz
        cases hz
        exact ⟨y, rfl⟩
    rw [Server.route, hy, apiRouter_not_found]
    cases srv.authChain r.authorization <;> simp [routeParts.notFound]
  all_goals simp

theorem never_delivered (quote : Str → Str) (srv : Server) (w : Api.World) (s : Store) :
    (∀ endpoint apiKey zones r, Watcher.syncToCoreDNS endpoint apiKey zones = some r →
      ¬Delivered quote srv w s r (zones.map (·.pushed))) ∧
    ∀ zone records r, Operator.syncToCoreDNS zone records = some r →
      ¬Delivered quote srv w s r [zone.pushed records] := by
  constructor
  case left =>
    rintro endpoint apiKey zones r h ⟨org, body, hd, -⟩
    rw [Watcher.syncToCoreDNS] at h
    split at h
    case isTrue => cases h
    case isFalse => exact dispatch_of_post srv h org _ hd
  case right =>
    rintro zone records r h ⟨org, body, hd, -⟩
    exact dispatch_of_post srv h org _ hd

namespace Sample

def server : Server where
  oidcIssuer := []
  apiKey := "secret"
  devInsecure := []
  validateToken := fun _ => .error (writeError 401 "unauthorized" "invalid token")

def base : Endpoint :=
  Operator.defaultEndpoint

def www : Watcher.DBRecord where
  id := "r"
  zoneId := "z"
  name := "www"
  type := "A"
  content := "192.0.2.1"
  ttl := 300
  priority := none
  proxied := false
  syncToCloudflare := false
  cloudflareRecordId := none
  updatedAt := 0

def batch : List Watcher.ZoneWithRecords := [{
  zone := { id := "z", orgId := [], name := "example.com", status := "active", cloudflareZoneId := none, updatedAt := 0 }
  records := [www]
}]

def zone : Operator.DnsZoneSpec where
  zone := "example.com"
  orgID := []
  coreDNSEndpoint := none

def records : List Operator.DnsRecordSpec := [{
  zoneRef := "example", name := "www", type := "A", content := "192.0.2.1", ttl := 300, priority := none
  proxied := false, syncToCloudflare := false
}]

def insecure : Server :=
  { server with apiKey := [], devInsecure := "1" }

def world : Api.World where
  env := { now := 0, uuid := fun _ => "u" }
  kmsSecret := fun _ _ => .error "none"
  provider := fun _ _ => .error "none"

end Sample

open Sample

theorem never_delivered_www : (∃ r, Watcher.syncToCoreDNS base "secret" batch = some r ∧
      ¬Delivered id server world newStore r (batch.map (·.pushed))) ∧
    ∃ r, Operator.syncToCoreDNS zone records = some r ∧
      ¬Delivered id insecure world newStore r [zone.pushed records] := by
  obtain ⟨r, hr⟩ : ∃ r, Watcher.syncToCoreDNS base "secret" batch = some r :=
    isSome_iff_exists.mp (by decide +kernel)
  obtain ⟨r', hr'⟩ : ∃ r, Operator.syncToCoreDNS zone records = some r :=
    isSome_iff_exists.mp (by decide +kernel)
  exact ⟨⟨r, hr, (never_delivered id server world newStore).1 _ _ _ _ hr⟩,
    ⟨r', hr', (never_delivered id insecure world newStore).2 _ _ _ hr'⟩⟩

-- The requests would be let in, but there is nothing at their path.
theorem push_not_found : ∃ r, Watcher.syncToCoreDNS base "secret" batch = some r ∧
      (server.authChain r.authorization).toOption = some [] ∧ server.dispatch r = .notFound ∧
      ¬Delivered id server world newStore r (batch.map (·.pushed)) := by
  have ⟨r, hr, ha, hd⟩ : ∃ r ∈ Watcher.syncToCoreDNS base "secret" batch,
      (server.authChain r.authorization).toOption = some [] ∧ server.dispatch r = .notFound := by
    decide +kernel
  refine ⟨r, hr, ha, hd, ?_⟩
  rintro ⟨org, body, h, -⟩
  rw [hd] at h
  cases h

end Push
