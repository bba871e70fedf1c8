import HanzoDNS.Api.Routes

open List Option

namespace Strings

theorem mem_dropWhile_of_not {p : Char → Bool} {s : Str} {c : Char} (hc : ¬p c) (h : c ∈ s) : c ∈ s.dropWhile p := by
  rw [←takeWhile_append_dropWhile (p := p) (l := s), mem_append] at h
  exact h.resolve_left fun ht => hc (mem_takeWhile_imp ht)

theorem mem_trimSpace_iff {s : Str} {c : Char} (hc : ¬Unicode.isSpace c) : c ∈ trimSpace s ↔ c ∈ s := by
  constructor
  case mp => exact fun h => (trimSpace_sublist s).mem h
  case mpr =>
    intro h
    rw [trimSpace, List.rdropWhile, mem_reverse]
    exact mem_dropWhile_of_not hc (mem_reverse.mpr (mem_dropWhile_of_not hc h))

end Strings

open Strings

namespace Http

theorem hex_digits (c : UInt8) : hex (digit (c / 16)) = some (c / 16) ∧ hex (digit (c % 16)) = some (c % 16) ∧
    16 * (c / 16) + c % 16 = c ∧ digit (c / 16) ≠ slash ∧ digit (c % 16) ≠ slash ∧
    validEncoded [37, digit (c / 16), digit (c % 16)] := by
  revert c
  decide +kernel

theorem ne_percent_of_plain {c : UInt8} (h : plain c) : c ≠ 37 := by
  rintro rfl
  revert h
  decide

theorem unescape_pathEscape (b : Bytes) : unescape (pathEscape b) = some b := by
  induction b
  case nil => rfl
  case cons c b hi =>
    rw [pathEscape, flatMap_cons, ←pathEscape]
    split
    case isTrue h => rw [singleton_append, unescape_cons (ne_percent_of_plain h.1), hi, map_some]
    case isFalse =>
      obtain ⟨hd, hm, hc, -⟩ := hex_digits c
      change unescape (37 :: digit (c / 16) :: digit (c % 16) :: pathEscape b) = _
      rw [unescape_percent, hd, hm, hi, bind_some, bind_some, map_some, hc]

theorem slash_notMem_pathEscape (b : Bytes) : slash ∉ pathEscape b := by
  intro h
  obtain ⟨c, -, h⟩ := mem_flatMap.mp h
  split at h
  case isTrue hc =>
    obtain rfl := mem_singleton.mp h
    exact hc.2 (by decide)
  case isFalse =>
    obtain ⟨-, -, -, hd, hm, -⟩ := hex_digits c
    simp only [mem_cons, not_mem_nil, or_false] at h
    obtain h | h | h := h
    · exact absurd h (by decide)
    · exact hd h.symm
    · exact hm h.symm

theorem validEncoded_append (a b : Bytes) : validEncoded (a ++ b) = (validEncoded a && validEncoded b) :=
  all_append

theorem validEncoded_pathEscape (b : Bytes) : validEncoded (pathEscape b) := by
  induction b
  case nil => rfl
  case cons c b hi =>
    rw [pathEscape, flatMap_cons, ←pathEscape, validEncoded_append, hi, Bool.and_true]
    split
    case isTrue h =>
      refine all_eq_true.mpr fun d hd => decide_eq_true (.inl ?_)
      rw [mem_singleton.mp hd]
      exact h.1
    case isFalse => exact (hex_digits c).2.2.2.2.2

theorem length_segments_of_mem {b : Bytes} (h : slash ∈ b) : 2 ≤ (segments b).length := by
  obtain ⟨x, y, rfl⟩ := append_of_mem h
  have hx := length_pos_of_ne_nil (splitOn_ne_nil slash x)
  have hy := length_pos_of_ne_nil (splitOn_ne_nil slash y)
  rw [segments_append, length_append]
  simp only [segments]
  omega

theorem unescape_append_plain {a b : Bytes} (ha : ∀ c ∈ a, plain c) : unescape (a ++ b) = (unescape b).map (a ++ ·) := by
  induction a
  case nil => simp
  case cons c a hi =>
    obtain ⟨hc, ha⟩ := forall_mem_cons.mp ha
    rw [List.cons_append, unescape_cons (ne_percent_of_plain hc), hi ha, Option.map_map]
    rfl

end Http

namespace Hanzodns

open Http

structure Encodes (raw : Bytes) (s : Str) : Prop where
  valid : validEncoded raw
  decoded : unescape raw = some (bytes s)
  segment : slash ∉ raw

def zonePath (raw : Bytes) : Bytes :=
  bytes ("/v1/dns/zones" : Str) ++ slash :: raw

-- However the name of a zone is encoded in a path, requests for it reach the handlers with a name of the zone.
def Addressed (zone : Str) : Prop :=
  ∀ (srv : Server) (raw path : Bytes) (authorization : Str) (payload : Payload) (org : Org), Encodes raw zone →
    escapedPath (zonePath raw) = some path → srv.authChain authorization = .ok org →
    (∃ name, normZone name = zone ∧
      srv.dispatch ⟨"GET", path, authorization, payload⟩ = .handled org (.getZone name)) ∧
    ∃ name, normZone name = zone ∧
      srv.dispatch ⟨"DELETE", path, authorization, payload⟩ = .handled org (.deleteZone name)

theorem mem_utf8EncodeChar {b : UInt8} {c : Char} (hb : b.toNat < 128) :
    b ∈ String.utf8EncodeChar c ↔ c.toNat = b.toNat := by
  have hc : c.val.toNat = c.toNat := rfl
  simp only [String.utf8EncodeChar, hc]
  split_ifs
  all_goals
    simp only [mem_cons, not_mem_nil, or_false, ←UInt8.toNat_inj, UInt8.toNat_ofNat']
    omega

theorem slash_mem_bytes_iff (s : Str) : slash ∈ bytes s ↔ '/' ∈ s := by
  have hc (c : Char) : slash ∈ String.utf8EncodeChar c ↔ c = '/' := by
    rw [mem_utf8EncodeChar (by decide)]
    exact Char.toNat_inj (d := '/')
  simp [bytes, mem_flatMap, hc, exists_eq_right]

theorem text_bytes (s : Str) : text (bytes s) = s := by
  have hl : s.length ≤ (bytes s).length := by
    have h := length_le_sum_of_one_le (s.map Char.utf8Size) (forall_mem_map.mpr fun c _ => c.utf8Size_pos)
    simpa [bytes, length_flatMap] using h
  have go (n : Nat) (h : s.length ≤ n) : text.go n (bytes s) = s := by
    clear hl
    induction s generalizing n
    case nil => cases n <;> rfl
    case cons c s hi =>
      obtain ⟨n, rfl⟩ := Nat.exists_eq_succ_of_ne_zero (Nat.ne_zero_of_lt h)
      have hb : (⟨(bytes (c :: s)).toArray⟩ : ByteArray) = (c :: s).utf8Encode := ByteArray.ext data_toByteArray.symm
      have hc : bytes (c :: s) = String.utf8EncodeChar c ++ bytes s := rfl
      have hn : bytes (c :: s) ≠ [] := by simp [hc]
      simp only [text.go, if_neg hn, hb, utf8DecodeChar?_utf8Encode_cons, Option.getD_some, Option.elim_some]
      rw [hc, ←String.length_utf8EncodeChar, drop_left, hi n (Nat.le_of_succ_le_succ h)]
  exact go _ hl
section Paths

variable {raw : Bytes} {zone : Str}

theorem segments_zonePath (h : slash ∉ raw) : segments (zonePath raw) =
    [[], bytes ("v1" : Str), bytes ("dns" : Str), bytes ("zones" : Str)] ++ [raw] := by
  have hs : segments (bytes ("/v1/dns/zones" : Str)) =
      [[], bytes ("v1" : Str), bytes ("dns" : Str), bytes ("zones" : Str)] := by decide
  have hr : segments raw = [raw] := splitOn_eq_singleton h
  rw [zonePath, segments_append, hs, hr]

theorem cleanPath_zonePath (h : slash ∉ raw) (hn : raw ≠ []) (hd : raw ≠ bytes ("." : Str))
    (hp : raw ≠ bytes (".." : Str)) :
    cleanPath (zonePath raw) = zonePath raw := by
  have hl : (zonePath raw).getLast? ≠ some slash := by
    rw [zonePath, getLast?_append, getLast?_cons, getLast?_eq_some_getLast hn]
    exact fun hs => h (Option.some.inj hs ▸ getLast_mem hn)
  have hf : [[], bytes ("v1" : Str), bytes ("dns" : Str), bytes ("zones" : Str)].foldl push [] =
      [bytes ("zones" : Str), bytes ("dns" : Str), bytes ("v1" : Str)] := by decide
  have hr : push [bytes ("zones" : Str), bytes ("dns" : Str), bytes ("v1" : Str)] raw =
      [raw, bytes ("zones" : Str), bytes ("dns" : Str), bytes ("v1" : Str)] := by
    rw [push, if_neg (not_or.mpr ⟨hn, hd⟩), if_neg hp]
  have hv : bytes ("/v1/dns/zones" : Str) = slash :: bytes ("v1" : Str) ++ slash :: bytes ("dns" : Str) ++
      slash :: bytes ("zones" : Str) := by decide
  rw [cleanPath, segments_zonePath h, foldl_append, hf, foldl_cons, foldl_nil, hr, if_neg hl, zonePath, hv]
  simp [reverse_cons, reverse_nil, flatMap_cons, flatMap_nil, append_assoc, nil_append, append_nil, cons_append]

theorem decode_zonePath (h : slash ∉ raw) : Pattern.decode (zonePath raw) =
    [bytes ("v1" : Str), bytes ("dns" : Str), bytes ("zones" : Str), Pattern.decodeSegment raw] := by
  have hd : [bytes ("v1" : Str), bytes ("dns" : Str), bytes ("zones" : Str)].map Pattern.decodeSegment =
      [bytes ("v1" : Str), bytes ("dns" : Str), bytes ("zones" : Str)] := by decide
  rw [Pattern.decode, segments_zonePath h]
  change [bytes ("v1" : Str), bytes ("dns" : Str), bytes ("zones" : Str)].map Pattern.decodeSegment ++ [_] = _
  rw [hd]
  rfl

theorem handler_zonePath (method : Str) (h : slash ∉ raw) (hc : cleanPath (zonePath raw) = zonePath raw) :
    handler registerRoutes method (zonePath raw) = .handler .zones := by
  rw [handler, if_neg (not_not.mpr hc)]
  simp [registerRoutes, Pattern.matchesPath, decode_zonePath h, Pattern.allows, List.find?]

theorem unescape_zonePath (h : Encodes raw zone) :
    unescape (zonePath raw) = some (bytes ("/v1/dns/zones" : Str) ++ slash :: bytes zone) := by
  rw [zonePath, unescape_append_plain (by decide +kernel), unescape_cons (by decide), h.decoded]
  rfl

-- The parts of the path of a zone. Its name ends with a dot, so that nothing is cut off.
theorem apiRouter_zonePath (method : Str) (payload : Payload) (h : Encodes raw zone) (hz : ['.'] <:+ zone) :
    apiRouter method ((unescape (zonePath raw)).getD (zonePath raw)) payload =
      routeParts method payload (bytes ("zones" : Str) :: segments (bytes zone)) := by
  have hp : bytes ("/v1/dns/zones" : Str) ++ slash :: bytes zone =
      bytes ("/v1/dns" : Str) ++ (slash :: bytes ("zones" : Str) ++ slash :: bytes zone) := by
    rw [←append_assoc]
    rfl
  have hs : ¬[slash] <:+ slash :: bytes ("zones" : Str) ++ slash :: bytes zone := by
    obtain ⟨x, rfl⟩ := hz
    rintro ⟨y, hy⟩
    have hl := congrArg List.getLast? hy
    have hb : bytes (x ++ ['.']) = bytes x ++ bytes ['.'] := flatMap_append
    rw [hb, ←cons_append, ←append_assoc, getLast?_append, getLast?_append] at hl
    exact absurd (Option.some.inj hl) (by decide)
  have ht (a b : Bytes) : trimPrefix (a ++ b) a = b := by
    rw [trimPrefix, if_pos (prefix_append a b), drop_left]
  have hz : segments (bytes ("zones" : Str)) = [bytes ("zones" : Str)] := by decide
  rw [unescape_zonePath h, getD_some, apiRouter, hp, ht, trimSuffix, if_neg hs]
  change routeParts _ _ (segments (trimPrefix ([slash] ++ (bytes ("zones" : Str) ++ slash :: bytes zone)) [slash])) = _
  rw [ht, segments_append, hz]
  rfl

theorem escapedPath_zonePath (h : Encodes raw zone) : escapedPath (zonePath raw) = some (zonePath raw) := by
  have hv : validEncoded (zonePath raw) := by
    rw [zonePath, ←singleton_append, validEncoded_append, validEncoded_append, h.valid]
    decide
  rw [escapedPath, unescape_zonePath h, map_some, if_pos hv]

theorem encodes_pathEscape (zone : Str) : Encodes (pathEscape (bytes zone)) zone where
  valid := validEncoded_pathEscape _
  decoded := unescape_pathEscape _
  segment := slash_notMem_pathEscape _

theorem dispatch_zonePath_iff {srv : Server} {authorization method : Str} {payload : Payload} {org : Org} {req : Request}
    (h : Encodes raw zone) (hz : ['.'] <:+ zone) (ha : srv.authChain authorization = .ok org)
    (hc : cleanPath (zonePath raw) = zonePath raw) :
    srv.dispatch ⟨method, zonePath raw, authorization, payload⟩ = .handled org req ↔
      routeParts method payload (bytes ("zones" : Str) :: segments (bytes zone)) = .ok req := by
  rw [Server.dispatch, handler_zonePath method h.segment hc]
  simp only [Server.route, ha, apiRouter_zonePath method payload h hz]
  split
  case h_1 r hr => simp only [hr, reduceCtorEq]
  case h_2 r hr => simp only [hr, Dispatch.handled.injEq, Except.ok.injEq, true_and]

end Paths

theorem addressed_of_segment (hz : normZone zone = zone) (hs : '/' ∉ zone) (hd : zone ≠ ".") (hp : zone ≠ "..") :
    Addressed zone := by
  intro srv raw path authorization payload org h hr ha
  obtain rfl := Option.some.inj ((escapedPath_zonePath h).symm.trans hr)
  have hdot : ['.'] <:+ zone := hz ▸ dot_suffix_normZone zone
  have hc : cleanPath (zonePath raw) = zonePath raw := by
    have hne (s : Str) (hs : unescape (bytes s) = some (bytes s)) (hn : zone ≠ s) : raw ≠ bytes s := by
      rintro rfl
      have hb := Option.some.inj (hs.symm.trans h.decoded)
      exact hn (by rw [←text_bytes zone, ←hb, text_bytes])
    exact cleanPath_zonePath h.segment (hne [] rfl fun h => by simp [h] at hdot)
      (hne _ (by decide) hd) (hne _ (by decide) hp)
  have hb : segments (bytes zone) = [bytes zone] := splitOn_eq_singleton fun h => hs ((slash_mem_bytes_iff zone).mp h)
  refine ⟨⟨zone, hz, ?_⟩, zone, hz, ?_⟩
  all_goals
    rw [dispatch_zonePath_iff h hdot ha hc, hb, routeParts, if_pos rfl, text_bytes]
    rfl

section Failures

def openServer : Server where
  oidcIssuer := []
  apiKey := []
  devInsecure := "1"
  validateToken := fun _ => .ok []

variable {zone : Str} {raw : Bytes}

theorem Addressed.getZone (h : Addressed zone) (he : Encodes raw zone) :
    ∃ name, openServer.dispatch ⟨"GET", zonePath raw, [], ⟨none, none, none, none⟩⟩ = .handled [] (.getZone name) := by
  obtain ⟨name, -, hd⟩ := (h openServer raw _ [] ⟨none, none, none, none⟩ [] he (escapedPath_zonePath he) rfl).1
  exact ⟨name, hd⟩

theorem Addressed.clean (h : Addressed zone) (he : Encodes raw zone) : cleanPath (zonePath raw) = zonePath raw := by
  obtain ⟨name, hd⟩ := h.getZone he
  by_contra hc
  rw [Server.dispatch, handler, if_pos hc] at hd
  cases hd

theorem length_of_getZone {method name : Str} {payload : Payload} {parts : List Bytes}
    (h : routeParts method payload parts = .ok (.getZone name)) : parts.length = 2 := by
  unfold routeParts routeParts.notFound at h
  split at h
  case h_2 => rfl
  case h_5 => cases h
  all_goals
    split_ifs at h
    all_goals cases h

theorem Addressed.slash_notMem (h : Addressed zone) (hz : ['.'] <:+ zone) : '/' ∉ zone := by
  intro hs
  have he := encodes_pathEscape zone
  obtain ⟨name, hd⟩ := h.getZone he
  rw [dispatch_zonePath_iff he hz rfl (h.clean he)] at hd
  have hl := length_segments_of_mem ((slash_mem_bytes_iff zone).mpr hs)
  have hp := length_of_getZone hd
  rw [length_cons] at hp
  omega

theorem Addressed.ne_of_unclean (h : Addressed zone) {s : Str} (he : Encodes (bytes s) s)
    (hc : cleanPath (zonePath (bytes s)) ≠ zonePath (bytes s)) : zone ≠ s := by
  rintro rfl
  exact hc (h.clean he)

end Failures

theorem slash_mem_normZone_iff (name : Str) : '/' ∈ normZone name ↔ '/' ∈ name := by
  have ht : '/' ∈ trimSpace name ↔ '/' ∈ name := mem_trimSpace_iff (by decide)
  have hl : '/' ∈ toLower (trimSpace name) ↔ '/' ∈ trimSpace name := by
    have hc (c : Char) : Unicode.toLower c = '/' ↔ c = '/' := Unicode.toLower_eq_iff (by decide)
    simp [toLower, List.mem_map, hc, exists_eq_right]
  rw [normZone]
  split
  case isTrue => rw [hl, ht]
  case isFalse => rw [mem_append, hl, ht, or_iff_left (by decide)]

theorem normZone_eq_dots_iff (name : Str) :
    normZone name = "." ∨ normZone name = ".." ↔ trimSpace name ∈ ([[], ".", ".."] : List Str) := by
  have hd : toLower (trimSpace name) = ['.'] ↔ trimSpace name = ['.'] := by
    simp [toLower, map_eq_cons_iff]
  have hp : toLower (trimSpace name) = ['.', '.'] ↔ trimSpace name = ['.', '.'] := by
    simp [toLower, map_eq_cons_iff]
  rw [normZone]
  split
  case isTrue h =>
    have hn : trimSpace name ≠ [] := by
      rintro hn
      simp [hn, toLower] at h
    simp [hd, hp, hn]
  case isFalse h =>
    have hn : trimSpace name ≠ ['.'] ∧ trimSpace name ≠ ['.', '.'] := by
      constructor
      all_goals
        rintro hn
        exact h (by rw [hn]; decide)
    have ha (t : Str) : t ++ ['.'] = ['.', '.'] ↔ t = ['.'] := @append_left_inj _ t ['.'] ['.']
    simp [hn, ha, hd]

theorem addressed_iff {s s' : Store} {e : Env} {org : Org} {name provider : Str} {zone : Zone}
    (h : s.createZone e org name provider = .done s' zone) :
    Addressed zone.name ↔ '/' ∉ name ∧ trimSpace name ∉ ([[], ".", ".."] : List Str) := by
  have hz : zone.name = normZone name := by
    rw [Store.createZone] at h
    split at h
    case h_1 => cases h
    case h_2 =>
      cases h
      rfl
  rw [hz, ←slash_mem_normZone_iff, ←normZone_eq_dots_iff, not_or]
  constructor
  case mp =>
    intro ha
    have hd : Encodes (bytes ("." : Str)) "." := ⟨by decide, by decide, by decide⟩
    have hp : Encodes (bytes (".." : Str)) ".." := ⟨by decide, by decide, by decide⟩
    exact ⟨ha.slash_notMem (dot_suffix_normZone name), ha.ne_of_unclean hd (by decide), ha.ne_of_unclean hp (by decide)⟩
  case mpr => exact fun ⟨hs, hd, hp⟩ => addressed_of_segment (normZone_idem name) hs hd hp

namespace Sample

def clock : Env where
  now := 0
  uuid := fun _ => "u"

end Sample

theorem addressed_example :
    (∃ s' zone, newStore.createZone Sample.clock [] ("example.com" : Str) "authoritative" = .done s' zone ∧
      Addressed zone.name) ∧
    ∃ s' zone, newStore.createZone Sample.clock [] ("." : Str) "authoritative" = .done s' zone ∧
      ¬Addressed zone.name := by
  have hc (name : Str) : newStore.createZone Sample.clock [] name "authoritative" =
    .done (newStore.set (Store.newZone Sample.clock [] name "authoritative"))
      (Store.newZone Sample.clock [] name "authoritative").zone := rfl
  exact ⟨⟨_, _, hc _, (addressed_iff (hc _)).mpr (by decide +kernel)⟩,
    ⟨_, _, hc _, fun h => absurd ((addressed_iff (hc _)).mp h) (by decide +kernel)⟩⟩

-- The reverse zone of a part of a network, with a class of addresses smaller than an octet.
theorem not_addressed_classless :
    ∃ s' zone, newStore.createZone Sample.clock [] ("0/25.2.0.192.in-addr.arpa" : Str) "authoritative" = .done s' zone ∧
      Encodes (bytes ("0%2F25.2.0.192.in-addr.arpa." : Str)) zone.name ∧
      openServer.dispatch ⟨"GET", zonePath (bytes ("0%2F25.2.0.192.in-addr.arpa." : Str)), [], ⟨none, none, none, none⟩⟩ =
        .refused (writeError 404 "not_found" "endpoint not found") ∧ ¬Addressed zone.name :=
  ⟨_, _, rfl, ⟨by decide +kernel, by decide +kernel, by decide +kernel⟩, by decide +kernel,
    fun h => h.slash_notMem (by decide +kernel) (by decide +kernel)⟩

end Hanzodns
