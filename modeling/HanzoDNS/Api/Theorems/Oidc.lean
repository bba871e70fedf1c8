import HanzoDNS.Api.Oidc

open Strings Json List

namespace Hanzodns.Stdlib

section

variable (std : Stdlib) (now : Int) (token : Str) (keys : List Jwk) (issuer audience : Str)

-- A token with some claims is signed with a key that was chosen by the id in its header.
def Signed (chosen : (kid : Str) → Jwk → Prop) (c : JwtClaims) : Prop :=
  ∃ head body sig headerBytes claimsBytes signature header key pubKey,
    token.splitOn '.' = [head, body, sig] ∧
    base64URLDecode head = some headerBytes ∧ base64URLDecode body = some claimsBytes ∧
    base64URLDecode sig = some signature ∧
    std.unmarshal .zero JwtHeader.decode headerBytes = some header ∧ chosen header.kid key ∧
    key.toPublicKey std = .ok pubKey ∧ std.verify pubKey (std.sha256 (bytes (head ++ ['.'] ++ body))) signature ∧
    std.unmarshal .zero JwtClaims.decode claimsBytes = some c

structure Current (c : JwtClaims) : Prop where
  expiry : c.expiry ≠ 0 ∧ now < c.expiry
  issuer : c.issuer = issuer
  audience : splitAudience audience ≠ [] → ∃ a ∈ c.audience, a ∈ splitAudience audience

structure Sound (c : JwtClaims) : Prop where
  signed : std.Signed token (fun kid k => k ∈ keys ∧ (k.kid = kid ∨ kid = [])) c
  current : Current now issuer audience c

-- The tokens that are accepted. Of several keys that match, only the first one is tried.
structure Passes (c : JwtClaims) : Prop where
  signed : std.Signed token (fun kid k => keys.find? (Jwk.matches kid) = some k) c
  current : Current now issuer audience c

end

section

variable {std : Stdlib} {now : Int} {token : Str} {keys : List Jwk} {issuer audience : Str}
  {quote : Str → Str} {c : JwtClaims}

theorem Signed.imp {p q : Str → Jwk → Prop} (h : std.Signed token p c) (hi : ∀ kid k, p kid k → q kid k) :
    std.Signed token q c := by
  obtain ⟨head, body, sig, hb, cb, sb, header, key, pub, h₁, h₂, h₃, h₄, h₅, hk, h₆⟩ := h
  exact ⟨head, body, sig, hb, cb, sb, header, key, pub, h₁, h₂, h₃, h₄, h₅, hi _ _ hk, h₆⟩

theorem Passes.sound (h : std.Passes now token keys issuer audience c) : std.Sound now token keys issuer audience c where
  signed := h.signed.imp fun kid k hk => by
    have hm : k.kid = kid ∨ kid = [] ∧ k.use = "sig" := by simpa [Jwk.matches] using find?_some hk
    exact ⟨mem_of_find?_eq_some hk, hm.imp_right And.left⟩
  current := h.current

theorem current_iff : Current now issuer audience c ↔ c.expiry ≠ 0 ∧ now < c.expiry ∧ c.issuer = issuer ∧
      (splitAudience audience = [] ∨ c.matchesAny (splitAudience audience)) := by
  have ha : (splitAudience audience = [] ∨ c.matchesAny (splitAudience audience)) ↔
      (splitAudience audience ≠ [] → ∃ a ∈ c.audience, a ∈ splitAudience audience) := by
    simp [JwtClaims.matchesAny, any_eq_true, decide_eq_true_eq, or_iff_not_imp_left, and_comm]
  rw [ha]
  exact ⟨fun h => ⟨h.expiry.1, h.expiry.2, h.issuer, h.audience⟩, fun h => ⟨⟨h.1, h.2.1⟩, h.2.2.1, h.2.2.2⟩⟩

theorem validateToken_eq_ok_iff :
    std.validateToken quote now token keys issuer audience = .ok c ↔ std.Passes now token keys issuer audience c := by
  constructor
  case mp =>
    intro h
    rw [validateToken] at h
    split at h
    case h_1 head body sig hs =>
      simp only [Except.bind_eq_ok_iff, Except.require_eq_ok_iff, Except.ensure_eq_ok_iff] at h
      obtain ⟨hb, hh, header, hd, key, hk, sb, hg, pub, hp, _, hv, cb, hc, c', hu, _, he, _, hn, _, hi, _, ha, h⟩ := h
      obtain rfl := Except.ok.inj h
      exact ⟨⟨head, body, sig, hb, cb, sb, header, key, pub, hs, hh, hc, hg, hd, hk, hp, hv, hu⟩,
        current_iff.mpr ⟨he, hn, hi, ha⟩⟩
    case h_2 => cases h
  case mpr =>
    rintro ⟨⟨head, body, sig, hb, cb, sb, header, key, pub, hs, hh, hc, hg, hd, hk, hp, hv, hu⟩, h⟩
    obtain ⟨he, hn, hi, ha⟩ := current_iff.mp h
    rw [validateToken, hs]
    simp only [Except.bind_eq_ok_iff, Except.require_eq_ok_iff, Except.ensure_eq_ok_iff]
    exact ⟨hb, hh, header, hd, key, hk, sb, hg, pub, hp, (), hv, cb, hc, c, hu, (), he, (), hn, (), hi, (), ha, rfl⟩

theorem org_eq_nil_iff : c.org = [] ↔ c.owner = [] ∧ c.orgID = [] := by
  rw [JwtClaims.org]
  split
  case isTrue h => exact iff_of_false h fun ho => h ho.1
  case isFalse h => exact (and_iff_right (not_not.mp h)).symm

theorem bearer_append : bearer ("Bearer " ++ token) = some token := by
  have ht : ("Bearer ".toList ++ token).takeWhile (· ≠ ' ') = "Bearer".toList := rfl
  have hd : (("Bearer ".toList ++ token).dropWhile (· ≠ ' ')).drop 1 = token := rfl
  rw [bearer, ht, hd, if_pos ⟨mem_append_left _ (by decide), by decide⟩]

theorem oidcMiddleware_eq_ok_iff {auth : Str} {org : Org} (hb : bearer auth = some token) :
    (std.server quote now (some keys) issuer audience).oidcMiddleware auth = .ok org ↔
      ∃ c, std.Passes now token keys issuer audience c ∧ c.org = org := by
  have ha : auth ≠ [] := by
    rintro rfl
    cases hb
  simp only [Server.oidcMiddleware, if_neg ha, hb, server]
  cases ht : std.validateToken quote now token keys issuer audience
  case error err =>
    refine iff_of_false (fun h => by cases h) ?_
    rintro ⟨c, hc, -⟩
    cases ht.symm.trans (validateToken_eq_ok_iff.mpr hc)
  case ok c =>
    constructor
    case mp =>
      intro h
      exact ⟨c, validateToken_eq_ok_iff.mp ht, Except.ok.inj h⟩
    case mpr =>
      rintro ⟨c', hc, rfl⟩
      cases ht.symm.trans (validateToken_eq_ok_iff.mpr hc)
      rfl

theorem validateToken_sound_iff :
    ((∀ c, std.validateToken quote now token keys issuer audience = .ok c → std.Sound now token keys issuer audience c) ∧
      ∀ auth org, bearer auth = some token →
        (std.server quote now (some keys) issuer audience).oidcMiddleware auth = .ok org → org ≠ []) ↔
      ¬∃ c, std.Passes now token keys issuer audience c ∧ c.owner = [] ∧ c.orgID = [] := by
  constructor
  case mp =>
    rintro ⟨-, h⟩ ⟨c, hc, ho⟩
    exact h _ [] bearer_append ((oidcMiddleware_eq_ok_iff bearer_append).mpr ⟨c, hc, org_eq_nil_iff.mpr ho⟩) rfl
  case mpr =>
    intro h
    refine ⟨fun c hc => (validateToken_eq_ok_iff.mp hc).sound, fun auth org hb hs ho => ?_⟩
    obtain ⟨c, hc, rfl⟩ := (oidcMiddleware_eq_ok_iff hb).mp hs
    exact h ⟨c, hc, org_eq_nil_iff.mp ho⟩

end

namespace Sample

def std : Stdlib where
  sha256 := fun _ => []
  verifyPKCS1v15 := fun _ _ _ _ => true
  verifyASN1 := fun _ _ _ _ _ => true
  parse := Json.parser [
    ("\x7b\"alg\":\"RS256\"\x7d", .object [("alg".toList, .string "RS256")]),
    ("\x7b\"iss\":\"iam\",\"exp\":9\x7d", .object [("iss".toList, .string "iam"), ("exp".toList, .number "9")])
  ]
  jsonError := fun _ => []
  base64Error := fun _ => []

def key : Jwk where
  kty := "RSA"
  kid := []
  use := "sig"
  n := "AQAB"
  e := "AQAB"
  crv := []
  x := []
  y := []

end Sample

open Stdlib.Sample

-- A token that does not say for which org it is makes its bearer the org without a name.
theorem oidcMiddleware_no_org : (std.server id 0 (some [key]) "iam" []).oidcMiddleware
      "Bearer eyJhbGciOiJSUzI1NiJ9.eyJpc3MiOiJpYW0iLCJleHAiOjl9.AA" = .ok [] := by
  rfl

end Hanzodns.Stdlib
