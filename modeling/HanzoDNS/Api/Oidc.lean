import HanzoDNS.Lib.Base64
import HanzoDNS.Lib.Fallible
import HanzoDNS.Lib.Json
import HanzoDNS.Api.Routes

open Strings Json

namespace Hanzodns

structure JwtClaims where
  issuer : Str
  subject : Str
  audience : List Str
  expiry : Int
  issuedAt : Int
  owner : Str
  orgID : Str
deriving DecidableEq

structure JwtHeader where
  alg : Str
  kid : Str
deriving DecidableEq

structure Jwk where
  kty : Str
  kid : Str
  use : Str
  n : Str
  e : Str
  crv : Str
  x : Str
  y : Str
deriving DecidableEq

inductive Curve
  | p256
  | p384
deriving DecidableEq

inductive PublicKey
  | rsa (n : Nat) (e : Int)
  | ecdsa (curve : Curve) (x y : Nat)
deriving DecidableEq

-- What the standard library does with bytes: it hashes them, verifies signatures over hashes, and parses them as JSON.
-- Errors are given by their texts.
structure Stdlib where
  sha256 : List UInt8 → List UInt8
  verifyPKCS1v15 : (n : Nat) → (e : Int) → (hash signature : List UInt8) → Bool
  verifyASN1 : (curve : Curve) → (x y : Nat) → (hash signature : List UInt8) → Bool
  parse : List UInt8 → Option Json
  jsonError : List UInt8 → Str
  base64Error : Str → Str

namespace JwtClaims

def zero : JwtClaims where
  issuer := []
  subject := []
  audience := []
  expiry := 0
  issuedAt := 0
  owner := []
  orgID := []

-- An audience is a string or a list of strings. The attempt to read a string also succeeds for null.
def decodeAudience : Decoder (List Str)
  | _, .null => some [[]]
  | _, .string s => some [s]
  | _, .array items => items.mapM (decodeString [])
  | _, _ => none

def decode : Decoder JwtClaims :=
  decodeStruct fun members c => do
    let issuer ← field "iss" decodeString members c.issuer
    let subject ← field "sub" decodeString members c.subject
    let audience ← field "aud" decodeAudience members c.audience
    let expiry ← field "exp" decodeInt64 members c.expiry
    let issuedAt ← field "iat" decodeInt64 members c.issuedAt
    let owner ← field "owner" decodeString members c.owner
    let orgID ← field "org_id" decodeString members c.orgID
    return { issuer, subject, audience, expiry, issuedAt, owner, orgID }

def org (c : JwtClaims) : Org :=
  if c.owner ≠ [] then c.owner else c.orgID

def matchesAny (c : JwtClaims) (allow : List Str) : Bool :=
  allow.any (· ∈ c.audience)

end JwtClaims

namespace JwtHeader

def zero : JwtHeader where
  alg := []
  kid := []

def decode : Decoder JwtHeader :=
  decodeStruct fun members h => do
    let alg ← field "alg" decodeString members h.alg
    let kid ← field "kid" decodeString members h.kid
    return { alg, kid }

end JwtHeader

def splitAudience (s : Str) : List Str :=
  ((s.splitOn ',').map trimSpace).filter (· ≠ [])

-- Padding is added if it was left out.
def base64URLDecode (s : Str) : Option (List UInt8) :=
  Base64.decodeString (s ++ if len s % 4 = 2 then ['=', '='] else if len s % 4 = 3 then ['='] else [])

def bigInt (b : List UInt8) : Nat :=
  b.foldl (fun n b => 256 * n + b.toNat) 0

namespace Jwk

def decode64 (std : Stdlib) (s : Str) : Except Str (List UInt8) :=
  .require (base64URLDecode s) (std.base64Error s)

-- Only the last 64 bits of an exponent count.
def toPublicKey (std : Stdlib) (k : Jwk) : Except Str PublicKey :=
  if k.kty = "RSA" then do
    let nb ← decode64 std k.n
    let eb ← decode64 std k.e
    return .rsa (bigInt nb) (BitVec.ofNat 64 (bigInt eb)).toInt
  else if k.kty = "EC" then do
    let xb ← decode64 std k.x
    let yb ← decode64 std k.y
    if k.crv = "P-256" then
      return .ecdsa .p256 (bigInt xb) (bigInt yb)
    else if k.crv = "P-384" then
      return .ecdsa .p384 (bigInt xb) (bigInt yb)
    else
      .error ("unsupported curve: " ++ k.crv)
  else
    .error ("unsupported key type: " ++ k.kty)

-- A token without the id of a key can be signed with any key for signatures.
def «matches» (kid : Str) (k : Jwk) : Bool :=
  k.kid = kid ∨ kid = [] ∧ k.use = "sig"

end Jwk

namespace Stdlib

variable (std : Stdlib)

def unmarshal (zero : α) (decode : Decoder α) (b : List UInt8) : Option α :=
  (std.parse b).bind (decode zero)

def verify : PublicKey → (hash signature : List UInt8) → Bool
  | .rsa n e => std.verifyPKCS1v15 n e
  | .ecdsa curve x y => std.verifyASN1 curve x y

variable (quote : Str → Str)

def validateToken (now : Int) (tokenStr : Str) (keys : List Jwk) (issuer audience : Str) : Except Str JwtClaims :=
  match tokenStr.splitOn '.' with
  | [head, body, sig] => do
    let headerBytes ← .require (base64URLDecode head) ("decode header: " ++ std.base64Error head)
    let header ← .require (std.unmarshal .zero JwtHeader.decode headerBytes) (std.jsonError headerBytes)
    let matchedKey ← .require (keys.find? (Jwk.matches header.kid)) ("no matching key for kid " ++ quote header.kid)
    let signature ← .require (base64URLDecode sig) ("decode signature: " ++ std.base64Error sig)
    let pubKey ← matchedKey.toPublicKey std
    .ensure (std.verify pubKey (std.sha256 (bytes (head ++ ['.'] ++ body))) signature) ("invalid signature" : Str)
    let claimsBytes ← .require (base64URLDecode body) (std.base64Error body)
    let c ← .require (std.unmarshal .zero JwtClaims.decode claimsBytes) (std.jsonError claimsBytes)
    .ensure (c.expiry ≠ 0) ("token has no expiry" : Str)
    .ensure (now < c.expiry) ("token expired" : Str)
    .ensure (c.issuer = issuer) ("invalid issuer: got " ++ quote c.issuer ++ ", want " ++ quote issuer)
    .ensure (splitAudience audience = [] ∨ c.matchesAny (splitAudience audience)) ("invalid audience" : Str)
    return c
  | _ => .error "invalid token format"

-- The server with an issuer. The keys are those in the cache or from the issuer, unless they cannot be fetched.
def server (now : Int) (keys : Option (List Jwk)) (issuer audience : Str) : Server where
  oidcIssuer := issuer
  apiKey := []
  devInsecure := []
  validateToken := fun token =>
    match keys with
    | none => .error (writeError 500 "internal_error" "failed to fetch JWKS")
    | some keys =>
      match std.validateToken quote now token keys issuer audience with
      | .error err => .error (writeError 401 "unauthorized" err)
      | .ok claims => .ok claims.org

end Stdlib
end Hanzodns
