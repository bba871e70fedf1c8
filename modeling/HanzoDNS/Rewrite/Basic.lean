import HanzoDNS.Lib.Net
import HanzoDNS.Lib.Replace
import HanzoDNS.Dns.Edns

open Dns Strings

-- The plugin that changes requests before other plugins see them, and changes their responses back.
namespace Rewrite

inductive Mode
  | stop
  | continue
deriving DecidableEq

-- A compiled expression, which finds the groups of a match in a string.
structure Regexp where
  numSubexp : Nat
  findStringSubmatch : Str → List Str
  within : ∀ s, ∀ group ∈ findStringSubmatch s, group <:+: s

-- Every group replaces its number in braces.
def substitute (replacement : Str) (groups : List Str) : Str :=
  groups.zipIdx.foldl (fun s (group, i) => replaceAll s ('\x7b' :: Strconv.itoa i ++ ['\x7d']) group) replacement

inductive StringRewriter
  | regex (pattern : Regexp) (replacement : Str)
  | remap (orig replacement : Str)
  | suffix (ending replacement : Str)

def StringRewriter.rewriteString : StringRewriter → Str → Str
  | regex pattern replacement, src =>
    match pattern.findStringSubmatch src with
    | [] => src
    | groups => substitute replacement groups
  | remap orig replacement, src =>
    if src = orig then
      replacement
    else if hasSuffix src ('.' :: orig) then
      src.take (src.length - orig.length) ++ replacement
    else
      src
  | suffix ending replacement, src =>
    match cutSuffix src ending with
    | some before => before ++ replacement
    | none => src

def getRecordValueForRewrite : RData → Str
  | .srv _ _ _ target => target
  | .mx _ mx => mx
  | .cname target => target
  | .ns ns => ns
  | .dname target => target
  | .naptr _ replacement => replacement
  | .soa soa => soa.ns
  | .ptr ptr => ptr
  | _ => []

def setRewrittenRecordValue (value : Str) : RData → RData
  | .srv priority weight port _ => .srv priority weight port value
  | .mx preference _ => .mx preference value
  | .cname _ => .cname value
  | .ns _ => .ns value
  | .dname _ => .dname value
  | .naptr rest _ => .naptr rest value
  | .soa soa => .soa { soa with ns := value }
  | .ptr _ => .ptr value
  | data => data

def rewriteValue (rewriter : StringRewriter) (data : RData) : RData :=
  let value := getRecordValueForRewrite data
  if value ≠ [] ∧ rewriter.rewriteString value ≠ value then
    setRewrittenRecordValue (rewriter.rewriteString value) data
  else
    data

inductive Match
  | exactMatch («from» : Str)
  | prefixMatch (leading : Str)
  | suffixMatch (suffix : Str)
  | substringMatch (substring : Str)
  | regexMatch (pattern : Regexp)

def Match.holds (name : Str) : Match → Bool
  | exactMatch «from» => «from» = name
  | prefixMatch leading => leading.isPrefixOf name
  | suffixMatch suffix => hasSuffix name suffix
  | substringMatch substring => contains name substring
  | regexMatch pattern => pattern.findStringSubmatch name ≠ []

inductive RewriteType
  | exactMatch
  | prefixMatch
  | suffixMatch
  | substringMatch
  | regexMatch (pattern : Regexp)

structure CnameTargetRule where
  rewriteType : RewriteType
  paramFromTarget : Str
  paramToTarget : Str
  nextAction : Mode

-- The target that is looked for and the one that replaces it. An expression or a part that is not found
-- gives empty strings.
def CnameTargetRule.getFromAndToTarget (r : CnameTargetRule) (inputCName : Str) : Str × Str :=
  match r.rewriteType with
  | .exactMatch => (r.paramFromTarget, r.paramToTarget)
  | .prefixMatch =>
    match cutPrefix inputCName r.paramFromTarget with
    | some after => (inputCName, r.paramToTarget ++ after)
    | none => ([], [])
  | .suffixMatch =>
    match cutSuffix inputCName r.paramFromTarget with
    | some before => (inputCName, before ++ r.paramToTarget)
    | none => ([], [])
  | .substringMatch =>
    if contains inputCName r.paramFromTarget then
      (inputCName, replaceAll inputCName r.paramFromTarget r.paramToTarget)
    else
      ([], [])
  | .regexMatch pattern =>
    match pattern.findStringSubmatch inputCName with
    | [] => ([], [])
    | groups => (inputCName, substitute r.paramToTarget groups)

inductive ResponseRule
  | name (rewriter : StringRewriter)
  | value (rewriter : StringRewriter)
  | ttl (minTTL maxTTL : UInt32)
  | rcode (old new : Nat)
  | edns0Set (code : UInt16)
  | edns0Replace (code : UInt16) (source : EDNS0)
  | cnameTarget (rule : CnameTargetRule)

structure NameRuleBase where
  nextAction : Mode
  auto : Bool
  replacement : Str
  static : List ResponseRule

inductive Action
  | replace
  | set
  | append
  | unset
deriving DecidableEq

inductive Variable
  | queryName
  | queryType
  | clientIP
  | clientPort
  | protocol
  | serverIP
  | serverPort
  | metadata (label : Str)

inductive Rule
  | exactNameRule (base : NameRuleBase) («from» : Str)
  | prefixNameRule (base : NameRuleBase) (leading : Str)
  | suffixNameRule (base : NameRuleBase) (suffix : Str)
  | substringNameRule (base : NameRuleBase) (substring : Str)
  | regexNameRule (base : NameRuleBase) (pattern : Regexp)
  | classRule (fromClass toClass : UInt16) (nextAction : Mode)
  | typeRule (fromType toType : RRType) (nextAction : Mode)
  | edns0LocalRule (mode : Mode) (action : Action) (code : UInt16) (data : List UInt8) (revert : Bool)
  | edns0VariableRule (mode : Mode) (action : Action) (code : UInt16) (var : Variable) (revert : Bool)
  | edns0NsidRule (mode : Mode) (action : Action) (revert : Bool)
  | edns0SubnetRule (mode : Mode) (v4BitMaskLen v6BitMaskLen : UInt8) (action : Action) (revert : Bool)
  | ttlRule (nextAction : Mode) (name : Match) (minTTL maxTTL : UInt32)
  | rcodeRule (nextAction : Mode) (name : Match) (old new : Nat)
  | cnameTargetRule (rule : CnameTargetRule)

def Rule.mode : Rule → Mode
  | exactNameRule base _ => base.nextAction
  | prefixNameRule base _ => base.nextAction
  | suffixNameRule base _ => base.nextAction
  | substringNameRule base _ => base.nextAction
  | regexNameRule base _ => base.nextAction
  | classRule _ _ nextAction => nextAction
  | typeRule _ _ nextAction => nextAction
  | edns0LocalRule mode .. => mode
  | edns0VariableRule mode .. => mode
  | edns0NsidRule mode .. => mode
  | edns0SubnetRule mode .. => mode
  | ttlRule nextAction .. => nextAction
  | rcodeRule nextAction .. => nextAction
  | cnameTargetRule rule => rule.nextAction

structure Addr where
  proto : Str
  ip : Net.IP
  text : Str

namespace Addr

def host (a : Addr) : Str :=
  match Net.splitHostPort a.text with
  | some (host, _) => host
  | none => a.text

def port (a : Addr) : Str :=
  match Net.splitHostPort a.text with
  | some (_, port) => port
  | none => ['0']

def family (a : Addr) : Nat :=
  if a.ip.to4.isSome then 1 else 2

end Addr

structure Env where
  dns : Edns
  remoteAddr : Addr
  localAddr : Addr
  metadata : Str → Option Str
  -- The options that plugins have registered.
  registered : UInt16 → Bool
  -- A lookup of a name by the server itself for a request. It can fail or give no message.
  upstream : Msg → Str → RRType → Option Msg

def setName (name : Str) (r : Msg) : Msg :=
  { r with question := r.question.modify 0 ({ · with name }) }

section

variable (env : Env) (r : Msg)

def toWire (n : Nat) : List UInt8 :=
  [UInt8.ofNat (n / 256), UInt8.ofNat n]

def portToWire (s : Str) : Option (List UInt8) :=
  (Strconv.digits s).bind fun n => if n < 2 ^ 16 then some (toWire n) else none

def ipToWire (family : Nat) (ip : Str) : Option (List UInt8) :=
  (Net.IP.parse ip).bind fun ip => if family = 1 then ip.to4 else ip.to16

def ruleData : Variable → Option (List UInt8)
  | .queryName => some (bytes (r.qname env.dns.toLibrary).text)
  | .queryType => some (toWire r.qtype.toNat)
  | .clientIP => ipToWire env.remoteAddr.family env.remoteAddr.host
  | .serverIP => ipToWire env.remoteAddr.family env.localAddr.host
  | .clientPort => portToWire env.remoteAddr.port
  | .serverPort => portToWire env.localAddr.port
  | .protocol => some (bytes env.remoteAddr.proto)
  | .metadata label =>
    match env.metadata label with
    | none | some [] => none
    | some value => some (bytes value)

def mask (bits : Nat) (ip : Net.IP) : Net.IP :=
  if bits ≤ 8 * ip.length then
    ip.zipIdx.map fun (b, i) => b &&& UInt8.ofNat (256 - 2 ^ (8 - min 8 (bits - 8 * i)))
  else
    []

def ecsData (code : UInt16) (v4BitMaskLen v6BitMaskLen : UInt8) : EDNS0 :=
  let ip := (Net.IP.parse env.remoteAddr.host).getD []
  if env.remoteAddr.family = 1 then
    .subnet code 1 v4BitMaskLen 0 ((ip.to4.map (mask v4BitMaskLen.toNat)).getD [])
  else
    .subnet code 2 v6BitMaskLen 0 ((ip.to16.map (mask v6BitMaskLen.toNat)).getD [])

def setupEdns0Opt : Msg :=
  match env.dns.isEdns0 r with
  | some _ => r
  | none => env.dns.setEdns0 r

-- The result of a rule: the request, and what is to be done with the response if the rule applies.
abbrev Result := Msg × Option (List ResponseRule)

-- The part that the rules for local options, for the NSID and for subnets have in common. They deal with the
-- first option of their kind, and `addAnother` says what happens if it is there but is not to be replaced.
-- An option is to be restored under the code in its field, which the rules for local options know already.
def rewriteOption (action : Action) (code : UInt16) (revert : Bool) (ofKind : EDNS0 → Bool)
    (update : EDNS0 → EDNS0) (new : EDNS0) (addAnother : Bool) : Result :=
  let r := setupEdns0Opt env r
  let options := env.dns.options r
  let add : Result :=
    if action = .append ∨ action = .set then
      (env.dns.setOptions (options ++ [new]) r, some (if revert then [.edns0Set code] else []))
    else
      (r, none)
  match options.findIdx? ofKind with
  | none => add
  | some i =>
    if action = .replace ∨ action = .set then
      (env.dns.setOptions (options.modify i update) r,
        some (if revert then options[i]?.toList.map fun old => .edns0Replace old.code old else []))
    else if addAnother then
      add
    else
      (r, none)

def unsetEdns0Option (code : UInt16) : Result :=
  let r := setupEdns0Opt env r
  (env.dns.setOptions ((env.dns.options r).filter (·.option ≠ code)) r, some [])

def isLocal (code : UInt16) : EDNS0 → Bool
  | .local c _ => c = code
  | _ => false

def isNsid : EDNS0 → Bool
  | .nsid .. => true
  | _ => false

def emptyNsid : EDNS0 → EDNS0
  | .nsid code _ => .nsid code []
  | o => o

def isSubnet : EDNS0 → Bool
  | .subnet .. => true
  | _ => false

-- A rule without an answer of its own maps the new name of the question back to the one that it had, which
-- the state of the request keeps unless it is empty.
def NameRuleBase.rewriteTo (base : NameRuleBase) (name : Str) : Result :=
  let r' := setName name r
  let old := r.name env.dns.toLibrary
  let rewriter := .remap name (if old = [] then r'.name env.dns.toLibrary else old)
  (r', some (if base.auto then [.name rewriter, .value rewriter] ++ base.static else base.static))

def Rule.rewrite : Rule → Result
  | exactNameRule base «from» =>
    if «from» = r.name env.dns.toLibrary then base.rewriteTo env r base.replacement else (r, none)
  | prefixNameRule base leading =>
    match cutPrefix (r.name env.dns.toLibrary) leading with
    | some after => base.rewriteTo env r (base.replacement ++ after)
    | none => (r, none)
  | suffixNameRule base suffix =>
    match cutSuffix (r.name env.dns.toLibrary) suffix with
    | some before => base.rewriteTo env r (before ++ base.replacement)
    | none => (r, none)
  | substringNameRule base substring =>
    if contains (r.name env.dns.toLibrary) substring then
      base.rewriteTo env r (replaceAll (r.name env.dns.toLibrary) substring base.replacement)
    else
      (r, none)
  | regexNameRule base pattern =>
    match pattern.findStringSubmatch (r.name env.dns.toLibrary) with
    | [] => (r, none)
    | groups => base.rewriteTo env r (substitute base.replacement groups)
  | classRule fromClass toClass _ =>
    if fromClass > 0 ∧ toClass > 0 ∧ r.qclass = fromClass then
      ({ r with question := r.question.modify 0 ({ · with qclass := toClass }) }, some [])
    else
      (r, none)
  | typeRule fromType toType _ =>
    if fromType > 0 ∧ toType > 0 ∧ r.qtype = fromType then
      ({ r with question := r.question.modify 0 ({ · with qtype := toType }) }, some [])
    else
      (r, none)
  | edns0LocalRule _ action code data revert =>
    if action = .unset then
      unsetEdns0Option env r code
    else
      rewriteOption env r action code revert (isLocal code) (fun _ => .local code data) (.local code data) true
  | edns0VariableRule _ action code var revert =>
    match ruleData env r var with
    | none => (r, none)
    | some data =>
      rewriteOption env r action code revert (isLocal code) (fun _ => .local code data) (.local code data) false
  | edns0NsidRule _ action revert =>
    if action = .unset then
      unsetEdns0Option env r EDNS0.codeNSID
    else
      rewriteOption env r action EDNS0.codeNSID revert isNsid emptyNsid (.nsid EDNS0.codeNSID []) true
  | edns0SubnetRule _ v4BitMaskLen v6BitMaskLen action revert =>
    if action = .unset then
      unsetEdns0Option env r EDNS0.codeSUBNET
    else
      let ecs code := ecsData env code v4BitMaskLen v6BitMaskLen
      rewriteOption env r action EDNS0.codeSUBNET revert isSubnet (fun o => ecs o.code) (ecs EDNS0.codeSUBNET) false
  | ttlRule _ name minTTL maxTTL =>
    (r, if name.holds (r.name env.dns.toLibrary) then some [.ttl minTTL maxTTL] else none)
  | rcodeRule _ name old new =>
    (r, if name.holds (r.name env.dns.toLibrary) then some [.rcode old new] else none)
  | cnameTargetRule rule =>
    (r, if rule.paramFromTarget ≠ [] ∧ rule.paramToTarget ≠ [] then some [.cnameTarget rule] else none)

end

end Rewrite
