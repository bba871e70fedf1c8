import HanzoDNS.Plugin.Normalize
import HanzoDNS.Store.Snapshot

open Strings

namespace Hanzodns

def qtypeToString : UInt16 → RecordType
  | 1 => "A"
  | 28 => "AAAA"
  | 5 => "CNAME"
  | 15 => "MX"
  | 16 => "TXT"
  | 33 => "SRV"
  | 2 => "NS"
  | 257 => "CAA"
  | _ => []

inductive Served (ρ : Type)
  | next
  | serverFailure
  | answer (rrs : Multiset ρ)

-- The handler for a query name in lower case. The zone names were read from the store in some order,
-- and `toRR` turns a record into a resource record unless its content is malformed. Which of the
-- zones matches makes no difference to the records that are looked up.
def serveDNS (isSubDomain : Str → Str → Bool) (through : Str → Bool) (toRR : Record → Str → Option ρ)
    (s : Store) (zones : List Str) (qname : Str) (qtype : UInt16) : Served ρ :=
  let qtypeStr := qtypeToString qtype
  if qtypeStr = [] then
    .next
  else if Plugin.Zones.matches isSubDomain zones qname = [] then
    .next
  else
    let records := s.lookup qname qtypeStr
    if records = 0 then
      if through qname then .next else .serverFailure
    else
      .answer (records.filterMap (toRR · qname))

def ownerName (name zone : Str) : Str :=
  toLower (Store.fqdn name zone)

-- What happens to the store that the handler reads from: calls by any orgs, and restarts.
inductive Event
  | call (org : Org) (env : Env) (call : Call)
  | restart

def Store.after (s : Store) : Event → Store
  | .call org e c => (s.exec e org c).store
  | .restart => s.restart

end Hanzodns
