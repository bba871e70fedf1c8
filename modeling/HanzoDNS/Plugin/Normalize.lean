import HanzoDNS.Lib.Strings

open Strings

namespace Plugin

-- The longest zone of which `qname` is a subdomain, or the empty string. The test for subdomains comes
-- from the DNS library and is a parameter.
def Zones.matches (isSubDomain : Str → Str → Bool) (zones : List Str) (qname : Str) : Str :=
  zones.foldl (longer isSubDomain qname) []
where
  longer (isSubDomain : Str → Str → Bool) (qname zone zname : Str) : Str :=
    if isSubDomain zname qname ∧ len zname > len zone then zname else zone

end Plugin
