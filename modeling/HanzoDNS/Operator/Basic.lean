import HanzoDNS.Lib.Strings

open Strings

namespace Operator

-- The name under which the operator pushes a record to Cloudflare. A name that ends in the zone is taken
-- to be complete.
def fqdn (name zone : Str) : Str :=
  if zone = [] ∨ name = zone then name
  else if name = ['@'] ∨ name = [] then zone
  else if hasSuffix name ('.' :: zone) then name
  else name ++ ['.'] ++ zone

end Operator
