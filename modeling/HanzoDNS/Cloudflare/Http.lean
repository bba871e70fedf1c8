import HanzoDNS.Lib.Http
import HanzoDNS.Lib.Interaction
import HanzoDNS.Lib.Json

open Strings Json

namespace Cloudflare

-- A request without its headers. What the query says is given by its parameters.
structure Request where
  method : Str
  path : Http.Bytes
  query : List (Str × Str) := []
  body : Option Json := none

-- What comes of a request. It may be that only a part of the body can be read.
inductive Exchange
  | unsent (err : Str)
  | failed (err : Str)
  | response (status : Nat) (body : Http.Bytes) (err : Option Str)

abbrev Net := Prog fun _ : Request => Exchange

abbrev send (r : Request) : Net Exchange :=
  Prog.query r

-- A value that is decoded as far as it has the right type. The error is ignored.
def decodeLoose (decode : Decoder α) (a : α) (j : Json) : α :=
  (decode a j).getD a

def fieldLoose (name : Str) (decode : Decoder α) (members : List (Str × Json)) (a : α) : α :=
  (members.filter fun m => foldsAll name m.1).foldl (fun a m => decodeLoose decode a m.2) a

def decodePointer (zero : α) (decode : Decoder α) : Decoder (Option α)
  | _, null => some none
  | p, j => (decode (p.getD zero) j).map some

end Cloudflare
