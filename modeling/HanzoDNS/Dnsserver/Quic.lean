import HanzoDNS.Lib.Reader
import HanzoDNS.Dns.Edns

open Dns

-- DNS over QUIC.
namespace Dnsserver.Quic

abbrev Bytes := List UInt8

-- What the DNS library makes of the bytes of a message: its id and the rest of it. There is none without a header.
structure Wire extends Edns where
  unpack : Bytes → Option (UInt16 × Msg)
  unpack_short : ∀ b, b.length < 12 → unpack b = none

inductive Code
  | noError
  | internalError
  | protocolError
deriving DecidableEq

inductive ReadError
  | stream (err : Reader.Error)
  | message (text : Str)
deriving DecidableEq

-- The bytes that go before a message. Only lengths of less than 2^16 fit.
def addPrefix (b : Bytes) : Bytes :=
  UInt8.ofNat (b.length / 256) :: UInt8.ofNat b.length :: b

def size (hi lo : UInt8) : Nat :=
  256 * hi.toNat + lo.toNat

def filled (size : Nat) (read : Bytes) : Bytes :=
  read ++ List.replicate (size - read.length) 0

-- The message and the error that comes with it. The length that is checked is the one of the buffer that was made, not of
-- what was read into it.
def readBody (chunks : List Bytes) (size : Nat) : Bytes × Option ReadError :=
  let (read, _, err) := Reader.readFull chunks size
  let buf := filled size read
  if size ≠ buf.length then
    ([], some (.message "message size does not match 2-byte prefix"))
  else
    (buf, err.map .stream)

def readDOQMessage (chunks : List Bytes) : Bytes × Option ReadError :=
  match Reader.readFull chunks 2 with
  | (hi :: lo :: _, chunks, none) =>
    if size hi lo = 0 then
      ([], some (.message "message size is 0: probably unsupported DoQ version"))
    else
      readBody chunks (size hi lo)
  | (_, _, err) => ([], err.map .stream)

def keepalive : UInt16 := 11

def validRequest (w : Wire) (id : UInt16) (req : Msg) : Bool :=
  id = 0 ∧ (w.options req).all (·.option ≠ keepalive)

-- What becomes of a stream: the connection is closed, or a request goes to the plugins.
inductive Ending
  | closed (code : Code)
  | serveDNS (req : Msg)
deriving DecidableEq

structure Served where
  unpacked : Option Bytes := none
  ending : Ending
deriving DecidableEq

def unpackAndServe (w : Wire) (buf : Bytes) : Served where
  unpacked := some buf
  ending :=
    match w.unpack buf with
    | none => .closed .protocolError
    | some (id, req) => if validRequest w id req then .serveDNS req else .closed .protocolError

-- The end of the stream is not taken to be an error.
def serveQUICStream (w : Wire) (chunks : List Bytes) : Served :=
  match readDOQMessage chunks with
  | (buf, none) => unpackAndServe w buf
  | (buf, some (.stream .eof)) => unpackAndServe w buf
  | (_, some _) => { ending := .closed .protocolError }

end Dnsserver.Quic
