import HanzoDNS.Lib.Reader
import HanzoDNS.Lib.Strconv
import HanzoDNS.Proxyproto.Theorems.Listener

open Dns Bufio List

namespace Proxyproto

-- A header and its length, as the library finds them at the start of a packet.
abbrev Scan :=
  List UInt8 → Except ReadError (Header × Nat)

-- The library takes the bytes of the header from a buffered reader.
def Library.buffered (lib : Library σ) (scan : Scan) : Library σ where
  read packet :=
    match scan packet with
    | .error err => .error err
    | .ok (hd, h) =>
      match discard h { rd := packet } with
      | none => .error (.other "unexpected EOF".toList)
      | some r => .ok (hd, r.buf.length)
  newLRU := lib.newLRU
  add := lib.add
  get := lib.get

variable {lib : Library σ} {scan : Scan} {packet : List UInt8} {hd : Header} {h : Nat}

-- What is still to be read from the packet counts for the header, unless it is in the buffer.
theorem parseProxyProtocol_buffered (hs : scan packet = .ok (hd, h)) (hl : h ≤ packet.length) (h2 : hd.version = 2)
    (hu : hd.udpAddrs) : parseProxyProtocol (lib.buffered scan) packet =
      .ok (some hd, packet.drop (h + (packet.length - loaded h))) := by
  have hb : ((packet.take (loaded h)).drop h).length = min (loaded h) packet.length - h := by simp
  have hge := le_loaded h
  have hn : ¬((packet.length : Int) - ↑(min (loaded h) packet.length - h) < 0 ∨
      (packet.length : Int) - ↑(min (loaded h) packet.length - h) > packet.length) := by omega
  have hd' : ((packet.length : Int) - ↑(min (loaded h) packet.length - h)).toNat = h + (packet.length - loaded h) := by
    omega
  simp [parseProxyProtocol, Library.buffered, hs, discard_eq hl, hb, h2, hu, ne_eq, not_true_eq_false, hd']

structure Stripped (lib : Library σ) (packet : List UInt8) (scan : Scan) : Prop where
  header : ∀ {hd h}, scan packet = .ok (hd, h) → hd.version = 2 → hd.udpAddrs →
           parseProxyProtocol (lib.buffered scan) packet = .ok (some hd, packet.drop h)
  plain : scan packet = .error .noProxyProtocol → parseProxyProtocol (lib.buffered scan) packet = .ok (none, packet)

-- Exactly the header is stripped if the packet has no more bytes than the buffers that were filled for the header.
theorem stripped_iff (lib : Library σ) (hl : ∀ {hd h}, scan packet = .ok (hd, h) → h ≤ packet.length) :
    Stripped lib packet scan ↔
    ∀ hd h, scan packet = .ok (hd, h) → hd.version = 2 → hd.udpAddrs → packet.length ≤ loaded h := by
  constructor
  case mp =>
    intro s hd h hs h2 hu
    have he := (parseProxyProtocol_buffered hs (hl hs) h2 hu).symm.trans (s.header hs h2 hu)
    have hlen : (packet.drop (h + (packet.length - loaded h))).length = (packet.drop h).length :=
      congrArg List.length (Prod.mk.inj (Except.ok.inj he)).2
    have hge := le_loaded h
    have hp := hl hs
    simp only [length_drop] at hlen
    omega
  case mpr =>
    intro hc
    refine ⟨fun {hd h} hs h2 hu => ?_, fun hs => ?_⟩
    · rw [parseProxyProtocol_buffered hs (hl hs) h2 hu, Nat.sub_eq_zero_of_le (hc hd h hs h2 hu), Nat.add_zero]
    · simp [parseProxyProtocol, Library.buffered, hs]

namespace Sample

def signature : List UInt8 :=
  [0x0d, 0x0a, 0x0d, 0x0a, 0x00, 0x0d, 0x0a, 0x51, 0x55, 0x49, 0x54, 0x0a]

def source (ip : List UInt8) (port : Nat) : Addr where
  network := "udp"
  string := List.intercalate ['.'] (ip.map fun o => Strconv.itoa o.toNat) ++ ':' :: Strconv.itoa port

-- Headers of version 2 for UDP over IPv4, which are the only ones that this scan knows.
def find : Scan :=
  fun packet =>
    if ¬signature.isPrefixOf packet then
      .error .noProxyProtocol
    else
      match packet.drop 12 with
      | 0x21 :: 0x12 :: 0 :: 12 :: a :: b :: c :: d :: _ :: _ :: _ :: _ :: p :: q :: _ :: _ :: _ =>
        .ok ({ version := 2, udpAddrs := true, sourceAddr := source [a, b, c, d] (p.toNat * 256 + q.toNat) }, 28)
      | _ => .error (.other "unsupported header".toList)

theorem le_of_find {packet : List UInt8} {hd : Header} {h : Nat} (hs : find packet = .ok (hd, h)) :
    h = 28 ∧ h ≤ packet.length := by
  rw [find] at hs
  split at hs
  case isTrue => cases hs
  case isFalse =>
    split at hs
    case h_2 => cases hs
    case h_1 hp =>
      cases hs
      have hl := congrArg List.length hp
      simp only [length_drop, length_cons] at hl
      exact ⟨rfl, by omega⟩

-- A header of a client at 192.0.2.1 for a server at 192.0.2.2.
def proxied (payload : List UInt8) : List UInt8 :=
  signature ++ [0x21, 0x12, 0, 12, 192, 0, 2, 1, 192, 0, 2, 2, 0x30, 0x39, 0, 53] ++ payload

def client : Addr where
  network := "udp"
  string := "192.0.2.1:12345"

def header : Header where
  version := 2
  udpAddrs := true
  sourceAddr := client

theorem source_client : source [192, 0, 2, 1] 12345 = client := by
  decide +kernel

theorem find_proxied (payload : List UInt8) : find (proxied payload) = .ok (header, 28) := by
  rw [header, ←source_client]
  rfl

theorem length_proxied (payload : List UInt8) : (proxied payload).length = payload.length + 28 :=
  rfl

end Sample

open Sample

theorem stripped_small : find (proxied (List.replicate 512 0)) = .ok (header, 28) ∧
    Stripped library (proxied (List.replicate 512 0)) find := by
  refine ⟨find_proxied _, (stripped_iff library fun hs => (le_of_find hs).2).mpr fun hd h hs _ _ => ?_⟩
  rw [(le_of_find hs).1, length_proxied, length_replicate]
  decide

-- The last bytes of a packet are not in the buffer, so that as many of the payload are lost.
theorem not_stripped_large : ¬Stripped library (proxied (List.replicate 4972 0)) find := by
  intro s
  have hs := find_proxied (List.replicate 4972 0)
  have he := (parseProxyProtocol_buffered hs (le_of_find hs).2 rfl rfl).symm.trans (s.header hs rfl rfl)
  have hlen := congrArg List.length (Prod.mk.inj (Except.ok.inj he)).2
  rw [length_drop, length_drop, length_proxied, length_replicate] at hlen
  exact absurd hlen (by decide)

end Proxyproto
