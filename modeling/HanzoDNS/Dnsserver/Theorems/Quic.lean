import HanzoDNS.Dnsserver.Quic

open Dns List

namespace Dnsserver.Quic

-- The stream ends before the message that it announces, or before it announces one.
def Truncated (stream : Bytes) : Prop :=
  stream.length < 2 ∨ ∃ hi lo rest, stream = hi :: lo :: rest ∧ rest.length < size hi lo

structure Delivers (w : Wire) (chunks : List Bytes) : Prop where
  received : ∀ buf, (serveQUICStream w chunks).unpacked = some buf → buf ≠ [] →
    ∃ hi lo rest, chunks.flatten = hi :: lo :: (buf ++ rest) ∧ buf.length = size hi lo
  truncated : Truncated chunks.flatten → (serveQUICStream w chunks).ending = .closed .protocolError
  read : ∀ b rest, 1 ≤ b.length → b.length ≤ 65535 → chunks.flatten = addPrefix b ++ rest →
    readDOQMessage chunks = (b, none)

variable {w : Wire} {chunks : List Bytes} {hi lo : UInt8} {rest : Bytes}

theorem readDOQMessage_short (h : chunks.flatten.length < 2) :
    readDOQMessage chunks = ([], some (.stream (if chunks.flatten = [] then .eof else .unexpectedEOF))) := by
  obtain ⟨rest, hr⟩ := Reader.readFull_of_lt h
  rw [readDOQMessage, hr]
  rcases hf : chunks.flatten with _ | ⟨b, _ | ⟨b', bs⟩⟩
  case nil => rfl
  case cons.nil => rfl
  case cons.cons => simp [hf] at h

theorem length_filled {n : Nat} (h : rest.length ≤ n) : (filled n rest).length = n := by
  rw [filled, length_append, length_replicate]
  omega

theorem filled_of_length (h : rest.length = n) : filled n rest = rest := by
  rw [filled, h, Nat.sub_self, replicate_zero, append_nil]

theorem readBody_eq (chunks : List Bytes) (n : Nat) : readBody chunks n =
      if n ≤ chunks.flatten.length then (chunks.flatten.take n, none)
      else (filled n chunks.flatten, some (.stream (if chunks.flatten = [] then .eof else .unexpectedEOF))) := by
  split
  case isTrue h =>
    obtain ⟨rest, -, hr⟩ := Reader.readFull_of_le h
    have hl : (chunks.flatten.take n).length = n := length_take_of_le h
    simp [readBody, hr, filled_of_length hl, hl, ne_eq, Option.map_none]
  case isFalse h =>
    obtain ⟨rest, hr⟩ := Reader.readFull_of_lt (not_le.mp h)
    have hl : (filled n chunks.flatten).length = n := length_filled (not_le.mp h).le
    simp only [readBody, hr, hl, ne_eq, not_true, if_false]
    split
    case isTrue => rfl
    case isFalse => rfl

theorem readDOQMessage_cons (h : chunks.flatten = hi :: lo :: rest) : readDOQMessage chunks =
      if size hi lo = 0 then ([], some (.message "message size is 0: probably unsupported DoQ version"))
      else if size hi lo ≤ rest.length then (rest.take (size hi lo), none)
      else (filled (size hi lo) rest, some (.stream (if rest = [] then .eof else .unexpectedEOF))) := by
  have hl : 2 ≤ chunks.flatten.length := by simp [h]
  obtain ⟨chunks', hc, hr⟩ := Reader.readFull_of_le hl
  rw [h] at hc hr
  obtain rfl : chunks'.flatten = rest := hc
  rw [readDOQMessage, hr]
  simp only [take_succ_cons, readBody_eq]

theorem unpackAndServe_nil : (unpackAndServe w []).ending = .closed .protocolError := by
  rw [unpackAndServe, w.unpack_short [] (by decide)]

def Unfilled (stream : Bytes) : Prop :=
  ∃ hi lo, stream = [hi, lo] ∧ size hi lo ≠ 0

theorem serveQUICStream_cases (w : Wire) (chunks : List Bytes) :
    (∃ hi lo rest, chunks.flatten = hi :: lo :: rest ∧ size hi lo ≤ rest.length ∧
      serveQUICStream w chunks = unpackAndServe w (rest.take (size hi lo))) ∨
    serveQUICStream w chunks = { ending := .closed .protocolError } ∨
    chunks.flatten = [] ∧ serveQUICStream w chunks = unpackAndServe w [] ∨
    Unfilled chunks.flatten := by
  rcases hf : chunks.flatten with _ | ⟨hi, _ | ⟨lo, rest⟩⟩
  case nil =>
    refine .inr (.inr (.inl ⟨rfl, ?_⟩))
    rw [serveQUICStream, readDOQMessage_short (by simp [hf]), if_pos hf]
  case cons.nil =>
    refine .inr (.inl ?_)
    rw [serveQUICStream, readDOQMessage_short (by simp [hf]), if_neg (by simp [hf])]
  case cons.cons =>
    have hr := readDOQMessage_cons hf
    by_cases hz : size hi lo = 0
    case pos =>
      rw [if_pos hz] at hr
      refine .inr (.inl ?_)
      rw [serveQUICStream, hr]
    case neg =>
      rw [if_neg hz] at hr
      by_cases hl : size hi lo ≤ rest.length
      case pos =>
        rw [if_pos hl] at hr
        refine .inl ⟨hi, lo, rest, rfl, hl, ?_⟩
        rw [serveQUICStream, hr]
      case neg =>
        by_cases he : rest = []
        case pos =>
          subst he
          exact .inr (.inr (.inr ⟨hi, lo, rfl, hz⟩))
        case neg =>
          rw [if_neg hl, if_neg he] at hr
          refine .inr (.inl ?_)
          rw [serveQUICStream, hr]

theorem serveQUICStream_unfilled (hf : chunks.flatten = [hi, lo]) (hz : size hi lo ≠ 0) :
    serveQUICStream w chunks = unpackAndServe w (List.replicate (size hi lo) 0) := by
  have hr := readDOQMessage_cons hf
  rw [if_neg hz, if_neg (by simpa using hz), if_pos rfl] at hr
  rw [serveQUICStream, hr]
  rfl

theorem size_addPrefix {b : Bytes} (h : b.length ≤ 65535) :
    size (UInt8.ofNat (b.length / 256)) (UInt8.ofNat b.length) = b.length := by
  rw [size, UInt8.toNat_ofNat', UInt8.toNat_ofNat']
  omega

theorem readDOQMessage_addPrefix {b : Bytes} (h : 1 ≤ b.length) (hl : b.length ≤ 65535)
    (hf : chunks.flatten = addPrefix b ++ rest) : readDOQMessage chunks = (b, none) := by
  have hf' : chunks.flatten = UInt8.ofNat (b.length / 256) :: UInt8.ofNat b.length :: (b ++ rest) := hf
  rw [readDOQMessage_cons hf', size_addPrefix hl, if_neg (by omega), if_pos (by simp), take_left]

theorem delivers_iff : Delivers w chunks ↔ ¬Unfilled chunks.flatten := by
  constructor
  case mp =>
    rintro h ⟨hi, lo, hf, hz⟩
    obtain ⟨hi', lo', rest, hf', hl⟩ := h.received (List.replicate (size hi lo) 0)
      (by rw [serveQUICStream_unfilled hf hz]; rfl) (by simpa using hz)
    have hn := congrArg List.length (hf.symm.trans hf')
    simp only [length_cons, length_append, length_replicate, length_nil] at hn
    omega
  case mpr =>
    intro hu
    constructor
    case received =>
      intro buf hb hn
      obtain ⟨hi, lo, rest, hf, hl, hs⟩ | hs | ⟨-, hs⟩ | h := serveQUICStream_cases w chunks
      · rw [hs] at hb
        obtain rfl := Option.some.inj hb
        exact ⟨hi, lo, rest.drop (size hi lo), by rw [hf, take_append_drop], length_take_of_le hl⟩
      · rw [hs] at hb
        cases hb
      · rw [hs] at hb
        exact absurd (Option.some.inj hb).symm hn
      · exact absurd h hu
    case truncated =>
      intro ht
      obtain ⟨hi, lo, rest, hf, hl, hs⟩ | hs | ⟨-, hs⟩ | h := serveQUICStream_cases w chunks
      · obtain ht | ⟨hi', lo', rest', hf', hl'⟩ := ht
        · simp [hf] at ht
        · cases hf.symm.trans hf'
          exact absurd hl (not_le.mpr hl')
      · rw [hs]
      · rw [hs, unpackAndServe_nil]
      · exact absurd h hu
    case read => exact fun b rest h hl hf => readDOQMessage_addPrefix h hl hf

namespace Sample

def wire : Wire where
  toEdns := .reference
  unpack b := if b.length < 12 then none else some (0, {})
  unpack_short := fun _ h => if_pos h

end Sample

-- Twelve bytes that were never sent go to the plugins as a request.
theorem serveQUICStream_unsent : serveQUICStream Sample.wire [[0], [12]] =
      { unpacked := some (List.replicate 12 0), ending := .serveDNS {} } := by
  decide +kernel

end Dnsserver.Quic
