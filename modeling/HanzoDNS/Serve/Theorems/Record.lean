import HanzoDNS.Dns.Labels
import HanzoDNS.Serve.Record

open Strings Option

namespace Hanzodns

open Net.IP Strconv

def Rdata.rrtype : Rdata → UInt16
  | a .. => 1
  | aaaa .. => 28
  | cname .. => 5
  | mx .. => 15
  | txt .. => 16
  | srv .. => 33
  | ns .. => 2
  | caa .. => 257

def Qualified (name : Str) : Prop :=
  ∃ rest, name = rest ++ ['.'] ∧ Even (rest.rtakeWhile (· = '\\')).length

section

variable (lib : Dns.Labels)

def Packable (name : Str) : Prop :=
  Qualified name ∧ (lib.repack name).isSome

-- What the wire format demands of data that was made from some content.
def Rdata.WellFormed (content : Str) : Rdata → Prop
  | a ip => ip.length = 4
  | aaaa ip => ip.length = 16 ∧ parseIPv4 content = none
  | txt strings => (∀ s ∈ strings, len s ≤ 255) ∧ strings.flatten = content
  | cname target => Packable lib target
  | mx _ host => Packable lib host
  | ns host => Packable lib host
  | srv _ _ _ host => Packable lib host
  | caa _ tag value => len tag ≤ 255 ∧ 2 + len tag + len value ≤ 65535

def RR.WellFormed (rec : Record) (rr : RR) : Prop :=
  rr.rrtype = stringToType rec.type ∧ rr.data.rrtype = rr.rrtype ∧ rr.data.WellFormed lib rec.content

def Record.Fits (rec : Record) : Prop :=
  if rec.type = "A" then
    ∀ ip, parse rec.content = some ip → ip.to4.isSome
  else if rec.type = "AAAA" then
    parseIPv4 rec.content = none
  else if rec.type = "CNAME" then
    Packable lib (withDot rec.content)
  else if rec.type = "MX" then
    Packable lib (withDot rec.content)
  else if rec.type = "TXT" then
    len rec.content ≤ 255
  else if rec.type = "SRV" then
    ∀ weight port target, fields rec.content = [weight, port, target] → (parseUint weight 16).isSome →
      (parseUint port 16).isSome → Packable lib (withDot target)
  else if rec.type = "NS" then
    Packable lib (withDot rec.content)
  else if rec.type = "CAA" then
    ∀ flag tag value, splitN ' ' 3 rec.content = [flag, tag, value] → (parseUint flag 8).isSome →
      len tag ≤ 255 ∧ 2 + len tag + len value ≤ 65535
  else
    True

end

variable {lib : Dns.Labels} {rec : Record} {qname content : Str} {data : Rdata} {priority : UInt16}

theorem toRR_wellFormed_iff_data : (∀ rr, toRR rec qname = some rr → rr.WellFormed lib rec) ↔
      ∀ data, rec.data = some data → data.rrtype = stringToType rec.type ∧ data.WellFormed lib rec.content := by
  simp only [toRR, map_eq_some_iff]
  constructor
  case mp => exact fun h data hd => (h _ ⟨data, hd, rfl⟩).2
  case mpr =>
    rintro h rr ⟨data, hd, rfl⟩
    exact ⟨rfl, h data hd⟩

theorem srvData_eq_some_iff :
    srvData priority content = some data ↔ ∃ weight port target w p, fields content = [weight, port, target] ∧
      parseUint weight 16 = some w ∧ parseUint port 16 = some p ∧
      data = .srv priority (UInt16.ofNat w) (UInt16.ofNat p) (withDot target) := by
  constructor
  case mp =>
    intro h
    rw [srvData] at h
    split at h
    case h_1 weight port target hf =>
      split at h
      case h_1 w p hw hp =>
        cases h
        exact ⟨weight, port, target, w, p, hf, hw, hp, rfl⟩
      case h_2 => cases h
    case h_2 => cases h
  case mpr =>
    rintro ⟨weight, port, target, w, p, hf, hw, hp, rfl⟩
    simp [srvData, hf, hw, hp]

theorem caaData_eq_some_iff :
    caaData content = some data ↔ ∃ flag tag value f, splitN ' ' 3 content = [flag, tag, value] ∧
      parseUint flag 8 = some f ∧ data = .caa (UInt8.ofNat f) tag value := by
  constructor
  case mp =>
    intro h
    rw [caaData] at h
    split at h
    case h_1 flag tag value hs =>
      obtain ⟨f, hf, rfl⟩ := map_eq_some_iff.mp h
      exact ⟨flag, tag, value, f, hs, hf, rfl⟩
    case h_2 => cases h
  case mpr =>
    rintro ⟨flag, tag, value, f, hs, hf, rfl⟩
    simp [caaData, hs, hf, map_some]

theorem srvData_wellFormed_iff :
    (∀ data, srvData priority content = some data → data.rrtype = 33 ∧ data.WellFormed lib content) ↔
      ∀ weight port target, fields content = [weight, port, target] → (parseUint weight 16).isSome →
        (parseUint port 16).isSome → Packable lib (withDot target) := by
  simp only [srvData_eq_some_iff]
  constructor
  case mp =>
    intro h weight port target hf hw hp
    obtain ⟨w, hw⟩ := isSome_iff_exists.mp hw
    obtain ⟨p, hp⟩ := isSome_iff_exists.mp hp
    exact (h _ ⟨weight, port, target, w, p, hf, hw, hp, rfl⟩).2
  case mpr =>
    rintro h data ⟨weight, port, target, w, p, hf, hw, hp, rfl⟩
    exact ⟨rfl, h weight port target hf (hw ▸ rfl) (hp ▸ rfl)⟩

theorem caaData_wellFormed_iff :
    (∀ data, caaData content = some data → data.rrtype = 257 ∧ data.WellFormed lib content) ↔
      ∀ flag tag value, splitN ' ' 3 content = [flag, tag, value] → (parseUint flag 8).isSome →
        len tag ≤ 255 ∧ 2 + len tag + len value ≤ 65535 := by
  simp only [caaData_eq_some_iff]
  constructor
  case mp =>
    intro h flag tag value hs hf
    obtain ⟨f, hf⟩ := isSome_iff_exists.mp hf
    exact (h _ ⟨flag, tag, value, f, hs, hf, rfl⟩).2
  case mpr =>
    rintro h data ⟨flag, tag, value, f, hs, hf, rfl⟩
    exact ⟨rfl, h flag tag value hs (hf ▸ rfl)⟩

theorem a_wellFormed_iff : (∀ data, (parse content).map (fun ip => Rdata.a (ip.to4.getD [])) = some data →
      data.rrtype = 1 ∧ data.WellFormed lib content) ↔ ∀ ip, parse content = some ip → ip.to4.isSome := by
  simp only [map_eq_some_iff]
  constructor
  case mp =>
    intro h ip hp
    have hl := (h _ ⟨ip, hp, rfl⟩).2
    cases ho : ip.to4
    case none =>
      rw [ho] at hl
      cases hl
    case some => rfl
  case mpr =>
    rintro h data ⟨ip, hp, rfl⟩
    obtain ⟨ip', ho⟩ := isSome_iff_exists.mp (h ip hp)
    rw [ho]
    exact ⟨rfl, length_to4 ho⟩

theorem aaaa_wellFormed_iff :
    (∀ data, (parse content).map (fun ip => Rdata.aaaa (ip.to16.getD [])) = some data →
      data.rrtype = 28 ∧ data.WellFormed lib content) ↔ parseIPv4 content = none := by
  simp only [map_eq_some_iff]
  constructor
  case mp =>
    intro h
    by_contra hn
    obtain ⟨fs, hf⟩ := ne_none_iff_exists'.mp hn
    exact hn (h _ ⟨_, parse_of_parseIPv4 hf, rfl⟩).2.2
  case mpr =>
    rintro h data ⟨ip, hp, rfl⟩
    rw [to16_of_parse hp]
    exact ⟨rfl, length_parse hp, h⟩

theorem some_wellFormed_iff {rrtype : UInt16} (hd : data.rrtype = rrtype) :
    (∀ data', some data = some data' → data'.rrtype = rrtype ∧ data'.WellFormed lib content) ↔
      data.WellFormed lib content := by
  simp [hd]

theorem data_wellFormed_iff :
    (∀ data, rec.data = some data → data.rrtype = stringToType rec.type ∧ data.WellFormed lib rec.content) ↔
      rec.Fits lib := by
  rw [Record.data, Record.Fits, stringToType]
  split
  case isTrue => exact a_wellFormed_iff
  split
  case isTrue => exact aaaa_wellFormed_iff
  split
  case isTrue => exact some_wellFormed_iff rfl
  split
  case isTrue => exact some_wellFormed_iff rfl
  split
  case isTrue =>
    refine (some_wellFormed_iff rfl).trans ?_
    simp [Rdata.WellFormed]
  split
  case isTrue => exact srvData_wellFormed_iff
  split
  case isTrue => exact some_wellFormed_iff rfl
  split
  case isTrue h =>
    rw [if_neg (by rw [h]; decide)]
    exact caaData_wellFormed_iff
  case isFalse => simp

theorem toRR_wellFormed_iff : (∀ rr, toRR rec qname = some rr → rr.WellFormed lib rec) ↔ rec.Fits lib :=
  toRR_wellFormed_iff_data.trans data_wellFormed_iff

namespace Record.Sample

def record (type : RecordType) (content : Str) : Record where
  id := "r"
  name := "www"
  type := type
  ttl := 300
  content := content
  priority := 0
  proxied := false
  createdAt := 0
  updatedAt := 0

end Record.Sample

open Record.Sample

-- An address of the wrong family, and a text that is too long for one string.
theorem toRR_malformed : (∃ rr, toRR (record "A" "2001:db8::1") "www.example.com." = some rr ∧
      ¬rr.WellFormed .reference (record "A" "2001:db8::1")) ∧
    (∃ rr, toRR (record "AAAA" "192.0.2.1") "www.example.com." = some rr ∧
      ¬rr.WellFormed .reference (record "AAAA" "192.0.2.1")) ∧
    ∃ rr, toRR (record "TXT" (List.replicate 256 'x')) "www.example.com." = some rr ∧
      ¬rr.WellFormed .reference (record "TXT" (List.replicate 256 'x')) := by
  refine ⟨?_, ?_, ?_⟩
  · refine ⟨_, rfl, fun h => ?_⟩
    have hl : List.length _ = 4 := h.2.2
    revert hl
    decide +kernel
  · refine ⟨_, rfl, fun h => ?_⟩
    have hn := h.2.2.2
    revert hn
    decide +kernel
  · refine ⟨_, rfl, fun h => ?_⟩
    have hl := h.2.2.1 _ (.head _)
    revert hl
    decide +kernel

end Hanzodns
