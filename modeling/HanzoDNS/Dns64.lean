import HanzoDNS.Lib.IPNet

open Net IP List Option

-- Addresses for clients with IPv6 only, into which those with four bytes are put.
namespace Dns64

inductive SetupError
  | cidr
  | netmask (total : Nat) (pref : Str)
  | prefixLength (pref : Str)
deriving DecidableEq

def parsePrefix (addr : Str) : Except SetupError IPNet :=
  match parseCIDR addr with
  | none => .error .cidr
  | some (_, pref) =>
    if pref.bits ≠ 128 then
      .error (.netmask pref.bits pref.string)
    else if pref.ones % 8 ≠ 0 ∨ pref.ones < 32 ∨ pref.ones > 96 then
      .error (.prefixLength pref.string)
    else
      .ok pref

-- A loop that copies bytes to where the index of the destination is. It is none if one of the indices is out of range.
def copy (src : IP) : (count i j : Nat) → (dst : IP) → Option IP
  | 0, _, _, dst => some dst
  | count + 1, i, j, dst => do
    let b ← src[j]?
    if i < dst.length then copy src count (i + 1) (j + 1) (dst.set i b) else none

inductive Embedded
  | panicked
  | notIPv4
  | address (ip : IP)
deriving DecidableEq

def to6 (pref : IPNet) (addr : IP) : Embedded :=
  match addr.to4 with
  | none => .notIPv4
  | some addr =>
    let i := pref.ones / 8
    let j := 8 - i
    let v6 := do
      let v6 ← copy pref.ip i 0 0 (List.replicate 16 0)
      let v6 ← copy addr j i 0 v6
      copy addr (4 - j) (if i + j = 8 then 9 else i + j) j v6
    v6.elim .panicked .address

theorem copy_append {src front back : IP} {count i j : Nat} (hf : front.length = i) (hs : j + count ≤ src.length)
    (hb : count ≤ back.length) :
    copy src count i j (front ++ back) = some (front ++ (src.drop j).take count ++ back.drop count) := by
  induction count generalizing i j front back
  case zero => simp [copy]
  case succ count hi =>
    obtain ⟨b, back, rfl⟩ := exists_cons_of_length_pos (Nat.zero_lt_of_lt hb)
    have hj : j < src.length := by omega
    have hl : i < (front ++ b :: back).length := by simp [hf]
    have hset : (front ++ b :: back).set i src[j] = front ++ [src[j]] ++ back := by simp [←hf]
    simp only [copy, getElem?_eq_getElem hj, bind_eq_bind, bind_some, if_pos hl, hset]
    rw [hi (by simp [hf]) (by omega) (Nat.le_of_succ_le_succ hb), drop_eq_getElem_cons hj, append_assoc front]
    rfl

theorem mask_mul_eight (m : Nat) (ip : IP) : mask (8 * m) ip = ip.take m ++ List.replicate (ip.length - m) 0 := by
  induction ip generalizing m
  case nil => simp [mask]
  case cons b ip hi =>
    cases m
    case zero =>
      have h := hi 0
      simp only [Nat.mul_zero, take_zero, nil_append, Nat.sub_zero] at h
      simp [mask, maskByte, h, replicate_succ]
    case succ m =>
      have hb : b &&& maskByte (8 * (m + 1)) = b := by
        have h0 : 8 - 8 * (m + 1) = 0 := by omega
        rw [maskByte, h0]
        exact UInt8.and_neg_one
      have hs : 8 * (m + 1) - 8 = 8 * m := by omega
      simp [mask, hb, hs, hi]

variable {s : Str} {pref : IPNet} {addr ip4 : IP}

theorem parsePrefix_eq_ok (h : parsePrefix s = .ok pref) :
    pref.ip.length = 16 ∧ ∃ m, pref.ones = 8 * m ∧ 4 ≤ m ∧ m ≤ 12 ∧ mask pref.ones pref.ip = pref.ip := by
  rw [parsePrefix] at h
  split at h
  case h_1 => cases h
  case h_2 ip pref' hp =>
    split at h
    case isTrue => cases h
    case isFalse ht =>
      split at h
      case isTrue => cases h
      case isFalse hn =>
        cases h
        have hl : pref.ip.length = 16 := by
          rw [not_ne_iff, IPNet.bits] at ht
          omega
        refine ⟨hl, pref.ones / 8, by omega, by omega, by omega, ?_⟩
        obtain ⟨h4, -⟩ | ⟨-, hm, -⟩ := parseCIDR_cases hp
        case inl => omega
        case inr =>
          have ho : pref.ones = 8 * (pref.ones / 8) := by omega
          have hlen : ip.length = 16 := by rw [←hl, hm, length_mask]
          have ht : (ip.take (pref.ones / 8)).length = pref.ones / 8 := by simp [hlen]; omega
          rw [hm, ho, mask_mul_eight, mask_mul_eight, take_left' ht]
          simp [hlen]
          omega

def suffix (ones : Nat) (out : IP) : IP :=
  (out.take 8).drop (ones / 8) ++ out.drop (max 9 (ones / 8))

-- The layout that RFC 6052 prescribes. The address can be told from the length of the prefix and the result.
structure Embeds (pref : IPNet) (ip4 out : IP) : Prop where
  length : out.length = 16
  bits : mask pref.ones out = pref.ip
  reserved : out[8]? = some 0
  octets : (suffix pref.ones out).take 4 = ip4
  zero : ∀ b ∈ (suffix pref.ones out).drop 4, b = 0

section

variable {m : Nat} (hl : pref.ip.length = 16) (ho : pref.ones = 8 * m) (h4 : 4 ≤ m) (h12 : m ≤ 12)
include hl ho h4 h12

-- One byte is left out, unless the prefix extends over it.
theorem to6_eq (ha : addr.to4 = some ip4) : ∃ k, m + 4 + min 1 (9 - m) + k = 16 ∧ to6 pref addr = .address
    (pref.ip.take m ++ ip4.take (8 - m) ++ List.replicate (min 1 (9 - m)) 0 ++ ip4.drop (8 - m) ++
      List.replicate k 0) := by
  have h4l := length_to4 ha
  have hm : pref.ones / 8 = m := by omega
  have hf : (pref.ip.take m).length = m := by simp [hl]; omega
  have h₁ := @copy_append pref.ip [] (List.replicate 16 0) m 0 0 rfl (by omega) (by simp; omega)
  have h₂ := @copy_append ip4 (pref.ip.take m) (List.replicate (16 - m) 0) (8 - m) m 0 hf (by omega) (by simp; omega)
  have h₃ := @copy_append ip4 (pref.ip.take m ++ ip4.take (8 - m) ++ List.replicate (min 1 (9 - m)) 0)
    (List.replicate (16 - m - (8 - m) - min 1 (9 - m)) 0) (4 - (8 - m)) (if m + (8 - m) = 8 then 9 else m + (8 - m))
    (8 - m) (by split <;> simp [hl, h4l] <;> omega) (by omega) (by simp; omega)
  have hg : min 1 (9 - m) + (16 - m - (8 - m) - min 1 (9 - m)) = 16 - m - (8 - m) := by omega
  have ht : (ip4.drop (8 - m)).take (4 - (8 - m)) = ip4.drop (8 - m) := take_of_length_le (by simp [h4l])
  rw [append_assoc _ (List.replicate _ _), replicate_append_replicate, hg, ht] at h₃
  rw [nil_append, nil_append, drop_zero, drop_replicate] at h₁
  rw [drop_zero, drop_replicate] at h₂
  rw [drop_replicate] at h₃
  refine ⟨16 - m - (8 - m) - min 1 (9 - m) - (4 - (8 - m)), by omega, ?_⟩
  simp only [to6, ha, hm, h₁, h₂, h₃, bind_eq_bind, bind_some]
  rfl

theorem embeds_iff (hp : mask pref.ones pref.ip = pref.ip) (ha : addr.to4 = some ip4) :
    (∃ out, to6 pref addr = .address out ∧ Embeds pref ip4 out) ↔ pref.ip[8]? = some 0 := by
  obtain ⟨k, hk, he⟩ := to6_eq hl ho h4 h12 ha
  have h4l := length_to4 ha
  have hm : pref.ones / 8 = m := by omega
  have hf : (pref.ip.take m).length = m := by simp [hl]; omega
  generalize hout : pref.ip.take m ++ ip4.take (8 - m) ++ List.replicate (min 1 (9 - m)) 0 ++ ip4.drop (8 - m) ++
    List.replicate k 0 = out at he
  have hlen : out.length = 16 := by
    rw [←hout]
    simp [hl, h4l]
    omega
  have hbits : mask pref.ones out = pref.ip := by
    rw [←hp, ho, mask_mul_eight, mask_mul_eight, hlen, hl, ←hout]
    simp [append_assoc, take_left' hf]
  have hrest : pref.ip.drop m = List.replicate (16 - m) 0 := by
    rw [←hp, ho, mask_mul_eight, drop_left' hf, hl]
  have hsuffix : suffix pref.ones out = ip4 ++ List.replicate k 0 ∧ out[8]? = pref.ip[8]? := by
    rw [suffix, hm, ←hout]
    by_cases h8 : m ≤ 8
    case pos =>
      have hl₈ : (pref.ip.take m ++ ip4.take (8 - m)).length = 8 := by simp [hl, h4l]; omega
      have hl₉ : (pref.ip.take m ++ ip4.take (8 - m) ++ [0]).length = 9 := by simp [hl, h4l]; omega
      rw [max_eq_left (by omega), min_eq_left (by omega), replicate_one]
      constructor
      · rw [append_assoc _ (ip4.drop _), drop_left' hl₉, append_assoc, take_left' hl₈,
          drop_left' hf, ←append_assoc, take_append_drop]
      · have hz : (pref.ip.drop m)[8 - m]? = some 0 := by rw [hrest, getElem?_replicate, if_pos (by omega)]
        rw [getElem?_drop, Nat.add_sub_cancel' h8] at hz
        rw [hz, append_assoc, append_assoc, getElem?_append_right (by omega), hl₈]
        rfl
    case neg =>
      have h0 : 8 - m = 0 := by omega
      rw [max_eq_right (by omega), min_eq_right (by omega), h0, show 9 - m = 0 by omega]
      constructor
      · rw [drop_eq_nil_of_le (by simp; omega)]
        simp [take_zero, drop_zero, replicate_zero, append_nil, append_assoc, drop_left' hf, nil_append]
      · simp only [take_zero, drop_zero, replicate_zero, append_nil, append_assoc]
        rw [getElem?_append_left (by omega), getElem?_take_of_lt (by omega)]
  obtain ⟨hsuffix, h8⟩ := hsuffix
  constructor
  case mp =>
    rintro ⟨out', h, e⟩
    obtain rfl := Embedded.address.inj (he.symm.trans h)
    rw [←h8, e.reserved]
  case mpr =>
    intro h
    refine ⟨out, he, hlen, hbits, h8.trans h, ?_, ?_⟩
    · rw [hsuffix, take_left' h4l]
    · rw [hsuffix, drop_left' h4l]
      exact fun b hb => eq_of_mem_replicate hb

end

-- Addresses are embedded as prescribed, and different ones differently, unless the prefix itself is not as prescribed.
theorem to6_embeds_iff (h : parsePrefix s = .ok pref) (ha : addr.to4 = some ip4) :
    (∃ out, to6 pref addr = .address out ∧ Embeds pref ip4 out ∧
      ∀ addr' ip4' : IP, addr'.to4 = some ip4' → to6 pref addr' = .address out → ip4' = ip4) ↔
    pref.ip[8]? = some 0 := by
  obtain ⟨hl, m, ho, h4, h12, hp⟩ := parsePrefix_eq_ok h
  rw [←embeds_iff hl ho h4 h12 hp ha]
  constructor
  case mp =>
    rintro ⟨out, h, e, -⟩
    exact ⟨out, h, e⟩
  case mpr =>
    rintro ⟨out, h, e⟩
    refine ⟨out, h, e, fun addr' ip4' ha' h' => ?_⟩
    have h8 := (embeds_iff hl ho h4 h12 hp ha).mp ⟨out, h, e⟩
    obtain ⟨out', h'', e'⟩ := (embeds_iff hl ho h4 h12 hp ha').mpr h8
    obtain rfl := Embedded.address.inj (h'.symm.trans h'')
    exact e'.octets.symm.trans e.octets

namespace Sample

def out (ip : IP) : IP :=
  [0, 100, 255, 155, 0, 0, 0, 0] ++ ip

end Sample

theorem to6_wellKnown : ∃ pref, parsePrefix "64:ff9b::/96".toList = .ok pref ∧
    ∃ out, to6 pref [192, 0, 2, 33] = .address out ∧ Embeds pref [192, 0, 2, 33] out ∧
      ∀ addr' ip4' : IP, addr'.to4 = some ip4' → to6 pref addr' = .address out → ip4' = [192, 0, 2, 33] := by
  obtain ⟨pref, h⟩ : ∃ pref, parsePrefix "64:ff9b::/96".toList = .ok pref ∧ pref.ip[8]? = some 0 :=
    ⟨⟨Sample.out [0, 0, 0, 0, 0, 0, 0, 0], 96, by decide⟩, by decide +kernel⟩
  exact ⟨pref, h.1, (to6_embeds_iff h.1 (by decide)).mpr h.2⟩

-- A prefix that is too long by one byte.
theorem not_embeds : ∃ pref, parsePrefix "64:ff9b:0:0:100::/72".toList = .ok pref ∧
    ¬∃ out, to6 pref [192, 0, 2, 33] = .address out ∧ Embeds pref [192, 0, 2, 33] out ∧
      ∀ addr' ip4' : IP, addr'.to4 = some ip4' → to6 pref addr' = .address out → ip4' = [192, 0, 2, 33] := by
  refine ⟨⟨Sample.out [1, 0, 0, 0, 0, 0, 0, 0], 72, by decide⟩, by decide +kernel, ?_⟩
  rintro ⟨out, h, e, -⟩
  have ho : Sample.out [1, 192, 0, 2, 33, 0, 0, 0] = out := Embedded.address.inj (by rw [←h]; decide +kernel)
  have h8 := e.reserved
  rw [←ho] at h8
  exact absurd h8 (by decide)

end Dns64
