import HanzoDNS.Lib.NetText

open List

namespace Net

open Nat UInt8

open Strconv

namespace IP

def value (ip : IP) : Nat :=
  ofDigits 256 (ip.map toNat).reverse

def ofValue : Nat → Nat → IP
  | 0, _ => []
  | len + 1, v => ofValue len (v / 256) ++ [ofNat v]

def maskByte (ones : Nat) : UInt8 :=
  ofNat (256 - 2 ^ (8 - ones))

-- The first bits of an address, with zeros after them.
def mask : Nat → IP → IP
  | _, [] => []
  | ones, b :: ip => (b &&& maskByte ones) :: mask (ones - 8) ip

section

variable {b : UInt8} {ip ip' : IP} {ones : Nat}

@[simp]
theorem value_nil : value [] = 0 :=
  rfl

theorem value_append : value (ip ++ ip') = value ip' + 2 ^ (8 * ip'.length) * value ip := by
  rw [value, map_append, reverse_append, ofDigits_append, length_reverse, length_map, pow_mul]
  rfl

theorem value_cons : value (b :: ip) = value ip + 2 ^ (8 * ip.length) * b.toNat := by
  have h : value ([b] ++ ip) = value ip + 2 ^ (8 * ip.length) * value [b] := value_append
  have hb : value [b] = b.toNat := by simp [value]
  rwa [hb] at h

@[simp]
theorem length_ofValue (len v : Nat) : (ofValue len v).length = len := by
  induction len generalizing v
  case zero => rfl
  case succ len hi => rw [ofValue, length_append, hi, length_singleton]

theorem value_ofValue (len v : Nat) (h : v < 2 ^ (8 * len)) : value (ofValue len v) = v := by
  induction len generalizing v
  case zero =>
    have hv : v = 0 := by simpa using h
    rw [hv, ofValue, value_nil]
  case succ len hi =>
    rw [mul_succ, pow_add] at h
    have hb : value [ofNat v] = v % 256 := by simp [value]
    rw [ofValue, value_append, hb, hi (v / 256) (Nat.div_lt_of_lt_mul (by omega))]
    exact mod_add_div v 256

theorem value_lt (ip : IP) : value ip < 2 ^ (8 * ip.length) := by
  have h : value ip < 256 ^ (ip.map toNat).reverse.length := by
    refine ofDigits_lt_base_pow_length (by decide) fun d hd => ?_
    rw [mem_reverse] at hd
    obtain ⟨b, -, rfl⟩ := mem_map.mp hd
    exact b.toNat_lt
  rwa [length_reverse, length_map, show 256 = 2 ^ 8 from rfl, ←pow_mul] at h

@[simp]
theorem length_mask (ones : Nat) (ip : IP) : (mask ones ip).length = ip.length := by
  fun_induction mask ones ip
  case case1 => rfl
  case case2 ones b ip hi => rw [length_cons, hi, length_cons]

theorem toNat_and_maskByte (b : UInt8) (h : ones ≤ 8) :
    (b &&& maskByte ones).toNat = b.toNat / 2 ^ (8 - ones) * 2 ^ (8 - ones) := by
  have all : ∀ n < 256, ∀ ones ≤ 8, n &&& (256 - 2 ^ (8 - ones)) = n / 2 ^ (8 - ones) * 2 ^ (8 - ones) := by
    decide +kernel
  have hp : 0 < 2 ^ (8 - ones) := Nat.two_pow_pos _
  have hl : 256 - 2 ^ (8 - ones) < 2 ^ 8 := by omega
  rw [UInt8.toNat_and, maskByte, UInt8.toNat_ofNat_of_lt' hl]
  exact all b.toNat b.toNat_lt ones h

theorem value_mask_zero (ip : IP) : value (mask 0 ip) = 0 := by
  induction ip
  case nil => rfl
  case cons b ip hi =>
    have hb : (b &&& maskByte 0).toNat = 0 := by
      rw [toNat_and_maskByte b (by decide), Nat.div_eq_of_lt b.toNat_lt, Nat.zero_mul]
    rw [mask, value_cons, hb, Nat.zero_sub, hi, Nat.mul_zero]

theorem value_mask (h : ones ≤ 8 * ip.length) :
    value (mask ones ip) = value ip / 2 ^ (8 * ip.length - ones) * 2 ^ (8 * ip.length - ones) := by
  induction ip generalizing ones
  case nil => simp [mask]
  case cons b ip hi =>
    have hv := value_lt ip
    rw [mask, value_cons, value_cons, length_mask, length_cons]
    by_cases h8 : ones ≤ 8
    case pos =>
      have hr : value (mask (ones - 8) ip) = 0 := by rw [Nat.sub_eq_zero_of_le h8, value_mask_zero]
      have he : 8 * (ip.length + 1) - ones = 8 * ip.length + (8 - ones) := by omega
      have hq : (value ip + 2 ^ (8 * ip.length) * b.toNat) / 2 ^ (8 * ip.length) = b.toNat := by
        rw [Nat.add_mul_div_left _ _ (Nat.two_pow_pos _), Nat.div_eq_of_lt hv, Nat.zero_add]
      rw [hr, he, pow_add, ←Nat.div_div_eq_div_mul, hq, toNat_and_maskByte b h8]
      ring
    case neg =>
      have hb : (b &&& maskByte ones).toNat = b.toNat := by
        have h0 : 8 - ones = 8 - 8 := by omega
        rw [maskByte, h0, ←maskByte, toNat_and_maskByte b le_rfl]
        simp
      have he : 8 * (ip.length + 1) - ones = 8 * ip.length - (ones - 8) := by omega
      rw [length_cons] at h
      -- The byte is a multiple of what is cleared.
      have hp : 2 ^ (8 * ip.length) = 2 ^ (8 * ip.length - (ones - 8)) * 2 ^ (ones - 8) := by
        rw [←pow_add]
        congr 1
        omega
      rw [hb, hi (by omega), he, hp, Nat.mul_assoc, Nat.add_mul_div_left _ _ (Nat.two_pow_pos _)]
      ring

theorem value_injective (hl : ip.length = ip'.length) (h : value ip = value ip') : ip = ip' := by
  have lt (ip : IP) : ∀ d ∈ (ip.map toNat).reverse, d < 256 := by
    intro d hd
    rw [mem_reverse] at hd
    obtain ⟨b, -, rfl⟩ := mem_map.mp hd
    exact b.toNat_lt
  have hr := ofDigits_inj_of_len_eq (by decide) (by simpa using hl) (lt ip) (lt ip') h
  have hi : Function.Injective UInt8.toNat := fun _ _ => UInt8.toNat_inj.mp
  exact hi.list_map (reverse_injective hr)

theorem mask_eq_mask_iff (hl : ip.length = ip'.length) (h : ones ≤ 8 * ip.length) :
    mask ones ip = mask ones ip' ↔ value ip / 2 ^ (8 * ip.length - ones) = value ip' / 2 ^ (8 * ip.length - ones) := by
  have hv : value (mask ones ip) = value (mask ones ip') ↔
      value ip / 2 ^ (8 * ip.length - ones) = value ip' / 2 ^ (8 * ip.length - ones) := by
    rw [value_mask h, value_mask (hl ▸ h), ←hl]
    exact Nat.mul_left_inj (Nat.two_pow_pos _).ne'
  rw [←hv]
  exact ⟨congrArg value, value_injective (by simp [hl])⟩

theorem value_of_to4 {bs : IP} (hl : ip.length = 16) (h : ip.to4 = some bs) : value ip / 2 ^ 32 = 0xffff := by
  rw [to4, if_neg (by omega)] at h
  split at h
  case isFalse => cases h
  case isTrue hc =>
    obtain ⟨rest, rfl⟩ := hc.2
    have hr : rest.length = 4 := by
      rw [length_append] at hl
      exact add_left_cancel (hl : 12 + rest.length = 12 + 4)
    have hv := value_lt rest
    rw [value_append, hr] at *
    rw [Nat.add_mul_div_left _ _ (Nat.two_pow_pos _), Nat.div_eq_of_lt hv]
    decide +kernel

end

end IP

open IP

-- A network of addresses. The mask has as many bits as the address, and the ones come first.
structure IPNet where
  ip : IP
  ones : Nat
  isIP : ip.length = 4 ∨ ip.length = 16
deriving DecidableEq

namespace IPNet

def bits (n : IPNet) : Nat :=
  8 * n.ip.length

-- A network of addresses that stand for ones with four bytes is written as one of these.
def networkNumberAndMask (n : IPNet) : IP × Nat :=
  match n.ip.to4 with
  | some ip => (ip, if n.ip.length = 16 then n.ones - 96 else n.ones)
  | none => (n.ip, n.ones)

def string (n : IPNet) : Str :=
  n.networkNumberAndMask.1.string ++ '/' :: itoa n.networkNumberAndMask.2

def contains (n : IPNet) (ip : IP) : Bool :=
  let nn := n.networkNumberAndMask.1
  let m := n.networkNumberAndMask.2
  let x := ip.to4.getD ip
  x.length = nn.length ∧ mask m nn = mask m x

end IPNet

def parseCIDR (s : Str) : Option (IP × IPNet) :=
  match s.span (· ≠ '/') with
  | (_, []) => none
  | (addr, _ :: m) =>
    match h : parse addr, digits m with
    | some ip, some n =>
      if addr.find? (· ∈ ['.', ':', '%']) = some '.' then
        if n > 32 then
          none
        else
          some (ip, { ip := mask n (ip.drop 12), ones := n, isIP := .inl (by simp [length_parse h]) })
      else if n > 128 then
        none
      else
        some (ip, { ip := mask n ip, ones := n, isIP := .inr (by simp [length_parse h]) })
    | _, _ => none

section CIDR

variable {s addr m : Str} {ip : IP} {n : IPNet}

theorem span_slash (h : '/' ∉ addr) : (addr ++ '/' :: m).span (· ≠ '/') = (addr, '/' :: m) := by
  have ht : (addr ++ '/' :: m).takeWhile (· ≠ '/') = addr := by
    rw [takeWhile_append_of_pos fun c hc => decide_eq_true (ne_of_mem_of_not_mem hc h)]
    simp
  have hd : (addr ++ '/' :: m).dropWhile (· ≠ '/') = '/' :: m := by
    rw [dropWhile_append_of_pos fun c hc => decide_eq_true (ne_of_mem_of_not_mem hc h)]
    simp
  rw [span_eq_takeWhile_dropWhile, ht, hd]

theorem parseCIDR_cases (h : parseCIDR s = some (ip, n)) :
    (n.ip.length = 4 ∧ n.ones ≤ 32 ∧ ∃ ip4 : IP, n.ip = mask n.ones ip4) ∨
    (n.ones ≤ 128 ∧ n.ip = mask n.ones ip ∧ ∃ addr m, s = addr ++ '/' :: m ∧ parse addr = some ip ∧
      addr.find? (· ∈ ['.', ':', '%']) ≠ some '.') := by
  rw [parseCIDR, span_eq_takeWhile_dropWhile] at h
  split at h
  case h_1 => cases h
  case h_2 addr c m hs =>
    have hsa : s = addr ++ c :: m := by
      rw [Prod.mk.injEq] at hs
      rw [←hs.1, ←hs.2, takeWhile_append_dropWhile]
    have hc : c = '/' := by
      have hh := head?_dropWhile_not (· ≠ '/') s
      rw [(Prod.mk.inj hs).2] at hh
      simpa using hh
    split at h
    case h_2 => cases h
    case h_1 ip' ones hp _ =>
      split at h
      case isTrue =>
        split at h
        case isTrue => cases h
        case isFalse hl =>
          cases h
          exact .inl ⟨by simp [length_parse hp], le_of_not_gt hl, _, rfl⟩
      case isFalse hd =>
        split at h
        case isTrue => cases h
        case isFalse hl =>
          cases h
          exact .inr ⟨le_of_not_gt hl, rfl, addr, m, hc ▸ hsa, hp, hd⟩

theorem parseCIDR_of_to4 {bs : IP} {ones : Nat} (h : bs.length = 4) (ho : ones ≤ 32) :
    ∃ n, parseCIDR (bs.string ++ '/' :: itoa ones) = some (v4InV6Prefix ++ bs, n) ∧ n.ones = ones ∧ n.ip.length = 4 := by
  have hp := parse_string_of_to4 (to4_self h)
  have hf : bs.string.find? (· ∈ ['.', ':', '%']) = some '.' := by
    rw [string_of_to4 (to4_self h)]
    exact find?_of_parseIPv4 (parseIPv4_eq_some_iff.mpr ⟨h, rfl⟩)
  have hs : '/' ∉ bs.string := by
    rw [string_of_to4 (to4_self h)]
    exact notMem_intercalate_octets (by decide) (by decide)
  have hl : (v4InV6Prefix ++ bs).length = 16 := length_parse hp
  refine ⟨{ ip := mask ones ((v4InV6Prefix ++ bs).drop 12), ones, isIP := .inl (by simp [hl]) }, ?_, rfl, by simp [hl]⟩
  rw [parseCIDR, span_slash hs]
  dsimp only
  split
  case h_1 ip m hp' hm =>
    obtain rfl := Option.some.inj (hp.symm.trans hp')
    obtain rfl := Option.some.inj ((digits_itoa ones).symm.trans hm)
    rw [if_pos hf, if_neg (not_lt.mpr ho)]
  case h_2 hn => exact (hn _ _ hp (digits_itoa ones)).elim

theorem parseCIDR_of_to16 {ones : Nat} (hl : ip.length = 16) (h : ip.to4 = none) (ho : ones ≤ 128) :
    ∃ n, parseCIDR (ip.string ++ '/' :: itoa ones) = some (ip, n) ∧ n.ones = ones ∧ n.ip.length = 16 := by
  have hp := parse_string hl h
  have hs : '/' ∉ ip.string := by
    intro hm
    obtain hd | hd := mem_string hl h hm
    · cases hd
    · cases hd
  refine ⟨{ ip := mask ones ip, ones, isIP := .inr (by simp [hl]) }, ?_, rfl, by simp [hl]⟩
  rw [parseCIDR, span_slash hs]
  dsimp only
  split
  case h_1 ip' m hp' hm =>
    obtain rfl := Option.some.inj (hp.symm.trans hp')
    obtain rfl := Option.some.inj ((digits_itoa ones).symm.trans hm)
    rw [find?_string hl h, if_neg (by decide), if_neg (not_lt.mpr ho)]
  case h_2 hn => exact (hn _ _ hp (digits_itoa ones)).elim

section First

variable {k : Nat} {f : Str} {out : List UInt8 × Option Nat} {ellipsis : Option Nat}

theorem prefix_parseIPv6Fields (h : parseIPv6Fields k s ip ellipsis = some out) :
    ip <+: out.1 ∧ (out.2 = ellipsis ∨ ∃ i, out.2 = some i ∧ ip.length ≤ i) := by
  induction k generalizing s ip ellipsis
  case zero =>
    rw [parseIPv6Fields] at h
    split at h
    case isTrue =>
      cases h
      exact ⟨prefix_rfl, .inl rfl⟩
    case isFalse => cases h
  case succ k hi =>
    simp only [parseIPv6Fields] at h
    split at h
    case isTrue => cases h
    case isFalse =>
      have step {s : Str} {e : Option Nat} {a b : UInt8} (h : parseIPv6Fields k s (ip ++ [a, b]) e = some out)
          (he : e = ellipsis ∨ e = some (ip ++ [a, b]).length) :
          ip <+: out.1 ∧ (out.2 = ellipsis ∨ ∃ i, out.2 = some i ∧ ip.length ≤ i) := by
        obtain ⟨hp, ho⟩ := hi h
        refine ⟨(prefix_append _ _).trans hp, ?_⟩
        obtain ho | ⟨i, ho, hl⟩ := ho
        case inr => exact .inr ⟨i, ho, by simp at hl; omega⟩
        case inl =>
          obtain rfl | rfl := he
          · exact .inl ho
          · exact .inr ⟨_, ho, by simp⟩
      split at h
      case h_1 =>
        cases h
        exact ⟨prefix_append _ _, .inl rfl⟩
      case h_2 =>
        split at h
        case isTrue => cases h
        case isFalse =>
          obtain ⟨fs, -, rfl⟩ := Option.map_eq_some_iff.mp h
          exact ⟨prefix_append _ _, .inl rfl⟩
      case h_3 => cases h
      case h_4 =>
        split at h
        case isTrue => cases h
        case isFalse =>
          split at h
          case isTrue =>
            cases h
            exact ⟨prefix_append _ _, .inr ⟨_, rfl, by simp⟩⟩
          case isFalse => exact step h (.inr rfl)
      case h_5 => exact step h (.inl rfl)
      case h_6 => cases h

theorem fieldValue_lt (hf : IsField f) : fieldValue f < 65536 := by
  have hd : ∀ d ∈ (f.filterMap hexDigit).reverse, d < 16 := by
    intro d hd
    obtain ⟨c, -, hc⟩ := mem_filterMap.mp (mem_reverse.mp hd)
    exact (hexDigit_cases hc).1
  have hv : fieldValue f = ofDigits 16 (f.filterMap hexDigit).reverse := by
    rw [ofDigits_eq_foldr, foldr_reverse, fieldValue]
    congr 1
    funext a d
    exact add_comm _ _
  rw [hv]
  have hl : (f.filterMap hexDigit).reverse.length ≤ 4 := by
    rw [length_reverse]
    exact (length_filterMap_le _ _).trans hf.length
  exact (Nat.ofDigits_lt_base_pow_length (by decide) hd).trans_le (Nat.pow_le_pow_right (by decide) hl)

theorem fieldValue_pos (hf : IsField f) (hz : f.head? ≠ some '0') : 0 < fieldValue f := by
  obtain ⟨c, t, rfl⟩ := exists_cons_of_ne_nil hf.nonempty
  obtain ⟨d, hd⟩ := Option.isSome_iff_exists.mp (hf.digits c mem_cons_self)
  have hp : 0 < d := by
    refine pos_of_ne_zero ?_
    rintro rfl
    exact hz (congrArg some ((hexDigit_cases hd).2 rfl))
  rw [fieldValue, filterMap_cons_some hd, foldl_cons, Nat.mul_zero, Nat.zero_add]
  refine List.foldlRecOn (motive := (0 < ·)) _ _ hp fun a ha d _ => ?_
  omega

theorem value_fieldBytes (hf : IsField f) : value (fieldBytes f) = fieldValue f := by
  have hl := fieldValue_lt hf
  have hh : (ofNat (fieldValue f / 256)).toNat = fieldValue f / 256 := by
    have h : fieldValue f / 256 < 2 ^ 8 := by omega
    exact toNat_ofNat_of_lt' h
  rw [fieldBytes, value_cons, value_cons, value_nil, hh, toNat_ofNat']
  simp only [length_cons, length_nil]
  omega

theorem exists_first_field (h : parseIPv6Fields (k + 1) s [] none = some out) :
    ∃ f t, s = f ++ t ∧ IsField f ∧ fieldBytes f <+: out.1 ∧ (out.2 = none ∨ ∃ i, out.2 = some i ∧ 2 ≤ i) := by
  simp only [parseIPv6Fields] at h
  split at h
  case isTrue => cases h
  case isFalse hc =>
    rw [not_or] at hc
    have hf : IsField (s.takeWhile (hexDigit · |>.isSome)) :=
      ⟨hc.1, le_of_not_gt hc.2, fun _ => mem_takeWhile_imp⟩
    refine ⟨_, _, takeWhile_append_dropWhile.symm, hf, ?_⟩
    split at h
    case h_1 =>
      cases h
      exact ⟨prefix_rfl, .inl rfl⟩
    case h_2 => cases h
    case h_3 => cases h
    case h_4 =>
      split at h
      case isTrue => cases h
      case isFalse =>
        split at h
        case isTrue =>
          cases h
          exact ⟨prefix_rfl, .inr ⟨_, rfl, le_rfl⟩⟩
        case isFalse =>
          obtain ⟨hp, ho⟩ := prefix_parseIPv6Fields h
          refine ⟨hp, .inr ?_⟩
          obtain ho | ho := ho
          · exact ⟨_, ho, le_rfl⟩
          · exact ho
    case h_5 => exact prefix_parseIPv6Fields h
    case h_6 => cases h

theorem prefix_ofFields {bs : List UInt8} (h : ofFields out = some ip) (hb : bs.length = 2) (hp : bs <+: out.1)
    (ho : out.2 = none ∨ ∃ i, out.2 = some i ∧ 2 ≤ i) : bs <+: ip := by
  obtain ⟨ip', e⟩ := out
  obtain rfl | ⟨i, rfl, hi⟩ : e = none ∨ ∃ i, e = some i ∧ 2 ≤ i := ho
  case inl =>
    rw [ofFields] at h
    split at h
    case isTrue =>
      cases h
      exact hp
    case isFalse => cases h
  case inr =>
    rw [ofFields] at h
    split at h
    case isTrue =>
      cases h
      rw [append_assoc]
      exact (prefix_take_iff.mpr ⟨hp, by omega⟩).trans (prefix_append _ _)
    case isFalse => cases h

end First

theorem parseIPv6_of_parse (h : parse addr = some ip) (hd : addr.find? (· ∈ ['.', ':', '%']) ≠ some '.') :
    ':' ∈ addr ∧ parseIPv6 addr = some ip := by
  rw [parse] at h
  split at h
  case h_1 hf => exact absurd hf hd
  case h_2 hf =>
    split at h
    case isTrue => cases h
    case isFalse => exact ⟨mem_of_find?_eq_some hf, h⟩
  case h_3 => cases h

theorem value_of_parse (h : parse addr = some ip) (hd : addr.find? (· ∈ ['.', ':', '%']) ≠ some '.')
    (hc : addr.head? ≠ some ':') (hz : addr.head? ≠ some '0') : 2 ^ 112 ≤ value ip := by
  have h6 := (parseIPv6_of_parse h hd).2
  have hl := length_parseIPv6 h6
  rw [parseIPv6_eq hc] at h6
  obtain ⟨out, ho, hi⟩ := Option.bind_eq_some_iff.mp h6
  obtain ⟨f, t, rfl, hf, hp, he⟩ := exists_first_field ho
  obtain ⟨rest, rfl⟩ := prefix_ofFields hi rfl hp he
  have hr : rest.length = 14 := by
    rw [length_append] at hl
    exact add_left_cancel (hl : 2 + rest.length = 2 + 14)
  have hz : f.head? ≠ some '0' := by
    rwa [head?_append_of_ne_nil _ hf.nonempty] at hz
  rw [value_append, hr, value_fieldBytes hf]
  exact (Nat.le_mul_of_pos_right _ (fieldValue_pos hf hz)).trans (Nat.le_add_left _ _)

end CIDR

end Net
