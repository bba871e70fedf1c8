import HanzoDNS.Lib.Ascii
import HanzoDNS.Lib.NetText
import HanzoDNS.Dns.Util

open Strings List Option
open Net (IP)
open Net.IP

namespace Dns

def hexPair (b : UInt8) : Str :=
  [hexChar (b.toNat / 16), hexChar (b.toNat % 16)]

-- The name of an address. An address that stands for one with four bytes has the name of that one.
def reverseName (ip : IP) : Str :=
  match ip.to4 with
  | some bs => List.intercalate ['.'] (bs.reverse.map octet) ++ ip4arpa
  | none => List.intercalate ['.'] ((ip.flatMap hexPair).reverse.map ([·])) ++ ip6arpa

def IsAddress (ip : IP) : Prop :=
  ip.length = 4 ∨ ip.length = 16

-- The address is read from its name, and from no other name.
structure Inverse (s : Str) : Prop where
  complete : ∀ ip, IsAddress ip → s = reverseName ip → extractAddressFromReverse s = ip.string
  sound : extractAddressFromReverse s ≠ [] →
    ∃ ip, IsAddress ip ∧ extractAddressFromReverse s = ip.string ∧ s = reverseName ip

def mappedDigits : Str :=
  List.replicate 20 '0' ++ List.replicate 4 'f'

-- The labels of a name for an address with 16 bytes, or of one that is no name of an address at all.
structure ExactLabels (labels : List Str) : Prop where
  -- No other notation comes up when the labels are put together.
  colon : (∃ l ∈ labels, l = [] ∨ ':' ∈ l) → parse (List.intercalate [':'] (nibbles labels.reverse)) = none
  -- There are not up to three labels in front of the digits.
  exact : ∀ (extra : List Str) (cs : Str), labels = extra ++ cs.map ([·]) → cs.length = 32 →
    (∀ c ∈ cs, (hexDigit c).isSome) → extra.length < 4 → extra = []
  -- The digits do not stand for an address with four bytes.
  mapped : ∀ cs : Str, labels = cs.map ([·]) → cs.length = 32 → (∀ c ∈ cs, (hexDigit c).isSome) →
    ¬mappedDigits <+: cs.reverse

structure Regular (s : Str) : Prop where
  ip4 : ∀ search, s = search ++ ip4arpa → ':' ∈ search →
    (parse (List.intercalate ['.'] (search.splitOn '.').reverse)).bind to4 = none
  ip6 : ∀ search, s = search ++ ip6arpa → ExactLabels (search.splitOn '.')

section Hex

variable {c c' : Char} {b b' : UInt8} {ip ip' : IP} {cs : Str}

theorem exists_hexChar (h : (hexDigit c).isSome) (hl : Unicode.toLower c = c) : ∃ d < 16, c = hexChar d := by
  have hc := toNat_lt_of_hexDigit h
  have all : ∀ n < 128, (hexDigit (Char.ofNat n)).isSome → (Char.ofNat n).toLower = Char.ofNat n →
      ∃ d < 16, Char.ofNat n = hexChar d := by
    decide
  rw [toLower_of_ascii hc] at hl
  have := all c.toNat hc
  rw [Char.ofNat_toNat] at this
  exact this h hl

theorem fieldBytes_hexPair (b b' : UInt8) : fieldBytes (hexPair b ++ hexPair b') = [b, b'] := by
  have hb := b.toNat_lt
  have hb' := b'.toNat_lt
  have hv : fieldValue (hexPair b ++ hexPair b') = 256 * b.toNat + b'.toNat := by
    simp only [fieldValue, hexPair, cons_append, nil_append, filterMap_cons, filterMap_nil,
      hexDigit_hexChar _ (show b.toNat / 16 < 16 by omega), hexDigit_hexChar _ (show b.toNat % 16 < 16 by omega),
      hexDigit_hexChar _ (show b'.toNat / 16 < 16 by omega), hexDigit_hexChar _ (show b'.toNat % 16 < 16 by omega),
      foldl_cons, foldl_nil]
    omega
  have hh : (256 * b.toNat + b'.toNat) / 256 = b.toNat := by omega
  have hl : UInt8.ofNat (256 * b.toNat + b'.toNat) = b' := by
    apply UInt8.toNat_inj.mp
    rw [UInt8.toNat_ofNat']
    omega
  rw [fieldBytes, hv, hh, hl, UInt8.ofNat_toNat]

theorem hexPair_injective (h : hexPair b = hexPair b') : b = b' := by
  have hb := fieldBytes_hexPair b b
  rw [h, fieldBytes_hexPair] at hb
  exact (cons_eq_cons.mp hb).1.symm

theorem flatMap_hexPair_injective (h : ip.flatMap hexPair = ip'.flatMap hexPair) : ip = ip' := by
  induction ip generalizing ip'
  case nil =>
    cases ip'
    case nil => rfl
    case cons => cases h
  case cons b ip hi =>
    cases ip'
    case nil => cases h
    case cons b' ip' =>
      rw [flatMap_cons, flatMap_cons] at h
      obtain ⟨hb, h⟩ := append_inj h rfl
      rw [hexPair_injective hb, hi h]

theorem exists_hexPair (hc : ∃ d < 16, c = hexChar d) (hc' : ∃ d < 16, c' = hexChar d) : ∃ b, hexPair b = [c, c'] := by
  obtain ⟨d, hd, rfl⟩ := hc
  obtain ⟨d', hd', rfl⟩ := hc'
  have hl : 16 * d + d' < 2 ^ 8 := by omega
  refine ⟨UInt8.ofNat (16 * d + d'), ?_⟩
  rw [hexPair, UInt8.toNat_ofNat_of_lt' hl]
  congr 3
  all_goals omega

theorem exists_of_mem_hexPair : ∀ c ∈ hexPair b, ∃ d < 16, c = hexChar d := by
  have hb := b.toNat_lt
  simp only [hexPair, forall_mem_cons, not_mem_nil, false_imp_iff, implies_true, and_true]
  exact ⟨⟨_, by omega, rfl⟩, ⟨_, by omega, rfl⟩⟩

theorem isSome_of_mem_flatMap (h : c ∈ ip.flatMap hexPair) : (hexDigit c).isSome := by
  obtain ⟨b, -, hc⟩ := mem_flatMap.mp h
  obtain ⟨d, hd, rfl⟩ := exists_of_mem_hexPair c hc
  rw [hexDigit_hexChar d hd]
  rfl

theorem exists_flatMap_hexPair {n : Nat} (hl : cs.length = 2 * n) (hc : ∀ c ∈ cs, ∃ d < 16, c = hexChar d) :
    ∃ ip : IP, ip.length = n ∧ ip.flatMap hexPair = cs := by
  induction n generalizing cs
  case zero => exact ⟨[], rfl, (length_eq_zero_iff.mp hl).symm⟩
  case succ n hi =>
    obtain _ | ⟨c, _ | ⟨c', cs⟩⟩ := cs
    case nil => cases hl
    case cons.nil => simp at hl; omega
    case cons.cons =>
      rw [forall_mem_cons, forall_mem_cons] at hc
      obtain ⟨b, hb⟩ := exists_hexPair hc.1 hc.2.1
      obtain ⟨ip, hn, rfl⟩ := hi (by simp at hl; omega) hc.2.2
      exact ⟨b :: ip, congrArg (· + 1) hn, by rw [flatMap_cons, hb]; rfl⟩

end Hex

section Groups

variable {labels extra : List Str} {ip : IP} {s : Str}

theorem nibbles_eq_nil (h : extra.length < 4) : nibbles extra = [] := by
  unfold nibbles
  split
  case h_1 => simp at h; omega
  case h_2 => rfl

structure Grouped (ip : IP) (gs : List Str) : Prop where
  bytes : gs.flatMap fieldBytes = ip
  group : ∀ g ∈ gs, IsGroup g
  field : ∀ g ∈ gs, IsField g

theorem grouped_nibbles {n : Nat} (hl : ip.length = 2 * n) (he : extra.length < 4) :
    Grouped ip (nibbles ((ip.flatMap hexPair).map ([·]) ++ extra)) := by
  induction n generalizing ip
  case zero =>
    obtain rfl : ip = [] := length_eq_zero_iff.mp hl
    have hn : nibbles (([] : IP).flatMap hexPair |>.map ([·]) |>.append extra) = [] := nibbles_eq_nil he
    exact hn ▸ ⟨rfl, forall_mem_nil _, forall_mem_nil _⟩
  case succ n hi =>
    obtain _ | ⟨b, _ | ⟨b', ip⟩⟩ := ip
    case nil => cases hl
    case cons.nil => simp at hl; omega
    case cons.cons =>
      have hn : nibbles (((b :: b' :: ip).flatMap hexPair).map ([·]) ++ extra) =
          (hexPair b ++ hexPair b') :: nibbles ((ip.flatMap hexPair).map ([·]) ++ extra) := rfl
      have hd : ∀ c ∈ hexPair b ++ hexPair b', ∃ d < 16, c = hexChar d :=
        forall_mem_append.mpr ⟨exists_of_mem_hexPair, exists_of_mem_hexPair⟩
      have hne {c : Char} (hc : hexDigit c = none) : c ∉ hexPair b ++ hexPair b' := by
        intro hm
        obtain ⟨d, hd, rfl⟩ := hd c hm
        rw [hexDigit_hexChar d hd] at hc
        cases hc
      have hl' : ip.length = 2 * n := by simp at hl; omega
      obtain ⟨hb, hg, hf⟩ := hi hl'
      rw [hn]
      refine ⟨?_, forall_mem_cons.mpr ⟨⟨le_rfl, hne rfl, hne rfl⟩, hg⟩, forall_mem_cons.mpr ⟨⟨?_, le_rfl, ?_⟩, hf⟩⟩
      · rw [flatMap_cons, fieldBytes_hexPair, hb]
        rfl
      · exact cons_ne_nil _ _
      · intro c hm
        obtain ⟨d, hd, rfl⟩ := hd c hm
        rw [hexDigit_hexChar d hd]
        rfl

theorem length_lt_four (h : ∀ a b c d l, labels = a :: b :: c :: d :: l → False) : labels.length < 4 := by
  obtain _ | ⟨a, _ | ⟨b, _ | ⟨c, _ | ⟨d, l⟩⟩⟩⟩ := labels
  case cons.cons.cons.cons => exact absurd rfl (h a b c d l)
  all_goals simp

theorem exists_digits (hn : ∀ l ∈ labels, l ≠ []) (hf : ∀ g ∈ nibbles labels, IsField g) :
    ∃ (cs : Str) (extra : List Str), labels = cs.map ([·]) ++ extra ∧ (∀ c ∈ cs, (hexDigit c).isSome) ∧
      cs.length = 4 * (nibbles labels).length ∧ extra.length < 4 := by
  fun_induction nibbles labels
  case case1 a b c d labels hi =>
    simp only [forall_mem_cons] at hn hf
    obtain ⟨cs, extra, rfl, hcs, hl, he⟩ := hi hn.2.2.2.2 hf.2
    have hp {l : Str} (h : l ≠ []) : 0 < l.length := length_pos_of_ne_nil h
    have ha := hp hn.1
    have hb := hp hn.2.1
    have hc := hp hn.2.2.1
    have hd := hp hn.2.2.2.1
    have hs := hf.1.length
    simp only [length_append] at hs
    obtain ⟨a, rfl⟩ := length_eq_one_iff.mp (show a.length = 1 by omega)
    obtain ⟨b, rfl⟩ := length_eq_one_iff.mp (show b.length = 1 by omega)
    obtain ⟨c, rfl⟩ := length_eq_one_iff.mp (show c.length = 1 by omega)
    obtain ⟨d, rfl⟩ := length_eq_one_iff.mp (show d.length = 1 by omega)
    refine ⟨a :: b :: c :: d :: cs, extra, rfl, ?_, ?_, he⟩
    · have hdig : ∀ x ∈ [a, b, c, d], (hexDigit x).isSome := hf.1.digits
      exact forall_mem_append.mpr ⟨hdig, hcs⟩
    · simp only [length_cons, hl]
      omega
  case case2 labels h => exact ⟨[], labels, rfl, forall_mem_nil _, rfl, length_lt_four h⟩

theorem isGroup_of_mem_nibbles {g : Str} (hl : ∀ l ∈ labels, l ≠ [] ∧ ':' ∉ l ∧ '.' ∉ l) (hg : g ∈ nibbles labels) :
    IsGroup g := by
  fun_induction nibbles labels
  case case1 a b c d labels hi =>
    simp only [forall_mem_cons] at hl
    obtain ⟨⟨ha, hca, hda⟩, ⟨hb, hcb, hdb⟩, ⟨hc, hcc, hdc⟩, ⟨hd, hcd, hdd⟩, hl⟩ := hl
    obtain rfl | hg := mem_cons.mp hg
    case inr => exact hi hl hg
    case inl =>
      have hp {l : Str} (h : l ≠ []) : 0 < l.length := length_pos_of_ne_nil h
      refine ⟨?_, by simp [hca, hcb, hcc, hcd], by simp [hda, hdb, hdc, hdd]⟩
      have := hp ha
      have := hp hb
      have := hp hc
      have := hp hd
      simp only [length_append]
      omega
  case case2 => cases hg

theorem parse_digits (hip : ip.length = 16) (he : extra.length < 4) :
    parse (List.intercalate [':'] (nibbles ((ip.flatMap hexPair).map ([·]) ++ extra))) = some ip := by
  obtain ⟨hb, hg, hf⟩ := grouped_nibbles (n := 8) hip he
  have h16 := congrArg List.length hb
  rw [length_flatMap_fieldBytes, hip] at h16
  exact (parse_intercalate_iff hg).mpr ⟨by omega, hf, hb.symm⟩

theorem exists_address {cs : Str} (hl : cs.length = 32) (hc : ∀ c ∈ cs, (hexDigit c).isSome) (hlow : toLower cs = cs) :
    ∃ ip : IP, ip.length = 16 ∧ ip.flatMap hexPair = cs := by
  refine exists_flatMap_hexPair hl fun c hm => exists_hexChar (hc c hm) ?_
  exact toLower_eq_self_iff.mp hlow c hm

theorem parse_nibbles_iff (hl : ∀ l ∈ labels, l ≠ [] ∧ ':' ∉ l ∧ '.' ∉ l) (hc : ∀ l ∈ labels, toLower l = l) :
    parse (List.intercalate [':'] (nibbles labels)) = some ip ↔
      ip.length = 16 ∧ ∃ extra : List Str, extra.length < 4 ∧ labels = (ip.flatMap hexPair).map ([·]) ++ extra := by
  constructor
  case mp =>
    intro h
    obtain ⟨h8, hf, rfl⟩ := (parse_intercalate_iff fun g hg => isGroup_of_mem_nibbles hl hg).mp h
    obtain ⟨cs, extra, rfl, hcs, hlen, he⟩ := exists_digits (fun l hm => (hl l hm).1) hf
    have hlow : toLower cs = cs := by
      refine toLower_eq_self_iff.mpr fun c hm => ?_
      exact (cons_eq_cons.mp (hc [c] (mem_append_left _ (mem_map_of_mem hm)))).1
    obtain ⟨ip, hip, rfl⟩ := exists_address (by omega) hcs hlow
    rw [(grouped_nibbles (n := 8) hip he).bytes]
    exact ⟨hip, extra, he, rfl⟩
  case mpr =>
    rintro ⟨hip, extra, he, rfl⟩
    exact parse_digits hip he

end Groups

section Names

variable {search : Str} {ip bs : IP}

theorem splitOn_intercalate_octets (h : bs ≠ []) : (List.intercalate ['.'] (bs.map octet)).splitOn '.' = bs.map octet := by
  refine splitOn_intercalate '.' (fun l hl => ?_) (by simpa using h)
  obtain ⟨b, -, rfl⟩ := mem_map.mp hl
  exact notMem_octet (by decide)

theorem not_both {search' : Str} (h : search ++ ip4arpa = search' ++ ip6arpa) : False := by
  have h6 : ip6arpa <:+ search ++ ip4arpa := ⟨search', h.symm⟩
  have h4 : ip4arpa <:+ search ++ ip4arpa := ⟨search, rfl⟩
  exact absurd (suffix_of_suffix_length_le h6 h4 (by decide)) (by decide)

theorem reverseName_ip4_iff : search ++ ip4arpa = reverseName ip ↔
    ∃ bs, ip.to4 = some bs ∧ search = List.intercalate ['.'] (bs.reverse.map octet) := by
  rw [reverseName]
  split
  case h_1 bs h => simp [h]
  case h_2 h => exact iff_of_false not_both (by simp [h])

theorem reverseName_ip6_iff : search ++ ip6arpa = reverseName ip ↔
    ip.to4 = none ∧ search = List.intercalate ['.'] ((ip.flatMap hexPair).reverse.map ([·])) := by
  rw [reverseName]
  split
  case h_1 bs h => exact iff_of_false (fun hn => not_both hn.symm) (by simp [h])
  case h_2 h => simp [h]

theorem extract_ip4 : extractAddressFromReverse (search ++ ip4arpa) =
    ((parse (List.intercalate ['.'] (search.splitOn '.').reverse)).bind to4).elim [] string := by
  have hc : cutSuffix (search ++ ip4arpa) ip4arpa = some search := cutSuffix_eq_some_iff.mpr rfl
  rw [extractAddressFromReverse, hc]

theorem extract_ip6 : extractAddressFromReverse (search ++ ip6arpa) =
    ((parse (List.intercalate [':'] (nibbles (search.splitOn '.').reverse))).bind to16).elim [] string := by
  have hc : cutSuffix (search ++ ip6arpa) ip6arpa = some search := cutSuffix_eq_some_iff.mpr rfl
  have hn : cutSuffix (search ++ ip6arpa) ip4arpa = none := by
    rw [eq_none_iff_forall_ne_some]
    exact fun search' h => not_both (cutSuffix_eq_some_iff.mp h).symm
  rw [extractAddressFromReverse, hc, hn]

theorem to4_ne_nil (h : ip.to4 = some bs) : bs ≠ [] := by
  rintro rfl
  exact absurd (length_to4 h) (by decide)

theorem inverse_ip4_of_not_colon (hc : ':' ∉ search) : Inverse (search ++ ip4arpa) := by
  have hp {x : IP} : parse (List.intercalate ['.'] (search.splitOn '.').reverse) = some x ↔
      ∃ bs : IP, bs.length = 4 ∧ search = List.intercalate ['.'] (bs.reverse.map octet) ∧ x = v4InV6Prefix ++ bs := by
    constructor
    case mp =>
      intro h
      rw [parse] at h
      split at h
      case h_3 => cases h
      case h_2 hf =>
        have hm := mem_of_find?_eq_some hf
        refine absurd hm (notMem_intercalate (by decide) fun l hl hcl => ?_)
        exact hc (subset_of_mem_splitOn (mem_reverse.mp hl) hcl)
      case h_1 =>
        obtain ⟨bs, hb, rfl⟩ := map_eq_some_iff.mp h
        obtain ⟨hl, hj⟩ := parseIPv4_eq_some_iff.mp hb
        refine ⟨bs, hl, ?_, rfl⟩
        have hbs : bs ≠ [] := by
          rintro rfl
          cases hl
        have hd : ∀ l ∈ (search.splitOn '.').reverse, '.' ∉ l := fun l hl => notMem_of_mem_splitOn (mem_reverse.mp hl)
        have hne : (search.splitOn '.').reverse ≠ [] := by simp [splitOn_ne_nil]
        have hs := congrArg (List.splitOn '.') hj
        rw [splitOn_intercalate_octets hbs, splitOn_intercalate '.' hd hne] at hs
        rw [map_reverse, ←hs, reverse_reverse, intercalate_splitOn]
    case mpr =>
      rintro ⟨bs, hl, rfl, rfl⟩
      have hbs : bs.reverse ≠ [] := by
        rw [ne_eq, reverse_eq_nil_iff]
        rintro rfl
        cases hl
      rw [splitOn_intercalate_octets hbs, map_reverse, reverse_reverse]
      exact parse_of_parseIPv4 (parseIPv4_eq_some_iff.mpr ⟨hl, rfl⟩)
  refine ⟨fun ip hip hs => ?_, fun h => ?_⟩
  case refine_1 =>
    obtain ⟨bs, h4, rfl⟩ := reverseName_ip4_iff.mp hs
    have hl := length_to4 h4
    rw [extract_ip4, hp.mpr ⟨bs, hl, rfl, rfl⟩, bind_some, to4_append hl, elim_some, string_of_to4 h4,
      string_of_to4 (to4_self hl)]
  case refine_2 =>
    rw [extract_ip4] at h ⊢
    obtain ⟨x, hx⟩ : ∃ x, parse (List.intercalate ['.'] (search.splitOn '.').reverse) = some x := by
      rw [←ne_none_iff_exists']
      intro hn
      exact h (by rw [hn]; rfl)
    obtain ⟨bs, hl, rfl, rfl⟩ := hp.mp hx
    refine ⟨bs, .inl hl, ?_, reverseName_ip4_iff.mpr ⟨bs, to4_self hl, rfl⟩⟩
    rw [hx, bind_some, to4_append hl, elim_some]

theorem length_of_isAddress (h : IsAddress ip) (h4 : ip.to4 = none) : ip.length = 16 := by
  refine h.resolve_left fun hl => ?_
  rw [to4_self hl] at h4
  cases h4

theorem string_ne_nil (h : IsAddress ip) : ip.string ≠ [] := by
  cases h4 : ip.to4
  case none =>
    exact ne_nil_of_mem (colon_mem_string (length_of_isAddress h h4) h4)
  case some bs =>
    rw [string_of_to4 h4]
    exact intercalate_octets_ne_nil (to4_ne_nil h4)

theorem inverse_ip4_iff : Inverse (search ++ ip4arpa) ↔
    (':' ∈ search → (parse (List.intercalate ['.'] (search.splitOn '.').reverse)).bind to4 = none) := by
  by_cases hc : ':' ∈ search
  case neg => exact iff_of_true (inverse_ip4_of_not_colon hc) fun h => absurd h hc
  case pos =>
    have hn {ip : IP} (h : search ++ ip4arpa = reverseName ip) : False := by
      obtain ⟨bs, -, rfl⟩ := reverseName_ip4_iff.mp h
      exact notMem_intercalate_octets (by decide) (by decide) hc
    simp only [hc, forall_const]
    constructor
    case mp =>
      intro h
      by_contra hs
      obtain ⟨bs, hb⟩ := ne_none_iff_exists'.mp hs
      have hl : bs.length = 4 := by
        obtain ⟨x, -, hx⟩ := bind_eq_some_iff.mp hb
        exact length_to4 hx
      obtain ⟨ip, -, -, hr⟩ := h.sound (by rw [extract_ip4, hb]; exact string_ne_nil (.inl hl))
      exact hn hr
    case mpr =>
      intro h
      exact ⟨fun ip _ hs => (hn hs).elim, fun hs => absurd (by rw [extract_ip4, h]; rfl) hs⟩

theorem length_flatMap_hexPair : (ip.flatMap hexPair).length = 2 * ip.length := by
  induction ip
  case nil => rfl
  case cons b ip hi =>
    rw [flatMap_cons, length_append, hi, length_cons, Nat.mul_succ, Nat.add_comm]
    rfl

theorem to4_eq_none_iff (hl : ip.length = 16) : ip.to4 = none ↔ ¬mappedDigits <+: ip.flatMap hexPair := by
  have hm : mappedDigits = v4InV6Prefix.flatMap hexPair := by decide
  have hp : mappedDigits <+: ip.flatMap hexPair ↔ v4InV6Prefix <+: ip := by
    constructor
    case mp =>
      intro h
      have ht : (ip.take 12 ++ ip.drop 12).flatMap hexPair = ip.flatMap hexPair := by rw [take_append_drop]
      rw [flatMap_append] at ht
      obtain ⟨t, hs⟩ := h
      rw [←hs, hm] at ht
      have hlen : ((ip.take 12).flatMap hexPair).length = (v4InV6Prefix.flatMap hexPair).length := by
        rw [length_flatMap_hexPair, length_take, hl]
        rfl
      have he := flatMap_hexPair_injective (append_inj ht hlen).1
      rw [←he]
      exact take_prefix ..
    case mpr =>
      rintro ⟨t, rfl⟩
      rw [hm, flatMap_append]
      exact prefix_append ..
  rw [hp, to4, if_neg (by omega)]
  split
  case isTrue h => exact iff_of_false (by simp) (not_not.mpr h.2)
  case isFalse h => exact iff_of_true rfl fun hv => h ⟨hl, hv⟩

theorem splitOn_digits (h : ip ≠ []) :
    (List.intercalate ['.'] ((ip.flatMap hexPair).reverse.map ([·]))).splitOn '.' =
      (ip.flatMap hexPair).reverse.map ([·]) := by
  obtain ⟨b, ip, rfl⟩ := exists_cons_of_ne_nil h
  refine splitOn_intercalate '.' (fun l hl => ?_) (by simp [hexPair])
  obtain ⟨c, hc, rfl⟩ := mem_map.mp hl
  have hd := ne_of_hexDigit (d := '.') (isSome_of_mem_flatMap (mem_reverse.mp hc)) rfl
  simpa using hd.symm

theorem toLower_of_mem_splitOn {l : Str} (h : toLower search = search) (hl : l ∈ search.splitOn '.') : toLower l = l := by
  rw [toLower_eq_self_iff] at h ⊢
  exact fun c hc => h c (subset_of_mem_splitOn hl hc)

theorem extract_ip6_of_parse (hl : ip.length = 16)
    (h : parse (List.intercalate [':'] (nibbles (search.splitOn '.').reverse)) = some ip) :
    extractAddressFromReverse (search ++ ip6arpa) = ip.string := by
  have h16 : ip.to16 = some ip := by rw [to16, if_neg (by omega), if_pos hl]
  rw [extract_ip6, h, bind_some, h16, elim_some]

theorem labels_of_reverseName (hip : IsAddress ip) (h : search ++ ip6arpa = reverseName ip) :
    ip.length = 16 ∧ ip.to4 = none ∧ search.splitOn '.' = (ip.flatMap hexPair).reverse.map ([·]) := by
  obtain ⟨h4, rfl⟩ := reverseName_ip6_iff.mp h
  have hl := length_of_isAddress hip h4
  refine ⟨hl, h4, splitOn_digits ?_⟩
  rintro rfl
  cases hl

theorem Inverse.labels (h : Inverse (search ++ ip6arpa))
    (hp : parse (List.intercalate [':'] (nibbles (search.splitOn '.').reverse)) = some ip) :
    ∃ ip' : IP, ip'.length = 16 ∧ ip'.to4 = none ∧ ip.string = ip'.string ∧
      search.splitOn '.' = (ip'.flatMap hexPair).reverse.map ([·]) := by
  have hl := length_parse hp
  have he := extract_ip6_of_parse hl hp
  obtain ⟨ip', hip, hs, hr⟩ := h.sound (by rw [he]; exact string_ne_nil (.inr hl))
  obtain ⟨hl', h4, hd⟩ := labels_of_reverseName hip hr
  exact ⟨ip', hl', h4, he.symm.trans hs, hd⟩

theorem Inverse.exactLabels (hl : toLower search = search) (h : Inverse (search ++ ip6arpa)) :
    ExactLabels (search.splitOn '.') := by
  have digits {extra : List Str} {cs : Str} (hs : search.splitOn '.' = extra ++ cs.map ([·])) (hcs : cs.length = 32)
      (hc : ∀ c ∈ cs, (hexDigit c).isSome) (he : extra.length < 4) : ∃ ip : IP, ip.length = 16 ∧
        ip.flatMap hexPair = cs.reverse ∧
        parse (List.intercalate [':'] (nibbles (search.splitOn '.').reverse)) = some ip := by
    have hlow : toLower cs.reverse = cs.reverse := by
      refine toLower_eq_self_iff.mpr fun c hm => ?_
      have hcl : [c] ∈ search.splitOn '.' := by
        rw [hs]
        exact mem_append_right _ (mem_map_of_mem (mem_reverse.mp hm))
      exact (cons_eq_cons.mp (toLower_of_mem_splitOn hl hcl)).1
    obtain ⟨ip, hip, hd⟩ := exists_address (by rwa [length_reverse]) (fun c hm => hc c (mem_reverse.mp hm)) hlow
    refine ⟨ip, hip, hd, ?_⟩
    rw [hs, reverse_append, ←map_reverse, ←hd]
    exact parse_digits hip (by rwa [length_reverse])
  constructor
  case colon =>
    rintro ⟨l, hm, hbad⟩
    by_contra hp
    obtain ⟨ip, hp⟩ := ne_none_iff_exists'.mp hp
    obtain ⟨ip', -, -, -, hd⟩ := h.labels hp
    rw [hd] at hm
    obtain ⟨c, hc, rfl⟩ := mem_map.mp hm
    have hne := ne_of_hexDigit (d := ':') (isSome_of_mem_flatMap (mem_reverse.mp hc)) rfl
    simp [hne.symm] at hbad
  case exact =>
    intro extra cs hs hcs hc he
    obtain ⟨ip, -, -, hp⟩ := digits hs hcs hc he
    obtain ⟨ip', hl', -, -, hd⟩ := h.labels hp
    have hlen := congrArg List.length (hs.symm.trans hd)
    rw [length_append, length_map, length_map, length_reverse, length_flatMap_hexPair] at hlen
    exact length_eq_zero_iff.mp (by omega)
  case mapped =>
    intro cs hs hcs hc hm
    have hs : search.splitOn '.' = [] ++ cs.map ([·]) := hs
    obtain ⟨ip, hip, hd, hp⟩ := digits hs hcs hc (by decide)
    obtain ⟨ip', hl', h4, hstr, -⟩ := h.labels hp
    have hne : ip.to4 ≠ none := by
      rw [ne_eq, to4_eq_none_iff hip, hd]
      exact not_not.mpr hm
    obtain ⟨bs, hb⟩ := ne_none_iff_exists'.mp hne
    have hcol := colon_mem_string hl' h4
    rw [←hstr, string_of_to4 hb] at hcol
    exact notMem_intercalate_octets (by decide) (by decide) hcol

theorem ExactLabels.inverse (hl : toLower search = search) (h : ExactLabels (search.splitOn '.')) :
    Inverse (search ++ ip6arpa) := by
  constructor
  case complete =>
    intro ip hip hs
    obtain ⟨h16, -, hd⟩ := labels_of_reverseName hip hs
    refine extract_ip6_of_parse h16 ?_
    rw [hd, map_reverse, reverse_reverse, ←append_nil (List.map _ _)]
    exact parse_digits h16 (by decide)
  case sound =>
    intro hne
    obtain ⟨ip, hp⟩ : ∃ ip, parse (List.intercalate [':'] (nibbles (search.splitOn '.').reverse)) = some ip := by
      rw [←ne_none_iff_exists']
      intro hn
      exact hne (by rw [extract_ip6, hn]; rfl)
    have hlabels : ∀ l ∈ (search.splitOn '.').reverse, l ≠ [] ∧ ':' ∉ l ∧ '.' ∉ l := by
      intro l hm
      rw [mem_reverse] at hm
      have hgood : ¬(l = [] ∨ ':' ∈ l) := by
        intro hbad
        rw [h.colon ⟨l, hm, hbad⟩] at hp
        cases hp
      rw [not_or] at hgood
      exact ⟨hgood.1, hgood.2, notMem_of_mem_splitOn hm⟩
    have hlow : ∀ l ∈ (search.splitOn '.').reverse, toLower l = l :=
      fun l hm => toLower_of_mem_splitOn hl (mem_reverse.mp hm)
    obtain ⟨h16, extra, he, hd⟩ := (parse_nibbles_iff hlabels hlow).mp hp
    have hs : search.splitOn '.' = extra.reverse ++ (ip.flatMap hexPair).reverse.map ([·]) := by
      rw [←reverse_reverse (search.splitOn '.'), hd, reverse_append, map_reverse]
    have hlen : (ip.flatMap hexPair).reverse.length = 32 := by rw [length_reverse, length_flatMap_hexPair, h16]
    have hhex : ∀ c ∈ (ip.flatMap hexPair).reverse, (hexDigit c).isSome :=
      fun c hm => isSome_of_mem_flatMap (mem_reverse.mp hm)
    have hx := h.exact _ _ hs hlen hhex (by rwa [length_reverse])
    rw [hx, nil_append] at hs
    have h4 : ip.to4 = none := by
      rw [to4_eq_none_iff h16]
      have := h.mapped _ hs hlen hhex
      rwa [reverse_reverse] at this
    refine ⟨ip, .inr h16, extract_ip6_of_parse h16 hp, reverseName_ip6_iff.mpr ⟨h4, ?_⟩⟩
    rw [←hs, intercalate_splitOn]

end Names

theorem extract_other {s : Str} (h4 : ¬ip4arpa <:+ s) (h6 : ¬ip6arpa <:+ s) : extractAddressFromReverse s = [] := by
  rw [extractAddressFromReverse, cutSuffix, if_neg h4, cutSuffix, if_neg h6]
  rfl

theorem suffix_reverseName (ip : IP) : ip4arpa <:+ reverseName ip ∨ ip6arpa <:+ reverseName ip := by
  rw [reverseName]
  split
  case h_1 => exact .inl ⟨_, rfl⟩
  case h_2 => exact .inr ⟨_, rfl⟩

theorem inverse_iff {s : Str} (hl : toLower s = s) : Inverse s ↔ Regular s := by
  by_cases h4 : ip4arpa <:+ s
  case pos =>
    obtain ⟨search, rfl⟩ := h4
    rw [inverse_ip4_iff]
    refine ⟨fun h => ⟨fun search' hs => ?_, fun search' hs => (not_both hs).elim⟩, fun h => h.ip4 search rfl⟩
    rwa [←append_cancel_right hs]
  case neg =>
    by_cases h6 : ip6arpa <:+ s
    case pos =>
      obtain ⟨search, rfl⟩ := h6
      rw [toLower_append] at hl
      replace hl : toLower search = search := (append_inj hl (length_toLower search)).1
      refine ⟨fun h => ⟨fun search' hs => (not_both hs.symm).elim, fun search' hs => ?_⟩,
        fun h => (h.ip6 search rfl).inverse hl⟩
      rw [←append_cancel_right hs]
      exact h.exactLabels hl
    case neg =>
      refine iff_of_true ⟨fun ip _ hs => ?_, fun hs => absurd (extract_other h4 h6) hs⟩ ⟨?_, ?_⟩
      · obtain h | h := suffix_reverseName ip
        · exact absurd (hs ▸ h) h4
        · exact absurd (hs ▸ h) h6
      · exact fun search hs => absurd ⟨search, hs.symm⟩ h4
      · exact fun search hs => absurd ⟨search, hs.symm⟩ h6

namespace Sample

def ptr : Str := "54.119.58.176.in-addr.arpa."

def longPtr : Str := "x.b.a.9.8.7.6.5.0.0.0.0.0.0.0.0.0.0.0.0.0.0.0.0.0.8.b.d.0.1.0.0.2.ip6.arpa."

end Sample

theorem inverse_ptr : Inverse Sample.ptr := by
  have hs : Sample.ptr = "54.119.58.176".toList ++ ip4arpa := by decide
  refine (inverse_iff (by decide +kernel)).mpr ⟨fun search h hc => ?_, fun search h => ?_⟩
  · have hm : ':' ∈ Sample.ptr := h ▸ mem_append_left _ hc
    exact absurd hm (by decide)
  · exact (not_both (hs.symm.trans h)).elim

theorem not_inverse_longPtr : ¬Inverse Sample.longPtr := by
  intro h
  have hs : Sample.longPtr = "x.b.a.9.8.7.6.5.0.0.0.0.0.0.0.0.0.0.0.0.0.0.0.0.0.8.b.d.0.1.0.0.2".toList ++ ip6arpa :=
    by decide
  rw [hs] at h
  have he := (h.exactLabels (by decide +kernel)).exact [['x']] "ba98765000000000000000008bd01002".toList
  exact absurd (he (by decide +kernel) (by decide) (all_eq_true.mp (by decide)) (by decide)) (by decide)

end Dns
