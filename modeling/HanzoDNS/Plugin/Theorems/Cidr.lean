import HanzoDNS.Plugin.Cidr

open Net (IP IPNet)
open Net.IP List Option
open Dns Domain Strconv

namespace Cidr

open Nat Name Net Label IPNet Plugin Sample

-- The names of the addresses in a network are those in the zones, each one in one zone.
structure Exact (lib : Library) (n : IPNet) (zones : List Str) : Prop where
  disjoint : zones.Pairwise fun z z' => ∀ c : Name, ¬(lib.isSubDomain z c.text ∧ lib.isSubDomain z' c.text)
  covers : ∀ a r, IsAddress a → lib.reverseAddr a.string = some r →
    ((∃ z ∈ zones, lib.isSubDomain z r) ↔ n.contains a)

-- How the addresses of a kind are written in names: there is a label for each digit, and the last one comes first.
structure Family where
  len : Nat
  size : Nat
  count : Nat
  origin : Name
  label : Nat → Label
  digits : IP → List Nat
  Plain : IP → Prop
  size_pos : 0 < size
  size_eq : size = if len = 16 then 4 else 8
  bits_eq : 8 * len = size * count
  origin_length : origin.length = 2
  label_inj : ∀ d < 2 ^ size, ∀ e < 2 ^ size, (label d).fold = (label e).fold → d = e
  digits_length : ∀ ip, ip.length = len → (digits ip).length = count
  digits_lt : ∀ ip, ∀ d ∈ digits ip, d < 2 ^ size
  digits_value : ∀ ip : IP, ofDigits (2 ^ size) (digits ip).reverse = ip.value
  plain_length : ∀ ip, Plain ip → ip.length = len
  plain_name : ∀ ip, Plain ip → reverseName ip = cat (((digits ip).map label).reverse ++ origin)
  plain_mask : ∀ n : IPNet, Plain n.ip → n.networkNumberAndMask = (n.ip, n.ones)
  plain_colon : ∀ ip : IP, Plain ip → (':' ∈ ip.string ↔ len = 16)
  plain_parse : ∀ ip ones, Plain ip → ones ≤ 8 * len →
    ∃ ip' n, parseCIDR (ip.string ++ '/' :: itoa ones) = some (ip', n) ∧ IsAddress ip' ∧
      reverseName ip' = reverseName ip ∧ n.ones = ones ∧ n.ip.length = len

section Labels

variable {s : Str}

theorem unescape_isSome (h : ∀ c ∈ s, c ≠ '\\' ∧ c ≠ '.' ∧ c.toNat < 128) : (unescape s).isSome := by
  induction s
  case nil => rfl
  case cons c s hi =>
    rw [forall_mem_cons] at h
    rw [unescape_cons h.1.1 h.1.2]
    simpa using hi h.2

def decimalLabel (d : Nat) : Label where
  text := itoa d
  nonempty := by simp [itoa_natCast, toDigits_ne_nil]
  valid := unescape_isSome fun _ h =>
    ⟨(ne_of_isDigit (isDigit_of_mem_itoa h)).2, (ne_of_isDigit (isDigit_of_mem_itoa h)).1,
      toNat_lt_of_isDigit (isDigit_of_mem_itoa h)⟩

theorem hexLabel_valid : ∀ d < 16, (unescape [hexChar d]).isSome := by
  decide

def hexLabel (d : Nat) : Label where
  text := [hexChar (d % 16)]
  nonempty := cons_ne_nil _ _
  valid := hexLabel_valid _ (mod_lt _ (by decide))

theorem fold_decimalLabel (d : Nat) : (decimalLabel d).fold = itoa d := by
  refine (map_congr_left fun c hc => ?_).trans (map_id _)
  have hd := isDigit_of_mem_itoa hc
  exact (Lowered.of_ascii (toNat_lt_of_isDigit hd)).same hd

theorem decimalLabel_inj {d e : Nat} (h : (decimalLabel d).fold = (decimalLabel e).fold) : d = e := by
  rw [fold_decimalLabel, fold_decimalLabel] at h
  have hd := digits_itoa d
  rw [h, digits_itoa] at hd
  exact (Option.some.inj hd).symm

theorem hexLabel_inj : ∀ d < 16, ∀ e < 16, (hexLabel d).fold = (hexLabel e).fold → d = e := by
  decide +kernel

def inAddrArpa : Name :=
  [⟨"in-addr", by decide, by decide⟩, ⟨"arpa", by decide, by decide⟩]

def ip6Arpa : Name :=
  [⟨"ip6", by decide, by decide⟩, ⟨"arpa", by decide, by decide⟩]

theorem intercalate_append_cat {n : Name} (h : n ≠ []) (m : Name) :
    List.intercalate ['.'] (n.map Label.text) ++ '.' :: m.cat = Name.cat (n ++ m) := by
  rw [cat_append, cat_eq_intercalate h, append_assoc, singleton_append]

end Labels

section Families

variable {ip bs : IP}

theorem reverseName_of_to4 (h : ip.to4 = some bs) :
    reverseName ip = cat (((bs.map UInt8.toNat).map decimalLabel).reverse ++ inAddrArpa) := by
  have hn : ((bs.map UInt8.toNat).map decimalLabel).reverse ≠ [] := by
    simpa using to4_ne_nil h
  have ht : (((bs.map UInt8.toNat).map decimalLabel).reverse).map Label.text = bs.reverse.map Net.IP.octet := by
    rw [List.map_reverse, List.map_map, List.map_map, List.map_reverse]
    rfl
  rw [reverseName, h, ←intercalate_append_cat hn, ht]
  rfl

def nibblesOf (ip : IP) : List Nat :=
  ip.flatMap fun b => [b.toNat / 16, b.toNat % 16]

theorem length_nibblesOf (ip : IP) : (nibblesOf ip).length = 2 * ip.length := by
  induction ip
  case nil => rfl
  case cons b ip hi =>
    rw [nibblesOf, flatMap_cons, length_append, ←nibblesOf, hi]
    simp only [length_cons, length_nil]
    omega

theorem nibblesOf_lt : ∀ d ∈ nibblesOf ip, d < 16 := by
  intro d hd
  obtain ⟨b, -, hd⟩ := mem_flatMap.mp hd
  have hb := b.toNat_lt
  obtain rfl | rfl : d = b.toNat / 16 ∨ d = b.toNat % 16 := by simpa using hd
  · omega
  · omega

theorem ofDigits_nibblesOf (ip : IP) : ofDigits 16 (nibblesOf ip).reverse = ip.value := by
  induction ip
  case nil => rfl
  case cons b ip hi =>
    have hp : 16 ^ (2 * ip.length) = 2 ^ (8 * ip.length) := by
      rw [show 16 = 2 ^ 4 from rfl, ←pow_mul]
      congr 1
      omega
    have hb : ofDigits 16 [b.toNat % 16, b.toNat / 16] = b.toNat := by
      simp only [ofDigits_cons, ofDigits_nil]
      omega
    rw [nibblesOf, flatMap_cons, ←nibblesOf, reverse_append, ofDigits_append, hi, length_reverse,
      length_nibblesOf, hp, value_cons]
    exact congrArg _ (congrArg _ hb)

theorem reverseName_of_to16 (hn : ip ≠ []) (h : ip.to4 = none) :
    reverseName ip = cat (((nibblesOf ip).map hexLabel).reverse ++ ip6Arpa) := by
  have ht : (((nibblesOf ip).map hexLabel).reverse).map Label.text = (ip.flatMap hexPair).reverse.map ([·]) := by
    rw [List.map_reverse, List.map_map, List.map_reverse]
    congr 1
    rw [nibblesOf, map_flatMap, map_flatMap]
    congr 1
    funext b
    have hb := b.toNat_lt
    have hd : b.toNat / 16 % 16 = b.toNat / 16 := mod_eq_of_lt (by omega)
    simp [hexLabel, hexPair, hd]
  have hne : ((nibblesOf ip).map hexLabel).reverse ≠ [] := by
    obtain ⟨b, ip, rfl⟩ := exists_cons_of_ne_nil hn
    simp [nibblesOf]
  rw [reverseName, h, ←intercalate_append_cat hne, ht]
  rfl

def ipv4 : Family where
  len := 4
  size := 8
  count := 4
  origin := inAddrArpa
  label := decimalLabel
  digits ip := ip.map UInt8.toNat
  Plain ip := ip.length = 4
  size_pos := by decide
  size_eq := rfl
  bits_eq := rfl
  origin_length := rfl
  label_inj _ _ _ _ h := decimalLabel_inj h
  digits_length ip h := by rw [length_map, h]
  digits_lt ip d hd := by
    obtain ⟨b, -, rfl⟩ := mem_map.mp hd
    exact b.toNat_lt
  digits_value _ := rfl
  plain_length _ h := h
  plain_name ip h := reverseName_of_to4 (to4_self h)
  plain_mask n h := by
    have h : n.ip.length = 4 := h
    rw [networkNumberAndMask, to4_self h]
    simp [h]
  plain_colon ip h := by
    rw [string_of_to4 (to4_self h)]
    exact iff_of_false (notMem_intercalate_octets (by decide) (by decide)) (by decide)
  plain_parse ip ones h ho := by
    obtain ⟨n, hn, h1, h2⟩ := parseCIDR_of_to4 h ho
    have hb : reverseName (v4InV6Prefix ++ ip) = reverseName ip := by
      rw [reverseName_of_to4 (to4_append h), reverseName_of_to4 (to4_self h)]
    refine ⟨_, n, hn, .inr ?_, hb, h1, h2⟩
    rw [length_append, h]
    rfl

def ipv6 : Family where
  len := 16
  size := 4
  count := 32
  origin := ip6Arpa
  label := hexLabel
  digits := nibblesOf
  Plain ip := ip.length = 16 ∧ ip.to4 = none
  size_pos := by decide
  size_eq := rfl
  bits_eq := rfl
  origin_length := rfl
  label_inj := hexLabel_inj
  digits_length ip h := by rw [length_nibblesOf, h]
  digits_lt _ := nibblesOf_lt
  digits_value := ofDigits_nibblesOf
  plain_length _ h := h.1
  plain_name ip h := reverseName_of_to16 (ne_nil_of_length_pos (by rw [h.1]; decide)) h.2
  plain_mask n h := by rw [networkNumberAndMask, h.2]
  plain_colon ip h := iff_of_true (colon_mem_string h.1 h.2) rfl
  plain_parse ip ones h ho := by
    obtain ⟨n, hn, h1, h2⟩ := parseCIDR_of_to16 h.1 h.2 ho
    exact ⟨ip, n, hn, .inr h.1, rfl, h1, h2⟩

end Families

namespace Family

variable {F : Family} {lib : Library} {n : IPNet} {ip a : IP} {q k : Nat}

def name (F : Family) (ip : IP) : Name :=
  ((F.digits ip).map F.label).reverse ++ F.origin

def zone (F : Family) (ip : IP) (q : Nat) : Name :=
  (((F.digits ip).take q).map F.label).reverse ++ F.origin

theorem zone_ne_nil : F.zone ip q ≠ [] := by
  intro h
  have hl := F.origin_length
  rw [zone, append_eq_nil_iff] at h
  rw [h.2] at hl
  cases hl

theorem text_zone : (F.zone ip q).text = (F.zone ip q).cat :=
  text_of_ne_nil zone_ne_nil

theorem reverseName_eq (h : F.Plain ip) : reverseName ip = (F.name ip).text := by
  have hn : F.name ip ≠ [] := by
    intro hn
    have hl := F.origin_length
    rw [(append_eq_nil_iff.mp hn).2] at hl
    cases hl
  rw [F.plain_name ip h, text_of_ne_nil hn, name]

theorem drop_name (hl : ip.length = F.len) (hq : q ≤ F.count) : (F.name ip).drop (F.count - q) = F.zone ip q := by
  have hc := F.digits_length ip hl
  rw [name, drop_append_of_le_length (by simp [hc]), drop_reverse, length_map, hc, zone, map_take]
  congr 4
  omega

theorem skipLabels_cat {p m : Name} (h : k < m.length) :
    skipLabels lib (cat (p ++ m)) k p.cat.length = (cat (p ++ m.take k)).length := by
  induction k generalizing p m
  case zero => simp [skipLabels]
  case succ k hi =>
    obtain _ | ⟨l, m⟩ := m
    case nil => cases h
    case cons =>
      have hm : k < m.length := by simpa using h
      have hne : m ≠ [] := ne_nil_of_length_pos (by omega)
      have hn := lib.nextLabel_append p l m
      have hi := hi (p := p ++ [l]) hm
      rw [append_assoc, singleton_append, append_assoc, singleton_append] at hi
      rw [skipLabels, hn]
      simpa [hne] using hi

theorem drop_skipLabels {m : Name} (h : k < m.length) : m.cat.drop (skipLabels lib m.cat k 0) = cat (m.drop k) := by
  have hs : skipLabels lib m.cat k 0 = (cat (m.take k)).length := skipLabels_cat (p := []) h
  have hm : m.cat = cat (m.take k) ++ cat (m.drop k) := by rw [←cat_append, take_append_drop]
  rw [hs]
  nth_rewrite 1 [hm]
  exact drop_left

theorem reverseNet_string (h : F.Plain n.ip) (hq : q ≤ F.count) (ho : n.ones = F.size * q) :
    reverseNet lib n.string = (F.zone n.ip q).text := by
  have hb := F.bits_eq
  have hle : n.ones ≤ 8 * F.len := by
    rw [hb, ho]
    exact Nat.mul_le_mul_left _ hq
  obtain ⟨ip', n', hp, ha, hr, ho', hl'⟩ := F.plain_parse n.ip n.ones h hle
  have hd : 8 * F.len - n.ones = F.size * (F.count - q) := by rw [hb, ho, Nat.mul_sub]
  have hlen : F.count - q < (F.name n.ip).length := by
    rw [name, length_append, length_reverse, length_map, F.digits_length _ (F.plain_length _ h), F.origin_length]
    omega
  rw [reverseNet, IPNet.string, F.plain_mask n h, hp]
  dsimp only
  rw [lib.reverseAddr_string ip' ha, hr, F.plain_name _ h, IPNet.bits, ho', hl', ←F.size_eq, hd]
  dsimp only
  rw [Nat.mul_mod_right, Nat.add_zero, Nat.mul_div_cancel_left _ F.size_pos, ←name, drop_skipLabels hlen,
    drop_name (F.plain_length _ h) hq, text_zone]

theorem map_fold_inj {ds es : List Nat} (hd : ∀ d ∈ ds, d < 2 ^ F.size) (he : ∀ e ∈ es, e < 2 ^ F.size)
    (h : ds.map (Label.fold ∘ F.label) = es.map (Label.fold ∘ F.label)) : ds = es := by
  induction ds generalizing es
  case nil => exact (map_eq_nil_iff.mp h.symm).symm
  case cons d ds hi =>
    obtain ⟨e, es, rfl, hl, hs⟩ := map_eq_cons_iff.mp h.symm
    rw [forall_mem_cons] at hd he
    rw [F.label_inj d hd.1 e he.1 hl.symm, hi hd.2 he.2 hs.symm]

theorem isSubDomain_zone_iff (hl : ip.length = F.len) (hq : q ≤ F.count) :
    lib.isSubDomain (F.zone ip q).text (F.name a).text ↔ (F.digits ip).take q = (F.digits a).take q := by
  have hx : (((F.digits ip).take q).map (Label.fold ∘ F.label)).length = q := by
    rw [length_map, length_take, F.digits_length ip hl, Nat.min_eq_left hq]
  rw [lib.isSubDomain_text, zone, name, Name.fold, Name.fold, map_append, map_append, map_reverse,
    List.map_reverse, List.map_map, List.map_map, ←List.reverse_prefix, List.reverse_append, List.reverse_append,
    reverse_reverse, reverse_reverse, prefix_append_right_inj, prefix_iff_eq_take, hx, ←map_take]
  refine ⟨map_fold_inj ?_ ?_, congrArg _⟩
  · exact fun d hd => F.digits_lt ip d (mem_of_mem_take hd)
  · exact fun d hd => F.digits_lt a d (mem_of_mem_take hd)

theorem value_div (hl : ip.length = F.len) :
    ip.value / 2 ^ (F.size * (F.count - q)) = ofDigits (2 ^ F.size) ((F.digits ip).take q).reverse := by
  have hb : 0 < 2 ^ F.size := Nat.two_pow_pos _
  have hlt : ∀ d ∈ (F.digits ip).reverse, d < 2 ^ F.size := fun d hd => F.digits_lt ip d (mem_reverse.mp hd)
  rw [pow_mul, ←F.digits_value ip, ofDigits_div_pow_eq_ofDigits_drop _ hb _ hlt, drop_reverse,
    F.digits_length ip hl]
  by_cases hq : q ≤ F.count
  case pos => rw [Nat.sub_sub_self hq]
  case neg =>
    have hc := F.digits_length ip hl
    rw [take_of_length_le (by omega), take_of_length_le (by omega)]

theorem isSubDomain_iff (hl : ip.length = F.len) (ha : a.length = F.len) (hq : q ≤ F.count) :
    lib.isSubDomain (F.zone ip q).text (F.name a).text ↔
      ip.value / 2 ^ (F.size * (F.count - q)) = a.value / 2 ^ (F.size * (F.count - q)) := by
  have hlt (ip : IP) : ∀ d ∈ ((F.digits ip).take q).reverse, d < 2 ^ F.size :=
    fun d hd => F.digits_lt ip d (mem_of_mem_take (mem_reverse.mp hd))
  rw [isSubDomain_zone_iff hl hq, value_div hl, value_div ha]
  refine ⟨fun h => by rw [h], fun h => ?_⟩
  have hb : 1 < 2 ^ F.size := Nat.one_lt_two_pow F.size_pos.ne'
  refine reverse_injective (ofDigits_inj_of_len_eq hb ?_ (hlt ip) (hlt a) h)
  simp [F.digits_length ip hl, F.digits_length a ha]

theorem disjoint_zones (hl : ip.length = F.len) (ha : a.length = F.len) (hq : q ≤ F.count)
    (h : ip.value / 2 ^ (F.size * (F.count - q)) ≠ a.value / 2 ^ (F.size * (F.count - q))) (c : Name) :
    ¬(lib.isSubDomain (F.zone ip q).text c.text ∧ lib.isSubDomain (F.zone a q).text c.text) := by
  rintro ⟨h1, h2⟩
  rw [lib.isSubDomain_text] at h1 h2
  -- Both are suffixes of one length, so they are the same.
  have length_fold {ip : IP} (hl : ip.length = F.len) : (F.zone ip q).fold.length = q + 2 := by
    rw [Name.fold, length_map, zone, length_append, length_reverse, length_map, length_take,
      F.digits_length ip hl, F.origin_length, min_eq_left hq]
  have he : (F.zone ip q).fold = (F.zone a q).fold :=
    (suffix_of_suffix_length_le h1 h2 (by rw [length_fold hl, length_fold ha])).eq_of_length
      (by rw [length_fold hl, length_fold ha])
  rw [zone, zone, Name.fold, Name.fold, map_append, map_append, append_cancel_right_eq, map_reverse,
    List.map_reverse, List.reverse_inj, List.map_map, List.map_map] at he
  have hd := map_fold_inj (fun d hd => F.digits_lt ip d (mem_of_mem_take hd))
    (fun d hd => F.digits_lt a d (mem_of_mem_take hd)) he
  rw [value_div hl, value_div ha, hd] at h
  exact h rfl

theorem origin_of_isSubDomain {F' : Family} (h : lib.isSubDomain (F.zone ip q).text (F'.name a).text) :
    Name.fold F.origin = Name.fold F'.origin := by
  rw [lib.isSubDomain_text, zone, name, Name.fold, Name.fold, map_append, map_append] at h
  have hs : Name.fold F.origin <:+ Name.fold F'.origin := by
    refine suffix_of_suffix_length_le ((suffix_append _ _).trans h) (suffix_append _ _) ?_
    simp [Name.fold, F.origin_length, F'.origin_length]
  exact hs.eq_of_length (by simp [Name.fold, F.origin_length, F'.origin_length])

end Family

section Split

variable {lib : Library} {n : IPNet} {p k i : Nat}

def subnet (lib : Library) (n : IPNet) (p i : Nat) : IPNet :=
  (fun m => (lib.nextSubnet m p).1)^[i] { n with ones := p }

theorem subnet_succ : subnet lib n p (i + 1) = (lib.nextSubnet (subnet lib n p i) p).1 :=
  Function.iterate_succ_apply' _ i _

structure Subnet (n : IPNet) (p i : Nat) (m : IPNet) : Prop where
  ones : m.ones = p
  length : m.ip.length = n.ip.length
  value : m.ip.value = n.ip.value + i * 2 ^ (n.bits - p)

theorem Subnet.next {m : IPNet} (hp : p ≤ n.bits) (hd : 2 ^ (n.bits - p) ∣ n.ip.value) (h : Subnet n p i m)
    (hi : n.ip.value + (i + 1) * 2 ^ (n.bits - p) < 2 ^ n.bits) :
    ∃ next, lib.nextSubnet m p = (next, false) ∧ Subnet n p (i + 1) next := by
  have hb : m.bits = n.bits := by rw [IPNet.bits, IPNet.bits, h.length]
  have ho := h.ones
  subst ho
  have hv : m.ip.value + 2 ^ (n.bits - m.ones) = n.ip.value + (i + 1) * 2 ^ (n.bits - m.ones) := by
    rw [h.value]
    ring
  have hn := lib.nextSubnet_ones m (hb ▸ hp) (by
    rw [hb, h.value]
    exact hd.add (Dvd.intro_left _ rfl)) (by rwa [hb, hv])
  obtain ⟨next, hs, ho, hl, hx⟩ := hn
  exact ⟨next, hs, ho, hl.trans h.length, by rw [hx, hb, hv]⟩

theorem subnet_spec (hp : p ≤ n.bits) (hd : 2 ^ (n.bits - p) ∣ n.ip.value)
    (hi : n.ip.value + i * 2 ^ (n.bits - p) < 2 ^ n.bits) : Subnet n p i (subnet lib n p i) := by
  induction i
  case zero => exact ⟨rfl, rfl, by simp [subnet]⟩
  case succ i ih =>
    have hle : i * 2 ^ (n.bits - p) ≤ (i + 1) * 2 ^ (n.bits - p) := mul_le_mul_right _ (le_succ i)
    obtain ⟨next, hs, hn⟩ : ∃ next, lib.nextSubnet (subnet lib n p i) p = (next, false) ∧ Subnet n p (i + 1) next :=
      (ih (by omega)).next hp hd hi
    rw [subnet_succ, hs]
    exact hn

theorem netsAfter_eq (h : ∀ i < k, (lib.nextSubnet (subnet lib n p i) p).2 = false) (hi : i ≤ k) :
    netsAfter lib p (k - i) (subnet lib n p i) = (List.range' (i + 1) (k - i)).map (subnet lib n p) := by
  induction hk : k - i generalizing i
  case zero => rfl
  case succ j hj =>
    have hlt : i < k := by omega
    rw [netsAfter, range'_succ, map_cons, ←hj hlt (by omega), subnet_succ]
    simp [h i hlt]

theorem nets_eq (hn : 0 < k) (hk : 2 ^ p / 2 ^ n.ones = k)
    (h : ∀ i < k - 1, (lib.nextSubnet (subnet lib n p i) p).2 = false) :
    nets lib n p = (List.range k).map (subnet lib n p) := by
  obtain ⟨k, rfl⟩ := exists_eq_succ_of_ne_zero hn.ne'
  have ha := netsAfter_eq h (zero_le _)
  rw [nets, hk, range_eq_range', range'_succ, map_cons]
  exact congrArg _ ha

end Split

section Numbers

variable {bits ones p v x : Nat}

theorem two_pow_sub (ho : ones ≤ p) (hp : p ≤ bits) : 2 ^ (bits - ones) = 2 ^ (bits - p) * 2 ^ (p - ones) := by
  rw [←pow_add]
  congr 1
  omega

-- A network is as long as all of its subnets.
theorem value_add_lt {i : Nat} (ho : ones ≤ p) (hp : p ≤ bits) (hd : 2 ^ (bits - ones) ∣ v) (hv : v < 2 ^ bits)
    (hi : i < 2 ^ (p - ones)) : v + i * 2 ^ (bits - p) < 2 ^ bits := by
  obtain ⟨c, rfl⟩ := hd
  have hb : 2 ^ bits = 2 ^ (bits - ones) * 2 ^ ones := by
    rw [←pow_add]
    congr 1
    omega
  have hc : c < 2 ^ ones := by
    rw [hb] at hv
    exact Nat.lt_of_mul_lt_mul_left hv
  calc 2 ^ (bits - ones) * c + i * 2 ^ (bits - p)
      < 2 ^ (bits - ones) * c + 2 ^ (p - ones) * 2 ^ (bits - p) := by
        exact Nat.add_lt_add_left (Nat.mul_lt_mul_of_pos_right hi (Nat.two_pow_pos _)) _
    _ = 2 ^ (bits - ones) * (c + 1) := by rw [two_pow_sub ho hp]; ring
    _ ≤ 2 ^ (bits - ones) * 2 ^ ones := mul_le_mul_left _ hc
    _ = 2 ^ bits := hb.symm

theorem div_eq_iff_exists (ho : ones ≤ p) (hp : p ≤ bits) (hd : 2 ^ (bits - ones) ∣ v) :
    v / 2 ^ (bits - ones) = x / 2 ^ (bits - ones) ↔
      ∃ i < 2 ^ (p - ones), (v + i * 2 ^ (bits - p)) / 2 ^ (bits - p) = x / 2 ^ (bits - p) := by
  obtain ⟨c, rfl⟩ := hd
  have hk : 0 < 2 ^ (p - ones) := Nat.two_pow_pos _
  rw [Nat.mul_div_cancel_left _ (Nat.two_pow_pos _)]
  simp only [Nat.add_mul_div_right _ _ (Nat.two_pow_pos (bits - p))]
  rw [two_pow_sub ho hp, Nat.mul_assoc, Nat.mul_div_cancel_left _ (Nat.two_pow_pos _), ←Nat.div_div_eq_div_mul]
  generalize x / 2 ^ (bits - p) = y
  generalize 2 ^ (p - ones) = k at *
  constructor
  case mp =>
    rintro rfl
    exact ⟨y % k, Nat.mod_lt _ hk, Nat.div_add_mod y k⟩
  case mpr =>
    rintro ⟨i, hi, rfl⟩
    rw [Nat.mul_add_div hk, Nat.div_eq_of_lt hi, Nat.add_zero]

end Numbers

namespace Family

variable {F : Family} {lib : Library} {n : IPNet} {a : IP}

def labels (F : Family) (n : IPNet) : Nat :=
  (n.ones + F.size - 1) / F.size

structure Aligned (F : Family) (n : IPNet) : Prop where
  ones : n.ones ≤ n.bits
  dvd : 2 ^ (n.bits - n.ones) ∣ n.ip.value
  plain : F.Plain n.ip

namespace Aligned

section

variable (h : F.Aligned n)

include h

theorem bits_eq : n.bits = F.size * F.count := by
  rw [IPNet.bits, F.plain_length _ h.plain, F.bits_eq]

omit h in
theorem ones_le (F : Family) (n : IPNet) : n.ones ≤ F.labels n * F.size := by
  have h := div_add_mod (n.ones + F.size - 1) F.size
  have hm := mod_lt (n.ones + F.size - 1) F.size_pos
  have hs := F.size_pos
  rw [labels, mul_comm]
  omega

theorem labels_le : F.labels n ≤ F.count := by
  have ho := h.bits_eq ▸ h.ones
  have hs := F.size_pos
  refine le_of_lt_succ ((div_lt_iff_lt_mul hs).mpr ?_)
  rw [succ_mul, mul_comm]
  omega

theorem labels_bits : F.labels n * F.size ≤ n.bits := by
  rw [h.bits_eq, mul_comm]
  exact mul_le_mul_left _ h.labels_le

theorem dvd_labels : 2 ^ (n.bits - F.labels n * F.size) ∣ n.ip.value :=
  (pow_dvd_pow 2 (Nat.sub_le_sub_left (ones_le F n) _)).trans h.dvd

omit h in
theorem subnet_spec (lib : Library) (h : F.Aligned n) {i : Nat} (hi : i < 2 ^ (F.labels n * F.size - n.ones)) :
    Subnet n (F.labels n * F.size) i (subnet lib n (F.labels n * F.size) i) :=
  Cidr.subnet_spec h.labels_bits h.dvd_labels (value_add_lt (ones_le F n) h.labels_bits h.dvd (value_lt n.ip) hi)

theorem colon_mem_string : ':' ∈ n.string ↔ F.len = 16 := by
  have hi : ':' ∉ itoa n.ones := fun hm => absurd (isDigit_of_mem_itoa hm) (by decide)
  rw [IPNet.string, F.plain_mask n h.plain, ←F.plain_colon n.ip h.plain]
  simp [hi]

theorem split_eq : split lib n = (List.range (2 ^ (F.labels n * F.size - n.ones))).map
      fun i => (subnet lib n (F.labels n * F.size) i).string := by
  have hs := F.size_pos
  have hb : (if ':' ∈ n.string then 4 else 8) = F.size := by simp only [h.colon_mem_string, ←F.size_eq]
  rw [split, hb]
  dsimp only
  split
  case isTrue hm =>
    have hl : F.labels n * F.size = n.ones := by
      obtain ⟨c, hc⟩ := Nat.dvd_of_mod_eq_zero hm
      rw [labels, hc, Nat.add_sub_assoc hs, Nat.mul_add_div hs, Nat.div_eq_of_lt (Nat.sub_lt hs Nat.one_pos), Nat.add_zero,
        Nat.mul_comm]
    rw [hl, Nat.sub_self]
    rfl
  case isFalse =>
    have hk : 2 ^ (F.labels n * F.size) / 2 ^ n.ones = 2 ^ (F.labels n * F.size - n.ones) :=
      Nat.pow_div (ones_le F n) (by decide)
    have hx : ∀ i < 2 ^ (F.labels n * F.size - n.ones) - 1,
        (lib.nextSubnet (subnet lib n (F.labels n * F.size) i) (F.labels n * F.size)).2 = false := by
      intro i hi
      have hn : i + 1 < 2 ^ (F.labels n * F.size - n.ones) := by omega
      have hv := value_add_lt (ones_le F n) h.labels_bits h.dvd (value_lt n.ip) hn
      obtain ⟨next, he, -⟩ : ∃ next, lib.nextSubnet (subnet lib n (F.labels n * F.size) i) (F.labels n * F.size) =
        (next, false) ∧
          Subnet n (F.labels n * F.size) (i + 1) next :=
        (h.subnet_spec lib (Nat.lt_of_succ_lt hn)).next h.labels_bits h.dvd_labels hv
      rw [he]
    rw [←labels, nets_eq (Nat.two_pow_pos _) hk hx, List.map_map]
    rfl

theorem reverse_split
    (hn : ∀ i < 2 ^ (F.labels n * F.size - n.ones), F.Plain (subnet lib n (F.labels n * F.size) i).ip) :
    reverse lib (split lib n) = (List.range (2 ^ (F.labels n * F.size - n.ones))).map
      fun i => (F.zone (subnet lib n (F.labels n * F.size) i).ip (F.labels n)).text := by
  rw [reverse, h.split_eq, List.map_map]
  refine map_congr_left fun i hi => ?_
  have hi := mem_range.mp hi
  exact reverseNet_string (hn i hi) h.labels_le ((h.subnet_spec lib hi).ones.trans (mul_comm _ _))

theorem contains_iff : n.contains a ↔ (a.to4.getD a).length = F.len ∧
      n.ip.value / 2 ^ (n.bits - n.ones) = (a.to4.getD a).value / 2 ^ (n.bits - n.ones) := by
  have hl := F.plain_length _ h.plain
  rw [IPNet.contains, F.plain_mask n h.plain, decide_eq_true_iff, hl]
  refine and_congr_right fun ha => ?_
  exact mask_eq_mask_iff (hl.trans ha.symm) h.ones

theorem exists_zone_iff {x : IP} (hx : x.length = F.len) :
    (∃ z ∈ (List.range (2 ^ (F.labels n * F.size - n.ones))).map
      fun i => (F.zone (subnet lib n (F.labels n * F.size) i).ip (F.labels n)).text, lib.isSubDomain z (F.name x).text) ↔
    n.ip.value / 2 ^ (n.bits - n.ones) = x.value / 2 ^ (n.bits - n.ones) := by
  have hb : F.size * (F.count - F.labels n) = n.bits - F.labels n * F.size := by
    rw [h.bits_eq, Nat.mul_sub, Nat.mul_comm F.size (F.labels n)]
  rw [div_eq_iff_exists (ones_le F n) h.labels_bits h.dvd]
  simp only [List.mem_map, List.mem_range, exists_exists_and_eq_and]
  refine exists_congr fun i => and_congr_right fun hi => ?_
  have hs := h.subnet_spec lib hi
  rw [isSubDomain_iff (hs.length.trans (F.plain_length _ h.plain)) hx h.labels_le, hb, hs.value]

theorem disjoint : ((List.range (2 ^ (F.labels n * F.size - n.ones))).map
      fun i => (F.zone (subnet lib n (F.labels n * F.size) i).ip (F.labels n)).text).Pairwise
        fun z z' => ∀ c : Name, ¬(lib.isSubDomain z c.text ∧ lib.isSubDomain z' c.text) := by
  have hb : F.size * (F.count - F.labels n) = n.bits - F.labels n * F.size := by
    rw [h.bits_eq, Nat.mul_sub, Nat.mul_comm F.size (F.labels n)]
  have hl := F.plain_length _ h.plain
  rw [pairwise_map]
  refine pairwise_lt_range.imp_of_mem fun {i j} hi hj hij => ?_
  have hsi := h.subnet_spec lib (mem_range.mp hi)
  have hsj := h.subnet_spec lib (mem_range.mp hj)
  refine disjoint_zones (hsi.length.trans hl) (hsj.length.trans hl) h.labels_le ?_
  rw [hb, hsi.value, hsj.value, Nat.add_mul_div_right _ _ (Nat.two_pow_pos _),
    Nat.add_mul_div_right _ _ (Nat.two_pow_pos _)]
  omega

end

end Aligned
end Family

section Exact

variable {F : Family} {lib : Library} {n : IPNet} {a ip : IP} {s : Str}

theorem exists_family (h : IsAddress a) :
    ∃ F, (F = ipv4 ∨ F = ipv6) ∧ (a.to4.getD a).length = F.len ∧ reverseName a = (F.name (a.to4.getD a)).text := by
  cases h4 : a.to4
  case some bs =>
    have hb := length_to4 h4
    refine ⟨ipv4, .inl rfl, hb, ?_⟩
    rw [getD_some, ←Family.reverseName_eq (F := ipv4) hb, reverseName_of_to4 h4, reverseName_of_to4 (to4_self hb)]
  case none =>
    have hl := length_of_isAddress h h4
    exact ⟨ipv6, .inr rfl, hl, Family.reverseName_eq (F := ipv6) ⟨hl, h4⟩⟩

theorem origin_ne : fold inAddrArpa ≠ fold ip6Arpa := by
  decide +kernel

theorem family_eq {F' : Family} (hF : F = ipv4 ∨ F = ipv6) (hF' : F' = ipv4 ∨ F' = ipv6)
    (h : F.len = F'.len ∨ fold F.origin = fold F'.origin) : F = F' := by
  obtain rfl | rfl := hF <;> obtain rfl | rfl := hF'
  · rfl
  · obtain h | h := h
    · cases h
    · exact absurd h origin_ne
  · obtain h | h := h
    · cases h
    · exact absurd h.symm origin_ne
  · rfl

theorem Family.Aligned.exact (h : F.Aligned n) (hF : F = ipv4 ∨ F = ipv6) :
    Exact lib n ((List.range (2 ^ (F.labels n * F.size - n.ones))).map
      fun i => (F.zone (subnet lib n (F.labels n * F.size) i).ip (F.labels n)).text) where
  disjoint := h.disjoint
  covers a r ha hr := by
    obtain ⟨F', hF', hl, hn⟩ := exists_family ha
    rw [lib.reverseAddr_string a ha, Option.some.injEq] at hr
    subst hr
    rw [hn, h.contains_iff]
    by_cases he : F = F'
    case pos =>
      subst he
      rw [h.exists_zone_iff hl, and_iff_right hl]
    case neg =>
      refine iff_of_false ?_ fun hc => he (family_eq hF hF' (.inl (hc.1.symm.trans hl)))
      rintro ⟨z, hz, hs⟩
      obtain ⟨i, -, rfl⟩ := mem_map.mp hz
      exact he (family_eq hF hF' (.inr (Family.origin_of_isSubDomain hs)))

theorem dvd_value_mask {ones : Nat} (h : ones ≤ 8 * ip.length) : 2 ^ (8 * ip.length - ones) ∣ (mask ones ip).value := by
  rw [value_mask h]
  exact Dvd.intro_left _ rfl

theorem aligned_mask (hl : n.ip.length = F.len) (ho : n.ones ≤ 8 * F.len) (hm : n.ip = mask n.ones ip) (hp : F.Plain n.ip) :
    F.Aligned n := by
  have hi : ip.length = F.len := by rw [←hl, hm, length_mask]
  have hd : 2 ^ (8 * ip.length - n.ones) ∣ (mask n.ones ip).value := dvd_value_mask (by rwa [hi])
  rw [←hm, hi] at hd
  exact ⟨by rwa [IPNet.bits, hl], by rwa [IPNet.bits, hl], hp⟩

theorem plain_ipv6 {m : IP} (hl : m.length = 16) (hv : 2 ^ 112 ≤ m.value ∨ 2 ^ 112 ∣ m.value) : ipv6.Plain m := by
  refine ⟨hl, eq_none_iff_forall_ne_some.mpr fun bs h => ?_⟩
  have hx := value_of_to4 hl h
  obtain hv | ⟨c, hv⟩ := hv
  · omega
  · rw [hv] at hx
    omega

-- The first two bytes of a masked address are not zero if those of the address are not, unless the mask ends there.
theorem le_value_mask {ones : Nat} (hl : ip.length = 16) (hv : 2 ^ 112 ≤ ip.value) (ho : 16 ≤ ones) (hb : ones ≤ 128) :
    2 ^ 112 ≤ (mask ones ip).value := by
  have hp : 2 ^ 112 = 2 ^ (ones - 16) * 2 ^ (128 - ones) := by
    rw [←pow_add]
    congr 1
    omega
  rw [value_mask (by omega), hl, hp]
  refine Nat.mul_le_mul_right _ ((Nat.le_div_iff_mul_le (Nat.two_pow_pos _)).mpr ?_)
  rwa [←hp]

theorem labels_le_of_ones (h : n.ones < 16) : ipv6.labels n * ipv6.size ≤ 16 := by
  change (n.ones + 4 - 1) / 4 * 4 ≤ 16
  omega

theorem aligned_ipv6 (lib : Library) (hl : ip.length = 16) (hv : 2 ^ 112 ≤ ip.value) (ho : n.ones ≤ 128)
    (hm : n.ip = mask n.ones ip) : ipv6.Aligned n ∧ ∀ i < 2 ^ (ipv6.labels n * ipv6.size - n.ones),
      ipv6.Plain (subnet lib n (ipv6.labels n * ipv6.size) i).ip := by
  have hn : n.ip.length = 16 := by rw [hm, length_mask, hl]
  have hbits : n.bits = 128 := by rw [IPNet.bits, hn]
  by_cases h16 : 16 ≤ n.ones
  case pos =>
    have hle : 2 ^ 112 ≤ n.ip.value := hm ▸ le_value_mask hl hv h16 ho
    have ha : ipv6.Aligned n := aligned_mask hn ho hm (plain_ipv6 hn (.inl hle))
    refine ⟨ha, fun i hi => ?_⟩
    have hs := ha.subnet_spec lib hi
    exact plain_ipv6 (hs.length.trans hn) (.inl (hs.value ▸ hle.trans (le_add_right _ _)))
  case neg =>
    have hd : 2 ^ 112 ∣ n.ip.value := by
      have hd : 2 ^ (8 * ip.length - n.ones) ∣ (mask n.ones ip).value := dvd_value_mask (by omega)
      rw [←hm, hl] at hd
      exact (pow_dvd_pow 2 (by omega)).trans hd
    have ha : ipv6.Aligned n := aligned_mask hn ho hm (plain_ipv6 hn (.inr hd))
    refine ⟨ha, fun i hi => ?_⟩
    have hs := ha.subnet_spec lib hi
    have hp := labels_le_of_ones (Nat.lt_of_not_le h16)
    refine plain_ipv6 (hs.length.trans hn) (.inr ?_)
    rw [hs.value, hbits]
    exact hd.add ((pow_dvd_pow 2 (by omega)).mul_left i)

theorem reverseZones_exact {zones : Str × List Str} (hF : F = ipv4 ∨ F = ipv6) (ha : F.Aligned n)
    (hn : ∀ i < 2 ^ (F.labels n * F.size - n.ones), F.Plain (subnet lib n (F.labels n * F.size) i).ip)
    (hp : parseCIDR s = some (ip, n)) (h : reverseZones lib s = some zones) : Exact lib n (zones.1 :: zones.2) := by
  rw [reverseZones, hp, map_some, ha.reverse_split hn] at h
  have he : Exact lib n _ := ha.exact hF
  split at h
  case h_1 hz =>
    obtain ⟨k, hk⟩ := Nat.exists_eq_succ_of_ne_zero (Nat.two_pow_pos (F.labels n * F.size - n.ones)).ne'
    rw [hk, range_succ_eq_map, map_cons] at hz
    cases hz
  case h_2 z zs hz =>
    cases h
    exact hz ▸ he

-- The zones of an accepted key are those of its network, where it is one.
theorem splitHostPort_exact {key port : Str} {hosts : List Str}
    (h : splitHostPort lib.toLabels (reverseZones lib) key = .ok (hosts, port))
    (hn : parseCIDR (host key) = some (ip, n)) : Exact lib n hosts := by
  obtain ⟨p, h⟩ := splitHostPort_ok h
  generalize host key = s at h hn
  obtain ⟨zones, hz⟩ : ∃ zones, reverseZones lib s = some zones := by
    rw [reverseZones, hn]
    exact ⟨_, rfl⟩
  rw [splitHost, hz] at h
  split at h
  case isTrue => cases h
  case isFalse =>
    split at h
    case isTrue => cases h
    case isFalse =>
      dsimp only at h
      split at h
      case isTrue => cases h
      case isFalse hg =>
        cases h
        rw [not_or] at hg
        obtain ⟨hl, ho, ip4, hm⟩ | ⟨ho, hm, addr, m, rfl, hp, hd⟩ := parseCIDR_cases hn
        case inl =>
          have ha : ipv4.Aligned n := aligned_mask hl ho hm hl
          exact reverseZones_exact (.inl rfl) ha (fun i hi => (ha.subnet_spec lib hi).length.trans hl) hn hz
        case inr =>
          have hc := (parseIPv6_of_parse hp hd).1
          have hne : addr ≠ [] := ne_nil_of_mem hc
          rw [head?_append_of_ne_nil _ hne] at hg
          have hv := value_of_parse hp hd hg.1 fun h0 => hg.2 ⟨h0, mem_append_left _ hc⟩
          obtain ⟨ha, hs⟩ := aligned_ipv6 lib (length_parse hp) hv ho hm
          exact reverseZones_exact (.inr rfl) ha hs hn hz

end Exact

theorem reverseName_of_parse {ip : IP} (h : IsAddress ip) : (parse ip.string).map reverseName = some (reverseName ip) := by
  cases h4 : ip.to4
  case none => rw [parse_string (length_of_isAddress h h4) h4, map_some]
  case some bs =>
    rw [parse_string_of_to4 h4, map_some, reverseName_of_to4 (to4_append (length_to4 h4)), reverseName_of_to4 h4]

def Library.reference : Library where
  toLabels := .reference
  reverseAddr s := (parse s).map reverseName
  reverseAddr_string _ h := reverseName_of_parse h
  nextSubnet n p :=
    ({ ip := ofValue n.ip.length (n.ip.value + 2 ^ (n.bits - p)), ones := p, isIP := by simpa using n.isIP },
      2 ^ n.bits ≤ n.ip.value + 2 ^ (n.bits - p))
  nextSubnet_ones n _ _ h := by
    refine ⟨_, Prod.ext rfl ?_, rfl, length_ofValue _ _, value_ofValue _ _ h⟩
    exact decide_eq_false (not_le.mpr h)

namespace Sample

def key : Str := "10.20.0.0/15:1053"

def net : IPNet where
  ip := [10, 20, 0, 0]
  ones := 15
  isIP := .inl rfl

def hosts : List Str :=
  ["20.10.in-addr.arpa.".toList, "21.10.in-addr.arpa.".toList]

end Sample

theorem splitHostPort_sample :
    Plugin.splitHostPort Library.reference.toLabels (reverseZones .reference) Sample.key =
      .ok (Sample.hosts, "1053".toList) := by
  decide +kernel

theorem parseCIDR_sample : Net.parseCIDR (Plugin.host Sample.key) = some (v4InV6Prefix ++ [10, 20, 0, 0], Sample.net) := by
  decide +kernel

theorem splitHostPort_exact_sample : Exact .reference Sample.net Sample.hosts :=
  splitHostPort_exact splitHostPort_sample parseCIDR_sample

end Cidr
