import HanzoDNS.Lib.Net

open List Option

namespace Strconv

open Nat UInt8

theorem isDigit_iff {c : Char} : c.isDigit ↔ 48 ≤ c.toNat ∧ c.toNat ≤ 57 := by
  rw [Char.isDigit, Bool.and_eq_true, decide_eq_true_iff, decide_eq_true_iff]
  exact and_congr UInt32.le_iff_toNat_le UInt32.le_iff_toNat_le

theorem digitChar_of_isDigit {c : Char} (h : c.isDigit) : digitChar (c.toNat - 48) = c := by
  rw [isDigit_iff] at h
  apply Char.toNat_inj.mp
  rw [toNat_digitChar_of_lt_ten (by omega)]
  omega

-- Digits that are put behind a number which is not zero.
theorem toDigits_append {acc : Nat} {cs : Str} (ha : 0 < acc) (hc : ∀ c ∈ cs, c.isDigit) :
    toDigits 10 acc ++ cs = toDigits 10 (cs.foldl (fun n c => 10 * n + (c.toNat - 48)) acc) := by
  induction cs generalizing acc
  case nil => simp
  case cons c cs hi =>
    rw [forall_mem_cons] at hc
    have hd : c.toNat - 48 < 10 := by
      have := isDigit_iff.mp hc.1
      omega
    have hs : toDigits 10 acc ++ [c] = toDigits 10 (10 * acc + (c.toNat - 48)) := by
      rw [←toDigits_append_toDigits (by decide) ha hd, toDigits_of_lt_base hd, digitChar_of_isDigit hc.1]
    rw [foldl_cons, ←hi (by omega) hc.2, ←hs, append_assoc, singleton_append]

theorem eq_itoa_of_digits {s : Str} {n : Nat} (h : digits s = some n) (hz : ¬(s.length > 1 ∧ s.head? = some '0')) :
    s = itoa n := by
  rw [digits] at h
  split at h
  case isFalse => cases h
  case isTrue hs =>
    obtain ⟨hne, hs⟩ := hs
    obtain ⟨c, cs, rfl⟩ := exists_cons_of_ne_nil hne
    cases h
    rw [List.all_eq_true, List.forall_mem_cons] at hs
    have hd := isDigit_iff.mp hs.1
    rw [itoa_natCast, foldl_cons, Nat.mul_zero, Nat.zero_add]
    by_cases hc : c = '0'
    case pos =>
      have hl : ¬(cs.length + 1 > 1) := fun hl => hz ⟨hl, by rw [hc]; rfl⟩
      obtain rfl : cs = [] := length_eq_zero_iff.mp (by omega)
      rw [hc]
      decide
    case neg =>
      have hp : 0 < c.toNat - 48 := by
        have : c.toNat ≠ 48 := fun h => hc (Char.toNat_inj.mp h)
        omega
      rw [←toDigits_append hp hs.2, toDigits_of_lt_base (by omega), digitChar_of_isDigit hs.1]
      rfl

theorem head?_itoa {n : Nat} (h : (itoa n).length > 1) : (itoa n).head? ≠ some '0' := by
  rw [itoa_natCast] at h ⊢
  have pos (m : Nat) (hm : 0 < m) : (toDigits 10 m).head? ≠ some '0' := by
    induction m using Nat.strong_induction_on
    case h m hi =>
      by_cases hl : m < 10
      case pos =>
        rw [toDigits_of_lt_base hl]
        intro he
        have hz : m = 0 := by simpa using he
        omega
      case neg =>
        rw [toDigits_of_base_le (by decide) (by omega), head?_append_of_ne_nil _ toDigits_ne_nil]
        exact hi (m / 10) (by omega) (by omega)
  refine pos n (pos_of_ne_zero ?_)
  rintro rfl
  exact absurd h (by decide)

end Strconv

namespace Net.IP

open Strconv

section Octets

variable {s f : Str} {b : UInt8} {bs : List UInt8} {fs : List Str}

def octet (b : UInt8) : Str :=
  itoa b.toNat

theorem parseOctet_eq_some_iff : parseOctet f = some b ↔ f = octet b := by
  rw [parseOctet]
  constructor
  case mp =>
    intro h
    split at h
    case h_2 => cases h
    case h_1 n hn =>
      split at h
      case isTrue => cases h
      case isFalse hc =>
        cases h
        rw [not_or] at hc
        have hl : n < 2 ^ 8 := by omega
        rw [octet, UInt8.toNat_ofNat_of_lt' hl]
        exact eq_itoa_of_digits hn hc.2
  case mpr =>
    rintro rfl
    have hb := b.toNat_lt
    rw [octet, digits_itoa]
    have hc : ¬(b.toNat > 255 ∨ (itoa b.toNat).length > 1 ∧ (itoa b.toNat).head? = some '0') := by
      rintro (hl | ⟨hl, hh⟩)
      · omega
      · exact head?_itoa hl hh
    dsimp only
    rw [if_neg hc, UInt8.ofNat_toNat]

theorem mapM_parseOctet_eq_some_iff : fs.mapM parseOctet = some bs ↔ fs = bs.map octet := by
  induction fs generalizing bs
  case nil => simp [eq_comm]
  case cons f fs hi =>
    simp only [List.mapM_cons, Option.bind_eq_bind, Option.bind_eq_some_iff, Option.pure_def, Option.some.injEq,
      parseOctet_eq_some_iff, hi]
    constructor
    case mp =>
      rintro ⟨b, rfl, bs, rfl, rfl⟩
      rfl
    case mpr =>
      intro h
      obtain ⟨b, bs, rfl, rfl, rfl⟩ := map_eq_cons_iff.mp h.symm
      exact ⟨b, rfl, bs, rfl, rfl⟩

theorem notMem_octet {c : Char} (hc : ¬c.isDigit) : c ∉ octet b := by
  intro h
  rw [octet, itoa_natCast] at h
  exact hc (Nat.isDigit_of_mem_toDigits (by decide) (by decide) h)

theorem parseIPv4_eq_some_iff : parseIPv4 s = some bs ↔ bs.length = 4 ∧ s = List.intercalate ['.'] (bs.map octet) := by
  rw [parseIPv4]
  constructor
  case mp =>
    intro h
    split at h
    case isFalse => cases h
    case isTrue hl =>
      rw [mapM_parseOctet_eq_some_iff] at h
      rw [h, length_map] at hl
      refine ⟨hl, ?_⟩
      rw [←h, intercalate_splitOn]
  case mpr =>
    rintro ⟨hl, rfl⟩
    have hd : ∀ f ∈ bs.map octet, '.' ∉ f := by
      intro f hf
      obtain ⟨b, -, rfl⟩ := mem_map.mp hf
      exact notMem_octet (by decide)
    have hn : bs.map octet ≠ [] := by
      rw [ne_eq, map_eq_nil_iff]
      rintro rfl
      cases hl
    rw [splitOn_intercalate '.' hd hn, length_map, if_pos hl]
    exact mapM_parseOctet_eq_some_iff.mpr rfl

end Octets

section Fields

variable {n : Nat} {s f g : Str} {c : Char} {ip : IP} {ellipsis : Option Nat} {fs : List Str}

theorem hexDigit_hexChar : ∀ d < 16, hexDigit (hexChar d) = some d := by
  decide

theorem toNat_lt_of_hexDigit (h : (hexDigit c).isSome) : c.toNat < 128 := by
  have hle {d : Char} (h : c ≤ d) : c.toNat ≤ d.toNat := h
  rw [hexDigit] at h
  split at h
  case isTrue hc => exact (hle hc.2).trans_lt (by decide)
  case isFalse =>
    split at h
    case isTrue hc => exact (hle hc.2).trans_lt (by decide)
    case isFalse =>
      split at h
      case isTrue hc => exact (hle hc.2).trans_lt (by decide)
      case isFalse => cases h

theorem hexDigit_cases {d : Nat} (h : hexDigit c = some d) : d < 16 ∧ (d = 0 → c = '0') := by
  have all : ∀ n < 128, ∀ d ∈ hexDigit (Char.ofNat n), d < 16 ∧ (d = 0 → Char.ofNat n = '0') := by
    decide
  have hc := toNat_lt_of_hexDigit (isSome_iff_exists.mpr ⟨d, h⟩)
  have := all c.toNat hc d
  rw [Char.ofNat_toNat] at this
  exact this h

structure IsField (f : Str) : Prop where
  nonempty : f ≠ []
  length : f.length ≤ 4
  digits : ∀ c ∈ f, (hexDigit c).isSome

def fieldValue (f : Str) : Nat :=
  (f.filterMap hexDigit).foldl (fun a d => 16 * a + d) 0

def fieldBytes (f : Str) : List UInt8 :=
  [UInt8.ofNat (fieldValue f / 256), UInt8.ofNat (fieldValue f)]

theorem takeWhile_field (hf : ∀ c ∈ f, (hexDigit c).isSome) (hs : ∀ c, s.head? = some c → hexDigit c = none) :
    (f ++ s).takeWhile (hexDigit · |>.isSome) = f := by
  rw [takeWhile_append_of_pos hf]
  cases s
  case nil => simp
  case cons c s => simp [hs c rfl]

theorem IsField.fits (hf : IsField f) : ¬(f = [] ∨ f.length > 4) :=
  not_or.mpr ⟨hf.nonempty, not_lt.mpr hf.length⟩

theorem parseIPv6Fields_nil (hf : IsField f) :
    parseIPv6Fields (n + 1) f ip ellipsis = some (ip ++ fieldBytes f, ellipsis) := by
  have ht := takeWhile_field (s := []) hf.digits (by simp)
  rw [append_nil] at ht
  simp only [parseIPv6Fields, ht, if_neg hf.fits, drop_length]
  rfl

theorem parseIPv6Fields_colon (hf : IsField f) (hn : s ≠ []) (hs : s.head? ≠ some ':') :
    parseIPv6Fields (n + 1) (f ++ ':' :: s) ip ellipsis = parseIPv6Fields n s (ip ++ fieldBytes f) ellipsis := by
  have ht := takeWhile_field (s := ':' :: s) hf.digits (by simp; decide)
  obtain ⟨c, s, rfl⟩ := exists_cons_of_ne_nil hn
  have hs : c ≠ ':' := by simpa using hs
  simp only [parseIPv6Fields, ht, if_neg hf.fits, drop_left]
  split
  all_goals simp_all [fieldBytes, fieldValue]

theorem parseIPv6Fields_ellipsis (hf : IsField f) : parseIPv6Fields (n + 1) (f ++ ':' :: ':' :: s) ip none =
      if s = [] then some (ip ++ fieldBytes f, some (ip ++ fieldBytes f).length) else
        parseIPv6Fields n s (ip ++ fieldBytes f) (some (ip ++ fieldBytes f).length) := by
  have ht := takeWhile_field (s := ':' :: ':' :: s) hf.digits (by simp; decide)
  simp only [parseIPv6Fields, ht, if_neg hf.fits, drop_left]
  rfl

theorem head?_ne_of_field (hf : IsField f) : (f ++ s).head? ≠ some ':' := by
  obtain ⟨c, t, rfl⟩ := exists_cons_of_ne_nil hf.nonempty
  have hc := hf.digits c mem_cons_self
  rintro ⟨⟩
  exact absurd hc (by decide)

theorem exists_intercalate_cons (sep f : Str) (fs : List Str) : ∃ s, List.intercalate sep (f :: fs) = f ++ s := by
  cases fs
  case nil => exact ⟨[], by simp⟩
  case cons g fs => exact ⟨_, by rw [intercalate_cons_cons, append_assoc]⟩

theorem parseIPv6Fields_intercalate (hf : ∀ f ∈ fs, IsField f) (hn : fs ≠ []) (hl : fs.length ≤ n) :
    parseIPv6Fields n (List.intercalate [':'] fs) ip ellipsis = some (ip ++ fs.flatMap fieldBytes, ellipsis) := by
  induction fs generalizing n ip
  case nil => exact absurd rfl hn
  case cons f fs hi =>
    rw [forall_mem_cons] at hf
    obtain ⟨n, rfl⟩ : ∃ m, n = m + 1 := Nat.exists_eq_succ_of_ne_zero (by simp at hl; omega)
    cases fs
    case nil => simp [parseIPv6Fields_nil hf.1]
    case cons g fs =>
      have hg := hf.2 g mem_cons_self
      obtain ⟨s, hs⟩ := exists_intercalate_cons [':'] g fs
      have hne : List.intercalate [':'] (g :: fs) ≠ [] := by simp [hs, hg.nonempty]
      have hc : (List.intercalate [':'] (g :: fs)).head? ≠ some ':' := hs ▸ head?_ne_of_field hg
      rw [intercalate_cons_cons, append_assoc, singleton_append, parseIPv6Fields_colon hf.1 hne hc,
        hi hf.2 (cons_ne_nil _ _) (by simpa using hl), append_assoc]
      rfl

theorem parseIPv6Fields_compressed {gs : List Str} (hf : ∀ f ∈ fs, IsField f) (hg : ∀ g ∈ gs, IsField g) (hn : fs ≠ [])
    (hl : fs.length + gs.length ≤ n) :
    parseIPv6Fields n (List.intercalate [':'] fs ++ ':' :: ':' :: List.intercalate [':'] gs) ip none =
      some (ip ++ fs.flatMap fieldBytes ++ gs.flatMap fieldBytes, some (ip ++ fs.flatMap fieldBytes).length) := by
  induction fs generalizing n ip
  case nil => exact absurd rfl hn
  case cons f fs hi =>
    rw [forall_mem_cons] at hf
    obtain ⟨n, rfl⟩ : ∃ m, n = m + 1 := Nat.exists_eq_succ_of_ne_zero (by simp at hl; omega)
    cases fs
    case nil =>
      rw [intercalate_singleton, parseIPv6Fields_ellipsis hf.1, flatMap_singleton]
      by_cases he : gs = []
      case pos => simp [he]
      case neg =>
        obtain ⟨g, gs, rfl⟩ := exists_cons_of_ne_nil he
        obtain ⟨s, hs⟩ := exists_intercalate_cons [':'] g gs
        have hne : List.intercalate [':'] (g :: gs) ≠ [] := by simp [hs, (hg g mem_cons_self).nonempty]
        have hlg : (g :: gs).length ≤ n := by
          simp only [length_singleton] at hl
          omega
        rw [if_neg hne, parseIPv6Fields_intercalate hg he hlg]
    case cons f' fs =>
      have hf' := hf.2 f' mem_cons_self
      obtain ⟨s, hs⟩ := exists_intercalate_cons [':'] f' fs
      have hlf : (f' :: fs).length + gs.length ≤ n := by
        simp only [length_cons] at hl ⊢
        omega
      rw [intercalate_cons_cons, append_assoc, append_assoc, singleton_append, parseIPv6Fields_colon hf.1,
        hi hf.2 (cons_ne_nil _ _) hlf, append_assoc ip]
      · rfl
      · simp
      · rw [hs, append_assoc]
        exact head?_ne_of_field hf'

end Fields

section Groups

variable {n : Nat} {s g : Str} {ip : IP} {ellipsis : Option Nat} {gs : List Str} {out : List UInt8 × Option Nat}

-- Text that cannot have less than four digits, and no other notation in it.
structure IsGroup (g : Str) : Prop where
  length : 4 ≤ g.length
  colon : ':' ∉ g
  dot : '.' ∉ g

theorem IsGroup.isField (hg : IsGroup g) (hs : ∀ c, s.head? = some c → hexDigit c = none)
    (h : parseIPv6Fields (n + 1) (g ++ s) ip ellipsis = some out) : IsField g := by
  have hn : g ≠ [] := by
    rintro rfl
    exact absurd hg.length (by decide)
  by_cases hd : ∀ c ∈ g, (hexDigit c).isSome
  case pos =>
    refine ⟨hn, not_lt.mp fun hl => ?_, hd⟩
    simp only [parseIPv6Fields, takeWhile_field hd hs, if_pos (Or.inr hl : g = [] ∨ g.length > 4)] at h
    cases h
  case neg =>
    exfalso
    -- The digits end within the group.
    obtain ⟨c, t, hc⟩ : ∃ c t, g.dropWhile (hexDigit · |>.isSome) = c :: t := by
      refine exists_cons_of_ne_nil fun hw => hd ?_
      exact dropWhile_eq_nil_iff.mp hw
    have hcd : hexDigit c = none := by
      have := head?_dropWhile_not (hexDigit · |>.isSome) g
      simpa [hc] using this
    have hgt : g = g.takeWhile (hexDigit · |>.isSome) ++ c :: t := by
      rw [←hc, takeWhile_append_dropWhile]
    have hm : c ∈ g := by
      rw [hgt]
      exact mem_append_right _ mem_cons_self
    have hcolon : c ≠ ':' := fun h => hg.colon (h ▸ hm)
    have hdot : c ≠ '.' := fun h => hg.dot (h ▸ hm)
    have ha : ∀ c ∈ g.takeWhile (hexDigit · |>.isSome), (hexDigit c).isSome := fun _ => mem_takeWhile_imp
    generalize g.takeWhile (hexDigit · |>.isSome) = a at hgt ha
    have ht : (a ++ (c :: t ++ s)).takeWhile (hexDigit · |>.isSome) = a := takeWhile_field ha (by simpa using hcd)
    rw [hgt, append_assoc] at h
    simp only [parseIPv6Fields, ht, drop_left] at h
    split at h
    case isTrue => cases h
    case isFalse =>
      split at h
      all_goals simp_all

theorem of_parseIPv6Fields (hg : ∀ g ∈ gs, IsGroup g) (hn : gs ≠ [])
    (h : parseIPv6Fields n (List.intercalate [':'] gs) ip ellipsis = some out) : (∀ g ∈ gs, IsField g) ∧ gs.length ≤ n := by
  induction gs generalizing n ip
  case nil => exact absurd rfl hn
  case cons g gs hi =>
    rw [forall_mem_cons] at hg
    have hne : g ≠ [] := by
      rintro rfl
      exact absurd hg.1.length (by decide)
    cases n
    case zero =>
      obtain ⟨s, hs⟩ := exists_intercalate_cons [':'] g gs
      rw [hs, parseIPv6Fields, if_neg (by simp [hne])] at h
      cases h
    case succ n =>
      cases gs
      case nil =>
        rw [intercalate_singleton, ←append_nil g] at h
        have hf := hg.1.isField (by simp) h
        exact ⟨forall_mem_singleton.mpr hf, by simp⟩
      case cons g' gs =>
        have hg' := hg.2 g' mem_cons_self
        rw [intercalate_cons_cons, append_assoc, singleton_append] at h
        have hf := hg.1.isField (by simp; decide) h
        obtain ⟨c, t, hc⟩ : ∃ c t, g' = c :: t := by
          refine exists_cons_of_ne_nil ?_
          rintro rfl
          exact absurd hg'.length (by decide)
        obtain ⟨s, hs⟩ := exists_intercalate_cons [':'] g' gs
        have hh : (List.intercalate [':'] (g' :: gs)).head? ≠ some ':' := by
          rw [hs, hc]
          rintro ⟨⟩
          exact hg'.colon (hc ▸ mem_cons_self)
        rw [parseIPv6Fields_colon hf (by simp [hc]) hh] at h
        obtain ⟨hfs, hl⟩ := hi hg.2 (cons_ne_nil _ _) h
        exact ⟨forall_mem_cons.mpr ⟨hf, hfs⟩, Nat.succ_le_succ hl⟩

def ofFields : List UInt8 × Option Nat → Option IP
  | (ip, some i) => if ip.length < 16 then some (ip.take i ++ List.replicate (16 - ip.length) 0 ++ ip.drop i) else none
  | (ip, none) => if ip.length = 16 then some ip else none

theorem parseIPv6_eq (h : s.head? ≠ some ':') : parseIPv6 s = (parseIPv6Fields 8 s [] none).bind ofFields := by
  have hc : s ≠ [':', ':'] := by
    rintro rfl
    exact h rfl
  rw [parseIPv6, if_neg hc]
  case x =>
    rintro t rfl
    exact h rfl
  dsimp only
  cases parseIPv6Fields 8 s [] none
  case none => rfl
  case some out =>
    obtain ⟨ip, _ | i⟩ := out
    case none => rfl
    case some => rfl

theorem ne_of_hexDigit {c d : Char} (hc : (hexDigit c).isSome) (hd : hexDigit d = none) : c ≠ d := by
  rintro rfl
  rw [hd] at hc
  cases hc

-- Digits are followed by a colon, so this is not the notation with dots only.
theorem parse_eq_parseIPv6 {f : Str} (hf : ∀ c ∈ f, (hexDigit c).isSome) (hp : '%' ∉ s) :
    parse (f ++ ':' :: s) = parseIPv6 (f ++ ':' :: s) := by
  have hn (d : Char) (hd : hexDigit d = none) : d ∉ f := fun hm => ne_of_hexDigit (hf d hm) hd rfl
  have hc : (f ++ ':' :: s).find? (· ∈ ['.', ':', '%']) = some ':' := by
    refine find?_eq_some_iff_append.mpr ⟨by decide, f, s, rfl, fun c hm => ?_⟩
    have hd : c ≠ '.' ∧ c ≠ ':' ∧ c ≠ '%' :=
      ⟨ne_of_hexDigit (hf c hm) rfl, ne_of_hexDigit (hf c hm) rfl, ne_of_hexDigit (hf c hm) rfl⟩
    simp [hd]
  have hm : '%' ∉ f ++ ':' :: s := by simp [hn '%' rfl, hp]
  rw [parse, hc]
  exact if_neg hm

theorem length_flatMap_fieldBytes : (gs.flatMap fieldBytes).length = 2 * gs.length := by
  induction gs
  case nil => rfl
  case cons g gs hi =>
    rw [flatMap_cons, length_append, hi, length_cons, Nat.mul_succ, Nat.add_comm]
    rfl

theorem notMem_intercalate {c sep : Char} (hc : c ≠ sep) (hg : ∀ g ∈ gs, c ∉ g) : c ∉ List.intercalate [sep] gs := by
  induction gs
  case nil => simp
  case cons g gs hi =>
    rw [forall_mem_cons] at hg
    cases gs
    case nil => simpa using hg.1
    case cons g' gs =>
      rw [intercalate_cons_cons, mem_append, mem_append, mem_singleton, not_or, not_or]
      exact ⟨⟨hg.1, hc⟩, hi hg.2⟩

theorem parse_intercalate_iff (hg : ∀ g ∈ gs, IsGroup g) : parse (List.intercalate [':'] gs) = some ip ↔
      gs.length = 8 ∧ (∀ g ∈ gs, IsField g) ∧ ip = gs.flatMap fieldBytes := by
  cases gs
  case nil =>
    refine iff_of_false (fun h => ?_) (by simp)
    cases h
  case cons g gs =>
    have hh : (List.intercalate [':'] (g :: gs)).head? ≠ some ':' := by
      have hg := hg g mem_cons_self
      obtain ⟨s, hs⟩ := exists_intercalate_cons [':'] g gs
      obtain ⟨c, t, rfl⟩ := exists_cons_of_ne_nil (ne_nil_of_length_pos (lt_of_lt_of_le (by decide) hg.length))
      rw [hs]
      rintro ⟨⟩
      exact hg.colon mem_cons_self
    constructor
    case mp =>
      intro h
      have hf : parseIPv6 (List.intercalate [':'] (g :: gs)) = some ip := by
        rw [parse] at h
        split at h
        case h_1 hc =>
          refine absurd (mem_of_find?_eq_some hc) (notMem_intercalate (by decide) fun g hm => (hg g hm).dot)
        case h_2 =>
          split at h
          case isTrue => cases h
          case isFalse => exact h
        case h_3 => cases h
      rw [parseIPv6_eq hh] at hf
      obtain ⟨out, ho, hf⟩ := bind_eq_some_iff.mp hf
      obtain ⟨hfs, hl⟩ := of_parseIPv6Fields hg (cons_ne_nil _ _) ho
      rw [parseIPv6Fields_intercalate hfs (cons_ne_nil _ _) hl, nil_append] at ho
      cases ho
      rw [ofFields] at hf
      split at hf
      case isFalse => cases hf
      case isTrue hl =>
        cases hf
        rw [length_flatMap_fieldBytes] at hl
        exact ⟨by omega, hfs, rfl⟩
    case mpr =>
      rintro ⟨hl, hf, rfl⟩
      have hp : '%' ∉ List.intercalate [':'] (g :: gs) :=
        notMem_intercalate (by decide) fun g hm hc => ne_of_hexDigit ((hf g hm).digits '%' hc) rfl rfl
      have hs : parse (List.intercalate [':'] (g :: gs)) = parseIPv6 (List.intercalate [':'] (g :: gs)) := by
        cases gs
        case nil => cases hl
        case cons g' gs =>
          rw [intercalate_cons_cons, append_assoc, singleton_append] at hp ⊢
          refine parse_eq_parseIPv6 (hf g mem_cons_self).digits fun hm => hp ?_
          exact mem_append_right _ (mem_cons_of_mem _ hm)
      rw [hs, parseIPv6_eq hh, parseIPv6Fields_intercalate hf (cons_ne_nil _ _) hl.le, nil_append,
        bind_some]
      exact if_pos (by rw [length_flatMap_fieldBytes, hl])

end Groups

section Text

variable {ip bs : IP} {c : Char}

theorem string_of_to4 (h : ip.to4 = some bs) : ip.string = List.intercalate ['.'] (bs.map octet) := by
  rw [string, h]
  rfl

theorem notMem_intercalate_octets (hc : ¬c.isDigit) (hd : c ≠ '.') : c ∉ List.intercalate ['.'] (bs.map octet) := by
  refine notMem_intercalate hd fun f hf => ?_
  obtain ⟨b, -, rfl⟩ := mem_map.mp hf
  exact notMem_octet hc

theorem intercalate_octets_ne_nil (h : bs ≠ []) : List.intercalate ['.'] (bs.map octet) ≠ [] := by
  obtain ⟨b, bs, rfl⟩ := exists_cons_of_ne_nil h
  obtain ⟨s, hs⟩ := exists_intercalate_cons ['.'] (octet b) (bs.map octet)
  rw [map_cons, hs, octet, itoa_natCast]
  simp [Nat.toDigits_ne_nil]

theorem colon_mem_string (hl : ip.length = 16) (h : ip.to4 = none) : ':' ∈ ip.string := by
  have hn : ip ≠ [] := by
    rintro rfl
    cases hl
  rw [string, h]
  simp only [if_neg hn, hl, ne_eq, not_true_eq_false, if_false]
  split
  case h_1 =>
    obtain _ | ⟨a, _ | ⟨b, _ | ⟨c, _ | ⟨d, ip⟩⟩⟩⟩ := ip
    case cons.cons.cons.cons =>
      change ':' ∈ List.intercalate [':'] (hexField _ :: hexField _ :: (fields ip).map hexField)
      rw [intercalate_cons_cons]
      simp
    all_goals cases hl
  case h_2 => simp

theorem to4_append (h : bs.length = 4) : to4 (v4InV6Prefix ++ bs) = some bs := by
  have hl : (v4InV6Prefix ++ bs).length = 16 := by
    rw [length_append, h]
    rfl
  rw [to4, hl, if_neg (by decide), if_pos ⟨rfl, prefix_append ..⟩]
  have hd : (v4InV6Prefix ++ bs).drop v4InV6Prefix.length = bs := drop_left
  exact congrArg some hd

theorem to4_self (h : bs.length = 4) : to4 bs = some bs :=
  if_pos h

theorem parse_string_of_to4 (h : ip.to4 = some bs) : parse ip.string = some (v4InV6Prefix ++ bs) := by
  rw [string_of_to4 h]
  exact parse_of_parseIPv4 (parseIPv4_eq_some_iff.mpr ⟨length_to4 h, rfl⟩)

section Compressed

variable {n i run : Nat} {fs : List Nat} {as gs : List Str}

theorem hexDigits_hex (n : Nat) : (hex n).filterMap hexDigit = (Nat.digits 16 n).reverse := by
  rw [hex, filterMap_map]
  refine (filterMap_congr fun d hd => ?_).trans filterMap_some
  rw [mem_reverse] at hd
  exact hexDigit_hexChar d (Nat.digits_lt_base (by decide) hd)

theorem fieldValue_hexField (n : Nat) : fieldValue (hexField n) = n := by
  rw [hexField]
  split
  case isTrue h => exact h.symm
  case isFalse =>
    have hf : (fun d a => 16 * a + d) = (fun d a : Nat => d + 16 * a) := by
      funext d a
      exact Nat.add_comm _ _
    rw [fieldValue, hexDigits_hex, foldl_reverse, hf]
    exact (Nat.ofDigits_eq_foldr 16 _).symm.trans (Nat.ofDigits_digits 16 n)

theorem isField_hexField (h : n < 65536) : IsField (hexField n) := by
  rw [hexField]
  split
  case isTrue => exact ⟨by simp, by simp, by simp; rfl⟩
  case isFalse hn =>
    refine ⟨?_, ?_, fun c hc => ?_⟩
    · rw [hex, ne_eq, map_eq_nil_iff, reverse_eq_nil_iff]
      exact mt Nat.digits_eq_nil_iff_eq_zero.mp hn
    · rw [hex, length_map, length_reverse]
      exact (Nat.digits_length_le_iff (by decide) n).mpr h
    · obtain ⟨d, hd, rfl⟩ := mem_map.mp hc
      rw [mem_reverse] at hd
      rw [hexDigit_hexChar d (Nat.digits_lt_base (by decide) hd)]
      rfl

theorem lt_of_mem_fields (h : n ∈ fields ip) : n < 65536 := by
  fun_induction fields ip
  case case1 hi lo ip ih =>
    obtain rfl | h := mem_cons.mp h
    · have := hi.toNat_lt
      have := lo.toNat_lt
      omega
    · exact ih h
  case case2 => cases h

theorem length_fields (hl : ip.length = 2 * n) : (fields ip).length = n := by
  induction n generalizing ip
  case zero =>
    obtain rfl := length_eq_zero_iff.mp hl
    rfl
  case succ n ih =>
    obtain _ | ⟨hi, _ | ⟨lo, ip⟩⟩ := ip
    case nil => cases hl
    case cons.nil =>
      simp only [length_singleton] at hl
      omega
    case cons.cons =>
      rw [fields, length_cons, ih]
      simp only [length_cons] at hl
      omega

theorem fieldBytes_hexField (hi lo : UInt8) : fieldBytes (hexField (256 * hi.toNat + lo.toNat)) = [hi, lo] := by
  have hlo := lo.toNat_lt
  have hh : (256 * hi.toNat + lo.toNat) / 256 = hi.toNat := by omega
  have hl : UInt8.ofNat (256 * hi.toNat + lo.toNat) = lo := by
    apply UInt8.toNat_inj.mp
    rw [UInt8.toNat_ofNat']
    omega
  rw [fieldBytes, fieldValue_hexField, hh, hl, UInt8.ofNat_toNat]

theorem flatMap_fields (hl : ip.length = 2 * n) : ((fields ip).map hexField).flatMap fieldBytes = ip := by
  induction n generalizing ip
  case zero =>
    obtain rfl := length_eq_zero_iff.mp hl
    rfl
  case succ n ih =>
    obtain _ | ⟨hi, _ | ⟨lo, ip⟩⟩ := ip
    case nil => cases hl
    case cons.nil =>
      simp only [length_singleton] at hl
      omega
    case cons.cons =>
      rw [fields, map_cons, flatMap_cons, fieldBytes_hexField, ih]
      · rfl
      · simp only [length_cons] at hl
        omega

theorem zeros_eq (h : zeros fs = (i, run)) : (fs.drop i).take run = List.replicate run 0 := by
  let IsRun (best : Nat × Nat) : Prop := best.2 = 0 ∨ best.2 = ((fs.drop best.1).takeWhile (· = 0)).length
  have hz : IsRun (zeros fs) := by
    refine List.foldlRecOn (motive := IsRun) (List.range fs.length) _ (Or.inl rfl) fun best hb j _ => ?_
    dsimp only
    split
    case isTrue => exact .inr rfl
    case isFalse => exact hb
  rw [h] at hz
  obtain rfl | hz : run = 0 ∨ run = ((fs.drop i).takeWhile (· = 0)).length := hz
  case inl => rfl
  case inr =>
    have ht : (fs.drop i).takeWhile (· = 0) = List.replicate run 0 := by
      refine eq_replicate_iff.mpr ⟨hz.symm, fun d hd => ?_⟩
      simpa using mem_takeWhile_imp hd
    rw [←ht, hz]
    exact prefix_iff_eq_take.mp ( takeWhile_prefix _) |>.symm

theorem parseIPv6_compressed (ha : ∀ f ∈ as, IsField f) (hg : ∀ g ∈ gs, IsField g) (hl : as.length + gs.length < 8) :
    parseIPv6 (List.intercalate [':'] as ++ ':' :: ':' :: List.intercalate [':'] gs) =
      some (as.flatMap fieldBytes ++ List.replicate (16 - 2 * (as.length + gs.length)) 0 ++ gs.flatMap fieldBytes) := by
  by_cases hn : as = []
  case pos =>
    subst hn
    cases gs
    case nil => rfl
    case cons g gs =>
      obtain ⟨s, hs⟩ := exists_intercalate_cons [':'] g gs
      have hne : (':' :: ':' :: List.intercalate [':'] (g :: gs)) ≠ [':', ':'] := by
        simp [hs, (hg g mem_cons_self).nonempty]
      have hb : ((g :: gs).flatMap fieldBytes).length < 16 := by
        rw [length_flatMap_fieldBytes]
        simp only [length_nil] at hl
        omega
      simp only [intercalate_nil, nil_append, parseIPv6, if_neg hne,
        parseIPv6Fields_intercalate hg (cons_ne_nil _ _) (show (g :: gs).length ≤ 8 by simp at hl ⊢; omega), if_pos hb]
      rw [length_flatMap_fieldBytes]
      simp
  case neg =>
    obtain ⟨f, as, rfl⟩ := exists_cons_of_ne_nil hn
    obtain ⟨s, hs⟩ := exists_intercalate_cons [':'] f as
    have hh : (List.intercalate [':'] (f :: as) ++ ':' :: ':' :: List.intercalate [':'] gs).head? ≠ some ':' := by
      rw [hs, append_assoc]
      exact head?_ne_of_field (ha f mem_cons_self)
    have hb : ((f :: as).flatMap fieldBytes ++ gs.flatMap fieldBytes).length = 2 * ((f :: as).length + gs.length) := by
      rw [length_append, length_flatMap_fieldBytes, length_flatMap_fieldBytes, mul_add]
    rw [parseIPv6_eq hh, parseIPv6Fields_compressed ha hg hn hl.le, nil_append, bind_some, ofFields, hb,
      if_pos (by omega), take_left, drop_left]

theorem string_eq (hl : ip.length = 16) (h : ip.to4 = none) :
    ip.string = List.intercalate [':'] ((fields ip).map hexField) ∨
    ∃ i run, 0 < run ∧ (fields ip) = (fields ip).take i ++ List.replicate run 0 ++ (fields ip).drop (i + run) ∧
      ip.string = List.intercalate [':'] (((fields ip).take i).map hexField) ++ ':' :: ':' ::
        List.intercalate [':'] (((fields ip).drop (i + run)).map hexField) := by
  have hn : ip ≠ [] := by
    rintro rfl
    cases hl
  rw [string, h]
  simp only [if_neg hn, hl, ne_eq, not_true_eq_false, if_false]
  split
  case h_1 => exact .inl rfl
  case h_2 i run hr hz =>
    refine .inr ⟨i, run, pos_of_ne_zero hr, ?_, ?_⟩
    · rw [←zeros_eq hz, append_assoc, ←drop_drop, take_append_drop, take_append_drop]
    · rw [append_assoc]
      rfl

theorem isField_of_mem_map (hf : fs ⊆ fields ip) : ∀ f ∈ fs.map hexField, IsField f := by
  intro f hm
  obtain ⟨n, hn, rfl⟩ := mem_map.mp hm
  exact isField_hexField (lt_of_mem_fields (hf hn))

theorem flatMap_replicate_zero (run : Nat) :
    ((List.replicate run 0).map hexField).flatMap fieldBytes = List.replicate (2 * run) 0 := by
  induction run
  case zero => rfl
  case succ run hi =>
    rw [replicate_succ, map_cons, flatMap_cons, hi]
    rfl

theorem parseIPv6_string (hl : ip.length = 16) (h : ip.to4 = none) : parseIPv6 ip.string = some ip := by
  have hlf : (fields ip).length = 8 := length_fields hl
  have hb : ((fields ip).map hexField).flatMap fieldBytes = ip := flatMap_fields (n := 8) hl
  obtain hs | ⟨i, run, hr, hf, hs⟩ := string_eq hl h
  case inl =>
    have hn : (fields ip).map hexField ≠ [] := by
      rw [ne_eq, map_eq_nil_iff, ←length_eq_zero_iff, hlf]
      decide
    have hfs := isField_of_mem_map (List.Subset.refl (fields ip))
    have hh : (List.intercalate [':'] ((fields ip).map hexField)).head? ≠ some ':' := by
      obtain ⟨f, fs, he⟩ := exists_cons_of_ne_nil hn
      obtain ⟨t, ht⟩ := exists_intercalate_cons [':'] f fs
      rw [he, ht]
      exact head?_ne_of_field (hfs f (he ▸ mem_cons_self))
    rw [hs, parseIPv6_eq hh, parseIPv6Fields_intercalate hfs hn (by rw [length_map, hlf]), nil_append, hb,
      bind_some]
    exact if_pos hl
  case inr =>
    have hlen := congrArg List.length hf
    simp only [length_append, length_replicate, hlf] at hlen
    rw [hs, parseIPv6_compressed (isField_of_mem_map (take_subset _ _)) (isField_of_mem_map (drop_subset _ _))
      (by simp only [length_map]; omega)]
    have hz : 16 - 2 * ((((fields ip).take i).map hexField).length + (((fields ip).drop (i + run)).map hexField).length) =
        2 * run := by
      simp only [length_map]
      omega
    rw [hz, ←flatMap_replicate_zero, ←flatMap_append, ←flatMap_append, ←map_append, ←map_append, ←hf, hb]

theorem mem_intercalate_colon (ha : ∀ f ∈ as, IsField f) (hc : c ∈ List.intercalate [':'] as) :
    (hexDigit c).isSome ∨ c = ':' := by
  rw [or_iff_not_imp_right]
  intro hn
  by_contra hd
  exact notMem_intercalate hn (fun f hf hm => hd ((ha f hf).digits c hm)) hc

theorem mem_string (hl : ip.length = 16) (h : ip.to4 = none) (hc : c ∈ ip.string) : (hexDigit c).isSome ∨ c = ':' := by
  obtain hs | ⟨i, run, -, -, hs⟩ := string_eq hl h
  case inl =>
    rw [hs] at hc
    exact mem_intercalate_colon (isField_of_mem_map (List.Subset.refl _)) hc
  case inr =>
    rw [hs, mem_append, mem_cons, mem_cons] at hc
    obtain hc | hc | hc | hc := hc
    · exact mem_intercalate_colon (isField_of_mem_map (take_subset _ _)) hc
    · exact .inr hc
    · exact .inr hc
    · exact mem_intercalate_colon (isField_of_mem_map (drop_subset _ _)) hc

theorem find?_string (hl : ip.length = 16) (h : ip.to4 = none) : ip.string.find? (· ∈ ['.', ':', '%']) = some ':' := by
  obtain ⟨d, hd⟩ : ∃ d, ip.string.find? (· ∈ ['.', ':', '%']) = some d := by
    rw [←isSome_iff_exists, find?_isSome]
    exact ⟨':', colon_mem_string hl h, by decide⟩
  have hs : d = '.' ∨ d = ':' ∨ d = '%' := by simpa using find?_some hd
  obtain hx | rfl := mem_string hl h (mem_of_find?_eq_some hd)
  case inl => obtain rfl | rfl | rfl := hs <;> cases hx
  case inr => exact hd

theorem parse_string (hl : ip.length = 16) (h : ip.to4 = none) : parse ip.string = some ip := by
  have hp : '%' ∉ ip.string := by
    intro hm
    obtain hd | hd := mem_string hl h hm
    · cases hd
    · cases hd
  rw [parse, find?_string hl h]
  exact (if_neg hp).trans (parseIPv6_string hl h)

end Compressed

end Text

end Net.IP
