import HanzoDNS.File.Less

open Dns Domain List

namespace File

open Strings Name

section Decode

def isEscape (x c d e : UInt8) : Bool :=
  x = 92 ∧ isDigit c ∧ isDigit d ∧ isDigit e

def squeeze : List UInt8 → List UInt8
  | x :: c :: d :: e :: b =>
    if isEscape x c d e then dddToByte c d e :: squeeze b else x :: squeeze (c :: d :: e :: b)
  | x :: b => x :: squeeze b
  | [] => []

def escapes : List UInt8 → Nat
  | x :: c :: d :: e :: b => if isEscape x c d e then escapes b + 1 else escapes (c :: d :: e :: b)
  | _ :: b => escapes b
  | [] => 0

def lastThree (b : List UInt8) : List UInt8 :=
  b.drop (b.length - 3)

-- What is behind the decoded label: its last three bytes, once for each escape.
def leftover (b : List UInt8) : List UInt8 :=
  (List.replicate (escapes b) (lastThree b)).flatten

theorem foldl_set_eq (a b : List UInt8) (k : Nat) (h : k + 3 ≤ b.length) :
    (List.range' a.length k).foldl (fun b j => b.set j (b.getD (j + 3) 0)) (a ++ b) =
    a ++ (b.drop 3).take k ++ b.drop k := by
  induction k generalizing a b
  case zero => simp
  case succ k hi =>
    match b, h with
    | x :: c :: d :: e :: b, h =>
      have hs : (a ++ x :: c :: d :: e :: b).set a.length ((a ++ x :: c :: d :: e :: b).getD (a.length + 3) 0) =
          (a ++ [e]) ++ c :: d :: e :: b := by
        simp
      have hi := hi (a ++ [e]) (c :: d :: e :: b) (by simpa using h)
      rw [range'_succ, foldl_cons, hs]
      simpa using hi

theorem escapes_of_length_lt (b : List UInt8) (h : b.length < 4) : escapes b = 0 := by
  match b, h with
  | [], _ => rfl
  | [_], _ => rfl
  | [_, _], _ => rfl
  | [_, _, _], _ => rfl

theorem lastThree_append (a b : List UInt8) (h : 3 ≤ b.length) : lastThree (a ++ b) = lastThree b := by
  rw [lastThree, drop_append, drop_eq_nil_of_le (by simp; omega), lastThree, nil_append]
  congr 1
  simp
  omega

theorem replicate_lastThree_append (a b : List UInt8) :
    (List.replicate (escapes b) (lastThree (a ++ b))).flatten = leftover b := by
  by_cases h : b.length < 4
  case pos => simp [leftover, escapes_of_length_lt b h]
  case neg => rw [leftover, lastThree_append a b (by omega)]

def EscapeFree (x : UInt8) (b : List UInt8) : Prop :=
  ∀ c d e b', b = c :: d :: e :: b' → ¬isEscape x c d e

variable {x c d e : UInt8} {b : List UInt8}

theorem squeeze_escape (h : isEscape x c d e) (b : List UInt8) :
    squeeze (x :: c :: d :: e :: b) = dddToByte c d e :: squeeze b := by
  simp [squeeze, h]

theorem squeeze_step (h : EscapeFree x b) : squeeze (x :: b) = x :: squeeze b := by
  match b, h with
  | [], _ | [_], _ | [_, _], _ => rfl
  | c :: d :: e :: b, h => simp [squeeze, h c d e b rfl]

theorem escapes_step (h : EscapeFree x b) : escapes (x :: b) = escapes b := by
  match b, h with
  | [], _ | [_], _ | [_, _], _ => rfl
  | c :: d :: e :: b, h => simp [escapes, h c d e b rfl]

theorem leftover_escape (h : isEscape x c d e) (b : List UInt8) :
    leftover (x :: c :: d :: e :: b) = leftover b ++ lastThree (x :: c :: d :: e :: b) := by
  have hl := replicate_lastThree_append [x, c, d, e] b
  simpa [leftover, escapes, h, replicate_succ'] using hl

theorem leftover_step (h : EscapeFree x b) : leftover (x :: b) = leftover b := by
  have hl := replicate_lastThree_append [x] b
  simpa [leftover, escapes_step h] using hl

theorem shift_escape (a b z : List UInt8) (y : UInt8) :
    shift ((a ++ x :: c :: d :: e :: b ++ z).set a.length y) (a.length + 1)
      (a.length + (x :: c :: d :: e :: b).length) =
    a ++ [y] ++ b ++ (lastThree (x :: c :: d :: e :: b) ++ z) := by
  have hk : a.length + (x :: c :: d :: e :: b).length - 3 - (a.length + 1) = b.length := by
    simp
    omega
  have hs : (a ++ x :: c :: d :: e :: b ++ z).set a.length y = (a ++ [y]) ++ (c :: d :: e :: b ++ z) := by
    simp
  have hl : lastThree (x :: c :: d :: e :: b) = (c :: d :: e :: b).drop b.length := by
    simp [lastThree]
  have hf := foldl_set_eq (a ++ [y]) (c :: d :: e :: b ++ z) b.length (by simp)
  rw [length_append, length_singleton] at hf
  have hz : (c :: d :: e :: b ++ z).drop b.length = (c :: d :: e :: b).drop b.length ++ z :=
    drop_append_of_le_length (by simp only [length_cons]; omega)
  rw [shift, hk, hs, hf, hl, hz]
  simp

theorem doDDDFrom_escape (fuel : Nat) (a b z : List UInt8) (h : isEscape x c d e) :
    doDDDFrom (fuel + 1) a.length (a.length + (x :: c :: d :: e :: b).length) (a ++ x :: c :: d :: e :: b ++ z) =
    doDDDFrom fuel (a ++ [dddToByte c d e]).length ((a ++ [dddToByte c d e]).length + b.length)
      (a ++ [dddToByte c d e] ++ b ++ (lastThree (x :: c :: d :: e :: b) ++ z)) := by
  have hd : (a ++ x :: c :: d :: e :: b ++ z).drop a.length = x :: c :: d :: e :: (b ++ z) := by simp
  have hs := shift_escape (x := x) (c := c) (d := d) (e := e) a b z (dddToByte c d e)
  simp only [isEscape, Bool.decide_and, Bool.decide_eq_true, Bool.and_eq_true, decide_eq_true_eq] at h
  obtain ⟨rfl, hc, hd', he⟩ := h
  rw [doDDDFrom, if_pos (by simp), hd]
  simp only [hc, hd', he, and_true]
  rw [if_pos (by simp), hs]
  congr 1
  · simp
  · simp
    omega

theorem doDDDFrom_step (fuel : Nat) (a z : List UInt8) (h : EscapeFree x b) :
    doDDDFrom (fuel + 1) a.length (a.length + (x :: b).length) (a ++ x :: b ++ z) =
    doDDDFrom fuel (a ++ [x]).length ((a ++ [x]).length + b.length) (a ++ [x] ++ b ++ z) := by
  have hd : (a ++ x :: b ++ z).drop a.length = x :: (b ++ z) := by simp
  have hr : doDDDFrom fuel (a.length + 1) (a.length + (x :: b).length) (a ++ x :: b ++ z) =
      doDDDFrom fuel (a ++ [x]).length ((a ++ [x]).length + b.length) (a ++ [x] ++ b ++ z) := by
    simp [Nat.add_comm, Nat.add_left_comm]
  rw [doDDDFrom, if_pos (by simp), hd, hr]
  split
  case h_2 => rfl
  case h_1 c d e b' hb =>
    obtain ⟨rfl, hb⟩ := List.cons.inj hb
    clear hd hr
    refine if_neg fun ⟨hl, hc, hd, he⟩ => ?_
    match b, h, hl, hb with
    | [], _, hl, _ | [_], _, hl, _ | [_, _], _, hl, _ => simp at hl
    | c' :: d' :: e' :: b, h, _, hb =>
      obtain ⟨rfl, rfl, rfl, -⟩ : c' = c ∧ d' = d ∧ e' = e ∧ b ++ z = b' := by simpa using hb
      exact h _ _ _ _ rfl (by simp [isEscape, hc, hd, he])

-- The bytes of `a` are done and those of `z` no longer belong to the label.
theorem doDDDFrom_eq (fuel : Nat) (a b z : List UInt8) (h : b.length ≤ fuel) :
    doDDDFrom fuel a.length (a.length + b.length) (a ++ b ++ z) = a ++ squeeze b ++ leftover b ++ z := by
  induction fuel generalizing a b z
  case zero =>
    obtain rfl : b = [] := by simpa using h
    simp [doDDDFrom, squeeze, leftover, escapes]
  case succ fuel hi =>
    cases b
    case nil => simp [doDDDFrom, squeeze, leftover, escapes]
    case cons x b =>
      by_cases he : EscapeFree x b
      case pos =>
        rw [doDDDFrom_step fuel a z he, hi _ _ _ (by simpa using h), squeeze_step he, leftover_step he]
        simp
      case neg =>
        simp only [EscapeFree, not_forall, not_not] at he
        obtain ⟨c, d, e, b', rfl, he⟩ := he
        rw [doDDDFrom_escape fuel a b' z he, hi _ _ _ (by simp at h; omega), squeeze_escape he, leftover_escape he]
        simp

theorem doDDD_eq (b : List UInt8) : doDDD b = squeeze b ++ leftover b := by
  simpa [doDDD] using doDDDFrom_eq b.length [] b [] le_rfl

theorem length_foldl_set (js : List Nat) (b : List UInt8) :
    (js.foldl (fun b j => b.set j (b.getD (j + 3) 0)) b).length = b.length := by
  induction js generalizing b
  case nil => rfl
  case cons hi => rw [foldl_cons, hi, length_set]

theorem length_doDDD (b : List UInt8) : (doDDD b).length = b.length := by
  suffices h : ∀ fuel i lb (b : List UInt8), (doDDDFrom fuel i lb b).length = b.length from h ..
  intro fuel i lb b
  fun_induction doDDDFrom fuel i lb b
  case case2 hi => rw [hi, shift, length_foldl_set, length_set]
  all_goals trivial

theorem length_bytes (s : Str) : s.length ≤ (bytes s).length := by
  induction s
  case nil => exact le_rfl
  case cons c s hi =>
    have := c.utf8Size_pos
    simp [bytes] at hi ⊢
    omega

theorem length_labelKey (s : Str) : s.length ≤ (labelKey s).length := by
  have := length_bytes (toLower s)
  rwa [labelKey, length_doDDD, ←length_toLower s]

end Decode

section Keys

variable (dns : Labels)

def keyFrom : (fuel : Nat) → Str → List (List UInt8)
  | 0, _ => []
  | fuel + 1, s =>
    match dns.prevLabel s 1 with
    | (_, true) => []
    | (i, false) => labelKey (s.drop i) :: keyFrom fuel (s.take i)

def key (s : Str) : List (List UInt8) :=
  keyFrom dns s.length s

variable {dns}

theorem prevLabel_cases (dns : Labels) (s : Str) : s = [] ∨ ∃ i < s.length, dns.prevLabel s 1 = (i, false) := by
  by_cases h : s = []
  case pos => exact .inl h
  case neg =>
    obtain ⟨hi, hb⟩ := dns.prevLabel_lt h
    exact .inr ⟨_, hi, Prod.ext rfl hb⟩

theorem keyFrom_nil (fuel : Nat) : keyFrom dns fuel [] = [] := by
  cases fuel <;> simp [keyFrom, dns.prevLabel_nil]

theorem keyFrom_eq_keyFrom {f g : Nat} {s : Str} (hf : s.length ≤ f) (hg : s.length ≤ g) :
    keyFrom dns f s = keyFrom dns g s := by
  induction f generalizing g s
  case zero =>
    obtain rfl : s = [] := by simpa using hf
    rw [keyFrom_nil, keyFrom_nil]
  case succ f hi =>
    obtain rfl | ⟨i, hlt, hp⟩ := prevLabel_cases dns s
    case inl => rw [keyFrom_nil, keyFrom_nil]
    case inr =>
      cases g
      case zero => omega
      case succ g =>
        simp only [keyFrom, hp]
        rw [hi (g := g) (by simp; omega) (by simp; omega)]

@[simp]
theorem key_nil : key dns [] = [] :=
  rfl

theorem key_of_prevLabel {s : Str} {i : Nat} (h : dns.prevLabel s 1 = (i, false)) :
    key dns s = labelKey (s.drop i) :: key dns (s.take i) := by
  have hs : s ≠ [] := by
    rintro rfl
    simp [dns.prevLabel_nil] at h
  have hi := (dns.prevLabel_lt hs).1
  rw [h] at hi
  obtain ⟨c, s, rfl⟩ := exists_cons_of_ne_nil hs
  rw [key, length_cons, keyFrom, h]
  simp only [key]
  rw [keyFrom_eq_keyFrom (by simp at hi ⊢; omega) le_rfl]

theorem compare_nil_labelKey {s : Str} {i : Nat} (h : i < s.length) :
    compare [] (labelKey (s.drop i)) = .lt ∧ compare (labelKey (s.drop i)) [] = .gt := by
  have hn : labelKey (s.drop i) ≠ [] := by
    have := length_labelKey (s.drop i)
    refine ne_nil_of_length_pos ?_
    simp at this
    omega
  obtain ⟨x, k, hk⟩ := exists_cons_of_ne_nil hn
  rw [hk]
  exact ⟨rfl, rfl⟩

theorem lessFrom_eq (fuel : Nat) (a b : Str) (h : a.length < fuel) :
    lessFrom dns fuel a b = some (compare (key dns a) (key dns b)) := by
  induction fuel generalizing a b
  case zero => omega
  case succ fuel ih =>
    obtain rfl | ⟨i, hi, ha⟩ := prevLabel_cases dns a <;>
    obtain rfl | ⟨j, hj, hb⟩ := prevLabel_cases dns b
    case inl.inl => simp [lessFrom, dns.prevLabel_nil]
    case inl.inr =>
      have hl : labelKey [] = [] := rfl
      simp [lessFrom, dns.prevLabel_nil, hb, hl, (compare_nil_labelKey hj).1, key_of_prevLabel hb]
    case inr.inl =>
      have hl : labelKey [] = [] := rfl
      simp [lessFrom, dns.prevLabel_nil, ha, hl, (compare_nil_labelKey hi).2, key_of_prevLabel ha]
    case inr.inr =>
      rw [key_of_prevLabel ha, key_of_prevLabel hb, List.compare_cons_cons]
      simp only [lessFrom, ha, hb]
      cases hc : compare (labelKey (a.drop i)) (labelKey (b.drop j))
      case eq => simp [ih (a.take i) (b.take j) (by simp; omega)]
      all_goals simp

theorem less_eq (a b : Str) : less dns a b = some (compare (key dns a) (key dns b)) :=
  lessFrom_eq _ a b (Nat.lt_succ_self _)

end Keys

-- What is compared of a label: its decoded form with the dot, and what decoding leaves behind it.
def stored (l : Label) : List UInt8 :=
  let b := bytes (toLower (l.text ++ ['.']))
  squeeze b ++ leftover b

section Canonical

variable (dns : Labels)

theorem key_root : key dns ['.'] = [[46]] := by
  obtain h | ⟨i, hi, h⟩ := prevLabel_cases dns ['.']
  case inl => contradiction
  case inr =>
    obtain rfl : i = 0 := by simpa using hi
    rw [key_of_prevLabel h]
    simp only [drop_zero, take_zero, key_nil]
    decide +kernel

theorem key_cat (n : Name) : key dns (cat n) = n.reverse.map stored := by
  induction n using List.reverseRecOn
  case nil => rfl
  case append_singleton n l hi =>
    rw [key_of_prevLabel (dns.prevLabel_cat n l)]
    simp [cat_append, cat_singleton, hi, labelKey, doDDD_eq, stored]

theorem key_text {n : Name} (h : n ≠ []) : key dns n.text = n.reverse.map stored := by
  rw [text_of_ne_nil h, key_cat]

-- Label by label from the right, what is compared and the octets have to tell the labels apart in the
-- same way. If only one of the two does, then it is up to the other labels.
def AgreesFrom : List Label → List Label → Prop
  | l :: x, m :: y =>
    match compare (stored l) (stored m), compare l.octets m.octets with
    | .eq, .eq => AgreesFrom x y
    | .eq, o => compare (x.map stored) (y.map stored) = o
    | o, .eq => compare (x.map Label.octets) (y.map Label.octets) = o
    | o, o' => o = o'
  | _, _ => True

-- The root is compared like a label of which only the dot is left.
def Agrees (a b : Name) : Prop :=
  match a.reverse, b.reverse with
  | [], [] => True
  | [], l :: _ => compare [46] (stored l) = .lt
  | l :: _, [] => compare (stored l) [46] = .gt
  | l :: x, m :: y => AgreesFrom (l :: x) (m :: y)

theorem agreesFrom_iff (x y : List Label) : AgreesFrom x y ↔
    compare (x.map stored) (y.map stored) = compare (x.map Label.octets) (y.map Label.octets) := by
  induction x generalizing y
  case nil => cases y <;> simp [AgreesFrom, List.compare_nil_cons]
  case cons l x hi =>
    cases y
    case nil => simp [AgreesFrom]
    case cons m y =>
      simp only [AgreesFrom, List.map_cons, List.compare_cons_cons]
      cases hs : compare (stored l) (stored m) <;> cases ho : compare l.octets m.octets <;>
        simp [hi, eq_comm]

theorem stored_ne_root (l : Label) : stored l ≠ [46] := by
  have h := length_labelKey (l.text ++ ['.'])
  have hn := length_pos_of_ne_nil l.nonempty
  rw [labelKey, doDDD_eq, ←stored] at h
  intro hs
  simp only [hs, length_append, length_singleton] at h
  omega

theorem reverse_cases (n : Name) : n = [] ∨ ∃ l x, n.reverse = l :: x := by
  by_cases h : n = []
  case pos => exact .inl h
  case neg => exact .inr (exists_cons_of_ne_nil (by simpa using h))

theorem key_of_reverse {n : Name} {l : Label} {x : List Label} (h : n.reverse = l :: x) :
    key dns n.text = stored l :: x.map stored := by
  rw [key_text dns (by rintro rfl; cases h), h, map_cons]

theorem less_eq_canonical_iff (a b : Name) : less dns a.text b.text = some (a.canonical b) ↔ Agrees a b := by
  rw [less_eq, Option.some.injEq, canonical, Agrees]
  obtain rfl | ⟨l, x, ha⟩ := reverse_cases a <;> obtain rfl | ⟨m, y, hb⟩ := reverse_cases b
  case inl.inl => simp [text]
  case inl.inr =>
    have hr : compare [46] (stored m) ≠ .eq := fun h => stored_ne_root m (Std.LawfulEqOrd.eq_of_compare h).symm
    rw [text, key_root, key_of_reverse dns hb, hb, List.compare_cons_cons]
    cases hc : compare [46] (stored m) <;> simp_all
  case inr.inl =>
    have hr : compare (stored l) [46] ≠ .eq := fun h => stored_ne_root l (Std.LawfulEqOrd.eq_of_compare h)
    rw [text, key_root, key_of_reverse dns ha, ha, List.compare_cons_cons]
    cases hc : compare (stored l) [46] <;> simp_all
  case inr.inr =>
    rw [key_of_reverse dns ha, key_of_reverse dns hb, ha, hb]
    exact (agreesFrom_iff (l :: x) (m :: y)).symm

namespace Sample

def label (s : String) (h : s.toList ≠ [] ∧ (unescape s).isSome) : Label :=
  ⟨s, h.1, h.2⟩

def a : Name :=
  [label "a" (by decide), label "example" (by decide)]

-- The hyphen comes before the dot that follows the shorter label.
def b : Name :=
  [label "a-b" (by decide), label "example" (by decide)]

def top : Name :=
  [label "example" (by decide)]

def sub : Label :=
  label "a" (by decide)

def child : Label :=
  label "b" (by decide)

def server : Label :=
  label "ns" (by decide)

def leaf : Label :=
  label "x" (by decide)

end Sample

theorem less_not_canonical :
    less .reference Sample.a.text Sample.b.text = some .gt ∧ Sample.a.canonical Sample.b = .lt := by
  decide +kernel

end Canonical

section Plain

def Plain (l : Label) : Prop :=
  '\\' ∉ l.text

theorem unescape_plain {t : Str} (hp : '\\' ∉ t) (hv : (unescape t).isSome) :
    unescape t = some (t.map octet) ∧ ∀ c ∈ t, c.toNat < 128 ∧ c ≠ '.' := by
  induction t
  case nil => exact ⟨rfl, by simp⟩
  case cons c t hi =>
    have hc : c ≠ '\\' := fun h => hp (by simp [h])
    have hu : unescape (c :: t) = if c ≠ '.' ∧ c.toNat < 128 then (unescape t).map (octet c :: ·) else none := by
      rw [unescape]
      exact fun h => hc h
    rw [hu] at hv ⊢
    split at hv
    case isFalse => contradiction
    case isTrue h =>
      have hi := hi (fun hm => hp (mem_cons_of_mem c hm)) (by simpa using hv)
      refine ⟨by simp [h, hi.1], ?_⟩
      simpa [h.1, h.2] using hi.2

theorem utf8EncodeChar_toLower {c : Char} (h : c.toNat < 128) :
    String.utf8EncodeChar (Unicode.toLower c) = [lower (octet c)] := by
  have hd : ∀ n < 128, String.utf8EncodeChar (Unicode.toLower (Char.ofNat n)) = [lower (octet (Char.ofNat n))] := by
    decide +kernel
  simpa using hd c.toNat h

theorem lower_octet_ne {c : Char} (h : c.toNat < 128) :
    (c ≠ '\\' → lower (octet c) ≠ 92) ∧ (c ≠ '.' → lower (octet c) ≠ 46) := by
  have hd : ∀ n < 128, (Char.ofNat n ≠ '\\' → lower (octet (Char.ofNat n)) ≠ 92) ∧
      (Char.ofNat n ≠ '.' → lower (octet (Char.ofNat n)) ≠ 46) := by
    decide +kernel
  simpa using hd c.toNat h

theorem squeeze_plain {b : List UInt8} (h : 92 ∉ b) : squeeze b = b ∧ escapes b = 0 := by
  induction b
  case nil => exact ⟨rfl, rfl⟩
  case cons x b hi =>
    have hf : EscapeFree x b := by
      intro c d e _ _ he
      have : x = 92 := by simp_all [isEscape]
      simp [this] at h
    have hi := hi fun hm => h (mem_cons_of_mem x hm)
    exact ⟨by rw [squeeze_step hf, hi.1], by rw [escapes_step hf, hi.2]⟩

theorem bytes_plain {t : Str} (h : ∀ c ∈ t, c.toNat < 128) : bytes (toLower t) = t.map (lower ∘ octet) := by
  induction t
  case nil => rfl
  case cons c t hi =>
    have hi := hi fun c hc => h c (mem_cons_of_mem _ hc)
    simp only [bytes, toLower, map_cons, flatMap_cons] at hi ⊢
    rw [hi, utf8EncodeChar_toLower (h c (by simp))]
    rfl

theorem octets_plain {l : Label} (h : Plain l) : l.octets = l.text.map (lower ∘ octet) := by
  simp [Label.octets, (unescape_plain h l.valid).1]

theorem stored_plain {l : Label} (h : Plain l) : stored l = l.octets ++ [46] := by
  have ⟨_, hc⟩ := unescape_plain h l.valid
  have hb : bytes (toLower (l.text ++ ['.'])) = l.octets ++ [46] := by
    rw [octets_plain h, bytes_plain]
    · simp; decide
    · intro c hm
      obtain hm | hm := mem_append.mp hm
      case inl => exact (hc c hm).1
      case inr => simp_all
  have hn : 92 ∉ l.octets ++ [46] := by
    simp only [octets_plain h, mem_append, mem_map, mem_singleton, not_or, not_exists, not_and]
    refine ⟨fun c hm => (lower_octet_ne (hc c hm).1).1 fun he => h (he ▸ hm), by decide⟩
  rw [stored, hb]
  simp [squeeze_plain hn, leftover]

theorem dot_notMem_octets {l : Label} (h : Plain l) : 46 ∉ l.octets := by
  have ⟨_, hc⟩ := unescape_plain h l.valid
  simp only [octets_plain h, mem_map, not_exists, not_and]
  exact fun c hm => (lower_octet_ne (hc c hm).1).2 (hc c hm).2

def Swapped (x y : List UInt8) : Prop :=
  ∃ o < 46, x ++ [o] <+: y ∨ y ++ [o] <+: x

theorem swapped_cons (o : UInt8) (x y : List UInt8) : Swapped (o :: x) (o :: y) ↔ Swapped x y := by
  simp [Swapped]

theorem swapped_nil_cons (o : UInt8) (x : List UInt8) : Swapped [] (o :: x) ↔ o < 46 := by
  simp [Swapped]

theorem swapped_comm (x y : List UInt8) : Swapped x y ↔ Swapped y x := by
  simp [Swapped, or_comm]

theorem compare_dot_iff {x y : List UInt8} (hx : 46 ∉ x) (hy : 46 ∉ y) :
    compare (x ++ [46]) (y ++ [46]) = compare x y ↔ ¬Swapped x y := by
  induction x generalizing y
  case nil =>
    cases y
    case nil => simp [Swapped]
    case cons o y =>
      have ho : o ≠ 46 := by rintro rfl; simp at hy
      rw [swapped_nil_cons, List.nil_append, List.cons_append, List.compare_cons_cons, List.compare_nil_cons]
      obtain h | h := UInt8.lt_or_lt_of_ne ho
      case inl => simp [Std.compare_eq_gt.mpr h, h]
      case inr => simp [Std.compare_eq_lt.mpr h, UInt8.le_of_lt h]
  case cons o x hi =>
    cases y
    case nil =>
      have ho : o ≠ 46 := by rintro rfl; simp at hx
      rw [swapped_comm, swapped_nil_cons, List.nil_append, List.cons_append, List.compare_cons_cons,
        List.compare_cons_nil]
      obtain h | h := UInt8.lt_or_lt_of_ne ho
      case inl => simp [Std.compare_eq_lt.mpr h, h]
      case inr => simp [Std.compare_eq_gt.mpr h, UInt8.le_of_lt h]
    case cons o' y =>
      rw [List.cons_append, List.cons_append, List.compare_cons_cons, List.compare_cons_cons]
      by_cases h : o = o'
      case pos =>
        subst h
        have hi := hi (fun h => hx (List.mem_cons_of_mem o h)) (fun h => hy (List.mem_cons_of_mem o h))
        simpa [swapped_cons] using hi
      case neg =>
        have hs : ¬Swapped (o :: x) (o' :: y) := by
          simp [Swapped, h, Ne.symm h]
        have hc : compare o o' ≠ .eq := by simpa using h
        cases hc' : compare o o' <;> simp_all

-- At the first label from the right that differs, neither label is a prefix of the other whose next
-- octet is below the dot.
def InOrderFrom : List Label → List Label → Prop
  | l :: x, m :: y => if l.octets = m.octets then InOrderFrom x y else ¬Swapped l.octets m.octets
  | _, _ => True

theorem agreesFrom_plain_iff {x y : List Label} (hx : ∀ l ∈ x, Plain l) (hy : ∀ l ∈ y, Plain l) :
    AgreesFrom x y ↔ InOrderFrom x y := by
  induction x generalizing y
  case nil => simp [AgreesFrom, InOrderFrom]
  case cons l x hi =>
    cases y
    case nil => simp [AgreesFrom, InOrderFrom]
    case cons m y =>
      have hl := hx l (by simp)
      have hm := hy m (by simp)
      have hi := hi (fun l h => hx l (mem_cons_of_mem _ h)) (fun l h => hy l (mem_cons_of_mem _ h))
      have hd := compare_dot_iff (dot_notMem_octets hl) (dot_notMem_octets hm)
      rw [AgreesFrom, InOrderFrom, stored_plain hl, stored_plain hm]
      by_cases h : l.octets = m.octets
      case pos => simp [h, hi]
      case neg =>
        have hn : l.octets ++ [46] ≠ m.octets ++ [46] := by simpa using h
        have h₁ : compare l.octets m.octets ≠ .eq := by simpa using h
        have h₂ : compare (l.octets ++ [46]) (m.octets ++ [46]) ≠ .eq := by simpa using hn
        rw [if_neg h, ←hd]
        cases hc : compare l.octets m.octets <;>
          cases hc' : compare (l.octets ++ [46]) (m.octets ++ [46]) <;> simp_all

theorem agrees_plain_iff {a b : Name} (ha : ∀ l ∈ a, Plain l) (hb : ∀ l ∈ b, Plain l) (hr : a ≠ [] ∧ b ≠ []) :
    Agrees a b ↔ InOrderFrom a.reverse b.reverse := by
  obtain rfl | ⟨l, x, hx⟩ := reverse_cases a
  case inl => simp at hr
  obtain rfl | ⟨m, y, hy⟩ := reverse_cases b
  case inl => simp at hr
  simp only [Agrees, hx, hy]
  refine agreesFrom_plain_iff (fun l h => ha l ?_) (fun l h => hb l ?_)
  · exact mem_reverse.mp (hx ▸ h)
  · exact mem_reverse.mp (hy ▸ h)

-- The order of the tree is the canonical order exactly for names that the two tell apart at the same
-- label and in the same way.
theorem less_canonical_iff (dns : Labels) (a b : Name) :
    (less dns a.text b.text = some (a.canonical b) ↔ Agrees a b) ∧
    ((∀ l ∈ a, Plain l) → (∀ l ∈ b, Plain l) → a ≠ [] ∧ b ≠ [] → (Agrees a b ↔ InOrderFrom a.reverse b.reverse)) :=
  ⟨less_eq_canonical_iff dns a b, agrees_plain_iff⟩

end Plain
end File
