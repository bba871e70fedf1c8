import Mathlib

open List

namespace Unicode

-- A run of code points `lo, lo + step, …, hi` whose lower-case images are `dst, dst + step, …`. This is
-- the shape of the rows of Go's `unicode.CaseRanges`, with the offset replaced by its first image.
structure CaseRange where
  lo : Nat
  hi : Nat
  step : Nat
  dst : Nat
deriving DecidableEq

namespace CaseRange

def single (n dst : Nat) : CaseRange :=
  ⟨n, n, 1, dst⟩

-- Every second code point is mapped to the one after it.
def pairs (lo hi : Nat) : CaseRange :=
  ⟨lo, hi, 2, lo + 1⟩

def Covers (r : CaseRange) (n : Nat) : Prop :=
  r.lo ≤ n ∧ n ≤ r.hi ∧ (n - r.lo) % r.step = 0

instance : DecidablePred (Covers r) :=
  fun _ => inferInstanceAs (Decidable (_ ∧ _ ∧ _))

def image (r : CaseRange) (n : Nat) : Nat :=
  n - r.lo + r.dst

-- The images of `r` stay clear of the code points that `r'` maps: either the two intervals do not
-- meet, or `r'` maps every other code point and the images of `r` have the other parity. This is a
-- `Bool`, as it is evaluated on every pair of rows of the case table.
def clear (r r' : CaseRange) : Bool :=
  Nat.blt (r.image r.hi) r'.lo || Nat.blt r'.hi r.dst ||
    ((Nat.beq r.step 2 || Nat.beq r.lo r.hi) && Nat.beq r'.step 2 &&
      !Nat.beq (r.dst % 2) (r'.lo % 2))

def avoids (r : CaseRange) (n : Nat) : Bool :=
  (Nat.blt n r.lo || Nat.blt r.hi n) && (Nat.blt n r.dst || Nat.blt (r.image r.hi) n)

def Scalar (r : CaseRange) : Prop :=
  r.image r.hi < 0xd800 ∨ (0xdfff < r.dst ∧ r.image r.hi < 0x110000)

instance : Decidable (Scalar r) :=
  inferInstanceAs (Decidable (_ ∨ _))

variable {r r' : CaseRange} {n : Nat}

theorem not_covers_image (c : r.clear r') (h : r.Covers n) : ¬r'.Covers (r.image n) := by
  obtain ⟨hl, hh, hs⟩ := h
  rintro ⟨hl', hh', hs'⟩
  simp only [clear, image, Bool.or_eq_true, Bool.and_eq_true, Nat.blt_eq, Nat.beq_eq, Bool.not_eq_true',
    ←Bool.not_eq_true] at c hl' hh' hs'
  obtain (c | c) | ⟨⟨h₁ | h₁, h₂⟩, hp⟩ := c
  · omega
  · omega
  · rw [h₁] at hs; rw [h₂] at hs'; omega
  · rw [h₂] at hs'; omega

theorem not_covers_of_avoids (a : r.avoids n) : ¬r.Covers n := by
  rintro ⟨hl, hh, _⟩
  simp only [avoids, Bool.or_eq_true, Bool.and_eq_true, Nat.blt_eq] at a
  omega

theorem image_ne_of_avoids {m : Nat} (a : r.avoids n) (h : r.Covers m) : r.image m ≠ n := by
  have h₁ := h.left
  have h₂ := h.right.left
  simp only [avoids, image, Bool.or_eq_true, Bool.and_eq_true, Nat.blt_eq] at a ⊢
  omega

theorem Scalar.image_valid (s : r.Scalar) (h : r.Covers n) : (r.image n).isValidChar := by
  have h₁ := h.left
  have h₂ := h.right.left
  simp only [Scalar, image, Nat.isValidChar] at s ⊢
  omega

end CaseRange

-- The simple lower-case mapping of the Unicode Character Database, as runs `(lo, hi, step, dst)`.
def lowerRanges : List CaseRange :=
  [⟨0x41, 0x5a, 1, 0x61⟩, ⟨0xc0, 0xd6, 1, 0xe0⟩, ⟨0xd8, 0xde, 1, 0xf8⟩, .pairs 0x100 0x12e, .single 0x130 0x69,
   .pairs 0x132 0x136, .pairs 0x139 0x147, .pairs 0x14a 0x176, .single 0x178 0xff, .pairs 0x179 0x17d,
   .single 0x181 0x253, .pairs 0x182 0x184, .single 0x186 0x254, .single 0x187 0x188, ⟨0x189, 0x18a, 1, 0x256⟩,
   .single 0x18b 0x18c, .single 0x18e 0x1dd, .single 0x18f 0x259, .single 0x190 0x25b, .single 0x191 0x192,
   .single 0x193 0x260, .single 0x194 0x263, .single 0x196 0x269, .single 0x197 0x268, .single 0x198 0x199,
   .single 0x19c 0x26f, .single 0x19d 0x272, .single 0x19f 0x275, .pairs 0x1a0 0x1a4, .single 0x1a6 0x280,
   .single 0x1a7 0x1a8, .single 0x1a9 0x283, .single 0x1ac 0x1ad, .single 0x1ae 0x288, .single 0x1af 0x1b0,
   ⟨0x1b1, 0x1b2, 1, 0x28a⟩, .pairs 0x1b3 0x1b5, .single 0x1b7 0x292, .single 0x1b8 0x1b9, .single 0x1bc 0x1bd,
   .single 0x1c4 0x1c6, .single 0x1c5 0x1c6, .single 0x1c7 0x1c9, .single 0x1c8 0x1c9, .single 0x1ca 0x1cc,
   .pairs 0x1cb 0x1db, .pairs 0x1de 0x1ee, .single 0x1f1 0x1f3, .pairs 0x1f2 0x1f4, .single 0x1f6 0x195,
   .single 0x1f7 0x1bf, .pairs 0x1f8 0x21e, .single 0x220 0x19e, .pairs 0x222 0x232, .single 0x23a 0x2c65,
   .single 0x23b 0x23c, .single 0x23d 0x19a, .single 0x23e 0x2c66, .single 0x241 0x242, .single 0x243 0x180,
   .single 0x244 0x289, .single 0x245 0x28c, .pairs 0x246 0x24e, .pairs 0x370 0x372, .single 0x376 0x377,
   .single 0x37f 0x3f3, .single 0x386 0x3ac, ⟨0x388, 0x38a, 1, 0x3ad⟩, .single 0x38c 0x3cc, ⟨0x38e, 0x38f, 1, 0x3cd⟩,
   ⟨0x391, 0x3a1, 1, 0x3b1⟩, ⟨0x3a3, 0x3ab, 1, 0x3c3⟩, .single 0x3cf 0x3d7, .pairs 0x3d8 0x3ee, .single 0x3f4 0x3b8,
   .single 0x3f7 0x3f8, .single 0x3f9 0x3f2, .single 0x3fa 0x3fb, ⟨0x3fd, 0x3ff, 1, 0x37b⟩, ⟨0x400, 0x40f, 1, 0x450⟩,
   ⟨0x410, 0x42f, 1, 0x430⟩, .pairs 0x460 0x480, .pairs 0x48a 0x4be, .single 0x4c0 0x4cf, .pairs 0x4c1 0x4cd,
   .pairs 0x4d0 0x52e, ⟨0x531, 0x556, 1, 0x561⟩, ⟨0x10a0, 0x10c5, 1, 0x2d00⟩, .single 0x10c7 0x2d27,
   .single 0x10cd 0x2d2d, ⟨0x13a0, 0x13ef, 1, 0xab70⟩, ⟨0x13f0, 0x13f5, 1, 0x13f8⟩, ⟨0x1c90, 0x1cba, 1, 0x10d0⟩,
   ⟨0x1cbd, 0x1cbf, 1, 0x10fd⟩, .pairs 0x1e00 0x1e94, .single 0x1e9e 0xdf, .pairs 0x1ea0 0x1efe,
   ⟨0x1f08, 0x1f0f, 1, 0x1f00⟩, ⟨0x1f18, 0x1f1d, 1, 0x1f10⟩, ⟨0x1f28, 0x1f2f, 1, 0x1f20⟩, ⟨0x1f38, 0x1f3f, 1, 0x1f30⟩,
   ⟨0x1f48, 0x1f4d, 1, 0x1f40⟩, ⟨0x1f59, 0x1f5f, 2, 0x1f51⟩, ⟨0x1f68, 0x1f6f, 1, 0x1f60⟩, ⟨0x1f88, 0x1f8f, 1, 0x1f80⟩,
   ⟨0x1f98, 0x1f9f, 1, 0x1f90⟩, ⟨0x1fa8, 0x1faf, 1, 0x1fa0⟩, ⟨0x1fb8, 0x1fb9, 1, 0x1fb0⟩, ⟨0x1fba, 0x1fbb, 1, 0x1f70⟩,
   .single 0x1fbc 0x1fb3, ⟨0x1fc8, 0x1fcb, 1, 0x1f72⟩, .single 0x1fcc 0x1fc3, ⟨0x1fd8, 0x1fd9, 1, 0x1fd0⟩,
   ⟨0x1fda, 0x1fdb, 1, 0x1f76⟩, ⟨0x1fe8, 0x1fe9, 1, 0x1fe0⟩, ⟨0x1fea, 0x1feb, 1, 0x1f7a⟩, .single 0x1fec 0x1fe5,
   ⟨0x1ff8, 0x1ff9, 1, 0x1f78⟩, ⟨0x1ffa, 0x1ffb, 1, 0x1f7c⟩, .single 0x1ffc 0x1ff3, .single 0x2126 0x3c9,
   .single 0x212a 0x6b, .single 0x212b 0xe5, .single 0x2132 0x214e, ⟨0x2160, 0x216f, 1, 0x2170⟩, .single 0x2183 0x2184,
   ⟨0x24b6, 0x24cf, 1, 0x24d0⟩, ⟨0x2c00, 0x2c2f, 1, 0x2c30⟩, .single 0x2c60 0x2c61, .single 0x2c62 0x26b,
   .single 0x2c63 0x1d7d, .single 0x2c64 0x27d, .pairs 0x2c67 0x2c6b, .single 0x2c6d 0x251, .single 0x2c6e 0x271,
   .single 0x2c6f 0x250, .single 0x2c70 0x252, .single 0x2c72 0x2c73, .single 0x2c75 0x2c76, ⟨0x2c7e, 0x2c7f, 1, 0x23f⟩,
   .pairs 0x2c80 0x2ce2, .pairs 0x2ceb 0x2ced, .single 0x2cf2 0x2cf3, .pairs 0xa640 0xa66c, .pairs 0xa680 0xa69a,
   .pairs 0xa722 0xa72e, .pairs 0xa732 0xa76e, .pairs 0xa779 0xa77b, .single 0xa77d 0x1d79, .pairs 0xa77e 0xa786,
   .single 0xa78b 0xa78c, .single 0xa78d 0x265, .pairs 0xa790 0xa792, .pairs 0xa796 0xa7a8, .single 0xa7aa 0x266,
   .single 0xa7ab 0x25c, .single 0xa7ac 0x261, .single 0xa7ad 0x26c, .single 0xa7ae 0x26a, .single 0xa7b0 0x29e,
   .single 0xa7b1 0x287, .single 0xa7b2 0x29d, .single 0xa7b3 0xab53, .pairs 0xa7b4 0xa7c2, .single 0xa7c4 0xa794,
   .single 0xa7c5 0x282, .single 0xa7c6 0x1d8e, .pairs 0xa7c7 0xa7c9, .single 0xa7d0 0xa7d1, .pairs 0xa7d6 0xa7d8,
   .single 0xa7f5 0xa7f6, ⟨0xff21, 0xff3a, 1, 0xff41⟩, ⟨0x10400, 0x10427, 1, 0x10428⟩, ⟨0x104b0, 0x104d3, 1, 0x104d8⟩,
   ⟨0x10570, 0x1057a, 1, 0x10597⟩, ⟨0x1057c, 0x1058a, 1, 0x105a3⟩, ⟨0x1058c, 0x10592, 1, 0x105b3⟩,
   ⟨0x10594, 0x10595, 1, 0x105bb⟩, ⟨0x10c80, 0x10cb2, 1, 0x10cc0⟩, ⟨0x118a0, 0x118bf, 1, 0x118c0⟩,
   ⟨0x16e40, 0x16e5f, 1, 0x16e60⟩, ⟨0x1e900, 0x1e921, 1, 0x1e922⟩]

def lowerCode (n : Nat) : Nat :=
  (lowerRanges.find? (·.Covers n)).elim n (·.image n)

-- Go's `unicode.ToLower`.
def toLower (c : Char) : Char :=
  Char.ofNat (lowerCode c.toNat)

-- Go's `unicode.IsSpace`: the code points with the property `White_Space`.
def spaces : List Nat :=
  [0x09, 0x0a, 0x0b, 0x0c, 0x0d, 0x20, 0x85, 0xa0, 0x1680, 0x2000, 0x2001, 0x2002, 0x2003, 0x2004,
   0x2005, 0x2006, 0x2007, 0x2008, 0x2009, 0x200a, 0x2028, 0x2029, 0x202f, 0x205f, 0x3000]

def isSpace (c : Char) : Bool :=
  c.toNat ∈ spaces

theorem lowerRanges_clear : lowerRanges.all fun r => lowerRanges.all r.clear := by
  decide +kernel

theorem lowerRanges_scalar : ∀ r ∈ lowerRanges, r.Scalar := by
  decide +kernel

theorem lowerRanges_avoids_spaces : spaces.all fun n => lowerRanges.all (·.avoids n) := by
  decide +kernel

theorem lowerRanges_avoids_dot : lowerRanges.all (·.avoids '.'.toNat) := by
  decide +kernel

theorem lowerRanges_avoids_backslash : lowerRanges.all (·.avoids '\\'.toNat) := by
  decide +kernel

theorem lowerCode_cases (n : Nat) : (lowerCode n = n ∧ ∀ r ∈ lowerRanges, ¬r.Covers n) ∨
    (∃ r ∈ lowerRanges, r.Covers n ∧ lowerCode n = r.image n) := by
  cases h : lowerRanges.find? (·.Covers n)
  case none =>
    have hc := find?_eq_none.mp h
    exact .inl ⟨by simp [lowerCode, h], by simpa using hc⟩
  case some r =>
    have hc := find?_some h
    exact .inr ⟨r, mem_of_find?_eq_some h, by simpa using hc, by simp [lowerCode, h]⟩

theorem lowerCode_of_not_covers {n : Nat} (h : ∀ r ∈ lowerRanges, ¬r.Covers n) : lowerCode n = n := by
  obtain ⟨he, _⟩ | ⟨r, hm, hc, _⟩ := lowerCode_cases n
  · exact he
  · exact absurd hc (h r hm)

theorem lowerCode_idem (n : Nat) : lowerCode (lowerCode n) = lowerCode n := by
  obtain ⟨he, _⟩ | ⟨r, hm, hc, he⟩ := lowerCode_cases n
  · rw [he, he]
  · rw [he]
    apply lowerCode_of_not_covers
    intro r' hm'
    have hr := all_eq_true.mp lowerRanges_clear r hm
    exact CaseRange.not_covers_image (all_eq_true.mp hr r' hm') hc

theorem lowerCode_valid {n : Nat} (h : n.isValidChar) : (lowerCode n).isValidChar := by
  obtain ⟨he, _⟩ | ⟨r, hm, hc, he⟩ := lowerCode_cases n
  · exact he.symm ▸ h
  · exact he.symm ▸ (lowerRanges_scalar r hm).image_valid hc

-- Code points outside of the case table are neither changed by `lowerCode` nor produced from others.
theorem lowerCode_eq_iff {n p : Nat} (h : lowerRanges.all (·.avoids p)) : lowerCode n = p ↔ n = p := by
  rw [all_eq_true] at h
  constructor
  case mp =>
    intro hp
    obtain ⟨he, _⟩ | ⟨r, hm, hc, he⟩ := lowerCode_cases n
    · exact he ▸ hp
    · exact absurd (he ▸ hp) (CaseRange.image_ne_of_avoids (h r hm) hc)
  case mpr =>
    rintro rfl
    exact lowerCode_of_not_covers fun r hm => CaseRange.not_covers_of_avoids (h r hm)

@[simp]
theorem toNat_toLower (c : Char) : (toLower c).toNat = lowerCode c.toNat := by
  have hv : (lowerCode c.toNat).isValidChar := lowerCode_valid c.valid
  rw [toLower, Char.ofNat, dif_pos hv]
  rfl

@[simp]
theorem toLower_idem (c : Char) : toLower (toLower c) = toLower c := by
  apply Char.toNat_inj.mp
  simp only [toNat_toLower, lowerCode_idem]

@[simp]
theorem isSpace_toLower (c : Char) : isSpace (toLower c) = isSpace c := by
  have h (p : Nat) (hp : p ∈ spaces) : lowerCode c.toNat = p ↔ c.toNat = p :=
    lowerCode_eq_iff (all_eq_true.mp lowerRanges_avoids_spaces p hp)
  simp only [isSpace, toNat_toLower, decide_eq_decide]
  constructor
  case mp => intro hs; exact (h _ hs).mp rfl ▸ hs
  case mpr => intro hs; exact ((h _ hs).mpr rfl).symm ▸ hs

theorem toLower_eq_iff {c p : Char} (h : lowerRanges.all (·.avoids p.toNat)) : toLower c = p ↔ c = p := by
  have h := lowerCode_eq_iff (n := c.toNat) h
  rwa [←toNat_toLower, Char.toNat_inj, Char.toNat_inj] at h

@[simp]
theorem toLower_eq_dot_iff {c : Char} : toLower c = '.' ↔ c = '.' :=
  toLower_eq_iff lowerRanges_avoids_dot

@[simp]
theorem toLower_eq_backslash_iff {c : Char} : toLower c = '\\' ↔ c = '\\' :=
  toLower_eq_iff lowerRanges_avoids_backslash

end Unicode
