import Mathlib.Tactic

-- Serials, whose order is circular.
namespace Serial

-- Whether a serial is older than another one. It is neither older nor newer if half of all serials are between them.
def Older (a b : UInt32) : Prop :=
  0 < (b - a).toNat ∧ (b - a).toNat < 2 ^ 31

instance (a b : UInt32) : Decidable (Older a b) :=
  inferInstanceAs (Decidable (_ ∧ _))

variable {a b : UInt32}

theorem Older.asymm (h : Older a b) : ¬Older b a := by
  have ha := a.toNat_lt
  have hb := b.toNat_lt
  simp only [Older, UInt32.toNat_sub] at *
  omega

theorem Older.ne (h : Older a b) : a ≠ b := by
  rintro rfl
  exact h.asymm h

theorem older_or_older (hn : a ≠ b) (hd : (b - a).toNat ≠ 2 ^ 31) : Older a b ∨ Older b a := by
  have ha := a.toNat_lt
  have hb := b.toNat_lt
  have hn : a.toNat ≠ b.toNat := hn ∘ UInt32.toNat_inj.mp
  simp only [Older, UInt32.toNat_sub] at *
  omega

end Serial
