import HanzoDNS.Sign.Resign

open Dns List

namespace Sign

open Parsed

namespace Parsed

def coversSOA : Parsed → Bool
  | rrsig typeCovered _ _ => typeCovered = .soa
  | other => false

def counted : Parsed → Bool
  | rrsig typeCovered _ _ => typeCovered = .soa
  | other => true

end Parsed

section

variable (time : UInt32 → Time) (now : Time)

-- Signed in the past but not too long ago, and valid for long enough.
structure Fresh (inception expiration : UInt32) : Prop where
  started : time inception ≤ now
  recent : now - time inception ≤ durationResignDays
  lasting : durationExpireDays ≤ time expiration - now

def AllFresh (rrs : List Parsed) : Prop :=
  ∀ inception expiration, .rrsig .soa inception expiration ∈ rrs → Fresh time now inception expiration

-- What the check is for. Among the records that are counted the first hundred should have a signature of the
-- SOA record, and with the next one the loop ends.
def Decides (rrs : List Parsed) : Prop :=
  resign time now ⟨rrs, none⟩ = none ↔
    (∃ rr ∈ (rrs.filter counted).take 100, rr.coversSOA) ∧ AllFresh time now ((rrs.filter counted).take 101)

end

section

variable {time : UInt32 → Time} {now : Time} {err : Option Str} {rrs : List Parsed}

theorem sub_le_iff {t u : Time} {d : Duration} (h : minDuration ≤ d ∧ d < maxDuration) : sub t u ≤ d ↔ t - u ≤ d := by
  rw [sub, max_le_iff, min_le_iff, and_iff_right h.1, or_iff_right (not_le.mpr h.2)]

theorem sub_lt_iff {t u : Time} {d : Duration} (h : minDuration < d ∧ d < maxDuration) : sub t u < d ↔ t - u < d := by
  rw [sub, max_lt_iff, min_lt_iff, and_iff_right h.1, or_iff_right (not_lt.mpr h.2.le)]

theorem checkSOA_eq_none_iff {inception expiration : UInt32} :
    checkSOA time now inception expiration = none ↔ Fresh time now inception expiration := by
  have hr {t u : Time} : sub t u ≤ durationResignDays ↔ t - u ≤ durationResignDays := sub_le_iff (by decide)
  have hz {t u : Time} : sub t u < 0 ↔ t - u < 0 := sub_lt_iff (by decide)
  have he {t u : Time} : sub t u < durationExpireDays ↔ t - u < durationExpireDays := sub_lt_iff (by decide)
  simp only [checkSOA, ge_iff_le, gt_iff_lt]
  split
  case isTrue h => exact iff_of_false (by simp) fun hf => absurd (hr.mpr hf.recent) (not_le.mpr h.2)
  case isFalse h =>
    rw [not_and, not_lt] at h
    split
    case isTrue hl => exact iff_of_false (by simp) fun hf => absurd (sub_nonneg.mpr hf.started) (not_le.mpr (hz.mp hl))
    case isFalse hl =>
      have hs := not_lt.mp (mt hz.mpr hl)
      have hd := hr.mp (h (not_lt.mp hl))
      split
      case isTrue hx => exact iff_of_false (by simp) fun hf => absurd hf.lasting (not_le.mpr (he.mp hx))
      case isFalse hx => exact iff_of_true rfl ⟨sub_nonneg.mp hs, hd, not_lt.mp (mt he.mpr hx)⟩

theorem allFresh_cons (rr : Parsed) : AllFresh time now (rr :: rrs) ↔
    (∀ inception expiration, rr = .rrsig .soa inception expiration → Fresh time now inception expiration) ∧
    AllFresh time now rrs := by
  simp [AllFresh, mem_cons, or_imp, forall_and, eq_comm]

theorem resignFrom_eq_none_iff {i : Nat} (hi : i ≤ 100) : resignFrom time now err i rrs = none ↔
    err = none ∧ i + (rrs.filter counted).length ≤ 100 ∧ AllFresh time now rrs := by
  induction rrs generalizing i
  case nil => simp [resignFrom, hi, AllFresh]
  case cons rr rrs h =>
    have hc : (if i + 1 > 100 then some .noSOA else resignFrom time now err (i + 1) rrs) = none ↔
        err = none ∧ i + ((rrs.filter counted).length + 1) ≤ 100 ∧ AllFresh time now rrs := by
      split
      case isTrue hl => exact iff_of_false (by simp) fun hn => by omega
      case isFalse hl => rw [h (by omega), Nat.add_assoc, Nat.add_comm 1]
    rw [allFresh_cons]
    cases rr
    case other =>
      rw [resignFrom, hc, filter_cons_of_pos rfl, length_cons]
      simp
    case rrsig typeCovered inception expiration =>
      by_cases ht : typeCovered = .soa
      case neg => simp [resignFrom, counted, ht, h hi]
      case pos =>
        subst ht
        rw [resignFrom, if_neg (not_not.mpr rfl)]
        split
        case h_1 why hw =>
          have hf : ¬Fresh time now inception expiration := by
            rw [←checkSOA_eq_none_iff, hw]
            simp
          simp [hf]
        case h_2 hw =>
          have hf : Fresh time now inception expiration := checkSOA_eq_none_iff.mp hw
          rw [hc, filter_cons_of_pos rfl, length_cons]
          simp [hf]

end

section

variable (time : UInt32 → Time) (now : Time) (rrs : List Parsed)

-- The check goes wrong without a signature of the SOA record in a short file, and in a long file with one that is
-- as it should be.
theorem decides_iff : Decides time now rrs ↔ if (rrs.filter counted).length ≤ 100 then ∃ rr ∈ rrs, rr.coversSOA
    else (∀ rr ∈ (rrs.filter counted).take 100, ¬rr.coversSOA) ∨
        ¬AllFresh time now ((rrs.filter counted).take 101) := by
  have hc : ∀ rr : Parsed, rr.coversSOA → rr.counted := by
    intro rr h
    cases rr
    case rrsig => exact h
    case other => cases h
  have ha : AllFresh time now (rrs.filter counted) ↔ AllFresh time now rrs := by
    simp [AllFresh, counted]
  rw [Decides, resign, resignFrom_eq_none_iff (Nat.zero_le _), Nat.zero_add]
  split
  case isTrue h =>
    have hm : (∃ rr ∈ rrs.filter counted, rr.coversSOA) ↔ ∃ rr ∈ rrs, rr.coversSOA := by
      simp only [mem_filter]
      exact exists_congr fun rr => ⟨fun hm => ⟨hm.1.1, hm.2⟩, fun hm => ⟨⟨hm.1, hc rr hm.2⟩, hm.2⟩⟩
    rw [take_of_length_le h, take_of_length_le (by omega), hm, ha]
    by_cases he : ∃ rr ∈ rrs, rr.coversSOA
    case pos => simp [he, h]
    case neg =>
      have hv : AllFresh time now rrs := fun _ _ hr => absurd ⟨_, hr, rfl⟩ he
      simp [he, h, hv]
  case isFalse h =>
    simp only [h, false_and, and_false, false_iff, not_and_or, not_exists]
    simp [imp_iff_not_or]

end

namespace Sample

def time (t : UInt32) : Time :=
  t.toNat * second

def now : Time :=
  2 * 86400 * second

def signature : Parsed :=
  .rrsig .soa 86400 (86400 * 33)

def long : List Parsed :=
  .other :: signature :: List.replicate 99 .other

end Sample

open Sample

-- A zone that is not signed at all is left as it is, and one with a hundred records and the signature is signed
-- again at each check.
theorem not_decides_unsigned :
    (resign time now ⟨[.other], none⟩ = none ∧ ¬Decides time now [.other]) ∧
    (resign time now ⟨long, none⟩ = some .noSOA ∧
      ¬Decides time now long) := by
  have hs : resign time now ⟨[.other], none⟩ = none := by decide
  have hl : resign time now ⟨long, none⟩ = some .noSOA := by decide +kernel
  refine ⟨⟨hs, fun h => absurd (h.mp hs).1 (by decide)⟩, hl, fun h => ?_⟩
  have hm : ∀ rr ∈ (long.filter counted).take 101, rr = .other ∨ rr = signature := by decide +kernel
  have hf : AllFresh time now ((long.filter counted).take 101) := by
    intro inception expiration hr
    obtain hr | hr := hm _ hr
    case inl => cases hr
    case inr =>
      cases hr
      exact ⟨by decide, by decide, by decide⟩
  have hn := h.mpr ⟨by decide +kernel, hf⟩
  rw [hl] at hn
  cases hn

end Sign
