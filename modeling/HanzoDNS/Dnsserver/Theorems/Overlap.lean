import HanzoDNS.Dnsserver.Register

open Strings List Function

namespace Dnsserver

open ZoneAddr ZoneOverlap

-- The same zone, port and transport, with one of them bound to an address and the other one not.
structure ZoneAddr.Overlaps (a b : ZoneAddr) : Prop where
  unbound : a.unbound = b.unbound
  address : a.address = [] ↔ b.address ≠ []

-- Two listeners that cannot both be served: both without filters and for the same, or one of them without filters and
-- overlapping.
def Conflicting (l l' : Listener) : Prop :=
  ¬l.filtered ∧ ¬l'.filtered ∧ l.addr = l'.addr ∨ (¬l.filtered ∨ ¬l'.filtered) ∧ l.addr.Overlaps l'.addr

def Compatible (ls : List Listener) : Prop :=
  ls.Pairwise fun l l' => ¬Conflicting l l'

-- Whether configs are accepted does not depend on their order, but on conflicts only.
structure Exact (configs : List (Config μ)) : Prop where
  perm : ∀ configs' : List (Config μ), configs'.Perm configs →
    (validateZonesAndListeningAddresses configs' = none ↔ validateZonesAndListeningAddresses configs = none)
  compatible : validateZonesAndListeningAddresses configs = none ↔ Compatible (listeners configs)

namespace ZoneAddr

variable {a b : ZoneAddr}

theorem eq_unbound_iff : a = a.unbound ↔ a.address = [] := by
  simp [ZoneAddr.ext_iff, unbound]

theorem Overlaps.symm (h : a.Overlaps b) : b.Overlaps a where
  unbound := h.unbound.symm
  address := by
    have ha := h.address
    tauto

theorem Overlaps.irrefl : ¬a.Overlaps a := by
  intro h
  have ha := h.address
  tauto

end ZoneAddr

theorem Conflicting.symm {l l' : Listener} (h : Conflicting l l') : Conflicting l' l := by
  obtain ⟨hf, hf', he⟩ | ⟨hf, ho⟩ := h
  · exact .inl ⟨hf', hf, he.symm⟩
  · exact .inr ⟨hf.symm, ho.symm⟩

def ZoneAddr.Blocks (a : ZoneAddr) (l : Listener) : Prop :=
  ¬l.filtered ∧ a = l.addr ∨ a.Overlaps l.addr

theorem conflicting_iff {l l' : Listener} :
    Conflicting l l' ↔ ¬l.filtered ∧ l.addr.Blocks l' ∨ ¬l'.filtered ∧ l'.addr.Blocks l := by
  have ho : l.addr.Overlaps l'.addr ↔ l'.addr.Overlaps l.addr := ⟨.symm, .symm⟩
  have he : l.addr = l'.addr ↔ l'.addr = l.addr := eq_comm
  rw [Conflicting, ZoneAddr.Blocks, ZoneAddr.Blocks]
  tauto

theorem Compatible.perm {ls ls' : List Listener} (h : ls.Perm ls') : Compatible ls ↔ Compatible ls' :=
  h.pairwise_iff fun hn hc => hn hc.symm

namespace ZoneOverlap

structure Has (zo : ZoneOverlap) (rs : List ZoneAddr) : Prop where
  registered : ∀ z, zo.registeredAddr z ↔ z ∈ rs
  some : ∀ z a, zo.unboundOverlap z = some a → a ∈ rs ∧ a.unbound = z
  none : ∀ z, zo.unboundOverlap z = none → ∀ a ∈ rs, a.unbound ≠ z

variable {zo : ZoneOverlap} {rs : List ZoneAddr} {z : ZoneAddr}

theorem Has.empty : Has {} [] where
  registered _ := by simp
  some _ _ h := by cases h
  none _ _ := forall_mem_nil _

theorem Has.register (h : zo.Has rs) (z : ZoneAddr) : (zo.register z).Has (z :: rs) where
  registered x := by
    simp only [ZoneOverlap.register, update_apply, mem_cons, ←h.registered]
    split <;> simp_all
  some x a hx := by
    simp only [ZoneOverlap.register, update_apply] at hx
    split at hx
    case isTrue he =>
      obtain rfl := Option.some.inj hx
      exact ⟨mem_cons_self, he.symm⟩
    case isFalse =>
      obtain ⟨hm, hu⟩ := h.some x a hx
      exact ⟨mem_cons_of_mem z hm, hu⟩
  none x hx := by
    simp only [ZoneOverlap.register, update_apply] at hx
    split at hx
    case isTrue => cases hx
    case isFalse hn => exact forall_mem_cons.mpr ⟨Ne.symm hn, h.none x hx⟩

theorem check_cases (h : zo.Has rs) (z : ZoneAddr) : z ∈ rs ∧ zo.check z = some (.exists z) ∨
    z ∉ rs ∧ (∃ a ∈ rs, a.Overlaps z) ∧ (∃ other, zo.check z = some (.overlap z other)) ∨
    z ∉ rs ∧ (∀ a ∈ rs, ¬a.Overlaps z) ∧ zo.check z = none := by
  rw [check]
  split
  case isTrue hr => exact .inl ⟨(h.registered z).mp hr, rfl⟩
  case isFalse hr =>
    have hz : z ∉ rs := fun hz => hr ((h.registered z).mpr hz)
    refine .inr ?_
    split
    case h_1 already ha =>
      obtain ⟨hm, hu⟩ := h.some _ _ ha
      split
      case isTrue he =>
        -- What is registered is bound, as it would be `z` otherwise.
        have hb : already.address ≠ [] := by
          intro hb
          rw [←eq_unbound_iff.mpr hb, ←eq_unbound_iff.mpr he] at hu
          exact hz (hu ▸ hm)
        exact .inl ⟨hz, ⟨already, hm, hu, by simp [hb, he]⟩, _, rfl⟩
      case isFalse he =>
        split
        case isTrue hr =>
          have hu : z.unbound.unbound = z.unbound := rfl
          exact .inl ⟨hz, ⟨z.unbound, (h.registered _).mp hr, hu, by simp [he, unbound]⟩, _, rfl⟩
        case isFalse hr =>
          refine .inr ⟨hz, fun a hm ho => hr ((h.registered _).mpr ?_), rfl⟩
          rw [←ho.unbound, ←eq_unbound_iff.mpr (ho.address.mpr he)]
          exact hm
    case h_2 hn => exact .inr ⟨hz, fun a hm ho => h.none _ hn a hm ho.unbound, rfl⟩

end ZoneOverlap

variable {zo : ZoneOverlap} {rs : List ZoneAddr} {ls : List Listener}

theorem validate_eq_none_iff (h : zo.Has rs) (hr : rs.Pairwise fun a b => ¬a.Overlaps b) :
    validate zo ls = none ↔ (∀ l ∈ ls, ∀ a ∈ rs, ¬a.Blocks l) ∧
      ls.Pairwise fun l l' => ¬l.filtered → ¬l.addr.Blocks l' := by
  induction ls generalizing zo rs
  case nil => simp [validate]
  case cons l ls hi =>
    rw [forall_mem_cons, pairwise_cons, validate]
    -- A listener with filters is not registered.
    have hskip (hf : l.filtered) (hclear : ∀ a ∈ rs, ¬a.Overlaps l.addr) : validate zo ls = none ↔
        ((∀ a ∈ rs, ¬a.Blocks l) ∧ ∀ l ∈ ls, ∀ a ∈ rs, ¬a.Blocks l) ∧
          (∀ l' ∈ ls, ¬l.filtered → ¬l.addr.Blocks l') ∧ ls.Pairwise fun l l' => ¬l.filtered → ¬l.addr.Blocks l' := by
      have hb : ∀ a ∈ rs, ¬a.Blocks l := fun a ha hb => hb.elim (fun hn => hn.1 hf) (hclear a ha)
      rw [hi h hr]
      exact ⟨fun hn => ⟨⟨hb, hn.1⟩, fun _ _ hn => absurd hf hn, hn.2⟩, fun hn => ⟨hn.1.2, hn.2.2⟩⟩
    obtain ⟨hm, hc⟩ | ⟨hm, ⟨a, ha, ho⟩, other, hc⟩ | ⟨hm, ho, hc⟩ := check_cases h l.addr
    case inl =>
      rw [hc]
      dsimp only
      split
      case isFalse hf => exact iff_of_false (by simp) fun hn => hn.1.1 l.addr hm (.inl ⟨hf, rfl⟩)
      case isTrue hf =>
        refine hskip hf fun a ha ho => ?_
        have hsymm : Std.Symm fun a b : ZoneAddr => ¬a.Overlaps b := ⟨fun _ _ hn ho => hn ho.symm⟩
        by_cases he : a = l.addr
        case pos => exact ZoneAddr.Overlaps.irrefl (he ▸ ho)
        case neg => exact hr.forall ha hm he ho
    case inr.inl =>
      rw [hc]
      exact iff_of_false (by simp) fun hn => hn.1.1 a ha (.inr ho)
    case inr.inr =>
      rw [hc]
      dsimp only
      split
      case isTrue hf => exact hskip hf ho
      case isFalse hf =>
        have hr' : (l.addr :: rs).Pairwise fun a b => ¬a.Overlaps b :=
          pairwise_cons.mpr ⟨fun a ha hb => ho a ha hb.symm, hr⟩
        have hb : ∀ a ∈ rs, ¬a.Blocks l := fun a ha hb => hb.elim (fun he => hm (he.2 ▸ ha)) (ho a ha)
        simp only [hi (h.register l.addr) hr', forall_mem_cons]
        constructor
        case mp => exact fun hn => ⟨⟨hb, fun l' hl' => (hn.1 l' hl').2⟩, fun l' hl' _ => (hn.1 l' hl').1, hn.2⟩
        case mpr => exact fun hn => ⟨fun l' hl' => ⟨hn.2.1 l' hl' hf, hn.1.2 l' hl'⟩, hn.2.2⟩

theorem validate_empty_iff :
    validate {} ls = none ↔ ls.Pairwise fun l l' => ¬l.filtered → ¬l.addr.Blocks l' := by
  simp [validate_eq_none_iff .empty .nil]

theorem Compatible.validate (h : Compatible ls) : validate {} ls = none :=
  validate_empty_iff.mpr (h.imp fun hn hf hb => hn (conflicting_iff.mpr (.inl ⟨hf, hb⟩)))

-- Listeners without filters are not accepted if they are in conflict, wherever they are.
theorem compatible_of_validate (h : Dnsserver.validate {} ls = none) : Compatible (ls.filter (!·.filtered)) := by
  refine ((validate_empty_iff.mp h).filter _).imp_of_mem fun {l l'} hl hl' hn hc => ?_
  have hf : ¬l.filtered := by simpa using (mem_filter.mp hl).2
  have hf' : ¬l'.filtered := by simpa using (mem_filter.mp hl').2
  obtain ⟨-, -, he⟩ | ⟨-, ho⟩ := hc
  · exact hn hf (.inl ⟨hf', he⟩)
  · exact hn hf (.inr ho)

section Exact

variable {configs : List (Config μ)}

theorem listeners_perm {configs' : List (Config μ)} (h : configs'.Perm configs) :
    (listeners configs').Perm (listeners configs) :=
  h.flatMap_right _

theorem filter_listeners (configs : List (Config μ)) :
    (listeners configs).filter (!·.filtered) = listeners (configs.filter (·.filterFuncs.isEmpty)) := by
  simp only [listeners, filter_flatMap, filter_map, comp_def, Bool.not_not]
  induction configs
  case nil => rfl
  case cons c configs hi =>
    rw [flatMap_cons, hi, filter_cons]
    cases hc : c.filterFuncs.isEmpty <;> simp [hc]

theorem exists_perm (configs : List (Config μ)) : ∃ configs', configs'.Perm configs ∧
    ∃ ls, (∀ l ∈ ls, l.filtered) ∧ listeners configs' = ls ++ (listeners configs).filter (!·.filtered) := by
  refine ⟨configs.filter (!·.filterFuncs.isEmpty) ++ configs.filter (·.filterFuncs.isEmpty), ?_,
    listeners (configs.filter (!·.filterFuncs.isEmpty)), ?_, ?_⟩
  · have hp := filter_append_perm (fun c : Config μ => !c.filterFuncs.isEmpty) configs
    simpa using hp
  · intro l hl
    obtain ⟨c, hc, hl⟩ := mem_flatMap.mp hl
    obtain ⟨h, -, rfl⟩ := mem_map.mp hl
    exact (mem_filter.mp hc).2
  · rw [listeners, flatMap_append]
    exact congrArg _ (filter_listeners configs).symm

theorem exact_iff : Exact configs ↔
    (Compatible ((listeners configs).filter (!·.filtered)) → Compatible (listeners configs)) := by
  constructor
  case mp =>
    intro h hu
    obtain ⟨configs', hp, ls, hf, heq⟩ := exists_perm configs
    rw [←h.compatible, ←h.perm configs' hp, validateZonesAndListeningAddresses, heq, validate_empty_iff,
      pairwise_append]
    refine ⟨pairwise_of_forall_mem_list fun l hl _ _ hn => absurd (hf l hl) hn, ?_,
      fun l hl _ _ hn => absurd (hf l hl) hn⟩
    exact validate_empty_iff.mp hu.validate
  case mpr =>
    intro h
    have hiff (configs' : List (Config μ)) (hp : configs'.Perm configs) :
        validateZonesAndListeningAddresses configs' = none ↔ Compatible (listeners configs) := by
      have hl := listeners_perm hp
      constructor
      case mp => exact fun hv => h ((Compatible.perm (hl.filter _)).mp (compatible_of_validate hv))
      case mpr => exact fun hc => ((Compatible.perm hl).mpr hc).validate
    exact ⟨fun configs' hp => (hiff configs' hp).trans (hiff configs .rfl).symm, hiff configs .rfl⟩

end Exact

namespace Sample

def view : Config Unit where
  zone := "example."
  port := "53"
  transport := "dns"
  filterFuncs := [fun _ _ => true]

def bound : Config Unit where
  zone := "example."
  port := "53"
  transport := "dns"
  listenHosts := ["127.0.0.1".toList]

end Sample

-- It depends on their order whether the overlap is noticed.
theorem not_exact_view : validateZonesAndListeningAddresses [Sample.view, Sample.bound] = none ∧
    validateZonesAndListeningAddresses [Sample.bound, Sample.view] ≠ none ∧ ¬Exact [Sample.view, Sample.bound] := by
  have hv : validateZonesAndListeningAddresses [Sample.view, Sample.bound] = none := by decide
  have hb : validateZonesAndListeningAddresses [Sample.bound, Sample.view] ≠ none := by decide
  exact ⟨hv, hb, fun h => hb ((h.perm _ (.swap ..)).mpr hv)⟩

end Dnsserver
