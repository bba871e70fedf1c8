import HanzoDNS.Dnsserver.Register
import HanzoDNS.Dnsserver.Theorems.Dispatch

open Dns Strings Domain List

namespace Dnsserver

def SameName (z z' : Str) : Prop :=
  ∃ m m' : Name, z = m.text ∧ z' = m'.text ∧ m.map Label.octets = m'.map Label.octets

def Below (z : Str) (n : Name) : Prop :=
  ∃ m : Name, z = m.text ∧ m.map Label.octets <:+ n.map Label.octets

structure Duplicates (l l' : Listener) : Prop where
  unfiltered : ¬l.filtered ∧ ¬l'.filtered
  zone : SameName l.addr.zone l'.addr.zone
  port : l.addr.port = l'.addr.port
  transport : l.addr.transport = l'.addr.transport
  address : l.addr.address = l'.addr.address

-- The names of the queries are those that the DNS library reads from a message.
structure CaseInsensitive (configs : List (Config μ)) : Prop where
  found : c ∈ configs → (∀ l ∈ n, l.Printed) → Below c.zone n → c ∈ candidates configs (visited n ++ [[]])
  reported : listeners configs = ls ++ l :: ls' → l' ∈ ls → Duplicates l' l →
               validateZonesAndListeningAddresses configs = (validate {} ls).or (some (.exists l.addr))

variable {configs : List (Config μ)} {n m m' : Name}

theorem mem_above (h : m <:+ n) (hm : m ≠ []) : m ∈ above n := by
  induction n
  case nil => exact absurd (suffix_nil.mp h) hm
  case cons l n hi =>
    obtain rfl | h := suffix_cons_iff.mp h
    · exact mem_cons_self
    · exact mem_cons_of_mem _ (hi h)

theorem mem_visited (h : m <:+ n) : m ∈ visited n ++ [[]] := by
  by_cases hm : m = []
  case pos => exact mem_append_right _ (mem_singleton.mpr hm)
  case neg =>
    have hn : n ≠ [] := fun hn => hm (suffix_nil.mp (hn ▸ h))
    rw [visited, if_neg hn]
    exact mem_append_left _ (mem_above h hm)

theorem suffix_of_mem_above (h : m ∈ above n) : m <:+ n := by
  induction n
  case nil => cases h
  case cons l n hi =>
    obtain rfl | h := mem_cons.mp h
    · exact suffix_rfl
    · exact (hi h).trans (suffix_cons l n)

theorem suffix_of_mem_visited (h : m ∈ visited n ++ [[]]) : m <:+ n := by
  rw [visited] at h
  split at h
  case isTrue => simp_all
  case isFalse =>
    obtain h | h := mem_append.mp h
    · exact suffix_of_mem_above h
    · exact mem_singleton.mp h ▸ nil_suffix

theorem mem_candidates {c : Config μ} (hc : c ∈ configs) (hl : ∀ m : Name, c.zone = m.text → ∀ l ∈ m, l.Normal)
    (hn : ∀ l ∈ n, l.Printed) (hb : Below c.zone n) : c ∈ candidates configs (visited n ++ [[]]) := by
  obtain ⟨m, hm, x, hx⟩ := hb
  obtain ⟨y, k, rfl, -, hk⟩ := map_eq_append_iff.mp hx.symm
  refine mem_flatMap.mpr ⟨k, mem_visited (suffix_append y k), ?_⟩
  refine mem_filter.mpr ⟨hc, decide_eq_true ?_⟩
  have hn : ∀ l ∈ k.map Label.toLower, l.Normal := forall_mem_map.mpr fun l hl => (hn l (mem_append_right y hl)).toLower
  rw [Name.toLower_text, Name.eq_of_octets hn (hl m hm) (by simpa [Function.comp_def, Label.octets_toLower] using hk), hm]

-- The zone is found by a name from the wire only if it is written as such a name in lower case.
theorem normal_of_mem_candidates {c : Config μ} (hn : ∀ l ∈ n, l.Printed)
    (hc : c ∈ candidates configs (visited n ++ [[]])) (hm : c.zone = m.text) : ∀ l ∈ m, l.Normal := by
  obtain ⟨k, hk, hf⟩ := mem_flatMap.mp hc
  have hz : c.zone = toLower k.text := of_decide_eq_true (mem_filter.mp hf).2
  rw [hm, Name.toLower_text] at hz
  rw [Name.text_injective hz, forall_mem_map]
  exact fun l hl => (hn l ((suffix_of_mem_visited hk).mem hl)).toLower

-- What is registered stays so, and what comes again is reported, unless something else was reported before.
theorem validate_duplicate {zo : ZoneOverlap} {l : Listener} {ls ls' : List Listener} (hl : ¬l.filtered)
    (h : zo.registeredAddr l.addr ∨ ∃ l' ∈ ls, ¬l'.filtered ∧ l'.addr = l.addr) :
    validate zo (ls ++ l :: ls') = (validate zo ls).or (some (.exists l.addr)) := by
  induction ls generalizing zo
  case nil =>
    obtain h | ⟨l', hl', -⟩ := h
    case inl => simp [validate, ZoneOverlap.check, h, hl]
    case inr => cases hl'
  case cons l₀ ls hi =>
    simp only [cons_append, validate]
    cases hc : zo.check l₀.addr
    case some conflict =>
      cases conflict
      case overlap => rfl
      case «exists» z =>
        dsimp only
        split
        case isFalse => rfl
        case isTrue hf =>
          refine hi (h.imp_right ?_)
          rintro ⟨l', hm, hu, ha⟩
          obtain rfl | hm := mem_cons.mp hm
          · exact absurd hf hu
          · exact ⟨l', hm, hu, ha⟩
    case none =>
      apply hi
      obtain h | ⟨l', hm, hu, ha⟩ := h
      case inl =>
        refine .inl ?_
        split
        case isTrue => exact h
        case isFalse => simp [ZoneOverlap.register, Function.update_apply, h]
      case inr =>
        obtain rfl | hm := mem_cons.mp hm
        case inl =>
          refine .inl ?_
          rw [if_neg hu, ZoneOverlap.register, ha]
          exact Function.update_self ..
        case inr => exact .inr ⟨l', hm, hu, ha⟩

theorem listeners_zone {l : Listener} (h : l ∈ listeners configs) : ∃ c ∈ configs, c.zone = l.addr.zone := by
  obtain ⟨c, hc, hl⟩ := mem_flatMap.mp h
  obtain ⟨a, -, rfl⟩ := mem_map.mp hl
  exact ⟨c, hc, rfl⟩

theorem caseInsensitive_iff : CaseInsensitive configs ↔
    ∀ c ∈ configs, ∀ m : Name, c.zone = m.text → ∀ l ∈ m, l.Normal := by
  constructor
  case mp =>
    intro h c hc m hm
    have hn : ∀ l ∈ m.map Label.normal, l.Printed := forall_mem_map.mpr fun l _ => ⟨l.octets, rfl⟩
    have ho : m.map Label.octets = (m.map Label.normal).map Label.octets := by
      rw [map_map]
      exact map_congr_left fun l _ => l.octets_normal.symm
    exact normal_of_mem_candidates hn (h.found hc hn ⟨m, hm, ho ▸ suffix_rfl⟩) hm
  case mpr =>
    intro h
    constructor
    case found => exact fun hc hn hb => mem_candidates hc (h _ hc) hn hb
    case reported =>
      intro ls l ls' l' hs hl' hd
      obtain ⟨m', m, hm', hm, ho⟩ := hd.zone
      have normal {l : Listener} {m : Name} (hl : l ∈ listeners configs) (hm : l.addr.zone = m.text) :
          ∀ l ∈ m, l.Normal := by
        obtain ⟨c, hc, hz⟩ := listeners_zone hl
        exact h c hc m (hz.trans hm)
      have hz : l'.addr.zone = l.addr.zone := by
        rw [hm', hm, Name.eq_of_octets (normal (by simp [hs, hl']) hm') (normal (by simp [hs]) hm) ho]
      have ha : l'.addr = l.addr := ZoneAddr.ext hz hd.port hd.transport hd.address
      rw [validateZonesAndListeningAddresses, hs]
      exact validate_duplicate hd.unfiltered.2 (.inr ⟨l', hl', hd.unfiltered.1, ha⟩)

section Inspect

variable {dns : Labels} {reverse : Str → Option (Str × List Str)} {port : Str} {blocks : List (List Str)}
  {zs : List ZoneAddr}

theorem inspectKey_spec {k : Str} (h : inspectKey dns reverse port k = .ok zs) :
    ∃ hosts p, Plugin.splitHostPort dns reverse (parseTransport k).2 = .ok (hosts, p) ∧
      zs.map (·.zone) = hosts.map dns.fqdn := by
  rw [inspectKey] at h
  cases hk : Plugin.splitHostPort dns reverse (parseTransport k).2
  case error =>
    rw [hk] at h
    cases h
  case ok x =>
    refine ⟨x.1, x.2, rfl, ?_⟩
    rw [hk] at h
    simp only [bind, Except.bind] at h
    cases hm : x.1.mapM fun h => Plugin.splitHostPort dns reverse (dns.fqdn h)
    case error =>
      rw [hm] at h
      cases h
    case ok =>
      rw [hm] at h
      cases h
      simp

theorem exists_ok_of_mapM {f : α → Except ε β} {as : List α} {bs : List β} (h : as.mapM f = .ok bs) {a : α}
    (ha : a ∈ as) : ∃ b, f a = .ok b := by
  induction as generalizing bs
  case nil => cases ha
  case cons a' as hi =>
    rw [mapM_cons] at h
    cases hf : f a'
    case error =>
      rw [hf] at h
      cases h
    case ok b =>
      obtain rfl | ha := mem_cons.mp ha
      case inl => exact ⟨b, hf⟩
      case inr =>
        cases hm : as.mapM f
        case error =>
          rw [hf, hm] at h
          cases h
        case ok => exact hi hm ha

theorem mapM_ok {f : α → Except ε (List β)} {as : List α} {bs : List (List β)} (h : as.mapM f = .ok bs) {b : β} :
    b ∈ bs.flatten ↔ ∃ a ∈ as, ∃ bs', f a = .ok bs' ∧ b ∈ bs' := by
  induction as generalizing bs
  case nil =>
    cases h
    simp
  case cons a as hi =>
    rw [mapM_cons] at h
    cases ha : f a
    case error =>
      rw [ha] at h
      cases h
    case ok bs₁ =>
      cases hm : as.mapM f
      case error =>
        rw [ha, hm] at h
        cases h
      case ok bs₂ =>
        rw [ha, hm] at h
        cases h
        rw [flatten_cons, mem_append, hi hm, exists_mem_cons_iff]
        simp [ha]

theorem mem_zones {ks : List Str} {zss : List (List ZoneAddr)} (hm : ks.mapM (inspectKey dns reverse port) = .ok zss)
    {z : Str} : z ∈ zss.flatten.map (·.zone) ↔ ∃ k ∈ ks, ∃ hosts p,
      Plugin.splitHostPort dns reverse (parseTransport k).2 = .ok (hosts, p) ∧ z ∈ hosts.map dns.fqdn := by
  constructor
  case mp =>
    intro h
    obtain ⟨a, ha, rfl⟩ := mem_map.mp h
    obtain ⟨k, hk, zs, hs, hz⟩ := (mapM_ok hm).mp ha
    obtain ⟨hosts, p, hp, he⟩ := inspectKey_spec hs
    exact ⟨k, hk, hosts, p, hp, he ▸ mem_map_of_mem hz⟩
  case mpr =>
    rintro ⟨k, hk, hosts, p, hp, hz⟩
    obtain ⟨zs, hs⟩ := exists_ok_of_mapM hm hk
    obtain ⟨hosts', p', hp', he⟩ := inspectKey_spec hs
    cases hp.symm.trans hp'
    rw [←he] at hz
    obtain ⟨a, ha, rfl⟩ := mem_map.mp hz
    exact mem_map_of_mem ((mapM_ok hm).mpr ⟨k, hk, zs, hs, ha⟩)

end Inspect

namespace Views

def listening (zone : Str) : Config Unit :=
  { config zone [] with port := "53", transport := "dns" }

end Views

open Views

end Dnsserver
