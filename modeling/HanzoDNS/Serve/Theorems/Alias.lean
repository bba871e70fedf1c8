import HanzoDNS.Serve.Record
import HanzoDNS.Serve.Theorems.Isolation
import HanzoDNS.Store.Theorems.Mirror

open Strings List Multiset

namespace Hanzodns

-- The library compares the labels of a name and of its parent as they are written, regardless of case.
def Textual (isSubDomain : Str → Str → Bool) : Prop :=
  ∀ zone qname, zone ≠ [] → toLower zone = zone → toLower qname = qname → ['.'] <:+ qname →
    isSubDomain zone qname → zone <:+ qname

def Record.aliasRR (rec : Record) (qname : Str) : RR where
  name := qname
  rrtype := 5
  ttl := rec.ttl
  data := .cname (withDot rec.content)

variable {isSubDomain : Str → Str → Bool} {through : Str → Bool} {s : Store} {zd : ZoneData} {zs : List Str}
variable {rec : Record} {qname : Str} {qtype : UInt16}

theorem toLower_ownerName {name zone : Str} : toLower (ownerName name zone) = ownerName name zone :=
  toLower_idem _

theorem dot_suffix_ownerName {name : Str} : ['.'] <:+ ownerName name zd.name := by
  have hd : toLower ['.'] = ['.'] := by decide
  have hz : ['.'] <:+ zd.name := by
    rw [ZoneData.name, ← zd.norm]
    exact dot_suffix_normZone _
  obtain ⟨t, ht⟩ : ['.'] <:+ Store.fqdn name zd.name := by
    rw [Store.fqdn]
    split
    case isTrue => exact hz
    split
    case isTrue hs => exact hasSuffix_iff.mp hs
    case isFalse => exact hz.trans (suffix_append ..)
  exact ⟨toLower t, by rw [ownerName, ← ht, toLower_append, hd]⟩

theorem mem_lookup (hl : Textual isSubDomain) (hz : zd ∈ s.zones.values) (hr : rec ∈ zd.records.values)
    (hq : isSubDomain zd.name (ownerName rec.name zd.name)) :
    rec ∈ s.lookup (ownerName rec.name zd.name) rec.type := by
  have hs : zd.name <:+ ownerName rec.name zd.name :=
    hl _ _ zd.name_ne_nil (Store.toLower_name zd) toLower_ownerName dot_suffix_ownerName hq
  refine mem_bind.mpr ⟨zd, hz, ?_⟩
  rw [ZoneData.answers, toLower_ownerName, if_pos (hasSuffix_iff.mpr hs)]
  exact mem_filter.mpr ⟨hr, rfl, rfl⟩

theorem type_of_mem_lookup {type : RecordType} (h : rec ∈ s.lookup qname type) : rec.type = type := by
  obtain ⟨zd, -, hm⟩ := mem_bind.mp h
  rw [ZoneData.answers] at hm
  split at hm
  case isTrue => exact (mem_filter.mp hm).right.right
  case isFalse => exact absurd hm (notMem_zero rec)

theorem stringToType_qtypeToString (h : qtypeToString qtype ≠ []) : stringToType (qtypeToString qtype) = qtype := by
  unfold qtypeToString at h ⊢
  split at h
  all_goals first | rfl | exact absurd rfl h

theorem rrtype_of_serveDNS {rrs : Multiset RR} {rr : RR} (ht : qtypeToString qtype ≠ [])
    (h : serveDNS isSubDomain through toRR s zs qname qtype = .answer rrs) (hr : rr ∈ rrs) : rr.rrtype = qtype := by
  obtain ⟨rfl, -⟩ := serveDNS_answer h
  obtain ⟨rec, hm, hd⟩ := (mem_filterMap _ _).mp hr
  obtain ⟨data, -, rfl⟩ := Option.map_eq_some_iff.mp hd
  rw [type_of_mem_lookup hm, stringToType_qtypeToString ht]

theorem toRR_alias (ht : rec.type = "CNAME".toList) : toRR rec qname = some (rec.aliasRR qname) := by
  rw [toRR, Record.data, ht]
  rfl

-- Of the queries for the name of an alias, those for aliases are answered with it.
theorem alias_answered_iff (hl : Textual isSubDomain) (hn : zs = s.zoneNames) (hz : zd ∈ s.zones.values)
    (hr : rec ∈ zd.records.values) (ht : rec.type = "CNAME".toList)
    (hq : isSubDomain zd.name (ownerName rec.name zd.name)) (hs : qtypeToString qtype ≠ []) :
    (∃ rrs, serveDNS isSubDomain through toRR s zs (ownerName rec.name zd.name) qtype = .answer rrs ∧
      rec.aliasRR (ownerName rec.name zd.name) ∈ rrs) ↔ qtype = 5 := by
  constructor
  case mp =>
    rintro ⟨rrs, ha, hm⟩
    exact (rrtype_of_serveDNS hs ha hm).symm
  case mpr =>
    rintro rfl
    have hm := mem_lookup hl hz hr hq
    rw [ht] at hm
    have hne : s.lookup (ownerName rec.name zd.name) "CNAME" ≠ 0 := fun h => notMem_zero rec (h ▸ hm)
    have hmatch : Plugin.Zones.matches isSubDomain zs (ownerName rec.name zd.name) ≠ [] := fun h =>
      zd.name_ne_nil (Plugin.Zones.matches_eq_nil_iff.mp h _ ((Store.mem_zoneNames hn).mpr ⟨zd, hz, rfl⟩) hq)
    refine ⟨(s.lookup (ownerName rec.name zd.name) "CNAME").filterMap (toRR · (ownerName rec.name zd.name)), ?_,
      (mem_filterMap _ _).mpr ⟨rec, hm, toRR_alias ht⟩⟩
    simp only [serveDNS]
    rw [if_neg hs, if_neg hmatch]
    exact if_neg hne

theorem isSubDomainLabels_textual : Textual isSubDomainLabels := by
  intro zone qname _ _ _ _ h
  rw [isSubDomainLabels, Bool.or_eq_true, decide_eq_true_iff, isSuffixOf_iff_suffix] at h
  obtain rfl | h := h
  case inl => exact suffix_refl _
  case inr => exact (suffix_cons ..).trans h

def aliased : Store :=
  let e : Env := { now := 0, uuid := fun _ => "id" }
  (newStore.after (.call "acme" e (.createZone "example.com" "authoritative"))).after
    (.call "acme" e (.createRecord "example.com" "www" "CNAME" 300 "example.org" 0 false))

def aliasRecord : Record where
  id := "id"
  name := "www"
  type := "CNAME"
  ttl := 300
  content := "example.org"
  priority := 0
  proxied := false
  createdAt := 0
  updatedAt := 0

theorem aliased_zone :
    ∃ zd ∈ aliased.zones.values, zd.name = "example.com.".toList ∧ aliasRecord ∈ zd.records.values := by
  have ⟨zd, hz, hr⟩ : ∃ zd ∈ aliased.zones.get "example.com.", aliasRecord ∈ zd.records.values := by decide +kernel
  exact ⟨zd, Table.mem_values_of_get hz, Table.key_eq hz, hr⟩

theorem aliased_zoneNames : ["example.com.".toList] = aliased.zoneNames := by
  decide +kernel

theorem alias_not_answered :
    (∃ zd ∈ aliased.zones.values, zd.name = "example.com.".toList ∧ aliasRecord ∈ zd.records.values) ∧
      serveDNS isSubDomainLabels (fun _ => false) toRR aliased ["example.com.".toList]
        (ownerName "www" "example.com.") 1 = .serverFailure := by
  have hl : aliased.lookup (ownerName "www" "example.com.") (qtypeToString 1) = 0 := by decide +kernel
  refine ⟨aliased_zone, ?_⟩
  simp only [serveDNS]
  rw [hl, if_neg (by decide), if_neg (by decide)]
  rfl

theorem alias_answered_www :
    ∃ rrs, serveDNS isSubDomainLabels (fun _ => false) toRR aliased ["example.com.".toList]
      (ownerName "www" "example.com.") 5 = .answer rrs ∧ aliasRecord.aliasRR (ownerName "www" "example.com.") ∈ rrs := by
  obtain ⟨zd, hz, hn, hr⟩ := aliased_zone
  have ha := @alias_answered_iff isSubDomainLabels (fun _ => false) aliased zd _ aliasRecord 5 isSubDomainLabels_textual
    aliased_zoneNames hz hr rfl (hn ▸ by decide) (by decide)
  rw [hn] at ha
  exact ha.mpr rfl

end Hanzodns
