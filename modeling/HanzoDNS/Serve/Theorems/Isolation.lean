import HanzoDNS.Plugin.Theorems.Zones
import HanzoDNS.Serve.Basic
import HanzoDNS.Store.Theorems.Change
import HanzoDNS.Store.Theorems.Restart

open Strings Multiset

namespace Hanzodns

open Table Plugin.Zones Store

variable (isSubDomain : Str → Str → Bool)

-- The zone `z` is the only longest one in the store that a name lies in.
def Governs (s : Store) (z name : Str) : Prop :=
  isSubDomain z name ∧
    ∀ zd ∈ s.zones.values, isSubDomain zd.name name → zd.name = z ∨ len zd.name < len z

instance : Decidable (Governs isSubDomain s z name) :=
  inferInstanceAs <| Decidable (_ ∧ _)

-- Every record that can show up in an answer is a record of the zone that governs its owner name.
def Store.Confined (s : Store) : Prop :=
  ∀ zd ∈ s.zones.values, ∀ r ∈ zd.records.values, zd.name <:+ ownerName r.name zd.name →
    Governs isSubDomain s zd.name (ownerName r.name zd.name)

-- The org already has a zone that takes precedence over the zone `z` for a name.
def Overrides (s : Store) (org : Org) (z name : Str) : Prop :=
  ∃ zd ∈ s.zones.values, zd.zone.org = org ∧ isSubDomain zd.name name ∧ len z < len zd.name

instance : Decidable (Overrides isSubDomain s org z name) :=
  Multiset.decidableExistsMultiset

namespace Call

def creates : Call → Bool
  | createZone .. | bulkSync _ => true
  | _ => false

-- The call gets to write: its zone belongs to the caller, or is about to be created.
def reaches (s : Store) (org : Org) (c : Call) : Bool :=
  match s.zones.get c.key with
  | some zd => zd.zone.org = org
  | none => c.creates

-- What a call has to respect. The three conditions are about the names that the call brings into its
-- zone, about the names that are already served from other zones when it creates a zone, and about the
-- zones of other orgs when it creates a zone that has records from the start.
structure Confined (s : Store) (org : Org) (c : Call) : Prop where
  names : ∀ n ∈ c.names, c.key <:+ ownerName n c.key →
    Governs isSubDomain s c.key (ownerName n c.key)
  zone : s.zones.get c.key = none →
    ∀ zd ∈ s.zones.values, ∀ r ∈ zd.records.values, zd.name <:+ ownerName r.name zd.name →
      isSubDomain c.key (ownerName r.name zd.name) → len c.key < len zd.name
  owner : s.zones.get c.key = none →
    ∀ n ∈ c.names, c.key <:+ ownerName n c.key →
      ∀ zd ∈ s.zones.values, isSubDomain zd.name (ownerName n c.key) → zd.zone.org ≠ org →
        Overrides isSubDomain s org zd.name (ownerName n c.key)

instance {c : Call} : Decidable (c.Confined isSubDomain s org) :=
  decidable_of_iff (_ ∧ _ ∧ _) ⟨fun ⟨h₁, h₂, h₃⟩ => ⟨h₁, h₂, h₃⟩, fun h => ⟨h.names, h.zone, h.owner⟩⟩

end Call

def Event.org : Event → Option Org
  | .call org .. => org
  | .restart => none

-- Restarts are always fine, and so are calls that do not get to write.
def Event.Confined (s : Store) : Event → Prop
  | .call org _ c => c.reaches s org → c.Confined isSubDomain s org
  | .restart => True

instance : (ev : Event) → Decidable (ev.Confined isSubDomain s)
  | .call .. => inferInstanceAs <| Decidable (_ → _)
  | .restart => .isTrue trivial

def Store.ConfinedStep (s₁ : Store) (ev : Event) (s₂ : Store) : Prop :=
  ev.Confined isSubDomain s₁ ∧ s₁.after ev = s₂

variable {isSubDomain}

namespace Store

variable {s s' : Store} {e : Env} {org : Org} {qname : Str} {qtype : RecordType} {zd zd' : ZoneData}

theorem mem_values_set (h : zd' ∈ (s.set zd).zones.values) : zd' = zd ∨ zd' ∈ s.zones.values :=
  mem_values_put h |>.imp_right And.left

theorem mem_zoneNames {zs : List Str} (h : zs = s.zoneNames) : z ∈ zs ↔ ∃ zd ∈ s.zones.values, zd.name = z := by
  rw [←mem_coe, h, zoneNames, keys_val, mem_map]

theorem governs_matches (h : Governs isSubDomain s zd.name qname) (hz : zd ∈ s.zones.values)
    {zs : List Str} (hn : zs = s.zoneNames) : Plugin.Zones.matches isSubDomain zs qname = zd.name := by
  apply Plugin.Zones.matches_eq
  case hz => exact mem_zoneNames hn |>.mpr ⟨zd, hz, rfl⟩
  case hn => exact zd.name_ne_nil
  case hs => exact h.left
  case h =>
    intro z' hz' hs'
    obtain ⟨zd', hm, rfl⟩ := mem_zoneNames hn |>.mp hz'
    exact h.right zd' hm hs'

theorem lookup_eq_add (s : Store) (k : Str) :
    s.lookup qname qtype = (s.zones.get k).elim 0 (·.answers (toLower qname) qtype) +
      (s.zones.drop k).values.bind (·.answers (toLower qname) qtype) := by
  rw [lookup, values_eq_add s.zones k, add_bind]
  cases s.zones.get k <;> simp

end Store

theorem ZoneData.answers_eq_zero {zd : ZoneData}
    (h : ∀ r ∈ zd.records.values, zd.name <:+ ownerName r.name zd.name → ownerName r.name zd.name ≠ qname) :
    zd.answers qname qtype = 0 := by
  simp only [answers]
  split
  case isFalse => rfl
  case isTrue hs =>
    refine filter_eq_nil.mpr fun r hr ⟨ho, _⟩ => ?_
    subst ho
    exact h r hr (hasSuffix_iff.mp hs) rfl

section

variable {s : Store} {zd : ZoneData} {zs : List Str} {qname : Str} {qtype : RecordType}

theorem Store.Confined.answers_eq_zero (h : s.Confined isSubDomain) (hz : zd ∈ s.zones.values)
    (hn : zs = s.zoneNames) (hm : Plugin.Zones.matches isSubDomain zs qname ≠ zd.name) :
    zd.answers qname qtype = 0 := by
  apply ZoneData.answers_eq_zero
  rintro r hr hs rfl
  exact hm <| governs_matches (h zd hz r hr hs) hz hn

theorem Store.Confined.lookup_eq (h : s.Confined isSubDomain) (hn : zs = s.zoneNames) : s.lookup qname qtype =
      (s.zones.get (Plugin.Zones.matches isSubDomain zs (toLower qname))).elim 0
        (·.answers (toLower qname) qtype) := by
  rw [lookup_eq_add s (Plugin.Zones.matches isSubDomain zs (toLower qname))]
  rw [bind_congr (g := fun _ => 0), bind_zero, add_zero]
  intro zd hz
  have ⟨hz, hk⟩ := Table.mem_values_drop_iff.mp hz
  exact h.answers_eq_zero hz hn hk.symm

end

section

variable {s s' : Store} {e : Env} {org : Org} {c : Call}

theorem Store.exec_of_not_reaches (h : ¬c.reaches s org) : (s.exec e org c).store = s := by
  simp only [Call.reaches] at h
  cases hg : s.zones.get c.key <;> simp only [hg, decide_eq_true_eq] at h
  case some zd => exact (exec_change c).eq_of_foreign hg h
  case none =>
    -- Only the two calls that create zones do anything to an absent zone.
    cases c <;> simp_all [Call.creates, Call.key, exec, perform, deleteZone, createRecord, updateRecord,
      deleteRecord, putMirror, dropMirror, zoneForOrg]
    all_goals split <;> (try split) <;> rfl

-- The names in a zone after an update are either old or governed because of the condition.
theorem Call.Confined.governs (hc : c.Confined isSubDomain s org) (h : s.Confined isSubDomain)
    (hz : s.zones.get c.key = some zd)
    (hr : n ∈ c.names ∨ ∃ r ∈ zd.records.values, r.name = n) (hs : c.key <:+ ownerName n c.key) :
    Governs isSubDomain s c.key (ownerName n c.key) := by
  obtain hn | ⟨r, hr, hn⟩ := hr
  case inl => exact hc.names _ hn hs
  case inr =>
    have hk : zd.name = c.key := key_eq hz
    have := h zd (mem_values_of_get hz) r hr
    rw [hk, hn] at this
    exact this hs

theorem Call.Confined.preserves (hc : c.Confined isSubDomain s org) (h : s.Confined isSubDomain)
    (ch : Change s org c.key c.names s') : s'.Confined isSubDomain := by
  cases ch
  case keep => exact h
  case create zd fresh name _ records =>
    intro zd₁ hm₁ r hr hs
    obtain rfl | hz₁ := mem_values_set hm₁
    case inl =>
      rw [name] at hs ⊢
      have hg := hc.names _ (records r hr) hs
      refine ⟨hg.left, fun zd₂ hm₂ hs₂ => ?_⟩
      obtain rfl | hz₂ := mem_values_set hm₂
      · exact .inl name
      · exact hg.right zd₂ hz₂ hs₂
    case inr =>
      have hg := h zd₁ hz₁ r hr hs
      refine ⟨hg.left, fun zd₂ hm₂ hs₂ => ?_⟩
      obtain rfl | hz₂ := mem_values_set hm₂
      · exact .inr <| name ▸ hc.zone fresh zd₁ hz₁ r hr hs (name ▸ hs₂)
      · exact hg.right zd₂ hz₂ hs₂
  case update zd zd' mem _ zone records =>
    have hk : zd.name = c.key := key_eq mem
    have hk' : zd'.name = c.key := Change.name_eq mem zone
    -- The names of the zones are the same before and after.
    have lift {z n} (hg : Governs isSubDomain s z n) : Governs isSubDomain (s.set zd') z n := by
      refine ⟨hg.left, fun zd₂ hm₂ hs₂ => ?_⟩
      obtain rfl | hz₂ := mem_values_set hm₂
      · rw [hk', ←hk] at hs₂ ⊢
        exact hg.right zd (mem_values_of_get mem) hs₂
      · exact hg.right zd₂ hz₂ hs₂
    intro zd₁ hz₁ r hr hs
    obtain rfl | hz₁ := mem_values_set hz₁
    · rw [hk'] at hs ⊢
      exact lift <| hc.governs h mem (records r hr) hs
    · exact lift <| h zd₁ hz₁ r hr hs
  case delete =>
    intro zd₁ hz₁ r hr hs
    have hg := h zd₁ (mem_values_drop_iff.mp hz₁).left r hr hs
    exact ⟨hg.left, fun zd₂ hz₂ => hg.right zd₂ (mem_values_drop_iff.mp hz₂).left⟩

theorem Store.Confined.restart (h : s.Confined isSubDomain) : s.restart.Confined isSubDomain := by
  intro zd hz r hr hs
  rw [restart_values, mem_map] at hz
  obtain ⟨zd, hz, rfl⟩ := hz
  have hg := h zd hz r hr hs
  refine ⟨hg.left, fun zd₁ hz₁ hs₁ => ?_⟩
  rw [restart_values, mem_map] at hz₁
  obtain ⟨zd₁, hz₁, rfl⟩ := hz₁
  exact hg.right zd₁ hz₁ hs₁

-- A zone of another org is matched. Neither before nor after the call does the zone that the call
-- addresses have anything to say about the query.
theorem Call.Confined.lookup_eq (hc : c.Confined isSubDomain s org) (h : s.Confined isSubDomain)
    (ch : Change s org c.key c.names s') {zs : List Str} (hn : zs = s.zoneNames)
    (hm : s.zones.get (Plugin.Zones.matches isSubDomain zs (toLower qname)) = some zd)
    (ho : zd.zone.org ≠ org) : s'.lookup qname qtype = s.lookup qname qtype := by
  have hd : s'.zones.drop c.key = s.zones.drop c.key := by
    apply Table.get_ext
    intro k
    by_cases hk : k = c.key
    case pos => simp [hk]
    case neg => rw [Table.get_drop_ne hk, Table.get_drop_ne hk, ch.get_ne hk]
  have hk : zd.name = Plugin.Zones.matches isSubDomain zs (toLower qname) := Table.key_eq hm
  have hz : zd ∈ s.zones.values := Table.mem_values_of_get hm
  -- The zone of the call is not the one that is matched, since it has another owner.
  have unmatched {zd₁} (mem : s.zones.get c.key = some zd₁) (owner : zd₁.zone.org = org) :
      Plugin.Zones.matches isSubDomain zs (toLower qname) ≠ c.key := by
    intro he
    rw [he, mem] at hm
    cases hm
    exact ho owner
  rw [Store.lookup_eq_add s' c.key, Store.lookup_eq_add s c.key, hd]
  congr 1
  cases ch
  case keep => rfl
  case create zd₁ fresh name _ records =>
    rw [fresh, ←name, Change.set_get_self]
    apply ZoneData.answers_eq_zero
    intro r hr hs he
    rw [name] at hs he
    have ⟨_, hs₀, hl⟩ := Plugin.Zones.matches_spec zs (hk ▸ zd.name_ne_nil)
    have ⟨zd₂, hz₂, _, hs₂, hl₂⟩ :=
      hc.owner fresh r.name (records r hr) hs zd hz (he ▸ hk ▸ hs₀) ho
    have hl₀ := hl _ (Store.mem_zoneNames hn |>.mpr ⟨zd₂, hz₂, rfl⟩) (he ▸ hs₂)
    rw [←hk] at hl₀
    omega
  case update zd₁ zd₂ mem owner zone records =>
    have hk₁ : zd₁.name = c.key := Table.key_eq mem
    have hk₂ : zd₂.name = c.key := Change.name_eq mem zone
    have hz₁ := Table.mem_values_of_get mem
    rw [mem, ←hk₂, Change.set_get_self]
    simp only [Option.elim]
    rw [h.answers_eq_zero hz₁ hn (hk₁ ▸ unmatched mem owner)]
    apply ZoneData.answers_eq_zero
    intro r hr hs he
    rw [hk₂] at hs he
    have hg := hc.governs h mem (records r hr) hs
    rw [he, ←hk₁] at hg
    exact unmatched mem owner <| hk₁ ▸ Store.governs_matches hg hz₁ hn
  case delete zd₁ mem owner =>
    have hk₁ : zd₁.name = c.key := Table.key_eq mem
    rw [mem, Table.get_drop_self]
    exact h.answers_eq_zero (Table.mem_values_of_get mem) hn (hk₁ ▸ unmatched mem owner) |>.symm

end

theorem serveDNS_answer {toRR : Record → Str → Option ρ}
    (h : serveDNS isSubDomain through toRR s zs qname qtype = .answer rrs) :
    rrs = (s.lookup qname (qtypeToString qtype)).filterMap (toRR · qname) ∧
      s.lookup qname (qtypeToString qtype) ≠ 0 := by
  simp only [serveDNS] at h
  generalize qtypeToString qtype = t at h ⊢
  split at h <;> try split at h <;> try split at h <;> try split at h
  all_goals cases h
  exact ⟨rfl, ‹_›⟩

theorem Store.ConfinedStep.preserves {s₁ s₂ : Store} (h : s₁.Confined isSubDomain)
    (hs : s₁.ConfinedStep isSubDomain ev s₂) : s₂.Confined isSubDomain := by
  obtain ⟨hc, rfl⟩ := hs
  cases ev
  case restart => exact h.restart
  case call org e c =>
    by_cases hr : c.reaches s₁ org
    case pos => exact (hc hr).preserves h (exec_change c)
    case neg => simpa only [after, exec_of_not_reaches hr] using h

-- Serving is isolated in every run of calls that respect the condition. The answers to a query come
-- from the zone that is matched, and none but the owner of that zone can change them.
theorem serving_isolation {s : Store} {evs : List Event} {zs : List Str}
    (run : Steps (Store.ConfinedStep isSubDomain) newStore evs s) (hn : zs = s.zoneNames) :
    (∀ qname qtype, s.lookup qname qtype =
      (s.zones.get (Plugin.Zones.matches isSubDomain zs (toLower qname))).elim 0
        (·.answers (toLower qname) qtype)) ∧
    (∀ {ρ : Type} through (toRR : Record → Str → Option ρ) qname qtype rrs,
      serveDNS isSubDomain through toRR s zs (toLower qname) qtype = .answer rrs →
      ∃ zd, s.zones.get (Plugin.Zones.matches isSubDomain zs (toLower qname)) = some zd ∧
        rrs = (zd.answers (toLower qname) (qtypeToString qtype)).filterMap (toRR · (toLower qname))) ∧
    (∀ qname qtype zd ev, s.zones.get (Plugin.Zones.matches isSubDomain zs (toLower qname)) = some zd →
      ev.org ≠ some zd.zone.org → ev.Confined isSubDomain s →
      (s.after ev).lookup qname qtype = s.lookup qname qtype) := by
  have h : s.Confined isSubDomain :=
    run.invariant (fun h hs => hs.preserves h) fun _ hz => by simp [newStore] at hz
  refine ⟨fun _ _ => h.lookup_eq hn, ?served, ?changes⟩
  case served =>
    intro _ through toRR qname qtype rrs hs
    have ⟨hr, hl⟩ := serveDNS_answer hs
    simp only [h.lookup_eq hn, toLower_idem] at hr hl
    cases hm : s.zones.get (Plugin.Zones.matches isSubDomain zs (toLower qname))
    case none => simp [hm] at hl
    case some zd => exact ⟨zd, rfl, by simpa [hm] using hr⟩
  case changes =>
    intro qname qtype zd ev hm ho hc
    cases ev
    case restart => exact Store.restart_lookup
    case call org e c =>
      by_cases hr : c.reaches s org
      case pos => exact (hc hr).lookup_eq h (Store.exec_change c) hn hm (by simpa [Event.org] using Ne.symm ho)
      case neg => rw [Store.after, Store.exec_of_not_reaches hr]

def isSubDomainLabels (parent child : Str) : Bool :=
  child = parent || ('.' :: parent).isSuffixOf child

theorem serving_isolation_neighbour :
    let e : Env := { now := 0, uuid := fun _ => "id" }
    let create : Event := .call "acme" e (.createZone "example.com" "authoritative")
    let add : Event := .call "acme" e (.createRecord "example.com" "www" "A" 300 "192.0.2.1" 0 false)
    let s := (newStore.after create).after add
    let s' := s.after (.call "evil" e (.createZone "ample.com" "authoritative"))
    s.lookup "www.example.com." "A" ≠ 0 ∧
      s'.lookup "www.example.com." "A" = s.lookup "www.example.com." "A" := by
  intro e create add s s'
  have run : Steps (Store.ConfinedStep isSubDomainLabels) newStore [create, add] s :=
    .trans ⟨by decide +kernel, rfl⟩ <| .single ⟨by decide +kernel, rfl⟩
  have names : (["example.com."] : List Str) = s.zoneNames := by decide +kernel
  have h := serving_isolation run names
  refine ⟨by decide +kernel, ?_⟩
  exact h.right.right _ _ (s.zones.get "example.com." |>.get (by decide +kernel)) _
    (by decide +kernel) (by decide +kernel) (by decide +kernel)

-- An org whose zone name happens to be the end of the string of another zone name can answer for that
-- zone with absolute record names.
theorem lookup_hijacked :
    let e : Env := { now := 0, uuid := fun _ => "id" }
    let s₁ := newStore.after (.call "acme" e (.createZone "example.com" "authoritative"))
    let s₂ := s₁.after (.call "evil" e (.createZone "ample.com" "authoritative"))
    let s₃ := s₂.after (.call "evil" e
      (.createRecord "ample.com" "www.example.com." "A" 300 "192.0.2.66" 0 false))
    let zs : List Str := ["ample.com.", "example.com."]
    zs = s₃.zoneNames ∧
    Plugin.Zones.matches isSubDomainLabels zs "www.example.com." = "example.com." ∧
    (s₃.zones.get "example.com.").map (·.zone.org) = some "acme" ∧
    (s₃.zones.get "example.com.").map (·.answers "www.example.com." "A") = some 0 ∧
    (s₃.lookup "www.example.com." "A").map Record.content = {("192.0.2.66" : Str)} ∧
    s₂.lookup "www.example.com." "A" = 0 := by
  decide +kernel

end Hanzodns
