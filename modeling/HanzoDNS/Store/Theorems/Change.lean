import HanzoDNS.Store.Calls

open List

namespace Hanzodns

open Table ZoneData

namespace Call

def key : Call → Str
  | createZone zone _ | deleteZone zone | createRecord zone .. | updateRecord zone .. => normZone zone
  | deleteRecord zone _ | putMirror zone _ | dropMirror zone _ => normZone zone
  | getZone zone | zoneProvider zone | listRecords zone | getRecord zone _ => normZone zone
  | bulkSync req => normZone req.zone
  | listZones => []

def names : Call → List Str
  | createRecord _ name .. => [name]
  | updateRecord _ _ patch => patch.name.toList
  | putMirror _ rec => [rec.name]
  | bulkSync req => (req.records.filter (·.type ∈ validRecordTypes)).map (·.name)
  | _ => []

end Call

-- Everything that a call can do to the store. All statements about what calls preserve are derived
-- from this relation, not from the definitions of the operations.
inductive Change (s : Store) (org : Org) (key : Str) (names : List Str) : Store → Prop
  | keep : Change s org key names s
  | create (zd : ZoneData) (fresh : s.zones.get key = none) (name : zd.name = key)
      (owner : zd.zone.org = org) (records : ∀ r ∈ zd.records.values, r.name ∈ names) :
      Change s org key names (s.set zd)
  | update (zd zd' : ZoneData) (mem : s.zones.get key = some zd) (owner : zd.zone.org = org)
      (zone : zd'.zone = { zd.zone with updatedAt := zd'.zone.updatedAt })
      (records : ∀ r' ∈ zd'.records.values, r'.name ∈ names ∨ ∃ r ∈ zd.records.values, r.name = r'.name) :
      Change s org key names (s.set zd')
  | delete (zd : ZoneData) (mem : s.zones.get key = some zd) (owner : zd.zone.org = org) :
      Change s org key names { zones := s.zones.drop key }

namespace ZoneData

variable {zd : ZoneData} {r r' : Record} {id : Str}

theorem mem_putRecord_values (h : r' ∈ (zd.putRecord r).records.values) : r' = r ∨ r' ∈ zd.records.values :=
  mem_values_put h |>.imp_right And.left

theorem mem_dropRecord_values (h : r' ∈ (zd.dropRecord id).records.values) : r' ∈ zd.records.values :=
  mem_values_drop_iff.mp h |>.left

end ZoneData

theorem SyncZoneRequest.mem_newRecords {req : SyncZoneRequest} (h : r ∈ req.newRecords e) :
    ∃ sr ∈ req.records, ∃ uuid, sr.type ∈ validRecordTypes ∧ r = sr.record uuid e.now := by
  simp only [newRecords, mem_mapIdx] at h
  have ⟨i, hi, hr⟩ := h
  have hm := mem_filter.mp (getElem_mem hi)
  exact ⟨_, hm.left, _, by simpa using hm.right, hr.symm⟩

namespace Store

variable {s : Store} {e : Env} {org : Org} {zone name id : Str} {zd : ZoneData}

theorem zoneForOrg_eq_some_iff :
    s.zoneForOrg org name = some zd ↔ s.zones.get (normZone name) = some zd ∧ zd.zone.org = org := by
  simp only [zoneForOrg]
  split <;> simp_all
  constructor
  case mp => rintro ⟨ho, rfl⟩; exact ⟨rfl, ho⟩
  case mpr => rintro ⟨rfl, ho⟩; exact ⟨ho, rfl⟩

theorem set_get_of_name_eq (h : s.zones.get k = some zd) (hn : zd'.name = zd.name) :
    (s.set zd').zones.get k = some zd' := by
  rw [←key_eq h, ←hn]
  exact get_put_self

theorem createZone_change : Change s org (normZone name) [] (s.createZone e org name provider).store := by
  simp only [createZone]
  split
  · exact .keep
  · exact .create _ ‹_› rfl rfl (by simp [newZone])

theorem deleteZone_change : Change s org (normZone name) [] (s.deleteZone org name).store := by
  simp only [deleteZone]
  split
  · exact .keep
  case _ h =>
    have ⟨hm, ho⟩ := zoneForOrg_eq_some_iff.mp h
    exact .delete _ hm ho

theorem putRecord_change (h : s.zoneForOrg org zone = some zd) (hr : r.name = name) :
    Change s org (normZone zone) [name] (s.set ((zd.putRecord r).touch now)) := by
  have ⟨hm, ho⟩ := zoneForOrg_eq_some_iff.mp h
  refine .update _ _ hm ho rfl fun r' hm => ?_
  obtain rfl | hm := mem_putRecord_values hm
  · exact .inl (mem_singleton.mpr hr)
  · exact .inr ⟨_, hm, rfl⟩

theorem createRecord_change : Change s org (normZone zone) [name]
    (s.createRecord e org zone name rtype ttl content priority proxied).store := by
  simp only [createRecord]
  split <;> try split
  · exact .keep
  · exact .keep
  case _ h => exact putRecord_change h rfl

theorem putMirror_change : Change s org (normZone zone) [pr.name] (s.putMirror e org zone pr).store := by
  simp only [putMirror]
  split <;> try split <;> try split
  · exact .keep
  · exact .keep
  · exact .keep
  case _ h => exact putRecord_change h rfl

theorem dropRecord_change (h : s.zoneForOrg org zone = some zd) :
    Change s org (normZone zone) [] (s.set ((zd.dropRecord id).touch now)) := by
  have ⟨hm, ho⟩ := zoneForOrg_eq_some_iff.mp h
  exact .update _ _ hm ho rfl fun r' hr => .inr ⟨_, mem_dropRecord_values hr, rfl⟩

theorem dropMirror_change : Change s org (normZone zone) [] (s.dropMirror e org zone id).store := by
  simp only [dropMirror]
  split <;> try split
  · exact .keep
  · exact .keep
  · exact dropRecord_change ‹_›

theorem deleteRecord_change : Change s org (normZone zone) [] (s.deleteRecord e org zone id).store := by
  simp only [deleteRecord]
  split <;> try split
  · exact .keep
  · exact .keep
  · exact dropRecord_change ‹_›

theorem updateRecord_change :
    Change s org (normZone zone) patch.name.toList (s.updateRecord e org zone id patch).store := by
  -- Both the failing and the succeeding branch put back a record that has either the new or the old name.
  have key {zd r r'} (h : s.zoneForOrg org zone = some zd) (hr : zd.records.get id = some r)
      (hn : r'.name = patch.name.getD r.name) :
      ∀ r'' ∈ (zd.putRecord r').records.values,
        r''.name ∈ patch.name.toList ∨ ∃ r ∈ zd.records.values, r.name = r''.name := by
    intro r'' hm
    obtain rfl | hm := mem_putRecord_values hm
    case inr => exact .inr ⟨_, hm, rfl⟩
    case inl =>
      cases hp : patch.name
      case none => exact .inr ⟨_, mem_values_of_get hr, by simp [hn, hp]⟩
      case some n => exact .inl (by simp [hn, hp])
  simp only [updateRecord]
  split <;> try split <;> try split
  · exact .keep
  · exact .keep
  case _ h _ _ hr _ _ _ =>
    have ⟨hm, ho⟩ := zoneForOrg_eq_some_iff.mp h
    exact .update _ _ hm ho rfl (key h hr rfl)
  case _ h _ _ hr _ _ =>
    have ⟨hm, ho⟩ := zoneForOrg_eq_some_iff.mp h
    exact .update _ _ hm ho rfl (key h hr rfl)

theorem bulkSync_change : Change s org (normZone req.zone)
    ((req.records.filter (·.type ∈ validRecordTypes)).map (·.name)) (s.bulkSync e org req).store := by
  have key : ∀ r ∈ (ofList (req.newRecords e) : Table Record.id).values,
      r.name ∈ (req.records.filter (·.type ∈ validRecordTypes)).map (·.name) := by
    intro r hr
    obtain ⟨sr, hm, _, ht, rfl⟩ := SyncZoneRequest.mem_newRecords (mem_of_mem_ofList hr)
    exact mem_map.mpr ⟨sr, mem_filter.mpr ⟨hm, by simpa using ht⟩, rfl⟩
  simp only [bulkSync]
  split <;> try split
  case _ hm ho => exact .update _ _ hm ho rfl fun r hr => .inl (key r hr)
  case _ hm _ => exact .keep
  case _ hm => exact .create _ hm rfl rfl key

theorem exec_change (c : Call) : Change s org c.key c.names (s.exec e org c).store := by
  cases c
  case createZone => exact createZone_change
  case deleteZone => exact deleteZone_change
  case createRecord => exact createRecord_change
  case updateRecord => exact updateRecord_change
  case deleteRecord => exact deleteRecord_change
  case putMirror => exact putMirror_change
  case dropMirror => exact dropMirror_change
  case bulkSync => exact bulkSync_change
  all_goals exact .keep

end Store

namespace Change

variable {s s' : Store} {org : Org} {key k : Str} {names : List Str} {zd zd' : ZoneData}

theorem set_get_ne (h : k ≠ zd.name) : (s.set zd).zones.get k = s.zones.get k :=
  get_put_ne h

@[simp]
theorem set_get_self : (s.set zd).zones.get zd.name = some zd :=
  get_put_self

theorem name_eq (h : s.zones.get key = some zd)
    (hz : zd'.zone = { zd.zone with updatedAt := zd'.zone.updatedAt }) : zd'.name = key := by
  rw [←key_eq h, name, hz]
  rfl

theorem get_ne (c : Change s org key names s') (h : k ≠ key) : s'.zones.get k = s.zones.get k := by
  cases c
  case keep => rfl
  case create name _ _ => exact set_get_ne (name ▸ h)
  case update mem _ zone _ => exact set_get_ne (name_eq mem zone ▸ h)
  case delete => exact get_drop_ne h

theorem eq_of_foreign (c : Change s org key names s') (h : s.zones.get key = some zd)
    (ho : zd.zone.org ≠ org) : s' = s := by
  cases c
  case keep => rfl
  case create fresh _ _ _ => simp [fresh] at h
  case update mem owner _ _ => simp_all
  case delete mem owner => simp_all

theorem preserves_foreign (c : Change s org key names s') (h : s.zones.get k = some zd)
    (ho : zd.zone.org ≠ org) : s'.zones.get k = some zd := by
  by_cases hk : k = key
  case neg => exact c.get_ne hk ▸ h
  case pos =>
    subst hk
    exact c.eq_of_foreign h ho ▸ h

theorem owner_or_mem (c : Change s org key names s') (h : s'.zones.get k = some zd') :
    zd'.zone.org = org ∨ s.zones.get k = some zd' := by
  by_cases hk : k = key
  case neg => exact .inr (c.get_ne hk ▸ h)
  case pos =>
    subst hk
    cases c
    case keep => exact .inr h
    case create name owner _ =>
      subst name
      rw [set_get_self] at h
      cases h
      exact .inl owner
    case update mem owner zone _ =>
      rw [←name_eq mem zone, set_get_self] at h
      cases h
      exact .inl (by rw [zone]; exact owner)
    case delete => simp at h

end Change
end Hanzodns
