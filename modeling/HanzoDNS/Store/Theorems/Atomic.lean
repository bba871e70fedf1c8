import HanzoDNS.Store.Theorems.Change

namespace Hanzodns

-- The one way to fail after a write: a patch that renames a record of the caller and also asks for a
-- type that is not supported.
def Call.HalfApplied (s : Store) (org : Org) : Call → Prop
  | updateRecord zone id patch =>
    ∃ zd r n t, s.zoneForOrg org zone = some zd ∧ zd.records.get id = some r ∧
      patch.name = some n ∧ n ≠ r.name ∧ patch.type = some t ∧ t ∉ validRecordTypes
  | _ => False

namespace RecordPatch

variable {patch : RecordPatch} {r : Record}

theorem invalidType?_eq_some_iff :
    patch.invalidType? = some t ↔ patch.type = some t ∧ t ∉ validRecordTypes := by
  simp [invalidType?, Option.filter_eq_some_iff]

theorem applyName_eq_self_iff : patch.applyName r = r ↔ ∀ n, patch.name = some n → n = r.name := by
  cases hn : patch.name <;> cases r <;> simp [applyName, hn]

end RecordPatch

namespace Store

variable {s : Store} {e : Env} {org : Org} {id : Str}

-- Writing a record back into the zone that holds the old version of it changes nothing exactly if the
-- two versions are equal.
theorem set_putRecord_eq_self_iff (hz : s.zoneForOrg org zone = some zd)
    (hr : zd.records.get r.id = some r₀) : s.set (zd.putRecord r) = s ↔ r = r₀ := by
  have ⟨hg, _⟩ := zoneForOrg_eq_some_iff.mp hz
  have hn : zd.name = normZone zone := Table.key_eq hg
  constructor
  case mp =>
    intro h
    have hs : (s.set (zd.putRecord r)).zones.get zd.name = some (zd.putRecord r) := Table.get_put_self
    rw [h, hn, hg] at hs
    have hp := congrArg (·.records.get r.id) (Option.some_inj.mp hs)
    simp only [hr, ZoneData.putRecord, Table.get_put_self] at hp
    exact Option.some_inj.mp hp.symm
  case mpr =>
    rintro rfl
    have hp : zd.putRecord r = zd := ZoneData.ext rfl <| Table.put_get_eq_self hr
    rw [hp]
    exact Store.ext <| Table.put_get_eq_self <| hn ▸ hg

theorem updateRecord_silent (h : (s.updateRecord e org zone id patch).Silent) :
    (s.updateRecord e org zone id patch).store = s ↔ ¬(Call.updateRecord zone id patch).HalfApplied s org := by
  simp only [updateRecord, Call.HalfApplied] at h ⊢
  cases hz : s.zoneForOrg org zone <;> simp only [hz] at h ⊢
  case none => simp
  case some zd =>
    cases hr : zd.records.get id <;> simp only [hr] at h ⊢
    case none => simp [hr]
    case some r =>
      cases ht : patch.invalidType? <;> simp only [ht] at h ⊢
      case none => simp at h
      case some t =>
        obtain ⟨hp, hv⟩ := RecordPatch.invalidType?_eq_some_iff.mp ht
        have hi : r.id = id := Table.key_eq hr
        have hr' : zd.records.get (patch.applyName r).id = some r := hi ▸ hr
        rw [Outcome.fail_store, set_putRecord_eq_self_iff hz hr', RecordPatch.applyName_eq_self_iff]
        grind

-- The calls other than `updateRecord` do all of their checks before the first write.
theorem exec_silent {c : Call} (h : (s.exec e org c).Silent) :
    (s.exec e org c).store = s ↔ ¬c.HalfApplied s org := by
  cases c <;> simp only [exec, perform, Outcome.map_silent, Outcome.map_store] at h ⊢
  case updateRecord => exact updateRecord_silent h
  all_goals simp only [Call.HalfApplied, not_false_iff, iff_true]
  case createZone =>
    simp only [createZone] at h ⊢
    split <;> simp_all
  case deleteZone =>
    simp only [deleteZone] at h ⊢
    split <;> simp_all
  case createRecord =>
    simp only [createRecord] at h ⊢
    split <;> try split
    all_goals simp_all
  case deleteRecord =>
    simp only [deleteRecord] at h ⊢
    split <;> try split
    all_goals simp_all
  case putMirror =>
    simp only [putMirror] at h ⊢
    split <;> try split <;> try split
    all_goals simp_all
  case dropMirror =>
    simp only [dropMirror] at h ⊢
    split <;> try split
    all_goals simp_all
  case bulkSync =>
    simp only [bulkSync, bulkSync.replace] at h ⊢
    split <;> try split
    all_goals simp_all
  all_goals rfl

end Store

theorem failed_call_atomic_iff {s : Store} {c : Call} (h : (s.exec e org c).result = .error err) :
    (s.exec e org c).store = s ↔ ¬c.HalfApplied s org :=
  Store.exec_silent <| .inr ⟨err, h⟩

namespace Shop

def env : Env where
  now := 0
  uuid _ := "id"

def store : Store :=
  let s := (newStore.exec env "acme" (.createZone "shop.example" "authoritative")).store
  (s.exec env "acme" (.createRecord "shop.example" "www" "A" 300 "192.0.2.1" 0 false)).store

end Shop

open Shop

theorem failed_call_atomic_bad_type :
    let c : Call := .updateRecord "shop.example" "id" { type := some "BOGUS" }
    (store.exec env "acme" c).store = store := by
  intro c
  have h : (store.exec env "acme" c).result = .error (.invalidType "BOGUS") := by decide +kernel
  refine (failed_call_atomic_iff h).mpr ?_
  rintro ⟨_, _, _, _, _, _, hn, _⟩
  cases hn

-- The new name of the record stays behind, although the call reports that it did nothing.
theorem failed_update_renames :
    let c : Call := .updateRecord "shop.example" "id" { name := some "api", type := some "BOGUS" }
    (store.exec env "acme" c).result = .error (.invalidType "BOGUS") ∧ (store.exec env "acme" c).store ≠ store := by
  decide +kernel

end Hanzodns
