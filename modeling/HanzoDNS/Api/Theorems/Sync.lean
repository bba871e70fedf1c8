import HanzoDNS.Api.Basic
import HanzoDNS.Store.Theorems.Sync

open Prog

namespace Hanzodns

namespace Store

-- An entry of a sync request is refused if it does not name a zone, or if the zone belongs to another org.
def Refuses (s : Store) (org : Org) (zr : SyncZoneRequest) : Prop :=
  zr.zone = [] ∨ ¬s.Admits org zr.zone

def Syncs (org : Org) (s : Store) (zr : SyncZoneRequest) (s' : Store) : Prop :=
  ¬s.Refuses org zr ∧ ∃ e, s' = (s.bulkSync e org zr).store

variable {s s' : Store} {org : Org} {zr : SyncZoneRequest} {zone : Str}

theorem Syncs.admits_iff (h : s.Syncs org zr s') : s'.Admits org zone ↔ s.Admits org zone := by
  obtain ⟨-, e, rfl⟩ := h
  constructor
  case mp =>
    intro ha zd hz
    by_contra ho
    exact ho (ha zd (bulkSync_change.preserves_foreign hz ho))
  case mpr =>
    intro ha zd hz
    obtain ho | hz := bulkSync_change.owner_or_mem hz
    · exact ho
    · exact ha zd hz

end Store

inductive Synced (org : Org) (s : Store) (zones : List SyncZoneRequest) : Nat → Store → Prop
  | all (run : Steps (Store.Syncs org) s zones s') : Synced org s zones 200 s'
  | some (split : zones = applied ++ zr :: rest) (run : Steps (Store.Syncs org) s applied s')
      (refused : s.Refuses org zr) (failed : status ∈ [400, 409, 500]) : Synced org s zones status s'

theorem Synced.cons {zr : SyncZoneRequest} {zones : List SyncZoneRequest} {status : Nat} {s₁ s₂ s₃ : Store}
    (h : s₁.Syncs org zr s₂) (hs : Synced org s₂ zones status s₃) : Synced org s₁ (zr :: zones) status s₃ := by
  rcases hs with run | ⟨split, run, refused, failed⟩
  case all => exact .all (.trans h run)
  case some =>
    refine .some (congrArg (zr :: ·) split) (.trans h run) ?_ failed
    exact refused.imp_right (mt h.admits_iff.mpr)

variable {quote : Str → Str} {org : Org} {s s' : Store} {es : List Answered} {response : Response}

theorem writeZoneError_status (err : Error) : (writeZoneError quote err).status ∈ [400, 409, 500] := by
  rw [writeZoneError]
  split
  case isTrue => exact .tail _ (.head _)
  case isFalse => exact .tail _ (.tail _ (.head _))

theorem syncZones_synced {zones : List SyncZoneRequest} {results : List SyncResponse}
    (hp : (syncZones quote org results zones).Path es response) (hr : Steps Store.Answers s es s') :
    Synced org s zones response.status s' := by
  induction zones generalizing s es results
  case nil =>
    obtain ⟨rfl, rfl⟩ := hp
    cases hr
    exact .all .refl
  case cons zr zones hi =>
    rw [syncZones] at hp
    split at hp
    case isTrue hz =>
      obtain ⟨rfl, rfl⟩ := hp
      cases hr
      exact .some rfl .refl (.inl hz) (.head _)
    case isFalse hz =>
      obtain ⟨a, es, rfl, hp⟩ := hp
      cases hr
      case trans ha hr =>
      obtain ⟨e, rfl, rfl⟩ := ha
      by_cases hs : s.Admits org zr.zone
      case pos =>
        refine .cons ⟨fun h => h.elim hz (· hs), e, rfl⟩ ?_
        simp only [Store.perform, Store.bulkSync_of_admits hs] at hp hr ⊢
        exact hi hp hr
      case neg =>
        simp only [Store.perform, Store.bulkSync_of_not_admits hs] at hp hr
        obtain ⟨rfl, rfl⟩ := hp
        cases hr
        exact .some rfl .refl (.inr hs) (writeZoneError_status _)

namespace Api

-- A request that fails has applied the entries before the one that was refused, and one that succeeds all of them.
theorem sync_synced {body : Option (List SyncZoneRequest)} {x : Exchange} (h : Step quote s x s')
    (hx : x.request = .sync body) : (x.response.status = 400 ∧ (body = none ∨ body = some []) ∧ s' = s) ∨
      ∃ zones, body = some zones ∧ zones ≠ [] ∧ Synced x.org s zones x.response.status s' := by
  obtain ⟨hp, hr⟩ := h
  rw [hx] at hp
  cases body
  case none =>
    obtain ⟨he, hs⟩ := hp
    rw [he] at hr
    cases hr
    exact .inl ⟨congrArg Response.status hs, .inl rfl, rfl⟩
  case some zones =>
    simp only [handle, handleSync] at hp
    split at hp
    case isTrue hz =>
      obtain ⟨he, hs⟩ := hp
      rw [he] at hr
      cases hr
      exact .inl ⟨congrArg Response.status hs, .inr (congrArg some hz), rfl⟩
    case isFalse hz => exact .inr ⟨zones, rfl, hz, syncZones_synced hp hr⟩

namespace Sample

def world : World where
  env := { now := 0, uuid := fun _ => "id" }
  kmsSecret := fun _ _ => .error "not found"
  provider := fun _ _ => .error "no connection"

def entries : List SyncZoneRequest := [
  {
    zone := "shop.example"
    records := [
      { id := "r", name := "www", type := "A", ttl := 60, content := "192.0.2.1", priority := 0, proxied := false }
    ]
  },
  { zone := [], records := [] }
]

end Sample

open Api.Sample

theorem sync_synced_entries :
    ∃ s', Synced "acme" newStore entries 400 s' ∧ s' = (world.serve id newStore "acme" (.sync (some entries))).2 := by
  obtain ⟨-, hb, -⟩ | ⟨zones, hb, -, hs⟩ :=
    sync_synced (world.serve_step id newStore "acme" (.sync (some entries))) rfl
  · obtain hb | hb := hb
    · cases hb
    · cases hb
  · cases hb
    exact ⟨_, hs, rfl⟩

-- The first entry stays, although the request has failed.
theorem failed_sync_keeps_entry :
    let served := world.serve id newStore "acme" (.sync (some entries))
    Step id newStore served.1 served.2 ∧ served.1.response.status = 400 ∧ served.2 ≠ newStore :=
  ⟨world.serve_step id _ _ _, by decide +kernel, by decide +kernel⟩

end Api
end Hanzodns
