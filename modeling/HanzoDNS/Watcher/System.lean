import HanzoDNS.Push.Json

open Strings Hanzodns

namespace Watcher

def DBZone.key (z : DBZone) : Str :=
  normZone (ZoneWithRecords.mk z []).sync.zone

structure System where
  watcher : State
  store : Store

namespace System

inductive Event
  | watcher (a : Action)
  | syncAll
  | push (batch : List ZoneWithRecords)

-- No fetch and no push fails. A push also changes the store.
def Unfailing : Action → Prop
  | .push | .listFails | .fetchFails | .pushFails => False
  | _ => True

def Applies (org : Org) (s : Store) (req : SyncZoneRequest) (s' : Store) : Prop :=
  ∃ e resp, (s.bulkSync e org req).result = .ok resp ∧ s' = (s.bulkSync e org req).store

-- A full sync lists all active zones, whenever the last sync was. The server applies the entries that it reads in order.
inductive Step (org : Org) : System → Event → System → Prop
  | watcher (unfailing : Unfailing a) (step : Watcher.Step s.watcher a w) :
    Step org s (.watcher a) { s with watcher := w }
  | syncAll (idle : s.watcher.phase = .idle) (zones : List DBZone) (listing : ↑zones = s.watcher.db.fetchZones) :
    Step org s .syncAll { s with watcher := { s.watcher with phase := .fetching zones [] } }
  | push (fetching : s.watcher.phase = .fetching [] batch) (step : Watcher.Step s.watcher .push w)
      (sent : decodeSyncRequest (payload batch) = some reqs) (applied : Steps (Applies org) s.store reqs s') :
    Step org s (.push batch) { watcher := w, store := s' }

-- What happens during a full sync if nobody edits the database.
def Event.Quiet : Event → Prop
  | watcher .tick | watcher .fetch | watcher .finish | push _ => True
  | _ => False

def SyncsAll (org : Org) (s₁ : System) (es : List Event) (s₂ : System) : Prop :=
  Steps (Step org) s₁ (.syncAll :: es) s₂ ∧ (∀ x ∈ es, x.Quiet) ∧ s₂.watcher.phase = .idle

end System
end Watcher
