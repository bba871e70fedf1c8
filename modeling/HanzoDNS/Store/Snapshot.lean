import HanzoDNS.Lib.WriteBehind
import HanzoDNS.Store.Calls

namespace Hanzodns

structure SnapshotZone where
  zone : Zone
  records : List Record
deriving DecidableEq

structure SnapshotState where
  zones : List SnapshotZone
deriving DecidableEq

def ZoneData.snapshot (zd : ZoneData) : SnapshotZone where
  zone := zd.zone
  records := zd.records.sorted

-- A zone as `importState` rebuilds it: under the normalized name, and with an empty provider made explicit.
def SnapshotZone.zoneData (sz : SnapshotZone) : ZoneData where
  zone := { sz.zone with
    name := normZone sz.zone.name
    provider := if sz.zone.provider = [] then providerAuthoritative else sz.zone.provider }
  records := .ofList sz.records
  norm := normZone_idem _

namespace Store

def exportState (s : Store) : SnapshotState where
  zones := s.zones.sorted.map ZoneData.snapshot

-- The contents of the store are replaced, so the result does not depend on what it held before.
def importState (state : SnapshotState) : Store where
  zones := .ofList (state.zones.map SnapshotZone.zoneData)

def restart (s : Store) : Store :=
  importState s.exportState

end Store

structure Mutation where
  org : Org
  env : Env
  call : Call

-- The hook that the snapshot layer installs. A call changes the store under the lock of the store, and
-- invokes the hook, which exports the store and replaces the file under a lock of its own.
def snapshotter : WriteBehind.System Store Mutation SnapshotState where
  change s m := (s.exec m.env m.org m.call).store
  notifies s m := (s.exec m.env m.org m.call).notified
  snapshot := Store.exportState

end Hanzodns
