import HanzoDNS.Lib.Transition
import HanzoDNS.Store.Sync

namespace Hanzodns

-- The operations of the store that are issued on behalf of an org.
inductive Call
  | createZone (name provider : Str)
  | deleteZone (name : Str)
  | createRecord (zone name : Str) (rtype : RecordType) (ttl : UInt32) (content : Str)
                 (priority : UInt16) (proxied : Bool)
  | updateRecord (zone id : Str) (patch : RecordPatch)
  | deleteRecord (zone id : Str)
  | putMirror (zone : Str) (rec : ProviderRecord)
  | dropMirror (zone id : Str)
  | bulkSync (req : SyncZoneRequest)
  | listZones
  | getZone (name : Str)
  | zoneProvider (name : Str)
  | listRecords (zone : Str)
  | getRecord (zone id : Str)
deriving DecidableEq

abbrev Call.Result : Call → Type
  | createZone .. => Zone
  | createRecord .. | updateRecord .. | getRecord .. => Record
  | deleteZone _ | deleteRecord .. | putMirror .. | dropMirror .. => Unit
  | bulkSync _ => SyncResponse
  | listZones => Multiset Zone
  | getZone _ => Option Zone
  | zoneProvider _ => Option Str
  | listRecords _ => Multiset Record

inductive Reply
  | done
  | zone (z : Zone)
  | zone? (z : Option Zone)
  | zones (zs : Multiset Zone)
  | provider (p : Option Str)
  | record (r : Record)
  | records (rs : Multiset Record)
  | synced (resp : SyncResponse)
deriving DecidableEq

def Call.reply : (c : Call) → c.Result → Reply
  | createZone .., z => .zone z
  | createRecord .., r => .record r
  | updateRecord .., r => .record r
  | getRecord .., r => .record r
  | deleteZone _, _ => .done
  | deleteRecord .., _ => .done
  | putMirror .., _ => .done
  | dropMirror .., _ => .done
  | bulkSync _, resp => .synced resp
  | listZones, zs => .zones zs
  | getZone _, z => .zone? z
  | zoneProvider _, p => .provider p
  | listRecords _, rs => .records rs

namespace Reply

def zonesOf : Reply → Multiset Zone
  | zone z => {z}
  | zone? z => z.elim 0 ({·})
  | zones zs => zs
  | _ => 0

def recordsOf : Reply → Multiset Record
  | record r => {r}
  | records rs => rs
  | _ => 0

end Reply

theorem map_eq_ok {x : Except Error α} {f : α → β} (h : x.map f = .ok b) : ∃ a, x = .ok a ∧ f a = b := by
  cases x <;> simp_all [Except.map]

namespace Outcome

@[simps]
def map (f : α → β) (o : Outcome α) : Outcome β where
  store := o.store
  result := o.result.map f
  notified := o.notified

@[simp]
theorem map_silent {o : Outcome α} {f : α → β} : (o.map f).Silent ↔ o.Silent := by
  cases ho : o.result <;> simp [Silent, ho, Except.map]

end Outcome

namespace Store

@[simps]
def read (s : Store) (r : Except Error α) : Outcome α where
  store := s
  result := r
  notified := false

def perform (s : Store) (e : Env) (org : Org) : (c : Call) → Outcome c.Result
  | .createZone name provider => s.createZone e org name provider
  | .deleteZone name => s.deleteZone org name
  | .createRecord zone name rtype ttl content priority proxied =>
    s.createRecord e org zone name rtype ttl content priority proxied
  | .updateRecord zone id patch => s.updateRecord e org zone id patch
  | .deleteRecord zone id => s.deleteRecord e org zone id
  | .putMirror zone rec => s.putMirror e org zone rec
  | .dropMirror zone id => s.dropMirror e org zone id
  | .bulkSync req => s.bulkSync e org req
  | .listZones => s.read (.ok (s.listZones org))
  | .getZone name => s.read (.ok (s.getZone org name))
  | .zoneProvider name => s.read (.ok (s.zoneProvider org name))
  | .listRecords zone => s.read (s.listRecords org zone)
  | .getRecord zone id => s.read (s.getRecord org zone id)

def exec (s : Store) (e : Env) (org : Org) (c : Call) : Outcome Reply :=
  (s.perform e org c).map c.reply

end Store

-- A call as it shows up in a history: who made it, in which circumstances, and what came back.
structure Exchange where
  org : Org
  env : Env
  call : Call
  reply : Except Error Reply

def Store.Step (s₁ : Store) (x : Exchange) (s₂ : Store) : Prop :=
  (s₁.exec x.env x.org x.call).store = s₂ ∧ (s₁.exec x.env x.org x.call).result = x.reply

end Hanzodns
