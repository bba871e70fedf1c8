import HanzoDNS.Lib.AtomicFile
import HanzoDNS.Store.Snapshot

open AtomicFile

namespace Hanzodns

-- The store after a start. A missing file is a clean first boot.
def Store.boot : Option SnapshotState → Store
  | none => newStore
  | some state => importState state

-- After a crash at any point, the store is what the last save that completed has exported.
theorem snapshot_survives_crash {β : Type} (codec : Codec SnapshotState β) {as : List (Action Mutation)}
    {s : State Store SnapshotState β} (r : Steps (Step snapshotter codec Store.boot) { mem := newStore } as s) :
    codec.load s.file = some s.committed ∧
    ∀ s', Step snapshotter codec Store.boot s .crash s' → s'.mem = Store.boot s.committed := by
  have h := load_of_steps r ⟨rfl, trivial⟩
  refine ⟨h, fun s' hs => ?_⟩
  cases hs
  case crash hf => rw [Option.some.inj (hf.symm.trans h)]

namespace Shop

-- A file with a line for each zone.
def codec : Codec SnapshotState SnapshotZone where
  encode state := some state.zones
  decode zones := some ⟨zones⟩
  decode_encode := by
    rintro g data ⟨⟩
    rfl

def mutation (zone : String) : Mutation where
  org := "acme"
  env := { now := 0, uuid := fun _ => zone }
  call := .createZone zone "authoritative"

def snapshot (zones : List String) : SnapshotState :=
  snapshotter.snapshot (zones.foldl (fun s zone => snapshotter.change s (mutation zone)) newStore)

end Shop

open Shop

-- The crash comes with a part of the next file written.
theorem snapshot_survives_crash_shop :
    let last := snapshot ["shop.example", "mail.example"]
    let next := (snapshot ["shop.example", "mail.example", "blog.example"]).zones
    ∃ as s s', Steps (Step snapshotter codec Store.boot) { mem := newStore } as s ∧ s.tmp = some (next.take 1) ∧
      Step snapshotter codec Store.boot s .crash s' ∧ s'.mem = Store.boot (some last) := by
  intro last next
  have r : Steps (Step snapshotter codec Store.boot) { mem := newStore } _ _ :=
    .trans (.change (mutation "shop.example")) <| .trans (.change (mutation "mail.example")) <|
    .trans (.capture rfl rfl) <| .trans (.create rfl) <|
    .trans (.write last.zones (congrArg _ (List.append_nil _).symm) rfl) <| .trans (.rename rfl) <|
    .trans (.change (mutation "blog.example")) <| .trans (.capture rfl rfl) <| .trans (.create rfl) <|
    .single (.write (next.take 1) (congrArg _ (next.take_append_drop 1).symm) rfl)
  obtain ⟨hl, hc⟩ := snapshot_survives_crash codec r
  exact ⟨_, _, _, r, rfl, .crash hl, hc _ (.crash hl)⟩

end Hanzodns
