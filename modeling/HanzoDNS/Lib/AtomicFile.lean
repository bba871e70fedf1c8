import HanzoDNS.Lib.Transition
import HanzoDNS.Lib.WriteBehind

-- A file that is replaced by writing another one and renaming that, by a process that can crash at any point. What is
-- in a file survives.
namespace AtomicFile

-- How snapshots are written to a file. A snapshot without a text cannot be written.
structure Codec (γ β : Type) where
  encode : γ → Option (List β)
  decode : List β → Option γ
  decode_encode : encode g = some data → decode data = some g

-- How far a save has come: what it has exported, and what is left to be written.
inductive Phase (γ β : Type)
  | idle
  | exported (snapshot : γ) (data : List β)
  | writing (snapshot : γ) (rest : List β)

-- The last field is the snapshot of the last save whose renaming is complete.
structure State (σ γ β : Type) where
  mem : σ
  file : Option (List β) := none
  tmp : Option (List β) := none
  phase : Phase γ β := .idle
  committed : Option γ := none

inductive Action (α : Type)
  | change (a : α)
  | capture
  | create
  | write
  | rename
  | fail
  | crash

variable {σ α γ β : Type} (sys : WriteBehind.System σ α γ) (codec : Codec γ β) (boot : Option γ → σ)

-- What is found in a file: nothing if there is none. The outcome is none if it cannot be parsed.
def Codec.load (codec : Codec γ β) : Option (List β) → Option (Option γ)
  | none => some none
  | some data => (codec.decode data).map some

-- Every step of a save can fail, and then the save is given up. After a crash the process starts from the file.
inductive Step : State σ γ β → Action α → State σ γ β → Prop
  | change {s : State σ γ β} (a : α) : Step s (.change a) { s with mem := sys.change s.mem a }
  | capture {s : State σ γ β} {data : List β} :
    s.phase = .idle → codec.encode (sys.snapshot s.mem) = some data →
    Step s .capture { s with phase := .exported (sys.snapshot s.mem) data }
  | create {s : State σ γ β} {g : γ} {data : List β} :
    s.phase = .exported g data → Step s .create { s with tmp := some [], phase := .writing g data }
  | write {s : State σ γ β} {g : γ} {written rest : List β} (chunk : List β) :
    s.phase = .writing g (chunk ++ rest) → s.tmp = some written →
    Step s .write { s with tmp := some (written ++ chunk), phase := .writing g rest }
  | rename {s : State σ γ β} {g : γ} :
    s.phase = .writing g [] →
    Step s .rename { s with file := s.tmp, tmp := none, phase := .idle, committed := some g }
  | fail {s : State σ γ β} {tmp : Option (List β)} :
    tmp = s.tmp ∨ tmp = none → Step s .fail { s with tmp, phase := .idle }
  | crash {s : State σ γ β} {found : Option γ} :
    codec.load s.file = some found → Step s .crash { s with mem := boot found, phase := .idle }

variable {sys codec boot} {s s₁ s₂ : State σ γ β} {a : Action α} {as : List (Action α)}

-- What is left to be written and what has been written make up the snapshot.
def Phase.Whole (codec : Codec γ β) (tmp : Option (List β)) : Phase γ β → Prop
  | .idle => True
  | .exported g data => codec.decode data = some g
  | .writing g rest => ∃ written, tmp = some written ∧ codec.decode (written ++ rest) = some g

structure Whole (codec : Codec γ β) (s : State σ γ β) : Prop where
  file : codec.load s.file = some s.committed
  phase : s.phase.Whole codec s.tmp

theorem Step.whole (h : Step sys codec boot s₁ a s₂) (w : Whole codec s₁) : Whole codec s₂ := by
  obtain ⟨hf, hp⟩ := w
  cases h
  case change => exact ⟨hf, hp⟩
  case capture he => exact ⟨hf, codec.decode_encode he⟩
  case create hs =>
    rw [hs] at hp
    exact ⟨hf, _, rfl, hp⟩
  case write hs ht =>
    rw [hs] at hp
    obtain ⟨written, ht', hd⟩ := hp
    obtain rfl := Option.some.inj (ht.symm.trans ht')
    exact ⟨hf, _, rfl, by rwa [List.append_assoc]⟩
  case rename hs =>
    rw [hs] at hp
    obtain ⟨written, ht, hd⟩ := hp
    refine ⟨?_, trivial⟩
    simp only [ht, Codec.load]
    rw [←List.append_nil written, hd]
    rfl
  case fail => exact ⟨hf, trivial⟩
  case crash => exact ⟨hf, trivial⟩

theorem load_of_steps (r : Steps (Step sys codec boot) s₁ as s₂) (w : Whole codec s₁) :
    codec.load s₂.file = some s₂.committed :=
  (r.invariant (fun w h => h.whole w) w).file

end AtomicFile
