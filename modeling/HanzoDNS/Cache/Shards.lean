import HanzoDNS.Lib.Transition

open List Function

-- The map that caches are made of. It comes in shards, each with a lock of its own.
namespace Shards

open Finmap

abbrev Items (τ : Type) :=
  Finmap fun _ : UInt64 => τ

structure Shard (τ : Type) where
  items : Items τ := ∅
  size : Nat

namespace Shard

variable {τ : Type} (s : Shard τ)

def len : Nat :=
  s.items.keys.card

def get (key : UInt64) : Option τ :=
  s.items.lookup key

def remove (key : UInt64) : Shard τ :=
  { s with items := s.items.erase key }

def set (key : UInt64) (el : τ) : Shard τ :=
  { s with items := s.items.insert key el }

def Ranges (order : List UInt64) : Prop :=
  order = s.items.keys.val

def add (order : List UInt64) (key : UInt64) (el : τ) : Shard τ × Bool :=
  if s.size ≤ s.len ∧ key ∉ s.items then
    match order with
    | [] => (s.set key el, false)
    | k :: _ => ((s.remove k).set key el, true)
  else
    (s.set key el, false)

-- A call of a function that deletes the key or not, and that says if there are to be more calls.
def visit (f : Items τ → UInt64 → Bool × Bool) (key : UInt64) : Shard τ × Bool :=
  (if (f s.items key).1 then s.remove key else s, (f s.items key).2)

end Shard

def shardSize : Nat := 256

def index (key : UInt64) : Fin shardSize where
  val := (key &&& (UInt64.ofNat shardSize - 1)).toNat
  isLt := by
    rw [UInt64.toNat_and]
    exact Nat.lt_of_le_of_lt Nat.and_le_right (by decide)

-- A walk over a shard, with the keys that are still to be visited.
structure Walk (τ : Type) where
  shard : Fin shardSize
  f : Items τ → UInt64 → Bool × Bool
  items : List UInt64

-- A cache and the walks over its shards that have not ended. A walk over the cache is one walk after the other.
structure Cache (τ : Type) where
  shards : Fin shardSize → Shard τ
  walks : List (Walk τ) := []

namespace Cache

variable {τ : Type}

def new (size : Int) : Cache τ where
  shards _ := { size := (max (size.tdiv shardSize) 4).toNat }

variable (c : Cache τ)

def set (i : Fin shardSize) (s : Shard τ) : Cache τ :=
  { c with shards := update c.shards i s }

def add (order : List UInt64) (key : UInt64) (el : τ) : Cache τ × Bool :=
  let s := (c.shards (index key)).add order key el
  (c.set (index key) s.1, s.2)

def get (key : UInt64) : Option τ :=
  (c.shards (index key)).get key

def remove (key : UInt64) : Cache τ :=
  c.set (index key) ((c.shards (index key)).remove key)

end Cache

inductive Event (τ : Type)
  | add (key : UInt64) (el : τ) (evicted : Set UInt64)
  | get (key : UInt64)
  | remove (key : UInt64)
  | walk (i : Fin shardSize)
  | visit (key : UInt64) (deleted : Bool)

variable {τ : Type}

def evicted (c c' : Cache τ) : Set UInt64 :=
  { k | c.get k ≠ none ∧ c'.get k = none }

-- What is done while a shard is locked.
inductive Step : Cache τ → Event τ → Cache τ → Prop
  | add (hr : (c.shards (index key)).Ranges order) :
    Step c (.add key el (evicted c (c.add order key el).1)) (c.add order key el).1
  | get : Step c (.get key) c
  | remove : Step c (.remove key) (c.remove key)
  | walk (hr : (c.shards i).Ranges order) : Step c (.walk i) { c with walks := ⟨i, f, order⟩ :: c.walks }
  | visit {ws ws' i f key items} (hw : c.walks = ws ++ ⟨i, f, key :: items⟩ :: ws') :
    Step c (.visit key (f (c.shards i).items key).1)
    { c.set i ((c.shards i).visit f key).1 with
      walks := ws ++ (if ((c.shards i).visit f key).2 then [⟨i, f, items⟩] else []) ++ ws' }

namespace Event

def Ends (k : UInt64) : Event τ → Prop
  | add key _ evicted => key = k ∨ k ∈ evicted
  | remove key => key = k
  | visit key deleted => key = k ∧ deleted
  | _ => False

def Adds (k : UInt64) (el : τ) : Event τ → Prop
  | add key el' _ => key = k ∧ el' = el
  | _ => False

end Event

def Lives (history : List (Event τ)) (k : UInt64) (el : τ) : Prop :=
  ∃ before e after, history = before ++ e :: after ∧ e.Adds k el ∧ ∀ e ∈ after, ¬e.Ends k

namespace Shard

variable {s : Shard τ} {key k : UInt64} {el : τ} {order : List UInt64}

theorem get_set : (s.set key el).get k = if k = key then some el else s.get k := by
  split
  case isTrue h =>
    subst h
    exact lookup_insert _
  case isFalse h => exact lookup_insert_of_ne _ h

theorem get_remove : (s.remove key).get k = if k = key then none else s.get k := by
  split
  case isTrue h =>
    subst h
    exact lookup_erase _ _
  case isFalse h => exact lookup_erase_ne h

theorem keys_set : (s.set key el).items.keys = insert key s.items.keys := by
  ext k
  simp [set, Finmap.mem_keys]

theorem keys_remove : (s.remove key).items.keys = s.items.keys.erase key :=
  keys_erase key s.items

-- Something is only removed from a shard that is full, to make room for another key.
theorem add_cases (key : UInt64) (el : τ) (h : 0 < s.size) (hr : s.Ranges order) :
    s.add order key el = (s.set key el, false) ∧ (s.size ≤ s.len → key ∈ s.items) ∨
    ∃ k ∈ s.items, s.add order key el = ((s.remove k).set key el, true) ∧ s.size ≤ s.len ∧ key ∉ s.items := by
  unfold add
  split
  case isTrue hf =>
    cases order
    case nil =>
      have hl : s.len = 0 := by rw [len, Finset.card, ←hr]; rfl
      omega
    case cons k order =>
      have hk : k ∈ s.items.keys.val := hr ▸ mem_cons_self
      exact .inr ⟨k, mem_keys.mp hk, rfl, hf⟩
  case isFalse hf => exact .inl ⟨rfl, fun hl => by_contra fun hk => hf ⟨hl, hk⟩⟩

end Shard

-- A shard has its own keys, and not too many of them.
structure Fits (n : Nat) (i : Fin shardSize) (s : Shard τ) : Prop where
  size : s.size = n
  bound : s.len ≤ n
  own : ∀ k ∈ s.items.keys, index k = i

structure Invariant (n : Nat) (c : Cache τ) : Prop where
  shards : ∀ i, Fits n i (c.shards i)
  walks : ∀ w ∈ c.walks, ∀ k ∈ w.items, index k = w.shard

section

variable {n : Nat} {c c' : Cache τ} {i j : Fin shardSize} {s : Shard τ} {key k : UInt64} {el : τ} {order : List UInt64}
variable {e : Event τ}

theorem Fits.remove (h : Fits n i s) : Fits n i (s.remove key) where
  size := h.size
  bound := by
    rw [Shard.len, Shard.keys_remove]
    exact (Finset.card_erase_le).trans h.bound
  own k hk := by
    rw [Shard.keys_remove] at hk
    exact h.own k (Finset.mem_of_mem_erase hk)

theorem Fits.set (h : Fits n (index key) s) (hl : s.len = n → key ∈ s.items) : Fits n (index key) (s.set key el) where
  size := h.size
  bound := by
    rw [Shard.len, Shard.keys_set]
    by_cases hm : key ∈ s.items
    case pos =>
      rw [Finset.insert_eq_of_mem (mem_keys.mpr hm)]
      exact h.bound
    case neg =>
      have hlt : s.len < n := lt_of_le_of_ne h.bound fun hn => hm (hl hn)
      exact (Finset.card_insert_le _ _).trans hlt
  own k hk := by
    rw [Shard.keys_set] at hk
    obtain rfl | hk := Finset.mem_insert.mp hk
    · rfl
    · exact h.own k hk

theorem Fits.add (h : Fits n (index key) s) (hn : 0 < n) (hr : s.Ranges order) :
    Fits n (index key) (s.add order key el).1 := by
  obtain ⟨ha, hf⟩ | ⟨k, hk, ha, -, -⟩ := Shard.add_cases key el (h.size ▸ hn) hr
  all_goals rw [ha]
  · exact h.set fun hl => hf (hl ▸ h.size.le)
  · refine h.remove.set fun hl => ?_
    have hlt : (s.remove k).len < s.len := by
      rw [Shard.len, Shard.keys_remove]
      exact Finset.card_erase_lt_of_mem (mem_keys.mpr hk)
    have hb := h.bound
    omega

theorem shards_set : (c.set i s).shards j = if j = i then s else c.shards j :=
  update_apply ..

theorem get_set : (c.set i s).get k = if index k = i then s.get k else c.get k := by
  rw [Cache.get, shards_set]
  split
  case isTrue => rfl
  case isFalse => rfl

theorem Invariant.set (h : Invariant n c) (hs : Fits n i s) : Invariant n (c.set i s) where
  shards j := by
    rw [shards_set]
    split
    case isTrue hj => exact hj ▸ hs
    case isFalse => exact h.shards j
  walks := h.walks

theorem Fits.visit {f : Items τ → UInt64 → Bool × Bool} (h : Fits n i s) : Fits n i (s.visit f key).1 := by
  rw [Shard.visit]
  split
  case isTrue => exact h.remove
  case isFalse => exact h

theorem Step.invariant (hn : 0 < n) (h : Invariant n c) (hs : Step c e c') : Invariant n c' := by
  cases hs
  case add hr => exact h.set ((h.shards _).add hn hr)
  case get => exact h
  case remove => exact h.set (h.shards _).remove
  case walk i order f hr =>
    refine ⟨h.shards, forall_mem_cons.mpr ⟨fun k hk => ?_, h.walks⟩⟩
    have hk : k ∈ (c.shards i).items.keys.val := hr ▸ hk
    exact (h.shards i).own k hk
  case visit ws ws' i f key items hw =>
    refine ⟨(h.set (h.shards i).visit).shards, fun w hm => ?_⟩
    have hws := h.walks
    rw [hw, forall_mem_append, forall_mem_cons] at hws
    obtain hm | hm := mem_append.mp hm
    · obtain hm | hm := mem_append.mp hm
      · exact hws.1 w hm
      · split at hm
        case isTrue =>
          rw [mem_singleton.mp hm]
          exact fun k hk => hws.2.1 k (mem_cons_of_mem key hk)
        case isFalse => cases hm
    · exact hws.2.2 w hm

theorem new_invariant (size : Int) : Invariant (max (size.tdiv shardSize) 4).toNat (.new size : Cache τ) where
  shards i := ⟨rfl, Nat.zero_le _, fun _ hk => by cases hk⟩
  walks := by simp [Cache.new]

theorem set_self : c.set i (c.shards i) = c := by
  rw [Cache.set, update_eq_self]

theorem get_put : (c.set (index key) (s.set key el)).get k =
    if k = key then some el else (c.set (index key) s).get k := by
  rw [get_set, get_set, Shard.get_set]
  by_cases hk : k = key
  case pos => simp [hk]
  case neg => simp [hk]

theorem get_remove (h : index key = i) : (c.set i ((c.shards i).remove key)).get k =
    if k = key then none else c.get k := by
  rw [get_set, Shard.get_remove]
  by_cases hk : k = key
  case pos => simp [hk, h]
  case neg =>
    rw [if_neg hk, if_neg hk]
    split
    case isTrue hi => rw [Cache.get, hi]
    case isFalse => rfl

theorem Cache.add_cases (el : τ) (hn : 0 < n) (h : Invariant n c) (hr : (c.shards (index key)).Ranges order) :
    (∀ k, (c.add order key el).1.get k = if k = key then some el else c.get k) ∧ (c.add order key el).2 = false ∨
    ∃ out ≠ key, c.get out ≠ none ∧ c.get key = none ∧ (c.shards (index key)).len = n ∧ (c.add order key el).2 = true ∧
      ∀ k, (c.add order key el).1.get k = if k = key then some el else if k = out then none else c.get k := by
  have hf := h.shards (index key)
  obtain ⟨ha, -⟩ | ⟨out, ho, ha, hl, hm⟩ := Shard.add_cases key el (hf.size ▸ hn) hr
  all_goals simp only [add, ha]
  · refine .inl ⟨fun k => ?_, trivial⟩
    rw [get_put, set_self]
  · have hi := hf.own out (mem_keys.mpr ho)
    refine .inr ⟨out, ?_, ?_, lookup_eq_none.mpr hm, hf.bound.antisymm (hf.size ▸ hl), trivial, fun k => ?_⟩
    · rintro rfl
      exact hm ho
    · rw [get, hi]
      exact fun hn => lookup_eq_none.mp hn ho
    · rw [get_put, get_remove hi]

structure Evicts (size : Int) (c : Cache τ) (order : List UInt64) (key : UInt64) (el : τ) : Prop where
  atMostOne : (evicted c (c.add order key el).1).Subsingleton
  notAdded : key ∉ evicted c (c.add order key el).1
  full : (evicted c (c.add order key el).1).Nonempty →
    (c.shards (index key)).len = max (size.tdiv shardSize) 4 ∧ c.get key = none
  returned : (c.add order key el).2 ↔ (evicted c (c.add order key el).1).Nonempty

theorem Invariant.evicts {size : Int} (h : Invariant (max (size.tdiv shardSize) 4).toNat c)
    (hr : (c.shards (index key)).Ranges order) : Evicts size c order key el := by
  obtain ⟨hg, ha⟩ | ⟨out, ho, hin, hk, hl, ha, hg⟩ := Cache.add_cases el (by omega) h hr
  · have he : evicted c (c.add order key el).1 = ∅ := by
      ext k
      simp only [evicted, Set.mem_ofPred_eq, hg, Set.mem_empty_iff_false, iff_false]
      grind
    constructor
    all_goals simp [he, ha]
  · have he : evicted c (c.add order key el).1 = {out} := by
      ext k
      simp only [evicted, Set.mem_ofPred_eq, hg, Set.mem_singleton_iff]
      grind
    constructor
    case full => exact fun _ => ⟨by omega, hk⟩
    all_goals simp [he, ha, ho.symm]

theorem Step.get_iff (hn : 0 < n) (h : Invariant n c) (hs : Step c e c') :
    c'.get k = some el ↔ e.Adds k el ∨ c.get k = some el ∧ ¬e.Ends k := by
  cases hs
  case get => simp [Event.Adds, Event.Ends]
  case walk => simp [Event.Adds, Event.Ends, Cache.get]
  case add key el' order hr =>
    obtain ⟨hg, -⟩ | ⟨out, ho, -, -, -, -, hg⟩ := Cache.add_cases el' hn h hr
    all_goals
      simp only [Event.Adds, Event.Ends, evicted, Set.mem_ofPred_eq, hg]
      grind
  case remove key =>
    rw [Cache.remove, get_remove rfl]
    simp only [Event.Adds, Event.Ends]
    grind
  case visit ws ws' i f key items hw =>
    have hi : index key = i := h.walks ⟨i, f, key :: items⟩ (by simp [hw]) key mem_cons_self
    change (c.set i ((c.shards i).visit f key).1).get k = some el ↔ _
    rw [Shard.visit]
    cases hd : (f (c.shards i).items key).1
    case false => simp [set_self, Event.Adds, Event.Ends]
    case true =>
      simp only [if_true, get_remove hi, Event.Adds, Event.Ends]
      grind

theorem lives_cons {history : List (Event τ)} : Lives (e :: history) k el ↔
    e.Adds k el ∧ (∀ e ∈ history, ¬e.Ends k) ∨ Lives history k el := by
  constructor
  case mp =>
    rintro ⟨before, e', after, heq, ha, he⟩
    cases before
    case nil =>
      obtain ⟨rfl, rfl⟩ := cons.inj heq
      exact .inl ⟨ha, he⟩
    case cons => exact .inr ⟨_, e', after, (cons.inj heq).2, ha, he⟩
  case mpr =>
    rintro (⟨ha, he⟩ | ⟨before, e', after, rfl, ha, he⟩)
    · exact ⟨[], e, history, rfl, ha, he⟩
    · exact ⟨e :: before, e', after, rfl, ha, he⟩

-- An element is there if it was from the start, or if it was added, and nothing has ended it since.
theorem get_of_steps {history : List (Event τ)} (hn : 0 < n) (h : Invariant n c) (r : Steps Step c history c') :
    c'.get k = some el ↔ c.get k = some el ∧ (∀ e ∈ history, ¬e.Ends k) ∨ Lives history k el := by
  induction r
  case refl => simp [Lives]
  case trans hs _ hi =>
    rw [hi (hs.invariant hn h), hs.get_iff hn h, lives_cons, forall_mem_cons]
    tauto

end

theorem run_bounded_map {size : Int} {history : List (Event τ)} {c : Cache τ} (r : Steps Step (.new size) history c) :
    (∀ i, (c.shards i).len ≤ max (size.tdiv shardSize) 4) ∧ (∀ k el, c.get k = some el ↔ Lives history k el) ∧
    ∀ order key el, (c.shards (index key)).Ranges order → Evicts size c order key el := by
  have hn : 0 < (max (size.tdiv shardSize) 4).toNat := by omega
  have h := Steps.invariant (P := Invariant _) (fun h hs => hs.invariant hn h) r (new_invariant size)
  refine ⟨fun i => ?_, fun k el => ?_, fun order key el hr => h.evicts hr⟩
  · have hb := (h.shards i).bound
    omega
  · have h₀ : (Cache.new size).get k ≠ some el := by simp [Cache.new, Cache.get, Shard.get]
    rw [get_of_steps hn (new_invariant size) r, or_iff_right fun hl => h₀ hl.1]

-- The first of the keys is evicted for the fifth.
theorem run_bounded_map_evicted : ∃ history, ∃ c : Cache Bool, Steps Step (.new 0) history c ∧
    (c.shards (index 0)).len ≤ 4 ∧ c.get 1024 = some true ∧ c.get 0 = none := by
  have h (c : Cache Bool) (order : List UInt64) (key) (hr : order = (c.shards (index key)).items.keys.val) :
      Step c _ (c.add order key true).1 := .add hr
  have r := Steps.trans (h (.new 0) [] 0 rfl) <| .trans (h _ [0] 256 (by decide +kernel)) <|
    .trans (h _ [0, 256] 512 (by decide +kernel)) <| .trans (h _ [0, 256, 512] 768 (by decide +kernel)) <|
    .single (h _ [0, 256, 512, 768] 1024 (by decide +kernel))
  obtain ⟨hl, hg, -⟩ := run_bounded_map r
  exact ⟨_, _, r, Int.ofNat_le.mp (hl _), (hg ..).mpr ⟨[_, _, _, _], _, [], rfl, ⟨rfl, rfl⟩, forall_mem_nil _⟩,
    by decide +kernel⟩

end Shards
