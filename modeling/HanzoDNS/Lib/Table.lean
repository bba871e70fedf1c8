import Mathlib

open List Option Multiset

-- A finite map in which every value is stored under a key that can be read off the value itself. Like
-- a Go map it has no order: enumerating it yields a multiset.
@[ext]
structure Table [DecidableEq κ] (key : ν → κ) where
  map : Finmap (fun _ : κ => ν)
  keyed : ∀ {k v}, map.lookup k = some v → key v = k

namespace Table

variable [DecidableEq κ] {key : ν → κ}

instance [DecidableEq ν] : DecidableEq (Table key) :=
  fun t₁ t₂ => decidable_of_iff (t₁.map = t₂.map) Table.ext_iff.symm

def get (t : Table key) (k : κ) : Option ν :=
  t.map.lookup k

def empty : Table key where
  map := ∅
  keyed := by simp

instance : EmptyCollection (Table key) where
  emptyCollection := empty

instance : Inhabited (Table key) where
  default := ∅

def put (t : Table key) (v : ν) : Table key where
  map := t.map.insert (key v) v
  keyed := by
    intro k w h
    by_cases hk : k = key v
    case pos => subst hk; simp_all
    case neg => exact t.keyed <| Finmap.lookup_insert_of_ne _ hk ▸ h

def drop (t : Table key) (k : κ) : Table key where
  map := t.map.erase k
  keyed := by
    intro k' w h
    by_cases hk : k' = k
    case pos => subst hk; simp_all
    case neg => exact t.keyed <| Finmap.lookup_erase_ne hk ▸ h

def values (t : Table key) : Multiset ν :=
  t.map.entries.map Sigma.snd

def keys (t : Table key) : Finset κ :=
  t.map.keys

def ofList (vs : List ν) : Table key :=
  vs.foldl put ∅

def sorted [LinearOrder κ] (t : Table key) : List ν :=
  (t.keys.sort (· ≤ ·)).filterMap t.get

-- An order in which a loop over a table visits the values. It can be a different one for each loop.
structure Range (key : ν → κ) where
  list : Table key → List ν
  coe_list : ∀ t, list t = t.values

variable {t t₁ t₂ : Table key} {k : κ} {v w : ν}

theorem key_eq (h : t.get k = some v) : key v = k :=
  t.keyed h

theorem get_ext (h : ∀ k, t₁.get k = t₂.get k) : t₁ = t₂ :=
  Table.ext <| Finmap.ext_lookup h

@[simp]
theorem get_empty : (∅ : Table key).get k = none :=
  Finmap.lookup_empty k

theorem get_put : (t.put v).get k = if k = key v then some v else t.get k := by
  split
  · subst ‹k = _›; exact Finmap.lookup_insert _
  · exact Finmap.lookup_insert_of_ne _ ‹_›

@[simp]
theorem get_put_self : (t.put v).get (key v) = some v := by
  simp [get_put]

theorem get_put_of_key_eq (h : key v = k) : (t.put v).get k = some v := by
  simp [get_put, h]

theorem get_put_ne (h : k ≠ key v) : (t.put v).get k = t.get k := by
  simp [get_put, h]

theorem get_drop : (t.drop k).get k' = if k' = k then none else t.get k' := by
  split
  · subst ‹k' = _›; exact Finmap.lookup_erase _ _
  · exact Finmap.lookup_erase_ne ‹_›

@[simp]
theorem get_drop_self : (t.drop k).get k = none := by
  simp [get_drop]

theorem get_drop_ne (h : k' ≠ k) : (t.drop k).get k' = t.get k' := by
  simp [get_drop, h]

theorem put_get_eq_self (h : t.get (key v) = some v) : t.put v = t := by
  apply get_ext
  intro k
  by_cases hk : k = key v
  case pos => simp [hk, h]
  case neg => exact get_put_ne hk

theorem mem_keys_iff : k ∈ t.keys ↔ ∃ v, t.get k = some v :=
  Finmap.mem_keys.trans Finmap.mem_iff

theorem mem_values_iff : v ∈ t.values ↔ t.get (key v) = some v := by
  simp only [values, Multiset.mem_map, Sigma.exists, exists_eq_right]
  constructor
  case mp =>
    intro ⟨k, h⟩
    rw [←Finmap.lookup_eq_some_iff] at h
    exact t.keyed h ▸ h
  case mpr =>
    intro h
    exact ⟨_, Finmap.lookup_eq_some_iff.mp h⟩

theorem mem_values_of_get (h : t.get k = some v) : v ∈ t.values :=
  mem_values_iff.mpr <| key_eq h ▸ h

theorem key_inj_on_values (hv : v ∈ t.values) (hw : w ∈ t.values) (h : key v = key w) : v = w := by
  rw [mem_values_iff] at hv hw
  exact some_inj.mp <| hv ▸ h ▸ hw

theorem mem_values_put (h : w ∈ (t.put v).values) : w = v ∨ w ∈ t.values ∧ key w ≠ key v := by
  rw [mem_values_iff, get_put] at h
  split at h
  · exact .inl (some_inj.mp h).symm
  · exact .inr ⟨mem_values_iff.mpr h, ‹_›⟩

theorem mem_values_drop_iff : v ∈ (t.drop k).values ↔ v ∈ t.values ∧ key v ≠ k := by
  simp only [mem_values_iff, get_drop]
  split <;> simp_all

theorem entries_eq_map_values : t.map.entries = t.values.map (fun v => ⟨key v, v⟩) := by
  simp only [values, Multiset.map_map]
  conv_lhs => rw [←map_id t.map.entries]
  apply Multiset.map_congr rfl
  intro ⟨k, v⟩ h
  simp [t.keyed <| Finmap.lookup_eq_some_iff.mpr h]

theorem Range.mem_list {r : Range key} : v ∈ r.list t ↔ t.get (key v) = some v := by
  rw [←mem_coe, r.coe_list, mem_values_iff]

theorem values_nodup (t : Table key) : t.values.Nodup :=
  Nodup.of_map _ <| entries_eq_map_values (t := t) ▸ t.map.nodup_entries

theorem keys_val : t.keys.val = t.values.map key := by
  change t.map.entries.map Sigma.fst = _
  simp [entries_eq_map_values]

theorem values_eq_add (t : Table key) (k : κ) : t.values = (t.get k).elim 0 ({·}) + (t.drop k).values := by
  cases h : t.get k
  case none =>
    have hd : t.drop k = t := get_ext fun k' => by
      by_cases hk : k' = k
      case pos => simp [hk, h]
      case neg => exact get_drop_ne hk
    simp [hd]
  case some v =>
    obtain rfl := key_eq h
    have hn : (v ::ₘ (t.drop (key v)).values).Nodup :=
      nodup_cons.mpr ⟨by simp [mem_values_drop_iff], values_nodup _⟩
    refine (Nodup.ext t.values_nodup hn).mpr fun w => ?_
    simp only [Multiset.mem_cons, mem_values_drop_iff]
    constructor
    case mp =>
      intro hw
      by_cases hk : key w = key v
      case pos => exact .inl <| key_inj_on_values hw (mem_values_of_get h) hk
      case neg => exact .inr ⟨hw, hk⟩
    case mpr =>
      rintro (rfl | ⟨hw, _⟩)
      · exact mem_values_of_get h
      · exact hw

theorem Range.nodup_keys {r : Range key} : ((r.list t).map key).Nodup := by
  rw [←Multiset.coe_nodup, ←Multiset.map_coe, r.coe_list, ←keys_val]
  exact t.keys.nodup

@[simp]
theorem values_empty : (∅ : Table key).values = 0 :=
  rfl

theorem get_foldl_put (vs : List ν) (t : Table key) :
    (vs.foldl put t).get k = (vs.reverse.find? (key · = k)).or (t.get k) := by
  induction vs generalizing t
  case nil => rfl
  case cons v vs hi =>
    simp only [List.foldl_cons, hi, List.reverse_cons, List.find?_append, Option.or_assoc]
    congr 1
    by_cases hk : k = key v
    case pos => simp [hk]
    case neg => simp [get_put_ne hk, Ne.symm hk]

theorem get_ofList (vs : List ν) : (ofList vs : Table key).get k = vs.reverse.find? (key · = k) := by
  simp [ofList, get_foldl_put]

theorem ofList_snoc (vs : List ν) : (ofList (vs ++ [v]) : Table key) = (ofList vs).put v := by
  simp [ofList]

theorem get_ofList_eq_none_iff {vs : List ν} : (ofList vs : Table key).get k = none ↔ ∀ v ∈ vs, key v ≠ k := by
  simp [get_ofList]

theorem mem_of_get_ofList {vs : List ν} (h : (ofList vs : Table key).get k = some v) : v ∈ vs := by
  rw [get_ofList] at h
  exact mem_reverse.mp (mem_of_find?_eq_some h)

theorem get_ofList_of_mem {vs : List ν} (h : ∀ w ∈ vs, key w = key v → w = v) (hv : v ∈ vs) :
    (ofList vs : Table key).get (key v) = some v := by
  cases hg : (ofList vs : Table key).get (key v)
  case none => exact absurd rfl (get_ofList_eq_none_iff.mp hg v hv)
  case some w => rw [h w (mem_of_get_ofList hg) (key_eq hg)]

theorem ofList_eq {vs : List ν} (h : ∀ v, v ∈ vs ↔ t.get (key v) = some v) : ofList vs = t := by
  apply get_ext
  intro k
  cases hg : t.get k
  case none =>
    refine get_ofList_eq_none_iff.mpr fun v hv hk => ?_
    simp [←hk, (h v).mp hv] at hg
  case some v =>
    obtain rfl := key_eq hg
    refine get_ofList_of_mem (fun w hw hk => ?_) ((h v).mpr hg)
    have hw := (h w).mp hw
    rw [hk, hg] at hw
    exact (some_inj.mp hw).symm

theorem Range.ofList_list {r : Range key} : ofList (r.list t) = t :=
  ofList_eq fun _ => mem_list

theorem get_ofList_append (vs ws : List ν) :
    (ofList (vs ++ ws) : Table key).get k = ((ofList ws : Table key).get k).or ((ofList vs : Table key).get k) := by
  simp [get_ofList, find?_append]

theorem get_ofList_map {vs : List ν} {f : ν → ν} (hf : ∀ v, key (f v) = key v) :
    (ofList (vs.map f) : Table key).get k = ((ofList vs : Table key).get k).map f := by
  simp [get_ofList, ←map_reverse, find?_map, hf]

theorem get_ofList_filter {vs : List ν} {p : ν → Bool} (hp : ∀ v ∈ vs, key v = k → p v) :
    (ofList (vs.filter p) : Table key).get k = (ofList vs : Table key).get k := by
  simp only [get_ofList, ←filter_reverse, find?_filter]
  refine find?_congr fun v hv => ?_
  have := hp v (mem_reverse.mp hv)
  grind

theorem mem_of_mem_ofList {vs : List ν} (h : v ∈ (ofList vs : Table key).values) : v ∈ vs :=
  mem_of_get_ofList <| mem_values_iff.mp h

theorem values_map {f : ν → ν} (hf : ∀ v, key (f v) = key v)
    (h : ∀ k, t₂.get k = (t₁.get k).map f) : t₂.values = t₁.values.map f := by
  have hi : (t₁.values.map f).Nodup := by
    refine Nodup.map_on ?_ t₁.values_nodup
    intro v hv w hw he
    exact key_inj_on_values hv hw <| hf v ▸ hf w ▸ congrArg key he
  refine (Nodup.ext t₂.values_nodup hi).mpr fun v => ?_
  simp only [mem_values_iff, h, Option.map_eq_some_iff, Multiset.mem_map]
  constructor
  case mp => intro ⟨w, hw, he⟩; exact ⟨w, key_eq hw ▸ hw, he⟩
  case mpr => intro ⟨w, hw, he⟩; exact ⟨w, he ▸ hf w ▸ hw, he⟩

theorem mem_sorted_iff [LinearOrder κ] : v ∈ t.sorted ↔ t.get (key v) = some v := by
  simp only [sorted, List.mem_filterMap, Finset.mem_sort]
  constructor
  case mp => intro ⟨k, _, h⟩; exact key_eq h ▸ h
  case mpr => intro h; exact ⟨_, mem_keys_iff.mpr ⟨_, h⟩, h⟩

-- Reading the sorted values back in, each under the function `f`, gives the table of the images.
theorem get_ofList_map_sorted [LinearOrder κ] {f : ν → ν} (hf : ∀ v, key (f v) = key v) :
    (ofList (t.sorted.map f) : Table key).get k = (t.get k).map f := by
  rw [get_ofList_map hf, ofList_eq fun _ => mem_sorted_iff]

end Table
