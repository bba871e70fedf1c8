import HanzoDNS.Cloudflare.Basic

open List Option Multiset

namespace Cloudflare

open Table Table.Range

structure Data where
  type : Str
  name : Str
  content : Str
  ttl : Int
  proxied : Option Bool
  priority : Option Int
deriving DecidableEq

def Data.key (d : Data) : Str × Str :=
  (d.type, d.name)

namespace Record

def data (r : Record) : Data :=
  { r with }

def Protected (r : Record) : Prop :=
  r.type ∈ protectedTypes

instance : DecidablePred Protected :=
  fun r => inferInstanceAs <| Decidable (r.type ∈ protectedTypes)

variable {r r₁ r₂ : Record}

@[simp]
theorem data_with_id {id : Str} : { r with id }.data = r.data :=
  rfl

@[simp]
theorem key_with_id {id : Str} : { r with id }.key = r.key :=
  rfl

theorem key_eq_of_data_eq (h : r₁.data = r₂.data) : r₁.key = r₂.key := by
  simp_all [data, key]

theorem protected_iff_of_key_eq (h : r₁.key = r₂.key) : r₁.Protected ↔ r₂.Protected := by
  simp_all [key, Protected]

end Record

theorem recordChanged_of_data_eq {r₁ r₂ want : Record} (h : r₁.data = r₂.data) :
    recordChanged r₁ want = recordChanged r₂ want := by
  simp_all [Record.data, recordChanged]

theorem recordChanged_self {want : Record} : recordChanged want want = false := by
  simp [recordChanged]

-- What becomes of a current record that is not deleted. Only records that represent their type and name
-- are ever updated.
def settled (currentByKey desiredByKey : Table Record.key) (r : Record) : Record :=
  match desiredByKey.get r.key with
  | none => r
  | some want =>
    if currentByKey.get r.key = some r ∧ recordChanged r want then { want with id := r.id } else r

section

variable {currentByKey desiredByKey : Table Record.key} {r want : Record}

@[simp]
theorem settled_id : (settled currentByKey desiredByKey r).id = r.id := by
  simp only [settled]
  split <;> try split
  all_goals rfl

@[simp]
theorem settled_key : (settled currentByKey desiredByKey r).key = r.key := by
  simp only [settled]
  split
  case h_1 => rfl
  case h_2 want h =>
    have hk : want.key = r.key := key_eq h
    split
    · exact hk
    · rfl

theorem settled_of_get_none (h : desiredByKey.get r.key = none) : settled currentByKey desiredByKey r = r := by
  simp [settled, h]

theorem settled_put_ne (h : r.key ≠ want.key) :
    settled currentByKey (desiredByKey.put want) r = settled currentByKey desiredByKey r := by
  simp [settled, get_put_ne h]

theorem settled_put_eq (h : r.key = want.key) : settled currentByKey (desiredByKey.put want) r =
      if currentByKey.get r.key = some r ∧ recordChanged r want then { want with id := r.id } else r := by
  simp [settled, h]

end

section

variable {fresh : List Record → Str} {currentByKey desiredByKey : Table Record.key}
variable {s : List Record × SyncResult Empty} {want found : Record}

theorem pushRecord_create (h : currentByKey.get want.key = none) :
    (pushRecord (service fresh) currentByKey s want).1 = s.1 ++ [{ want with id := fresh s.1 }] := by
  simp [pushRecord, h, service]

theorem pushRecord_update (h : currentByKey.get want.key = some found) (hc : recordChanged found want) :
    (pushRecord (service fresh) currentByKey s want).1 =
      s.1.map fun r => if r.id = found.id then { want with id := found.id } else r := by
  simp [pushRecord, h, hc, service]

theorem pushRecord_keep (h : currentByKey.get want.key = some found) (hc : ¬recordChanged found want) :
    pushRecord (service fresh) currentByKey s want = s := by
  simp [pushRecord, h, hc]

end

-- The state of the service once the first loop has gone through the records `wants`: the current records
-- are settled in place, and the ones that were missing are appended under new ids.
def Pushed (current wants rs : List Record) : Prop :=
  ∃ new, rs = current.map (settled (byKey current) (byKey wants)) ++ new ∧
    new.map Record.data = (wants.filter ((byKey current).get ·.key = none)).map Record.data ∧
    ∀ r ∈ new, r.id ∉ current.map Record.id

section

variable {fresh : List Record → Str} {currentByKey desiredByKey : Table Record.key}
variable {current wants : List Record} {want found r : Record}

theorem settled_put_of_ne_found (hw : desiredByKey.get want.key = none)
    (hg : currentByKey.get want.key = some found) (hr : r ≠ found) :
    settled currentByKey (desiredByKey.put want) r = settled currentByKey desiredByKey r := by
  by_cases hk : r.key = want.key
  case neg => exact settled_put_ne hk
  case pos =>
    rw [settled_put_eq hk, settled_of_get_none (hk ▸ hw), hk, hg]
    simp [Ne.symm hr]

theorem settled_put_found (hg : currentByKey.get want.key = some found) :
    settled currentByKey (desiredByKey.put want) found =
      if recordChanged found want then { want with id := found.id } else found := by
  have hk : found.key = want.key := key_eq hg
  simp [settled_put_eq hk, hk, hg]

theorem Pushed.step {s : List Record × SyncResult Empty} (h : Pushed current wants s.1)
    (hf : ∀ rs, fresh rs ∉ rs.map Record.id) (hi : (current.map Record.id).Nodup)
    (hw : (byKey wants).get want.key = none) :
    Pushed current (wants ++ [want]) (pushRecord (service fresh) (byKey current) s want).1 := by
  have ⟨new, hs, hd, hn⟩ := h
  simp only [Pushed, byKey, ofList_snoc]
  cases hg : (byKey current).get want.key
  case none =>
    have hm : current.map (settled (byKey current) ((byKey wants).put want)) =
        current.map (settled (byKey current) (byKey wants)) :=
      map_congr_left fun r hr => settled_put_ne <| get_ofList_eq_none_iff.mp hg r hr
    have hi : fresh s.1 ∉ current.map Record.id := by
      have := hf s.1
      simp_all
    refine ⟨new ++ [{ want with id := fresh s.1 }], ?_, by simp [hd, hg], ?_⟩
    · rw [pushRecord_create hg, hm, hs, append_assoc]
    · intro r hr
      cases mem_append.mp hr
      case inl hr => exact hn r hr
      case inr hr => exact List.mem_singleton.mp hr ▸ hi
  case some found =>
    have hm := mem_of_get_ofList hg
    refine ⟨new, ?_, by simp [hd, hg], hn⟩
    by_cases hc : recordChanged found want
    case neg =>
      have he : current.map (settled (byKey current) ((byKey wants).put want)) =
          current.map (settled (byKey current) (byKey wants)) := by
        refine map_congr_left fun r _ => ?_
        by_cases hr : r = found
        case neg => exact settled_put_of_ne_found hw hg hr
        case pos =>
          have hk : found.key = want.key := key_eq hg
          rw [hr, settled_put_found hg, if_neg hc, settled_of_get_none (hk ▸ hw)]
      rw [pushRecord_keep hg hc, hs, he]
    case pos =>
      rw [pushRecord_update hg hc, hs, List.map_append, List.map_map]
      congr 1
      -- The update goes by id. Ids are unique among the current records, and the new records have
      -- other ones.
      case e_a =>
        refine map_congr_left fun r hr => ?_
        by_cases he : r = found
        case pos => simp [he, settled_put_found hg, hc]
        case neg =>
          have hid : r.id ≠ found.id := fun h => he <| inj_on_of_nodup_map hi hr hm h
          simp [hid, settled_put_of_ne_found hw hg he]
      case e_a =>
        conv_rhs => rw [←map_id new]
        refine map_congr_left fun r hr => if_neg fun hid => hn r hr ?_
        exact mem_map.mpr ⟨found, hm, hid.symm⟩

theorem foldl_pushRecord (result : SyncResult Empty) (hf : ∀ rs, fresh rs ∉ rs.map Record.id)
    (hi : (current.map Record.id).Nodup) (hk : (wants.map Record.key).Nodup) :
    Pushed current wants (wants.foldl (pushRecord (service fresh) (byKey current)) (current, result)).1 := by
  induction wants using List.reverseRecOn
  case nil =>
    have hs : settled (byKey current) (byKey []) = id := rfl
    exact ⟨[], by simp [hs]⟩
  case append_singleton wants want ih =>
    rw [map_append, nodup_append] at hk
    rw [foldl_append]
    refine (ih hk.left).step hf hi <| get_ofList_eq_none_iff.mpr fun r hr => ?_
    exact hk.right.right _ (List.mem_map_of_mem hr) _ (List.mem_singleton_self _)

end

section

variable {fresh : List Record → Str} {desiredByKey : Table Record.key} {haves : List Record}

def doomed (desiredByKey : Table Record.key) (haves : List Record) : List Str :=
  (haves.filter fun r => ¬r.Protected ∧ desiredByKey.get r.key = none).map Record.id

theorem foldl_dropRecord {s : List Record × SyncResult Empty} :
    (haves.foldl (dropRecord (service fresh) desiredByKey) s).1 =
      s.1.filter (·.id ∉ doomed desiredByKey haves) := by
  induction haves generalizing s
  case nil => simp [doomed]
  case cons r haves hi =>
    rw [List.foldl_cons, hi]
    by_cases hp : r.type ∈ protectedTypes
    case pos => simp [dropRecord, doomed, Record.Protected, hp]
    case neg =>
      cases hg : desiredByKey.get r.key
      case some => simp [dropRecord, doomed, hp, hg]
      case none =>
        simp [dropRecord, doomed, Record.Protected, hp, hg, service, List.filter_filter]
        congr 1
        funext r'
        grind

end

def Kept (currentByKey desiredByKey : Table Record.key) (r : Record) : Prop :=
  currentByKey.get r.key = some r → ¬r.Protected → desiredByKey.get r.key ≠ none

instance : Decidable (Kept currentByKey desiredByKey r) :=
  inferInstanceAs <| Decidable (_ → _ → _)

section

variable {fresh : List Record → Str} {wants haves : Table.Range Record.key}
variable {current desired : List Record} {r : Record}

theorem mem_doomed_iff {id : Str} : id ∈ doomed (byKey desired) (haves.list (byKey current)) ↔
    ∃ r, ((byKey current).get r.key = some r ∧ ¬r.Protected ∧ (byKey desired).get r.key = none) ∧
      r.id = id := by
  simp [doomed, List.mem_map, List.mem_filter, mem_list]

theorem not_mem_doomed_iff (hi : (current.map Record.id).Nodup) (hr : r ∈ current) :
    r.id ∉ doomed (byKey desired) (haves.list (byKey current)) ↔ Kept (byKey current) (byKey desired) r := by
  rw [mem_doomed_iff]
  constructor
  case mp => intro h hc hp hd; exact h ⟨r, ⟨hc, hp, hd⟩, rfl⟩
  case mpr =>
    intro h ⟨r', ⟨hc, hp, hd⟩, hid⟩
    have he := inj_on_of_nodup_map hi (mem_of_get_ofList hc) hr hid
    exact h (he ▸ hc) (he ▸ hp) (he ▸ hd)

def Synced (current desired rs : List Record) : Prop :=
  ∃ new ws : List Record,
    rs = (current.filter (Kept (byKey current) (byKey desired))).map
      (settled (byKey current) (byKey desired)) ++ new ∧
    new.map Record.data = ws.map Record.data ∧
    (ws.map Record.key).Nodup ∧
    ∀ w, w ∈ ws ↔ (byKey desired).get w.key = some w ∧ (byKey current).get w.key = none

theorem syncZone_synced (hf : ∀ rs, fresh rs ∉ rs.map Record.id) (hi : (current.map Record.id).Nodup) :
    Synced current desired (syncZone (service fresh) wants haves desired current).1 := by
  have ⟨new, hs, hd, hn⟩ := foldl_pushRecord {} hf hi (wants.nodup_keys (t := byKey desired))
  have hw : byKey (wants.list (byKey desired)) = byKey desired := ofList_list
  rw [hw] at hs
  have hc : (current.map (settled (byKey current) (byKey desired))).filter
        (·.id ∉ doomed (byKey desired) (haves.list (byKey current))) =
      (current.filter (Kept (byKey current) (byKey desired))).map
        (settled (byKey current) (byKey desired)) := by
    rw [List.filter_map]
    congr 1
    refine filter_congr fun r hr => ?_
    simpa only [Function.comp, settled_id, decide_eq_decide] using not_mem_doomed_iff hi hr
  have hk : new.filter (·.id ∉ doomed (byKey desired) (haves.list (byKey current))) = new := by
    refine filter_eq_self.mpr fun r hr => decide_eq_true fun hd => hn r hr ?_
    have ⟨r', h, hid⟩ := mem_doomed_iff.mp hd
    exact mem_map.mpr ⟨r', mem_of_get_ofList h.left, hid⟩
  refine ⟨new, _, ?_, hd, ?_, ?_⟩
  · change ((haves.list (byKey current)).foldl (dropRecord (service fresh) (byKey desired)) _).1 = _
    rw [foldl_dropRecord, hs, filter_append, hc, hk]
  · exact wants.nodup_keys.sublist (filter_sublist.map _)
  · simp [mem_list]

end

-- No two records that the synchronization is responsible for have the same type and name.
def Distinct (rs : List Record) : Prop :=
  ((rs.filter (¬·.Protected)).map Record.key).Nodup

instance : Decidable (Distinct rs) :=
  inferInstanceAs <| Decidable (List.Nodup _)

theorem Distinct.get_byKey {rs : List Record} (h : Distinct rs) (hr : r ∈ rs) (hp : ¬r.Protected) :
    (byKey rs).get r.key = some r := by
  refine get_ofList_of_mem (fun r' hr' hk => ?_) hr
  have hp' : ¬r'.Protected := Record.protected_iff_of_key_eq hk |>.not.mpr hp
  exact inj_on_of_nodup_map h (by simp [hr', hp']) (by simp [hr, hp]) hk

-- What a desired record amounts to. A record that is there already stays as it is unless a field that the
-- desired record sets has changed.
def expected (currentByKey : Table Record.key) (want : Record) : Data :=
  match currentByKey.get want.key with
  | none => want.data
  | some found => if recordChanged found want then want.data else found.data

section

variable {currentByKey desiredByKey : Table Record.key} {r want found : Record}

theorem settled_of_get (hc : currentByKey.get want.key = some found)
    (hd : desiredByKey.get want.key = some want) : settled currentByKey desiredByKey found =
      if recordChanged found want then { want with id := found.id } else found := by
  have hk : found.key = want.key := key_eq hc
  simp [settled, hk, hc, hd]

theorem data_settled (hc : currentByKey.get want.key = some found)
    (hd : desiredByKey.get want.key = some want) :
    (settled currentByKey desiredByKey found).data = expected currentByKey want := by
  rw [settled_of_get hc hd, expected, hc]
  simp only
  split <;> rfl

theorem key_expected : (expected currentByKey want).key = want.key := by
  simp only [expected]
  split
  case h_1 => rfl
  case h_2 found hc =>
    have hk : found.key = want.key := key_eq hc
    split
    · rfl
    · exact hk

theorem recordChanged_settled (hc : currentByKey.get want.key = some found)
    (hd : desiredByKey.get want.key = some want) :
    ¬recordChanged (settled currentByKey desiredByKey found) want := by
  rw [settled_of_get hc hd]
  split
  · exact Bool.not_eq_true _ |>.mpr <| recordChanged_of_data_eq rfl |>.trans recordChanged_self
  · assumption

end

namespace Synced

variable {current desired rs : List Record}

section

variable (h : Synced current desired rs)

include h

theorem exists_found (hd : (byKey desired).get want.key = some want) :
    ∃ r ∈ rs, r.data = expected (byKey current) want := by
  have ⟨new, ws, hs, hn, _, hw⟩ := h
  subst hs
  cases hc : (byKey current).get want.key
  case none =>
    have hm : want.data ∈ new.map Record.data := hn ▸ mem_map_of_mem ((hw want).mpr ⟨hd, hc⟩)
    have ⟨r, hr, he⟩ := mem_map.mp hm
    exact ⟨r, mem_append_right _ hr, by simp [expected, hc, he]⟩
  case some found =>
    have hk : found.key = want.key := key_eq hc
    refine ⟨_, mem_append_left _ (mem_map_of_mem ?_), data_settled hc hd⟩
    refine mem_filter.mpr ⟨mem_of_get_ofList hc, decide_eq_true fun _ _ => ?_⟩
    simp [hk, hd]

theorem exists_want (hc : Distinct current) (hr : r ∈ rs) (hp : ¬r.Protected) :
    ∃ want, (byKey desired).get want.key = some want ∧ r.data = expected (byKey current) want := by
  have ⟨new, ws, hs, hn, _, hw⟩ := h
  subst hs
  cases mem_append.mp hr
  case inl hr =>
    have ⟨r₀, hr₀, he⟩ := mem_map.mp hr
    have ⟨hr₀, hk⟩ := mem_filter.mp hr₀
    have hp₀ : ¬r₀.Protected := Record.protected_iff_of_key_eq (he ▸ settled_key.symm) |>.not.mpr hp
    have hg := hc.get_byKey hr₀ hp₀
    have ⟨want, hd⟩ := ne_none_iff_exists'.mp <| of_decide_eq_true hk hg hp₀
    have hwk : want.key = r₀.key := key_eq hd
    exact ⟨want, hwk ▸ hd, he ▸ data_settled (hwk ▸ hg) (hwk ▸ hd)⟩
  case inr hr =>
    have ⟨want, hm, he⟩ := mem_map.mp (hn ▸ mem_map_of_mem hr : r.data ∈ ws.map Record.data)
    have ⟨hd, hg⟩ := (hw want).mp hm
    exact ⟨want, hd, by simp [expected, hg, he]⟩

theorem distinct (hc : Distinct current) : Distinct rs := by
  have ⟨new, ws, hs, hn, hk, hw⟩ := h
  have hnk : new.map Record.key = ws.map Record.key := by
    have := congrArg (List.map Data.key) hn
    rwa [List.map_map, List.map_map] at this
  have hm : ((current.filter (Kept (byKey current) (byKey desired))).map
        (settled (byKey current) (byKey desired))).map Record.key =
      (current.filter (Kept (byKey current) (byKey desired))).map Record.key := by
    rw [List.map_map]
    exact map_congr_left fun _ _ => settled_key
  -- Whether a record is protected can be read off its key.
  have hf (l : List Record) : (l.filter (¬·.Protected)).map Record.key =
      (l.map Record.key).filter (·.1 ∉ protectedTypes) := by
    rw [List.filter_map]
    rfl
  rw [Distinct, hf] at hc ⊢
  rw [hs, map_append, hm, hnk, filter_append]
  refine nodup_append.mpr ⟨?_, hk.filter _, ?_⟩
  · exact hc.sublist <| (filter_sublist.map _).filter _
  · intro k₁ h₁ k₂ h₂ he
    have ⟨r, hr, hrk⟩ := mem_map.mp (mem_filter.mp h₁).left
    have ⟨w, hw', hwk⟩ := mem_map.mp (mem_filter.mp h₂).left
    have hne := get_ofList_eq_none_iff.mp ((hw w).mp hw').right r (mem_filter.mp hr).left
    exact hne (hrk.trans <| he.trans hwk.symm)

theorem perm (hc : Distinct current) (hd : Distinct desired) : ((rs.filter (¬·.Protected)).map Record.data).Perm
      ((desired.filter (¬·.Protected)).map (expected (byKey current))) := by
  have hn₁ : ((rs.filter (¬·.Protected)).map Record.data).Nodup := by
    refine .of_map Data.key ?_
    rw [List.map_map]
    exact h.distinct hc
  have hn₂ : ((desired.filter (¬·.Protected)).map (expected (byKey current))).Nodup := by
    refine .of_map Data.key ?_
    have hk : Data.key ∘ expected (byKey current) = Record.key := funext fun _ => key_expected
    rw [List.map_map, hk]
    exact hd
  refine (perm_ext_iff_of_nodup hn₁ hn₂).mpr fun d => ?_
  simp only [List.mem_map, List.mem_filter, decide_eq_true_eq]
  constructor
  case mp =>
    intro ⟨r, ⟨hr, hp⟩, he⟩
    have ⟨want, hg, hx⟩ := h.exists_want hc hr hp
    have hk : r.key = want.key := congrArg Data.key hx |>.trans key_expected
    have hp' : ¬want.Protected := Record.protected_iff_of_key_eq hk |>.not.mp hp
    exact ⟨want, ⟨mem_of_get_ofList hg, hp'⟩, hx ▸ he⟩
  case mpr =>
    intro ⟨want, ⟨hw, hp⟩, he⟩
    have ⟨r, hr, hx⟩ := h.exists_found (hd.get_byKey hw hp)
    have hk : r.key = want.key := congrArg Data.key hx |>.trans key_expected
    have hp' : ¬r.Protected := Record.protected_iff_of_key_eq hk |>.not.mpr hp
    exact ⟨r, ⟨hr, hp'⟩, hx.trans he⟩

theorem protected_mem (hr : r ∈ current) (hp : r.Protected) : ∃ r' ∈ rs, r'.id = r.id ∧ r'.type = r.type := by
  have ⟨new, ws, hs, _⟩ := h
  subst hs
  refine ⟨settled (byKey current) (byKey desired) r, ?_, settled_id, ?_⟩
  · refine mem_append_left _ (mem_map_of_mem ?_)
    exact mem_filter.mpr ⟨hr, decide_eq_true fun _ hp' => absurd hp hp'⟩
  · exact congrArg Prod.fst settled_key

theorem get_byKey (hd : (byKey desired).get want.key = some want) :
    ∃ found, (byKey rs).get want.key = some found ∧ ¬recordChanged found want := by
  have ⟨new, ws, hs, hn, _, hw⟩ := h
  -- The new records belong to other keys, or stand for a record that was desired under this key.
  have hnew r (hr : r ∈ new) (hk : r.key = want.key) :
      r.data = want.data ∧ (byKey current).get want.key = none := by
    have ⟨w, hm, he⟩ := mem_map.mp (hn ▸ mem_map_of_mem hr : r.data ∈ ws.map Record.data)
    have hwk : w.key = want.key := (Record.key_eq_of_data_eq he).trans hk
    have ⟨hg, hc⟩ := (hw w).mp hm
    rw [hwk] at hg hc
    rw [hd] at hg
    exact ⟨some_inj.mp hg ▸ he.symm, hc⟩
  cases hc : (byKey current).get want.key
  case none =>
    have ⟨r, hr, he⟩ := h.exists_found hd
    have hk : r.key = want.key := congrArg Data.key he |>.trans key_expected
    have hne : (byKey rs).get want.key ≠ none := fun hg => get_ofList_eq_none_iff.mp hg r hr hk
    have ⟨found, hg⟩ := ne_none_iff_exists'.mp hne
    have hfk : found.key = want.key := key_eq hg
    refine ⟨found, hg, ?_⟩
    cases mem_append.mp (hs ▸ mem_of_get_ofList hg)
    case inl hf =>
      have ⟨r₀, hr₀, he⟩ := mem_map.mp hf
      have hne := get_ofList_eq_none_iff.mp hc r₀ (mem_filter.mp hr₀).left
      exact absurd (settled_key.symm.trans <| (congrArg Record.key he).trans hfk) hne
    case inr hf =>
      rw [recordChanged_of_data_eq (hnew found hf hfk).left, recordChanged_self]
      exact Bool.false_ne_true
  case some found =>
    refine ⟨_, ?_, recordChanged_settled hc hd⟩
    have hg : (byKey new).get want.key = none :=
      get_ofList_eq_none_iff.mpr fun r hr hk => by simp [(hnew r hr hk).right] at hc
    have hkept : ∀ r ∈ current, r.key = want.key → Kept (byKey current) (byKey desired) r :=
      fun r _ hk _ _ => by simp [hk, hd]
    rw [hs, byKey, get_ofList_append, hg, none_or, get_ofList_map fun _ => settled_key,
      get_ofList_filter (by simpa using hkept), hc]
    rfl

end

end Synced

section

variable {api : Api σ ε} {currentByKey desiredByKey : Table Record.key} {rs : List Record}
variable {s : σ × SyncResult ε}

theorem foldl_pushRecord_keep
    (h : ∀ want ∈ rs, ∃ found, currentByKey.get want.key = some found ∧ ¬recordChanged found want) :
    rs.foldl (pushRecord api currentByKey) s = s := by
  induction rs
  case nil => rfl
  case cons want rs hi =>
    have ⟨found, hg, hc⟩ := h want (mem_cons_self ..)
    have hp : pushRecord api currentByKey s want = s := by simp [pushRecord, hg, hc]
    rw [List.foldl_cons, hp]
    exact hi fun want hm => h want (mem_cons_of_mem _ hm)

theorem foldl_dropRecord_keep (h : ∀ r ∈ rs, r.Protected ∨ (desiredByKey.get r.key).isSome) :
    rs.foldl (dropRecord api desiredByKey) s = s := by
  induction rs
  case nil => rfl
  case cons r rs hi =>
    have hd : dropRecord api desiredByKey s r = s := by
      cases h r (mem_cons_self ..)
      case inl hp => simp_all [dropRecord, Record.Protected]
      case inr hg => simp [dropRecord, hg]
    rw [List.foldl_cons, hd]
    exact hi fun r hm => h r (mem_cons_of_mem _ hm)

end

theorem Synced.syncZone_eq {fresh : List Record → Str} {wants haves : Table.Range Record.key}
    (h : Synced current desired rs) (hc : Distinct current) :
    syncZone (service fresh) wants haves desired rs = (rs, .ok {}) := by
  have hp : (wants.list (byKey desired)).foldl (pushRecord (service fresh) (byKey rs)) (rs, {}) = (rs, {}) :=
    foldl_pushRecord_keep fun want hw => h.get_byKey <| mem_list.mp hw
  have hd : (haves.list (byKey rs)).foldl (dropRecord (service fresh) (byKey desired)) (rs, {}) = (rs, {}) := by
    refine foldl_dropRecord_keep fun r hr => ?_
    by_cases hp : r.Protected
    case pos => exact .inl hp
    case neg =>
      have hr := mem_of_get_ofList <| mem_list.mp hr
      have ⟨want, hg, hx⟩ := h.exists_want hc hr hp
      have hk : r.key = want.key := congrArg Data.key hx |>.trans key_expected
      exact .inr <| by simp [hk, hg]
  simp only [syncZone, service] at hp hd ⊢
  rw [hp, hd]

-- If neither side has several records of one type and name, then a synchronization makes the zone what
-- is desired, and if the zone has not, there is nothing left to do afterwards. No protected record is ever lost.
theorem syncZone_reconciles (wants haves wants' haves' : Table.Range Record.key)
    {fresh : List Record → Str} {current desired : List Record} (hf : ∀ rs, fresh rs ∉ rs.map Record.id)
    (hi : (current.map Record.id).Nodup) : let rs := (syncZone (service fresh) wants haves desired current).1
    (Distinct current → Distinct desired → ((rs.filter (¬·.Protected)).map Record.data).Perm
      ((desired.filter (¬·.Protected)).map (expected (byKey current)))) ∧
    (∀ r ∈ current, r.Protected → ∃ r' ∈ rs, r'.id = r.id ∧ r'.type = r.type) ∧
    (Distinct current → syncZone (service fresh) wants' haves' desired rs = (rs, .ok {})) := by
  have h : Synced current desired (syncZone (service fresh) wants haves desired current).1 :=
    syncZone_synced hf hi
  exact ⟨h.perm, fun r => h.protected_mem, h.syncZone_eq⟩

def longId (rs : List Record) : Str :=
  List.replicate ((rs.map (·.id.length)).sum + 1) 'x'

theorem longId_fresh (rs : List Record) : longId rs ∉ rs.map Record.id := by
  intro h
  have ⟨r, hr, he⟩ := mem_map.mp h
  have hl : r.id.length ≤ (rs.map (·.id.length)).sum :=
    single_le_sum (by simp) _ (mem_map_of_mem hr)
  simp [he, longId] at hl

noncomputable def anyOrder : Table.Range Record.key where
  list t := t.values.toList
  coe_list t := t.values.coe_toList

def www : Record where
  id := "1"
  type := "A"
  name := "www.example.com"
  content := "192.0.2.1"
  ttl := 300
  priority := none
  proxied := some true

theorem syncZone_reconciles_move :
    let ns : Record := { www with id := "2", type := "NS" }
    let txt : Record := { www with id := "3", type := "TXT" }
    let moved : Record := { www with content := "192.0.2.2" }
    let rs := (syncZone (service longId) anyOrder anyOrder [moved] [www, ns, txt]).1
    ((rs.filter (¬·.Protected)).map Record.data).Perm [moved.data] ∧
    syncZone (service longId) anyOrder anyOrder [moved] rs = (rs, .ok {}) := by
  intro ns txt moved rs
  have hi : ([www, ns, txt].map Record.id).Nodup := by decide
  have hc : Distinct [www, ns, txt] := by decide
  have hd : Distinct [moved] := by decide
  have ⟨hp, _, hs⟩ :=
    @syncZone_reconciles anyOrder anyOrder anyOrder anyOrder longId [www, ns, txt] [moved] longId_fresh hi
  exact ⟨hp hc hd, hs hc⟩

-- The two ways to miss the desired records: a TTL of zero does not show as a change, and of two records
-- of one type and name only the last one arrives.
theorem syncZone_inexact :
    let auto : Record := { www with ttl := 0 }
    let other : Record := { www with content := "192.0.2.2" }
    ¬((syncZone (service longId) anyOrder anyOrder [auto] [www]).1.map Record.data).Perm [auto.data] ∧
    ¬((syncZone (service longId) anyOrder anyOrder [www, other] []).1.map Record.data).Perm
      [www.data, other.data] := by
  intro auto other
  have h₁ : (syncZone (service longId) anyOrder anyOrder [auto] [www]).1 = [www] := by
    have hw : anyOrder.list (byKey [auto]) = [auto] := toList_singleton auto
    have hh : anyOrder.list (byKey [www]) = [www] := toList_singleton www
    simp only [syncZone, service, hw, hh]
    rfl
  have h₂ : (syncZone (service longId) anyOrder anyOrder [www, other] []).1.length = 1 := by
    have hw : anyOrder.list (byKey [www, other]) = [other] := toList_singleton other
    have hh : anyOrder.list (byKey []) = [] := toList_zero
    simp only [syncZone, service, hw, hh]
    rfl
  constructor
  · rw [h₁, perm_singleton]
    decide
  · intro hp
    have := hp.length_eq
    simp [h₂] at this

end Cloudflare
