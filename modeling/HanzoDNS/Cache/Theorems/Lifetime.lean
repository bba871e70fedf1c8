import HanzoDNS.Cache.Theorems.Provenance

open Dns Strings List

namespace Cache

structure State.Timed (c : Config) (s : State) : Prop where
  stored : s.cache negative k = some i → i.stored ≤ s.now
  verified : t ∈ s.tasks → t.purpose = .verify timed i moment refreshed →
               i.stored ≤ moment ∧ moment ≤ s.now ∧ i.ttl moment < 0

structure Reply.Timely (c : Config) (now : Time) (reply : Reply) : Prop where
  ttl : rr ∈ reply.msg.records → (rr.ttl.toNat : Int) = max 0 (reply.item.ttl now)
  stale : reply.item.ttl now < 0 → -reply.item.ttl now < seconds c.staleUpTo

variable {lib : Library} {c : Config} {s s' : State} {r : Msg} {i : Item} {e : Event} {now moment : Time}

theorem seconds_adjusted {d : Int} {o : Nat} (h : 0 ≤ d) : seconds (d + (o - seconds d) * second) = o := by
  have hd : seconds d = d / second := Int.tdiv_eq_ediv_of_nonneg h
  have hs : 0 ≤ d + (o - d / second) * second := by
    rw [second]
    omega
  rw [hd, seconds, Int.tdiv_eq_ediv_of_nonneg hs, Int.add_mul_ediv_right _ _ (by decide)]
  omega

namespace Item

theorem ttl_eq (h : i.stored ≤ now) : i.ttl now = i.origTTL.toNat - (now - i.stored) / second := by
  rw [ttl, seconds, Int.tdiv_eq_ediv_of_nonneg (Int.sub_nonneg_of_le h)]

theorem ttl_anti (h : i.stored ≤ moment) (hm : moment ≤ now) : i.ttl now ≤ i.ttl moment := by
  rw [ttl_eq h, ttl_eq (h.trans hm)]
  exact Int.sub_le_sub_left (Int.ediv_le_ediv (by decide) (Int.sub_le_sub_right hm _)) _

theorem ttl_le (h : i.stored ≤ now) : i.ttl now ≤ i.origTTL.toNat := by
  rw [ttl_eq h]
  exact Int.sub_le_self _ (Int.ediv_nonneg (Int.sub_nonneg_of_le h) (by decide))

theorem ttl_adjusted (h : i.stored ≤ moment) : i.ttl (moment + i.ttl moment * second) = 0 := by
  rw [ttl, ←sub_add_eq_add_sub, ttl, seconds_adjusted (Int.sub_nonneg_of_le h), Int.sub_self]

theorem toNat_ttl (h : i.stored ≤ now) (hn : 0 ≤ i.ttl now) : ((UInt32.ofInt (i.ttl now)).toNat : Int) = i.ttl now := by
  have hl := ttl_le h
  have hb := i.origTTL.toNat_lt
  rw [UInt32.ofInt, UInt32.toNat_ofNat']
  omega

end Item

theorem mem_filterRRSlice {rr : RR} {rrs : List RR} {ttl : UInt32} (h : rr ∈ filterRRSlice rrs ttl) : rr.ttl = ttl := by
  obtain ⟨_, -, rfl⟩ := mem_map.mp h
  rfl

namespace State

theorem reply_ttl {rr : RR} (hk : c.keepttl = false) (h : rr ∈ (reply lib c r i moment now).msg.records) :
    rr.ttl = UInt32.ofInt (i.ttl now) := by
  simp only [Msg.records, reply, Item.toMsg, hk, Bool.false_eq_true, if_false, mem_append] at h
  obtain (h | h) | h := h <;> exact mem_filterRRSlice h

theorem Timed.found (hi : s.Timed c) (h : s.getIfNotStale lib c r = some i) :
    i.stored ≤ s.now ∧ servable c i s.now := by
  obtain ⟨⟨negative, hc⟩, -, hs⟩ := getIfNotStale_spec h
  exact ⟨hi.stored hc, hs⟩

theorem Timed.effect {reply : Option Reply} (hi : s.Timed c) (h : Effect lib c s e s' reply) : s'.Timed c where
  stored hc := by
    obtain hc | ⟨n, res, t, -, -, hs, -⟩ := h.cache_cases hc
    case inl => exact (hi.stored hc).trans h.now_le
    case inr => exact hs.stored_eq ▸ h.now_le
  verified ht hv := by
    obtain ⟨t₀, ht₀, -, hc⟩ | ⟨r, -, hc⟩ := h.task_cases ht
    case inl =>
      rw [hv] at hc
      cases hc' : t₀.purpose <;> rw [hc'] at hc <;> cases hc
      all_goals
        obtain ⟨hs, hm, ht⟩ := hi.verified ht₀ hc'
        exact ⟨hs, hm.trans h.now_le, ht⟩
    case inr =>
      cases hc <;> cases hv
      exact ⟨(hi.found ‹_›).1, h.now_le, ‹_›⟩

theorem timed_start (now : Time) : ({ now } : State).Timed c where
  stored h := by cases (cache_start now).symm.trans h
  verified h := by cases h

theorem timed_of_steps {es : List Event} (h : Steps (Next lib c) { now } es s) : s.Timed c :=
  h.invariant (fun hi h => hi.effect (step_effect h.choose_spec)) (timed_start now)

-- A verification that fails or takes too long ends while its item may still be served, and one that was refreshed
-- in time finds an item that is not past its lifetime.
def InTime (lib : Library) (c : Config) (s : State) : Event → Prop
  | .finish n => ∀ t i moment timed, s.tasks[n]? = some t →
                    (t.purpose = .verify timed i moment false → -i.ttl s.now < seconds c.staleUpTo) ∧
                    (t.purpose = .verify true i moment true →
                      ∀ j, s.exists lib t.writer.request = some j → 0 ≤ j.ttl s.now)
  | .timeout n => ∀ t i moment refreshed, s.tasks[n]? = some t → t.purpose = .verify true i moment refreshed →
                    -i.ttl s.now < seconds c.staleUpTo
  | _ => True

theorem timely_fresh (hk : c.keepttl = false) (hs : i.stored ≤ s.now) (ht : 0 ≤ i.ttl s.now) :
    (reply lib c r i s.now s.now).Timely c s.now where
  ttl hr := by
    rw [reply_ttl hk hr, Item.toNat_ttl hs ht]
    exact (max_eq_right ht).symm
  stale hlt := absurd ht (not_le.mpr hlt)

theorem timely_stale (hk : c.keepttl = false) (hs : i.stored ≤ moment) (hm : moment ≤ s.now) (ht : i.ttl moment < 0)
    (hw : -i.ttl s.now < seconds c.staleUpTo) : (staleReply lib c r i moment).Timely c s.now where
  ttl hr := by
    rw [reply_ttl hk hr, Item.ttl_adjusted hs]
    exact (max_eq_left ((Item.ttl_anti hs hm).trans ht.le)).symm
  stale _ := hw

theorem window_of_servable (h : servable c i now) (ht : i.ttl now < 0) : -i.ttl now < seconds c.staleUpTo := by
  obtain h | h := of_decide_eq_true h
  · exact absurd h ht.not_gt
  · exact h.2

theorem Timed.served {reply : Reply} (hi : s.Timed c) (hk : c.keepttl = false) (h : Effect lib c s e s' (some reply))
    (hw : s.InTime lib c e) : reply.Timely c s.now := by
  cases h
  case stale hf ht _ _ =>
    obtain ⟨hs, hv⟩ := hi.found hf
    exact timely_stale hk hs le_rfl ht (window_of_servable hv ht)
  case hit hf ht _ _ => exact timely_fresh hk (hi.found hf).1 ht
  case fallback hn hv _ _ =>
    obtain ⟨hs, hm, ht⟩ := hi.verified (mem_of_getElem? hn) hv
    exact timely_stale hk hs hm ht ((hw _ _ _ _ hn).1 hv)
  case fresh hn hv hf =>
    obtain ⟨negative, hc⟩ := exists_spec hf
    exact timely_fresh hk (hi.stored hc) ((hw _ _ _ true hn).2 hv _ hf)
  case timeout hn hv _ _ =>
    obtain ⟨hs, hm, ht⟩ := hi.verified (mem_of_getElem? hn) hv
    exact timely_stale hk hs hm ht (hw _ _ _ _ hn hv)

theorem served_timely {es : List Event} {reply : Reply} (hk : c.keepttl = false)
    (hr : Steps (Next lib c) { now } es s) (h : s.step lib c e = some (s', some reply)) (hw : s.InTime lib c e) :
    reply.Timely c s.now :=
  (timed_of_steps hr).served hk (step_effect h) hw

open Variants

theorem served_timely_hit : ∃ s s' reply,
    Steps (Next .reference config) { now := 0 } (answered first (cname first)) s ∧
    s.step .reference config (.request first) = some (s', some reply) ∧ reply.Timely config s.now := by
  obtain ⟨s, s', reply, hr, hs, -⟩ := serves_hit
  exact ⟨s, s', reply, hr, hs, served_timely rfl hr hs trivial⟩

-- A stale item is verified, and the reply is not stored because it is truncated.
theorem served_timely_truncated : ∃ s s' reply,
    Steps (Next .reference config) { now := 0 } (answered first (cname first) ++
      [.advance (20 * second).toNat, .request first, .respond 0 { cname first with truncated := true }]) s ∧
    s.step .reference config (.finish 0) = some (s', some reply) ∧
    reply.item.ttl s.now = -10 ∧ reply.msg.records.map (·.ttl) = [4294967286] :=
  exists_serves (by decide +kernel)

end State
end Cache
