import HanzoDNS.Forward.Basic

open Dns List Option

namespace Forward

open Nat State

section Policy

variable {draw : Draw} {ps : List π}

theorem filterMap_getElem?_range (ps : List π) : (List.range ps.length).filterMap (ps[·]?) = ps := by
  induction ps using List.reverseRecOn
  case nil => rfl
  case append_singleton ps p hi =>
    rw [length_append, length_singleton, range_succ, filterMap_append]
    congr 1
    · refine (filterMap_congr ?_).trans hi
      intro i h
      exact getElem?_append_left (mem_range.mp h)
    · simp

theorem Policy.randomList_perm (h : draw.perm.Perm (List.range ps.length)) : (randomList draw ps).Perm ps := by
  rw [randomList.eq_def]
  split
  case h_1 => rfl
  case h_2 p q =>
    split
    · exact .swap ..
    · rfl
  case h_3 => exact (h.filterMap _).trans (.of_eq (filterMap_getElem?_range ps))

theorem Policy.list_perm (policy : Policy) (hn : ps ≠ []) (h : draw.perm.Perm (List.range ps.length)) :
    (policy.list draw ps).Perm ps := by
  cases policy
  case random => exact randomList_perm h
  case sequential => rfl
  case roundRobin robin =>
    have hi : ((robin + 1) % UInt32.ofNat ps.length).toNat < ps.length := by
      have hl := length_pos_of_ne_nil hn
      rw [UInt32.toNat_mod, UInt32.toNat_ofNat']
      have := (robin + 1).toNat_lt
      by_cases hz : ps.length % 2 ^ 32 = 0
      · rw [hz, mod_zero]
        omega
      · exact (mod_lt _ (pos_of_ne_zero hz)).trans_le (mod_le ..)
    have hp := getElem_cons_eraseIdx_perm hi
    rw [eraseIdx_eq_take_drop_succ, ←cons_append] at hp
    simpa only [list, getElem?_eq_getElem hi, toList_some, singleton_append] using hp

end Policy

variable (lib : Library) (r : Msg) (f : Config π) (w : World π)

-- All proxies answer a request that is forwarded, and there is enough time.
structure Answering : Prop where
  nonempty : f.proxies ≠ []
  drawn : w.draw.perm.Perm (List.range f.proxies.length)
  forwarded : f.match lib r
  unlimited : ¬(f.maxConcurrent > 0 ∧ w.concurrent > f.maxConcurrent)
  inTime : ∀ n, w.inTime n
  up : p ∈ f.proxies → ¬f.down (w.fails n p)
  answers : p ∈ f.proxies → ∃ ret, w.connect n attempt p opts = (some ret, none) ∧ r.matchReply lib ret
  alternate : f.nextAlternateRcodes = []
  nodata : ¬f.nextOnNodata

def order : List π :=
  f.policy.list w.draw f.proxies

-- The reply of a proxy that is asked in a turn. If UDP is preferred, a truncated one is not the last.
def answer (n : Nat) (p : π) : Option Msg :=
  let ret := (w.connect n 0 p f.opts).1
  if ret.any (·.truncated) ∧ ¬f.opts.forceTCP ∧ f.opts.preferUDP then
    (w.connect n 1 p { f.opts with forceTCP := true }).1
  else
    ret

-- The replies of all proxies if each of them is asked in its turn.
def replies : List Msg :=
  (order f w).mapIdx fun n p => (answer f w n p).getD {}

-- The reply that should be written: the first one that is no reason to go on, or else the last one.
def chosen : Option Msg :=
  ((replies f w).find? (·.rcode ∉ f.failoverRcodes)).or (replies f w).getLast?

-- The proxies are asked in order, each of them at most once, and a reply is written.
def FailsOver : Prop :=
  ∃ asked ret fuel, asked <+: order f w ∧ chosen f w = some ret ∧
    ∀ fuel' ≥ fuel, serveDNS lib r f w fuel' = some (asked, .wrote ret)

def State.advance (s : State π) (p : π) : State π :=
  { s with i := s.i + 1, upstreamErr := none, asked := s.asked ++ [p] }

def reached (n : Nat) : State π where
  i := n
  fails := n
  asked := (order f w).take n

variable {lib r f w} {p : π} {n : Nat}

section

variable {s : State π} {limit : Nat} (h : Answering lib r f w)

include h

namespace Answering

theorem mem_order : p ∈ order f w ↔ p ∈ f.proxies :=
  (f.policy.list_perm h.nonempty h.drawn).mem_iff

theorem length_order : (order f w).length = f.proxies.length :=
  (f.policy.list_perm h.nonempty h.drawn).length_eq

theorem answer_eq (hp : p ∈ f.proxies) : ∃ ret, answer f w n p = some ret ∧ r.matchReply lib ret ∧
      ∀ fuel, exchange w n p (fuel + 2) 0 f.opts = some (some ret, none) := by
  obtain ⟨ret, hc, hm⟩ := @answers _ _ _ _ _ h _ n 0 f.opts hp
  by_cases ht : ret.truncated ∧ ¬f.opts.forceTCP ∧ f.opts.preferUDP
  case pos =>
    obtain ⟨ret', hc', hm'⟩ := @answers _ _ _ _ _ h _ n 1 { f.opts with forceTCP := true } hp
    refine ⟨ret', ?_, hm', fun fuel => ?_⟩
    · simp only [answer, hc, any_some, if_pos ht, hc']
    · rw [exchange]
      simp only [hc, any_some, reduceCtorEq, if_false, if_pos ht]
      rw [exchange]
      simp [hc']
  case neg =>
    refine ⟨ret, ?_, hm, fun fuel => ?_⟩
    · simp only [answer, hc, any_some, if_neg ht]
    · simp only [exchange, hc, any_some, reduceCtorEq, if_false, if_neg ht]

theorem reply_eq {ret : Msg} (hr : r.matchReply lib ret) : reply lib r f s ret =
    if ret.rcode ∈ f.failoverRcodes ∧ s.fails < f.proxies.length then ({ s with fails := s.fails + 1 }, none)
    else
      (s, some (.wrote ret)) := by
  have ha : ¬(ret.rcode ∈ f.nextAlternateRcodes ∧ f.next = .forward) := by simp [h.alternate]
  have hd : ¬(f.nextOnNodata ∧ f.next = .forward ∧ ret.rcode = Msg.rcodeSuccess ∧ isEmpty ret) :=
    fun hd => h.nodata hd.1
  rw [reply, if_neg (not_not.mpr hr), if_neg ha, if_neg hd]

theorem ask_eq (hp : p ∈ f.proxies) : ∃ ret, answer f w n p = some ret ∧ ask lib r f w (limit + 2) n s p =
      if ret.rcode ∈ f.failoverRcodes ∧ s.fails < f.proxies.length then
        some ({ s with fails := s.fails + 1, asked := s.asked ++ [p], upstreamErr := none }, none)
      else
        some ({ s with asked := s.asked ++ [p], upstreamErr := none }, some (.wrote ret)) := by
  obtain ⟨ret, ha, hr, he⟩ := @answer_eq _ _ _ _ _ _ n h hp
  refine ⟨ret, ha, ?_⟩
  simp only [ask, he, Option.bind_eq_bind, Option.bind_some, Option.pure_def, h.reply_eq hr]
  split
  all_goals rfl

theorem turn_eq {s' : State π} (hc : s.connectAttempts = 0)
    (hw : s.wrap (order f w) = s') (hp : (order f w)[s'.i]? = some p) :
    ∃ ret, answer f w n p = some ret ∧ turn lib r f w (order f w) (limit + 2) n s =
      if ret.rcode ∈ f.failoverRcodes ∧ s'.fails < f.proxies.length then
        some ({ s'.advance p with fails := s'.fails + 1 }, none)
      else
        some (s'.advance p, some (.wrote ret)) := by
  have hm : p ∈ f.proxies := h.mem_order.mp (mem_of_getElem? hp)
  have ht : ¬¬(w.inTime n ∧ (f.maxConnectAttempts = 0 ∨ s.connectAttempts < f.maxConnectAttempts)) := by
    rw [not_not, hc]
    exact ⟨h.inTime n, Nat.eq_zero_or_pos _⟩
  obtain ⟨ret, ha, hk⟩ := @ask_eq _ _ _ _ _ _ n { s' with i := s'.i + 1 } limit h hm
  refine ⟨ret, ha, ?_⟩
  rw [turn, if_neg ht]
  simp only [hw, hp, if_neg (h.up hm)]
  exact hk

omit h in
theorem replies_getElem? (hp : (order f w)[n]? = some p) :
    (replies f w)[n]? = some ((answer f w n p).getD {}) := by
  rw [replies, getElem?_mapIdx, hp, map_some]

theorem turn_reached {ret : Msg} (hr : (replies f w)[n]? = some ret) :
    turn lib r f w (order f w) (limit + 2) n (reached f w n) = if ret.rcode ∈ f.failoverRcodes then
        some (reached f w (n + 1), none) else
        some ({ reached f w (n + 1) with fails := n }, some (.wrote ret)) := by
  have hn : n < (order f w).length := by
    have := (List.getElem?_eq_some_iff.mp hr).1
    rwa [replies, length_mapIdx] at this
  have hw : (reached f w n).wrap (order f w) = reached f w n := if_neg (not_le.mpr hn)
  have hp : (order f w)[n]? = some (order f w)[n] := getElem?_eq_getElem hn
  have ht : (order f w).take n ++ [(order f w)[n]] = (order f w).take (n + 1) := take_append_getElem hn
  obtain ⟨ret', ha, he⟩ := @turn_eq _ _ _ _ _ _ n _ limit h _ rfl hw hp
  obtain rfl : ret' = ret := by
    rwa [replies_getElem? hp, ha, getD_some, some_inj] at hr
  have hl : n < f.proxies.length := h.length_order ▸ hn
  rw [he]
  simp [reached, advance, hl, and_true, ht]

theorem loop_reached (hn : n ≤ (order f w).length)
    (hf : ∀ k < n, ∀ ret, (replies f w)[k]? = some ret → ret.rcode ∈ f.failoverRcodes) (fuel : Nat) :
    loop lib r f w (order f w) (limit + 2) (n + fuel) 0 {} =
      loop lib r f w (order f w) (limit + 2) fuel n (reached f w n) := by
  induction n generalizing fuel
  case zero => simp [reached]
  case succ n hi =>
    have hi := hi (le_of_succ_le hn) (fun k hk => hf k (lt_succ_of_lt hk)) (fuel + 1)
    have hr := replies_getElem? (getElem?_eq_getElem hn)
    rw [add_right_comm, add_assoc, hi, loop, h.turn_reached hr, if_pos (hf n (lt_succ_self n) _ hr)]
    rfl

theorem length_asked_lt {fuel : Nat} {asked : List π} {outcome : Outcome} (hc : s.connectAttempts = 0)
    (hl : loop lib r f w (order f w) (limit + 2) fuel n s = some (asked, outcome)) :
    s.asked.length < asked.length := by
  induction fuel generalizing n s
  case zero => cases hl
  case succ fuel hi =>
    have hn : (s.wrap (order f w)).i < (order f w).length := by
      have hp : 0 < (order f w).length := h.length_order ▸ length_pos_of_ne_nil h.nonempty
      rw [wrap]
      split
      · exact hp
      · exact not_le.mp ‹_›
    have ha : (s.wrap (order f w)).asked = s.asked := by
      rw [wrap]
      split
      all_goals rfl
    have hc' : (s.wrap (order f w)).connectAttempts = 0 := by
      rw [wrap]
      split
      all_goals exact hc
    obtain ⟨ret, -, ht⟩ := @turn_eq _ _ _ _ _ _ n _ limit h _ hc rfl (getElem?_eq_getElem hn)
    rw [loop, ht] at hl
    split at hl
    case isTrue =>
      have := hi (by exact hc') hl
      simp only [advance, length_append, length_singleton, ha] at this
      exact lt_of_succ_lt this
    case isFalse =>
      cases hl
      simp [advance, ha]

end Answering

theorem serveDNS_eq (fuel : Nat) : serveDNS lib r f w fuel = loop lib r f w (order f w) fuel fuel 0 {} := by
  rw [serveDNS, if_neg (not_not.mpr h.forwarded), if_neg h.unlimited]
  rfl

theorem FailsOver.exists_reply (hf : FailsOver lib r f w) :
    ∃ ret ∈ replies f w, ret.rcode ∉ f.failoverRcodes := by
  obtain ⟨asked, ret, fuel, hp, -, hl⟩ := hf
  by_contra hr
  have hf : ∀ k < (order f w).length, ∀ ret, (replies f w)[k]? = some ret → ret.rcode ∈ f.failoverRcodes :=
    fun k _ ret hk => not_not.mp fun hn => hr ⟨ret, mem_of_getElem? hk, hn⟩
  -- With this fuel, the loop gets at least to the end of the list.
  have hl := hl ((order f w).length + fuel + 2) (by omega)
  rw [serveDNS_eq h] at hl
  change loop lib r f w (order f w) _ ((order f w).length + (fuel + 2)) 0 {} = _ at hl
  rw [h.loop_reached le_rfl hf] at hl
  have hlt := h.length_asked_lt rfl hl
  simp only [reached, take_length] at hlt
  exact absurd hp.length_le (not_le.mpr hlt)

theorem failsOver_of_find {ret : Msg}
    (hs : (replies f w).find? (·.rcode ∉ f.failoverRcodes) = some ret) : FailsOver lib r f w := by
  obtain ⟨hr, before, after, he, hb⟩ := find?_eq_some_iff_append.mp hs
  have hn : before.length < (order f w).length := by
    have hl : (replies f w).length = (order f w).length := length_mapIdx
    simp only [he, length_append, length_cons] at hl
    omega
  have hn' : (replies f w)[before.length]? = some ret := by simp [he]
  have hf : ∀ k < before.length, ∀ ret, (replies f w)[k]? = some ret → ret.rcode ∈ f.failoverRcodes := by
    intro k hk ret hr
    rw [he, getElem?_append_left hk] at hr
    simpa using hb ret (mem_of_getElem? hr)
  refine ⟨(order f w).take (before.length + 1), ret, before.length + 2, take_prefix .., ?_, ?_⟩
  case refine_1 => rw [chosen, hs, some_or]
  case refine_2 =>
    intro fuel hle
    obtain ⟨k, rfl⟩ := Nat.exists_eq_add_of_le hle
    rw [serveDNS_eq h, Nat.add_right_comm]
    change loop lib r f w (order f w) _ (before.length + (k + 1 + 1)) 0 {} = _
    rw [h.loop_reached hn.le hf, loop, h.turn_reached hn', if_neg (by simpa using hr)]
    rfl

-- A reply that is no reason to go on has to be among those of the first round. Otherwise the end of the list is
-- not the end of the search, as it resets the count of fails.
theorem failsOver_iff : FailsOver lib r f w ↔ ∃ ret ∈ replies f w, ret.rcode ∉ f.failoverRcodes := by
  constructor
  case mp => exact FailsOver.exists_reply h
  case mpr =>
    rintro ⟨ret, hm, hr⟩
    have hs : ((replies f w).find? (·.rcode ∉ f.failoverRcodes)).isSome :=
      find?_isSome.mpr ⟨ret, hm, decide_eq_true hr⟩
    obtain ⟨ret, hs⟩ := isSome_iff_exists.mp hs
    exact failsOver_of_find h hs

end

namespace Sample

def question : Question where
  name := ['.']
  qtype := .ns
  qclass := Msg.classINET

def request : Msg where
  question := [question]

def response (rcode : Nat) : Msg where
  response := true
  rcode := rcode
  question := [question]

def config : Config Bool where
  proxies := [false, true]
  policy := .sequential
  failoverRcodes := [Msg.rcodeServerFailure]

def world (rcode : Nat) : World Bool where
  concurrent := 1
  inTime _ := true
  fails _ _ := 0
  connect _ _ p _ := (some (response (if p then rcode else Msg.rcodeServerFailure)), none)
  draw := { even := false, perm := [0, 1] }
  redraw _ := { even := false, perm := [0, 1] }

theorem answering (rcode : Nat) : Answering .reference request config (world rcode) where
  nonempty := by decide
  drawn := .refl _
  forwarded := by decide +kernel
  unlimited := by simp [config]
  inTime _ := rfl
  up _ := by simp [Config.down, world]
  answers _ := ⟨_, rfl, by rfl⟩
  alternate := rfl
  nodata := by decide

end Sample

theorem failsOver_second : FailsOver .reference Sample.request Sample.config (Sample.world Msg.rcodeSuccess) :=
  (failsOver_iff (Sample.answering Msg.rcodeSuccess)).mpr ⟨Sample.response Msg.rcodeSuccess, by decide, by decide⟩

-- If no proxy has a better reply, the last one is not written.
theorem not_failsOver : ¬FailsOver .reference Sample.request Sample.config (Sample.world Msg.rcodeServerFailure) := by
  intro hf
  obtain ⟨ret, hm, hr⟩ := hf.exists_reply (Sample.answering Msg.rcodeServerFailure)
  have ha : ∀ ret ∈ replies Sample.config (Sample.world Msg.rcodeServerFailure),
      ret.rcode ∈ Sample.config.failoverRcodes := by decide
  exact hr (ha ret hm)

end Forward
