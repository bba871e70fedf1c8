import HanzoDNS.Lib.Transition
import HanzoDNS.Lib.Ownership
import HanzoDNS.Proxy.Transport

open Dns Ownership

namespace Proxy

open State Int

inductive Place
  | pooled (transtype : TransportType)
  | held (g : Nat)
  | closed
deriving DecidableEq

def Goroutine.conns : Goroutine → List PersistConn
  | «using» pc => [pc]
  | stamping pc => [pc]
  | stamped pc => [pc]
  | closing toClose => toClose
  | _ => []

def ids (pcs : List PersistConn) : List Nat :=
  pcs.map PersistConn.id

def State.place (s : State) : Place → List Nat
  | .pooled transtype => ids (s.conns transtype)
  | .held g => ids (s.goroutines g).conns
  | .closed => s.closed

-- A connection is not put behind one that has been used later.
def InOrder (t : Transport) (s : State) : Label → Prop
  | .act g .append => ∀ pc, s.goroutines g = .stamped pc →
      t.maxAge > 0 ∨ ∀ pc' ∈ s.conns (t.transportTypeFromConn pc), pc'.used ≤ pc.used
  | _ => True

def Step (t : Transport) (s : State) (a : Label) (s' : State) : Prop :=
  step t s a = some s' ∧ InOrder t s a

structure Accounts (t : Transport) (s : State) (a : Label) (s' : State) : Prop where
  -- Each connection is in one place, and there only once.
  owned : Owned s'.place s'.created
  -- A connection that Dial returns is not closed, and it has not been idle for too long.
  dialed : s.goroutines g ≠ .using pc → s'.goroutines g = .using pc →
             pc.id ∉ s'.closed ∧ (pc.id < s.created → s'.now - pc.used ≤ t.expire)
  -- What cleanup leaves has not been idle for too long, and it closes nothing else.
  kept : a = .act g (.cleanup false) → pc ∈ s'.conns transtype → s.now - pc.used < t.expire
  shut : a = .act g (.cleanup false) → pc ∈ (s'.goroutines g).conns →
             t.expire ≤ s.now - pc.used ∨ (t.maxAge > 0 ∧ t.maxAge < s.now - pc.created)

variable {t : Transport} {s s' : State} {g : Nat}

section Places

theorem place_set (p : Goroutine) : (s.set g p).place = Function.update s.place (.held g) (ids p.conns) := by
  funext q
  cases q
  case pooled => rfl
  case closed => rfl
  case held g' =>
    by_cases h : g' = g
    · subst h
      simp [State.place, State.set]
    · simp [State.place, State.set, h]

theorem place_set_eq {p : Goroutine} (h : ids p.conns = ids (s.goroutines g).conns) : (s.set g p).place = s.place := by
  rw [place_set, h]
  exact Function.update_eq_self (Place.held g) s.place

theorem place_setConns (transtype : TransportType) (stack : List PersistConn) :
    (s.setConns transtype stack).place = Function.update s.place (.pooled transtype) (ids stack) := by
  funext q
  cases q
  case held => rfl
  case closed => rfl
  case pooled tt =>
    by_cases h : tt = transtype
    · subst h
      simp [place, setConns]
    · simp [place, setConns, h]

theorem place_close (pc : PersistConn) : (s.close pc).place = Function.update s.place .closed (pc.id :: s.closed) := by
  funext q
  cases q
  all_goals simp [place, close]

end Places

section Cleanup

variable {now : Time} {all : Bool} {stack : List PersistConn} {pc : PersistConn}

theorem cleanStack_perm : ((t.cleanStack now all stack).1 ++ (t.cleanStack now all stack).2).Perm stack := by
  rw [Transport.cleanStack]
  split_ifs
  · simp
  · simp
  · simpa using List.filter_append_perm (fun pc => ¬(t.stale now pc ∨ t.aged now pc)) stack
  · simp
  · exact List.perm_append_comm.trans (.of_eq (List.take_append_drop ..))

theorem cleanStack_sublist : (t.cleanStack now all stack).1.Sublist stack := by
  rw [Transport.cleanStack]
  split_ifs
  · exact .refl _
  · exact List.nil_sublist _
  · exact List.filter_sublist
  · exact .refl _
  · exact List.drop_sublist ..

theorem stale_iff : t.stale now pc ↔ t.expire ≤ now - pc.used := by
  rw [Transport.stale, decide_eq_true_eq]
  exact ⟨le_sub_left_of_add_le ∘ add_le_of_le_sub_right, le_sub_right_of_add_le ∘ add_le_of_le_sub_left⟩

theorem aged_iff : t.aged now pc ↔ t.maxAge < now - pc.created := by
  rw [Transport.aged, decide_eq_true_eq]
  exact ⟨lt_sub_left_of_add_lt ∘ add_lt_of_lt_sub_right, lt_sub_right_of_add_lt ∘ add_lt_of_lt_sub_left⟩

theorem cleanStack_spec (hs : ¬t.maxAge > 0 → stack.Pairwise (·.used ≤ ·.used)) :
    (∀ pc ∈ (t.cleanStack now false stack).1, ¬t.stale now pc) ∧
    (∀ pc ∈ (t.cleanStack now false stack).2, t.stale now pc ∨ (t.maxAge > 0 ∧ t.aged now pc)) := by
  have fresh {a b : PersistConn} (hab : a.used ≤ b.used) (ha : ¬t.stale now a) : ¬t.stale now b := by
    rw [Transport.stale, decide_eq_true_eq] at ha ⊢
    exact fun hb => ha (hab.trans hb)
  rw [Transport.cleanStack]
  split_ifs with h₁ h₂ h₃ h₄
  · simp [h₁]
  · cases h₂
  · simp only [List.mem_filter, decide_eq_true_eq]
    constructor
    · exact fun pc h => (not_or.mp h.2).1
    · exact fun pc h => h.2.imp_right (⟨h₃, ·⟩)
  · -- The first connection is not too old, so no later one is.
    refine ⟨?_, List.forall_mem_nil _⟩
    cases stack
    case nil => contradiction
    case cons first rest =>
      have hf : ¬t.stale now first := by simpa using h₄
      obtain ⟨hr, -⟩ := List.pairwise_cons.mp (hs h₃)
      exact List.forall_mem_cons.mpr ⟨hf, fun pc hm => fresh (hr pc hm) hf⟩
  · have hp : stack.Pairwise fun a b => decide (¬t.stale now a) → decide (¬t.stale now b) := by
      refine (hs h₃).imp fun hab ha => ?_
      exact decide_eq_true (fresh hab (of_decide_eq_true ha))
    obtain ⟨hb, ha⟩ := Search.search_list hp
    constructor
    · exact fun pc hm => of_decide_eq_true (ha pc hm)
    · exact fun pc hm => .inl (by simpa using hb pc hm)

theorem cleanup_eq : t.cleanup all s =
    ({ s with conns := fun transtype => (t.cleanStack s.now all (s.conns transtype)).1 },
      TransportType.all.flatMap fun transtype => (t.cleanStack s.now all (s.conns transtype)).2) := by
  have hc : (t.cleanup all s).1 =
      { s with conns := fun transtype => (t.cleanStack s.now all (s.conns transtype)).1 } := by
    simp only [Transport.cleanup, TransportType.all, List.foldl_cons, List.foldl_nil, Transport.cleanType,
      setConns]
    congr 1
    funext transtype
    cases transtype
    all_goals rfl
  refine Prod.ext hc ?_
  simp [Transport.cleanup, TransportType.all, Transport.cleanType, setConns]

end Cleanup

inductive Did (t : Transport) (s : State) (g : Nat) : Action → State → Prop
  | refused (hg : s.goroutines g = .idle) : Did t s g (.dial proto) s
  | dial (hg : s.goroutines g = .idle) : Did t s g (.dial proto) (s.set g (.locking transtype))
  | lock (hg : s.goroutines g = .locking transtype) :
              Did t s g .lock ({ s with mu := some g }.set g (.popping transtype deadline))
  | miss (hg : s.goroutines g = .popping transtype deadline) :
              Did t s g .pop ({ s with mu := none }.set g .missed)
  | drop (hg : s.goroutines g = .popping transtype deadline) (hc : s.conns transtype = pc :: stack) :
              Did t s g .pop ((s.setConns transtype stack).close pc)
  | hit (hg : s.goroutines g = .popping transtype deadline) (hc : s.conns transtype = pc :: stack)
              (hi : s.now - pc.used ≤ t.expire) :
              Did t s g .pop ({ s.setConns transtype stack with mu := none }.set g (.using pc))
  | connect (hg : s.goroutines g = .missed) : Did t s g (.connect udpConn)
              ({ s with created := s.created + 1 }.set g (.using { id := s.created, udpConn, created := s.now }))
  | fail (hg : s.goroutines g = .missed) : Did t s g .fail (s.set g .idle)
  | close (hg : (s.goroutines g).conns = [pc]) (ha : a = .close ∨ a = .yield ∨ a = .append) :
              Did t s g a ((s.close pc).set g .idle)
  | yield (hg : s.goroutines g = .using pc) : Did t s g .yield (s.set g (.stamping pc))
  | stamp (hg : s.goroutines g = .stamping pc) : Did t s g .stamp (s.set g (.stamped { pc with used := s.now }))
  | append (hg : s.goroutines g = .stamped pc) (ht : transtype = t.transportTypeFromConn pc) : Did t s g .append
              ((s.setConns transtype (s.conns transtype ++ [pc])).set g .idle)
  | cleanup (hg : s.goroutines g = .idle) :
              Did t s g (.cleanup all) ((t.cleanup all s).1.set g (.closing (t.cleanup all s).2))
  | closeNext (hg : s.goroutines g = .closing (pc :: toClose)) :
              Did t s g .closeNext ((s.close pc).set g (.closing toClose))
  | done (hg : s.goroutines g = .closing []) : Did t s g .closeNext (s.set g .idle)

theorem did_of_pop {transtype : TransportType} {deadline : Option Time}
    (hg : s.goroutines g = .popping transtype deadline) : Did t s g .pop (t.pop s g transtype deadline) := by
  rw [Transport.pop]
  split
  case h_1 => exact .miss hg
  case h_2 pc stack hc =>
    dsimp only
    split_ifs with h₁ h₂
    · exact .drop hg hc
    · exact .drop hg hc
    · exact .hit hg hc (not_lt.mp h₁)

theorem did_of_append {pc : PersistConn} (hg : s.goroutines g = .stamped pc) :
    Did t s g .append (t.append s g pc) := by
  rw [Transport.append]
  split_ifs
  · exact .close (by rw [hg]; rfl) (.inr (.inr rfl))
  · exact .append hg rfl

theorem did_of_act {a : Action} (h : act t s g a = some s') : Did t s g a s' := by
  rw [act.eq_def] at h
  split at h
  case h_1 hg =>
    split at h
    all_goals cases h
    · exact .refused hg
    · exact .dial hg
  case h_2 hg =>
    split at h
    all_goals cases h
    exact .lock hg
  case h_3 hg =>
    cases h
    exact did_of_pop hg
  case h_4 hg =>
    cases h
    exact .connect hg
  case h_5 hg =>
    cases h
    exact .fail hg
  case h_6 hg =>
    cases h
    exact .close (by rw [hg]; rfl) (.inl rfl)
  case h_7 hg =>
    split at h
    all_goals cases h
    · exact .close (by rw [hg]; rfl) (.inr (.inl rfl))
    · exact .yield hg
  case h_8 hg =>
    cases h
    exact .stamp hg
  case h_9 hg =>
    split at h
    all_goals cases h
    exact did_of_append hg
  case h_10 hg =>
    split at h
    all_goals cases h
    exact .cleanup hg
  case h_11 hg =>
    cases h
    exact .closeNext hg
  case h_12 hg =>
    cases h
    exact .done hg
  case h_13 => cases h

section Owned

variable {a : Action} {pc : PersistConn}

theorem owned_set (o : Owned s.place s.created) {p : Goroutine} (hp : ids p.conns = ids (s.goroutines g).conns) :
    Owned (s.set g p).place (s.set g p).created := by
  rw [place_set_eq hp]
  exact o

theorem owned_close (o : Owned s.place s.created) {p : Goroutine}
    (hg : ids (s.goroutines g).conns = pc.id :: ids p.conns) :
    Owned ((s.close pc).set g p).place ((s.close pc).set g p).created := by
  rw [place_set, place_close, Function.update_comm (by simp)]
  refine o.move (by simp) ?_
  change (ids p.conns ++ pc.id :: s.closed).Perm (ids (s.goroutines g).conns ++ s.closed)
  rw [hg]
  exact List.perm_middle

theorem owned_cleanType {p : State × List PersistConn} {now : Time} {all : Bool} {transtype : TransportType} {n : Nat}
    (o : Owned (Function.update p.1.place (.held g) (ids p.2)) n) :
    Owned (Function.update (t.cleanType now all p transtype).1.place (.held g)
      (ids (t.cleanType now all p transtype).2)) n := by
  have hp := (@cleanStack_perm t now all (p.1.conns transtype)).map PersistConn.id
  rw [List.map_append] at hp
  refine o.exchange (p := .pooled transtype) (q := .held g) (by simp) ?_ ?_
  case refine_1 =>
    simp only [Transport.cleanType, place_setConns, Function.update_self, Function.update_of_ne, ne_eq, reduceCtorEq,
      not_false_eq_true, ids, List.map_append]
    exact (List.perm_append_comm_assoc ..).trans (List.perm_append_comm.trans (hp.append_right _))
  case refine_2 =>
    intro r h₁ h₂
    simp [Transport.cleanType, place_setConns, Function.update_of_ne h₁, Function.update_of_ne h₂]

theorem owned_cleanup (o : Owned s.place s.created) {all : Bool} (hg : s.goroutines g = .idle) :
    Owned ((t.cleanup all s).1.set g (.closing (t.cleanup all s).2)).place s.created := by
  have hi : Owned (Function.update s.place (.held g) (ids [])) s.created := by
    have he : ids [] = s.place (.held g) := by
      rw [place, hg]
      rfl
    rwa [he, Function.update_eq_self]
  rw [place_set]
  exact owned_cleanType (owned_cleanType (@owned_cleanType _ _ (s, []) _ _ .udp _ hi))

theorem Did.owned (o : Owned s.place s.created) (h : Did t s g a s') : Owned s'.place s'.created := by
  cases h
  case refused => exact o
  case dial hg => exact owned_set o (by rw [hg]; rfl)
  case lock transtype deadline hg => exact @owned_set { s with mu := some g } g o _ (by simp only [hg]; rfl)
  case miss hg => exact @owned_set { s with mu := none } g o _ (by simp only [hg]; rfl)
  case drop transtype deadline pc stack hg hc =>
    rw [place_close, place_setConns]
    refine o.move (by simp) ?_
    change (ids stack ++ pc.id :: s.closed).Perm (ids (s.conns transtype) ++ s.closed)
    rw [hc]
    exact List.perm_middle
  case hit transtype deadline pc stack hg hc hi =>
    have hp : (set { s.setConns transtype stack with mu := none } g (.using pc)).place =
        Function.update (Function.update s.place (.pooled transtype) (ids stack)) (.held g) [pc.id] := by
      rw [place_set, ←place_setConns]
      rfl
    rw [hp]
    refine o.move (by simp) ?_
    change (ids stack ++ [pc.id]).Perm (ids (s.conns transtype) ++ ids (s.goroutines g).conns)
    rw [hc, hg]
    exact List.perm_append_comm.trans (.of_eq (List.append_nil _).symm)
  case connect hg =>
    rw [place_set]
    refine o.add ?_
    change [s.created].Perm (s.created :: ids (s.goroutines g).conns)
    rw [hg]
    rfl
  case fail hg => exact owned_set o (by rw [hg]; rfl)
  case close hg _ => exact owned_close o (by rw [hg]; rfl)
  case yield hg => exact owned_set o (by rw [hg]; rfl)
  case stamp hg => exact owned_set o (by rw [hg]; rfl)
  case append pc transtype hg _ =>
    rw [place_set, place_setConns, Function.update_comm (by simp)]
    refine o.move (by simp) ?_
    change ([] ++ ids (s.conns transtype ++ [pc])).Perm (ids (s.goroutines g).conns ++ ids (s.conns transtype))
    rw [hg, List.nil_append, ids, List.map_append]
    exact List.perm_append_comm
  case cleanup all hg =>
    have hc : (t.cleanup all s).1.created = s.created := by rw [cleanup_eq]
    rw [State.set, hc]
    exact owned_cleanup o hg
  case closeNext hg => exact owned_close o (by rw [hg]; rfl)
  case done hg => exact owned_set o (by rw [hg]; rfl)

end Owned

section Sorted

variable {a : Action}

def Sorted (s : State) : Prop :=
  ∀ transtype, (s.conns transtype).Pairwise (·.used ≤ ·.used)

theorem Sorted.sublist (h : Sorted s) (hs : ∀ transtype, (s'.conns transtype).Sublist (s.conns transtype)) :
    Sorted s' :=
  fun transtype => (h transtype).sublist (hs transtype)

theorem tail_sublist {transtype : TransportType} {pc : PersistConn} {stack : List PersistConn}
    (hc : s.conns transtype = pc :: stack) (tt : TransportType) :
    ((s.setConns transtype stack).conns tt).Sublist (s.conns tt) := by
  by_cases h : tt = transtype
  · subst h
    simp [setConns, hc]
  · simp [setConns, h]

theorem Did.sorted (hs : Sorted s) (h : Did t s g a s') (ho : InOrder t s (.act g a)) (hm : ¬t.maxAge > 0) :
    Sorted s' := by
  cases h
  case drop hc => exact hs.sublist (tail_sublist hc)
  case hit hc _ => exact hs.sublist (tail_sublist hc)
  case cleanup all hg =>
    apply hs.sublist
    intro transtype
    rw [cleanup_eq]
    exact cleanStack_sublist
  case append pc transtype hg ht =>
    intro tt
    by_cases h : tt = transtype
    case neg => simpa [State.set, State.setConns, h] using hs tt
    case pos =>
      subst h
      have ho := (ho pc hg).resolve_left hm
      simp only [State.set, State.setConns, Function.update_self]
      refine List.pairwise_append.mpr ⟨hs tt, List.pairwise_singleton .., fun pc' hm' pc'' hm'' => ?_⟩
      rw [List.mem_singleton.mp hm'']
      exact ho pc' (ht ▸ hm')
  all_goals exact hs

end Sorted

theorem Did.dialed {a : Action} {g' : Nat} {pc : PersistConn} (h : Did t s g a s')
    (hn : s.goroutines g' ≠ .using pc) (hu : s'.goroutines g' = .using pc) :
    s'.now - pc.used ≤ t.expire ∨ pc.id = s.created := by
  -- Only the goroutine itself changes its state.
  have goes {s : State} {p : Goroutine} (hu : (s.set g p).goroutines g' = .using pc)
      (hn : s.goroutines g' ≠ .using pc) : p = .using pc := by
    change Function.update s.goroutines g p g' = _ at hu
    by_cases hg : g' = g
    · rwa [hg, Function.update_self] at hu
    · exact absurd (by rwa [Function.update_of_ne hg] at hu) hn
  cases h
  case refused => exact absurd hu hn
  case drop => exact absurd hu hn
  case hit hi =>
    cases goes hu hn
    exact .inl hi
  case connect =>
    cases goes hu hn
    exact .inr rfl
  case cleanup =>
    rw [cleanup_eq] at hu
    cases goes hu hn
  all_goals cases goes hu hn

structure Inv (t : Transport) (s : State) : Prop where
  owned : Owned s.place s.created
  sorted : ¬t.maxAge > 0 → Sorted s

theorem Inv.init (now : Time) : Inv t { now } where
  owned := by
    have he : place { now } = fun _ => [] := by
      funext p
      cases p
      all_goals rfl
    rw [he]
    exact .empty
  sorted _ := fun _ => List.Pairwise.nil

theorem Inv.step {a : Label} (i : Inv t s) (h : Step t s a s') : Inv t s' := by
  obtain ⟨h, ho⟩ := h
  cases a
  case tick =>
    cases h
    exact ⟨i.owned, i.sorted⟩
  case stop =>
    cases h
    exact ⟨i.owned, i.sorted⟩
  case act =>
    have hd := did_of_act h
    exact ⟨hd.owned i.owned, fun hm => hd.sorted (i.sorted hm) ho hm⟩

theorem accounts_of_run {now : Time} {as : List Label} {a : Label} (hr : Steps (Step t) { now } as s)
    (h : Step t s a s') : Accounts t s a s' := by
  have i : Inv t s := hr.invariant Inv.step (.init now)
  have i' : Inv t s' := i.step h
  refine ⟨i'.owned, ?dialed, ?kept, ?shut⟩
  case dialed =>
    intro g pc hn hu
    have hm : pc.id ∈ s'.place (.held g) := by
      rw [place, hu]
      exact List.mem_singleton_self _
    have hc : pc.id ∉ s'.place .closed := by
      intro hc
      cases i'.owned.unique hm hc
    refine ⟨hc, fun hlt => ?_⟩
    obtain ⟨h, -⟩ := h
    cases a
    case tick =>
      cases h
      exact absurd hu hn
    case stop =>
      cases h
      exact absurd hu hn
    case act =>
      refine ((did_of_act h).dialed hn hu).resolve_right fun he => ?_
      exact absurd hlt (he ▸ Nat.lt_irrefl _)
  case kept =>
    rintro g transtype pc rfl hm
    cases did_of_act h.1
    case close ha => simp at ha
    case cleanup hg =>
      rw [cleanup_eq] at hm
      have := (cleanStack_spec fun hm => i.sorted hm transtype).1 pc hm
      rw [stale_iff] at this
      exact not_le.mp this
  case shut =>
    rintro g pc rfl hm
    cases did_of_act h.1
    case close ha => simp at ha
    case cleanup hg =>
      simp only [State.set, Function.update_self, Goroutine.conns, cleanup_eq, List.mem_flatMap] at hm
      obtain ⟨transtype, -, hm⟩ := hm
      have := (cleanStack_spec fun hm => i.sorted hm transtype).2 pc hm
      rwa [stale_iff, aged_iff] at this

abbrev Runs (t : Transport) : State → List Label → State → Prop :=
  Steps fun s a s' => step t s a = some s'

theorem runs_of_foldlM {as : List Label} (h : as.foldlM (step t) s = some s') : Runs t s as s' := by
  induction as generalizing s
  case nil =>
    cases h
    exact .refl
  case cons a as hi =>
    rw [List.foldlM_cons, Option.bind_eq_bind, Option.bind_eq_some_iff] at h
    obtain ⟨s₁, hs, h⟩ := h
    exact .trans hs (hi h)

namespace Sample

def transport : Transport where
  expire := 10

def use (g : Nat) : List Label :=
  [.dial .udp, .lock, .pop, .connect true, .yield].map (.act g)

def start : State where
  now := 0

def expired : List Label :=
  use 0 ++ [.act 0 .stamp, .act 0 .append, .tick 20]

-- The clock is read for the first connection, but the second one is given back before it.
def overtaken : List Label :=
  use 0 ++ use 1 ++
    [.act 0 .stamp, .tick 10, .act 1 .stamp, .act 1 .append, .act 0 .append, .tick 5]

def last (as : List Label) : State :=
  (as.foldlM (step transport) start).getD start

end Sample

open Sample

theorem accounts_expired : ∃ s s', Steps (Step transport) start expired s ∧
    Step transport s (.act 1 (.cleanup false)) s' ∧
    Accounts transport s (.act 1 (.cleanup false)) s' := by
  have ho : InOrder transport (last (use 0 ++ [.act 0 .stamp])) (.act 0 .append) :=
    fun _ _ => .inr (List.forall_mem_nil _)
  have hr : Steps (Step transport) start expired (last expired) :=
    .trans ⟨rfl, trivial⟩ (.trans ⟨rfl, trivial⟩ (.trans ⟨rfl, trivial⟩ (.trans ⟨rfl, trivial⟩
      (.trans ⟨rfl, trivial⟩ (.trans ⟨rfl, trivial⟩ (.trans ⟨rfl, ho⟩ (.trans ⟨rfl, trivial⟩ .refl)))))))
  exact ⟨_, _, hr, ⟨rfl, trivial⟩, accounts_of_run hr ⟨rfl, trivial⟩⟩

-- A connection that has been idle for too long is overlooked if one that was used later is in front of it.
theorem accounts_overtaken : ∃ s s', Runs transport start overtaken s ∧
    step transport s (.act 2 (.cleanup false)) = some s' ∧
    ¬Accounts transport s (.act 2 (.cleanup false)) s' := by
  refine ⟨last overtaken, _, runs_of_foldlM rfl, rfl, ?_⟩
  intro h
  have hk := @Accounts.kept _ _ _ _ h 2 .udp { id := 0, udpConn := true, created := 0, used := 0 } rfl (by decide)
  exact absurd hk (by decide)

end Proxy
