import HanzoDNS.Dnsserver.Server

open Dns Strings Domain List Option

namespace Dnsserver

open Config Name

section

variable (r : Msg)

def passes (t : Config μ × Context μ) : Bool :=
  passAllFilterFuncs r t.2 t.1.filterFuncs

def Config.next (h : Config μ) (ctx : Context μ) : Context μ :=
  if passes r (h, h.collect r ctx) then h.enter (h.collect r ctx) else h.collect r ctx

def turns (ctx : Context μ) : List (Config μ) → List (Config μ × Context μ)
  | [] => []
  | h :: hs => (h, h.collect r ctx) :: turns (h.next r ctx) hs

def after (ctx : Context μ) (hs : List (Config μ)) : Context μ :=
  hs.foldl (fun ctx h => h.next r ctx) ctx

def passing (ctx : Context μ) (hs : List (Config μ)) : List (Config μ) :=
  ((turns r ctx hs).filter (passes r)).map (·.1)

end

def above : Name → List Name
  | [] => []
  | l :: n => (l :: n) :: above n

def visited (n : Name) : List Name :=
  if n = [] then [[]] else above n

def candidates (group : List (Config μ)) (ns : List Name) : List (Config μ) :=
  ns.flatMap fun n => group.filter (·.zone = toLower n.text)

def runs : List (Action μ) → List (Config μ × Context μ)
  | [] => []
  | .serve h ctx :: as => (h, ctx) :: runs as
  | .error _ :: as => runs as

def Config.view (h : Config μ) : Option Str :=
  if h.viewName ≠ [] then some h.viewName else none

-- Exactly the plugins of a config are run, in its view, or the request is refused.
def Routes (as : List (Action μ)) : Option (Config μ) → Prop
  | some h => ∃ ctx, runs as = [(h, ctx)] ∧ ctx.view = h.view
  | none => as = [.error Msg.rcodeRefused]

variable {lib : Library} {r : Msg} {ctx : Context μ} {hs hs' : List (Config μ)}

theorem turns_append : turns r ctx (hs ++ hs') = turns r ctx hs ++ turns r (after r ctx hs) hs' := by
  induction hs generalizing ctx
  case nil => rfl
  case cons h hs hi => simp [turns, after, hi]

theorem passing_append : passing r ctx (hs ++ hs') = passing r ctx hs ++ passing r (after r ctx hs) hs' := by
  simp [passing, turns_append]

theorem passing_cons (h : Config μ) :
    passing r ctx (h :: hs) = (if passes r (h, h.collect r ctx) then [h] else []) ++ passing r (h.next r ctx) hs := by
  rw [passing, turns, filter_cons]
  split <;> rfl

theorem searchZone_append {ds : Option (Config μ)} : searchZone r (hs ++ hs') ctx ds =
    (searchZone r hs ctx ds).elim .inl fun p => searchZone r hs' p.1 p.2 := by
  induction hs generalizing ctx ds
  case nil => rfl
  case cons h hs hi =>
    simp only [cons_append, searchZone]
    repeat' split
    all_goals first | rfl | exact hi

section Steps

variable {h : Config μ} {chain : Handler μ} {ds : Option (Config μ)}

theorem Config.next_of_passes (hp : passes r (h, h.collect r ctx)) : h.next r ctx = h.enter (h.collect r ctx) :=
  if_pos hp

theorem Config.next_of_not_passes (hp : ¬passes r (h, h.collect r ctx)) : h.next r ctx = h.collect r ctx :=
  if_neg hp

section

variable (hh : h.pluginChain = some chain)

include hh

theorem searchZone_skip (hp : ¬passes r (h, h.collect r ctx)) :
    searchZone r (h :: hs) ctx ds = searchZone r hs (h.next r ctx) ds := by
  rw [next_of_not_passes hp]
  simp only [searchZone, hh]
  exact if_neg hp

theorem searchZone_serve (hp : passes r (h, h.collect r ctx)) (ht : r.qtype ≠ .ds) :
    searchZone r (h :: hs) ctx ds = .inl (serve r h chain (h.enter (h.collect r ctx))) := by
  simp only [searchZone, hh]
  exact (if_pos hp).trans (if_pos ht)

theorem searchZone_keep (hp : passes r (h, h.collect r ctx)) (ht : r.qtype = .ds) :
    searchZone r (h :: hs) ctx ds = searchZone r hs (h.next r ctx) (some h) := by
  rw [next_of_passes hp]
  simp only [searchZone, hh]
  exact (if_pos hp).trans (if_neg (not_not_intro ht))

theorem searchRoot_skip (hp : ¬passes r (h, h.collect r ctx)) :
    searchRoot r (h :: hs) ctx = searchRoot r hs (h.next r ctx) := by
  rw [next_of_not_passes hp]
  simp only [searchRoot, hh]
  exact if_neg hp

theorem searchRoot_serve (hp : passes r (h, h.collect r ctx)) :
    searchRoot r (h :: hs) ctx = serve r h chain (h.enter (h.collect r ctx)) := by
  simp only [searchRoot, hh]
  exact if_pos hp

end

end Steps

variable (hc : ∀ h ∈ hs, h.pluginChain.isSome) {ds : Option (Config μ)}

include hc

theorem searchZone_first (ht : r.qtype ≠ .ds) : (∀ t, (turns r ctx hs).find? (passes r) = some t →
      ∃ chain, searchZone r hs ctx ds = .inl (serve r t.1 chain (t.1.enter t.2))) ∧
    ((turns r ctx hs).find? (passes r) = none → searchZone r hs ctx ds = .inr (after r ctx hs, ds)) := by
  induction hs generalizing ctx
  case nil =>
    refine ⟨fun t h => ?_, fun _ => rfl⟩
    cases h
  case cons h hs hi =>
    obtain ⟨hh, hc⟩ := forall_mem_cons.mp hc
    obtain ⟨chain, hh⟩ := isSome_iff_exists.mp hh
    simp only [turns]
    by_cases hp : passes r (h, h.collect r ctx)
    case pos =>
      rw [find?_cons_of_pos hp, searchZone_serve hh hp ht]
      exact ⟨fun t h => Option.some.inj h ▸ ⟨chain, rfl⟩, fun h => by cases h⟩
    case neg =>
      rw [find?_cons_of_neg hp, searchZone_skip hh hp]
      exact hi hc

theorem searchZone_last (ht : r.qtype = .ds) :
    searchZone r hs ctx ds = .inr (after r ctx hs, (passing r ctx hs).getLast?.or ds) := by
  induction hs generalizing ctx ds
  case nil => rfl
  case cons h hs hi =>
    obtain ⟨hh, hc⟩ := forall_mem_cons.mp hc
    obtain ⟨chain, hh⟩ := isSome_iff_exists.mp hh
    rw [passing_cons]
    by_cases hp : passes r (h, h.collect r ctx)
    case pos =>
      rw [searchZone_keep hh hp ht, hi hc, if_pos hp, singleton_append, getLast?_cons]
      cases (passing r (h.next r ctx) hs).getLast? <;> rfl
    case neg =>
      rw [searchZone_skip hh hp, hi hc, if_neg hp]
      rfl

theorem searchRoot_first : (∀ t, (turns r ctx hs).find? (passes r) = some t →
      ∃ chain, searchRoot r hs ctx = serve r t.1 chain (t.1.enter t.2)) ∧
    ((turns r ctx hs).find? (passes r) = none → searchRoot r hs ctx = [.error Msg.rcodeRefused]) := by
  induction hs generalizing ctx
  case nil =>
    refine ⟨fun t h => ?_, fun _ => rfl⟩
    cases h
  case cons h hs hi =>
    obtain ⟨hh, hc⟩ := forall_mem_cons.mp hc
    obtain ⟨chain, hh⟩ := isSome_iff_exists.mp hh
    simp only [turns]
    by_cases hp : passes r (h, h.collect r ctx)
    case pos =>
      rw [find?_cons_of_pos hp, searchRoot_serve hh hp]
      exact ⟨fun t h => Option.some.inj h ▸ ⟨chain, rfl⟩, fun h => by cases h⟩
    case neg =>
      rw [find?_cons_of_neg hp, searchRoot_skip hh hp]
      exact hi hc

omit hc

theorem searchZones_cat (s : Server μ) (m p : Name) (hm : m ≠ []) {fuel : Nat} (hf : m.length ≤ fuel) :
    searchZones lib r s (cat (p ++ m)) fuel (cat p).length ctx ds =
      some (searchZone r ((above m).flatMap fun n => s.zones n.text) ctx ds) := by
  induction m generalizing p fuel ctx ds
  case nil => exact absurd rfl hm
  case cons l m hi =>
    obtain ⟨fuel, rfl⟩ := Nat.exists_eq_add_one_of_ne_zero (Nat.ne_of_gt (Nat.lt_of_lt_of_le (Nat.succ_pos _) hf))
    have hd : (cat (p ++ l :: m)).drop (cat p).length = text (l :: m) := by
      rw [cat_append, drop_left, text_of_ne_nil (cons_ne_nil l m)]
    rw [searchZones, hd, lib.nextLabel_append, above, flatMap_cons, searchZone_append]
    cases hs : searchZone r (s.zones (text (l :: m))) ctx ds
    case inl as => rfl
    case inr x =>
      by_cases hn : m = []
      case pos =>
        subst hn
        rfl
      case neg =>
        have hi : searchZones lib r s (cat ((p ++ [l]) ++ m)) fuel (cat (p ++ [l])).length x.1 x.2 =
            some (searchZone r ((above m).flatMap fun n => s.zones n.text) x.1 x.2) :=
          hi (p ++ [l]) hn (Nat.le_of_succ_le_succ hf)
        rw [append_assoc, singleton_append] at hi
        simpa [hn] using hi

theorem searchZones_text (s : Server μ) (n : Name) : searchZones lib r s n.text (n.text.length + 1) 0 ctx ds =
      some (searchZone r ((visited n).flatMap fun n => s.zones n.text) ctx ds) := by
  by_cases hn : n = []
  case pos =>
    subst hn
    have hr : lib.nextLabel (text []) 0 = (1, true) := lib.nextLabel_root
    rw [searchZones, hr]
    simp only [drop_zero, visited, if_true, flatMap_cons, flatMap_nil, append_nil]
    cases searchZone r (s.zones (text [])) ctx ds <;> rfl
  case neg =>
    rw [visited, if_neg hn, text_of_ne_nil hn]
    exact searchZones_cat s n [] hn (Nat.le_succ_of_le (length_le_cat n))

theorem runs_serve (h : Config μ) (chain : Handler μ) : runs (serve r h chain ctx) = [(h, ctx)] := by
  rw [serve]
  split <;> rfl

theorem Config.view_enter (h : Config μ) : (h.enter ctx).view = h.view.or ctx.view := by
  rw [enter, view]
  split <;> rfl

theorem Config.view_collect (h : Config μ) : (h.collect r ctx).view = ctx.view := by
  rw [collect]
  split <;> rfl

theorem view_after : (after r ctx hs).view = ((passing r ctx hs).reverse.findSome? view).or ctx.view := by
  induction hs generalizing ctx
  case nil => rfl
  case cons h hs hi =>
    rw [after, List.foldl_cons, ←after, hi, passing_cons, List.reverse_append, List.findSome?_append, Option.or_assoc]
    congr 1
    by_cases hp : passes r (h, h.collect r ctx)
    case pos =>
      rw [next_of_passes hp, view_enter, view_collect, if_pos hp]
      cases hv : h.view <;> simp [hv]
    case neg =>
      rw [next_of_not_passes hp, view_collect, if_neg hp]
      rfl

theorem head?_passing : (passing r ctx hs).head? = ((turns r ctx hs).find? (passes r)).map (·.1) := by
  rw [passing, head?_map, head?_filter]

theorem view_first {t : Config μ × Context μ} (h : (turns r ctx hs).find? (passes r) = some t) :
    t.2.view = ctx.view := by
  induction hs generalizing ctx
  case nil => cases h
  case cons h' hs hi =>
    rw [turns] at h
    by_cases hp : passes r (h', h'.collect r ctx)
    case pos =>
      rw [find?_cons_of_pos hp] at h
      exact Option.some.inj h ▸ h'.view_collect
    case neg =>
      rw [find?_cons_of_neg hp, next_of_not_passes hp] at h
      exact (hi h).trans h'.view_collect

theorem routes_serve (h : Config μ) (chain : Handler μ) (hv : ctx.view = h.view) : Routes (serve r h chain ctx) (some h) :=
  ⟨ctx, runs_serve h chain, hv⟩

theorem routes_first {t : Config μ × Context μ} {chain : Handler μ} (hx : ctx.view = none)
    (h : (turns r ctx hs).find? (passes r) = some t) :
    Routes (serve r t.1 chain (t.1.enter t.2)) (passing r ctx hs).head? := by
  rw [head?_passing, h]
  refine routes_serve t.1 chain ?_
  rw [view_enter, view_first h, hx, or_none]

theorem routes_root (hc : ∀ h ∈ hs, h.pluginChain.isSome) (hx : ctx.view = none) :
    Routes (searchRoot r hs ctx) (passing r ctx hs).head? := by
  cases h : (turns r ctx hs).find? (passes r)
  case none =>
    rw [(searchRoot_first hc).2 h, head?_passing, h]
    rfl
  case some t =>
    obtain ⟨chain, hs⟩ := (searchRoot_first hc).1 t h
    rw [hs]
    exact routes_first hx h

section Dispatch

variable {group : List (Config μ)} {classChaos : Bool} {q : Question} {qs : List Question} {n : Name}

theorem candidates_chains (hc : ∀ h ∈ group, h.pluginChain.isSome) (ns : List Name) :
    ∀ h ∈ candidates group ns, h.pluginChain.isSome := by
  intro h hh
  obtain ⟨n, -, hh⟩ := mem_flatMap.mp hh
  exact hc h (mem_of_mem_filter hh)

theorem above_map (f : Label → Label) (n : Name) : above (n.map f) = (above n).map (List.map f) := by
  induction n
  case nil => rfl
  case cons l n hi => simp [above, hi]

theorem visited_map (f : Label → Label) (n : Name) : visited (n.map f) = (visited n).map (List.map f) := by
  cases n
  case nil => rfl
  case cons => exact above_map f _

theorem zones_visited (group : List (Config μ)) (classChaos : Bool) (n : Name) :
    ((visited (n.map Label.toLower)).flatMap fun n => (newServer group classChaos).zones n.text) =
      candidates group (visited n) := by
  rw [visited_map, flatMap_map, candidates]
  congr 1
  funext n
  rw [toLower_text]
  rfl

theorem searchZones_dispatch (n : Name) {name : Str} (hn : name = n.text) {fuel : Nat}
    (hf : fuel = (toLower name).length + 1) :
    searchZones lib r (newServer group classChaos) (toLower name) fuel 0 ctx ds =
      some (searchZone r (candidates group (visited n)) ctx ds) := by
  subst hf hn
  rw [toLower_text, searchZones_text, zones_visited]

theorem view_last {h : Config μ} {hs : List (Config μ)} (hl : (passing r ctx hs).getLast? = some h)
    (hv : h.view = none → ∀ h' ∈ passing r ctx hs, h'.view = none) (hx : ctx.view = none) :
    (after r ctx hs).view = h.view := by
  rw [view_after, hx, or_none]
  cases hh : h.view
  case none =>
    rw [findSome?_eq_none_iff]
    exact fun h' hm => hv hh h' (mem_reverse.mp hm)
  case some v =>
    obtain ⟨hs', he⟩ := getLast?_eq_some_iff.mp hl
    rw [he, reverse_append, reverse_singleton, singleton_append, findSome?_cons, hh]

theorem routes_last_resort (hc : ∀ h ∈ group, h.pluginChain.isSome) (hx : ctx.view = none) (hp : passing r ctx hs = []) :
    Routes (searchRoot r ((newServer group classChaos).zones ['.']) (after r ctx hs))
      (passing r ctx (hs ++ candidates group [[]])).head? := by
  have hz : (newServer group classChaos).zones ['.'] = candidates group [[]] := by
    simp [candidates, newServer, text, toLower, show Unicode.toLower '.' = '.' by decide +kernel]
  have hx : (after r ctx hs).view = none := by
    rw [view_after, hp, hx]
    rfl
  rw [passing_append, hp, nil_append, hz]
  exact routes_root (candidates_chains hc [[]]) hx

theorem passing_subset : passing r ctx hs ⊆ hs := by
  induction hs generalizing ctx
  case nil => exact nil_subset _
  case cons h hs hi =>
    rw [passing_cons]
    split
    · exact cons_subset_cons h hi
    · exact subset_cons_of_subset h hi

theorem serveDNS_dispatch (hc : ∀ h ∈ group, h.pluginChain.isSome) (hq : r.question = q :: qs) (hn : q.name = n.text)
    (hi : q.qclass = Msg.classINET) (hv : (lib.version r).all (· = 0)) (hx : ctx.view = none) :
    let cs := candidates group (visited n)
    let root := candidates group [[]]
    ∃ as, serveDNS lib r (newServer group classChaos) ctx = some as ∧
      (q.qtype ≠ .ds → Routes as (passing r ctx (cs ++ root)).head?) ∧
      (q.qtype = .ds → passing r ctx cs = [] → Routes as (passing r ctx (cs ++ root)).head?) ∧
      (q.qtype = .ds → ∀ h, (passing r ctx cs).getLast? = some h →
        (passing r ctx cs).filter (·.zone = h.zone) = [h] →
        (h.view = none → ∀ h' ∈ passing r ctx cs, h'.view = none) → Routes as (some h)) := by
  intro cs root
  have ht : r.qtype = q.qtype := by simp [Msg.qtype, hq]
  have hv : (lib.version r).any (· ≠ 0) = false := by
    cases hr : lib.version r <;> simp_all
  have hcs := candidates_chains hc (visited n)
  have hroot : ∀ h ∈ root, h.pluginChain.isSome := candidates_chains hc [[]]
  simp only [serveDNS, hq, hi, hv, ne_eq, not_true_eq_false, and_false, if_false, Bool.false_eq_true,
    searchZones_dispatch n hn rfl, bind_eq_bind, bind_some]
  by_cases hds : q.qtype = .ds
  case neg =>
    simp only [hds, false_imp_iff, and_true, not_false_eq_true, true_imp_iff, decide_false]
    cases hf : (turns r ctx cs).find? (passes r)
    case some t =>
      obtain ⟨chain, hs⟩ := (searchZone_first hcs (ht ▸ hds)).1 t hf
      have hr : Routes (serve r t.1 chain (t.1.enter t.2)) (passing r ctx cs).head? := routes_first hx hf
      have hp : (passing r ctx cs).head? = some t.1 := by
        rw [head?_passing, hf]
        rfl
      rw [hs, passing_append, head?_append, hp, some_or]
      exact ⟨_, rfl, hp ▸ hr⟩
    case none =>
      have hp : passing r ctx cs = [] := by
        rw [←head?_eq_none_iff, head?_passing, hf]
        rfl
      rw [(searchZone_first hcs (ht ▸ hds)).2 hf]
      exact ⟨_, rfl, routes_last_resort hc hx hp⟩
  case pos =>
    simp only [hds, not_true_eq_false, false_imp_iff, true_and, true_imp_iff, decide_true]
    rw [searchZone_last hcs (ht.trans hds), or_none]
    cases hl : (passing r ctx cs).getLast?
    case none =>
      have hp := getLast?_eq_none_iff.mp hl
      exact ⟨_, rfl, fun _ => routes_last_resort hc hx hp, fun h hh => by cases hh⟩
    case some h =>
      have hm : h ∈ cs := passing_subset (mem_of_getLast? hl)
      obtain ⟨chain, hh⟩ := isSome_iff_exists.mp (hcs h hm)
      simp only [filter_some, if_true, hh]
      refine ⟨_, rfl, fun hp => ?_, fun h' he _ hv => ?_⟩
      · rw [hp] at hl
        cases hl
      · obtain rfl := Option.some.inj he
        exact routes_serve h chain (view_last hl hv hx)

end Dispatch

namespace Views

def config (zone viewName : Str) : Config Unit where
  zone := zone
  viewName := viewName
  pluginChain := some fun _ _ => ([], Msg.rcodeSuccess)

def context : Context Unit where
  values := ()

def query (name : Str) (qtype : RRType) (extra : List RR) : Msg where
  question := [⟨name, qtype, Msg.classINET⟩]
  extra := extra

def opt : RR where
  name := "."
  ttl := 0x10000
  data := .opt 4096 []

def name : Name :=
  [⟨['a'], by decide, by decide⟩, ⟨['b'], by decide, by decide⟩, ⟨"shop".toList, by decide, by decide⟩]

-- The filter of the longest of the zones around the name does not pass.
def group : List (Config Unit) :=
  [config "." "a", { config "b.shop." "b" with filterFuncs := [fun _ _ => false] }, config "shop." "c",
    config "shop." "d"]

end Views

open Views

theorem passing_group : (passing (query "a.b.shop." .a []) context
    (candidates group (visited name) ++ candidates group [[]])).head? = some (config "shop." "c") := rfl

theorem serveDNS_dispatch_nested :
    ∃ as, serveDNS .reference (query "a.b.shop." .a []) (newServer group false) context = some as ∧
      Routes as (some (config "shop." "c")) := by
  obtain ⟨as, hs, hf, -⟩ := @serveDNS_dispatch Unit .reference (query "a.b.shop." .a []) context group false
    ⟨"a.b.shop.", .a, Msg.classINET⟩ [] name (by simp [group, config]) rfl rfl rfl rfl rfl
  exact ⟨as, hs, passing_group ▸ hf (by decide)⟩

-- Another version of EDNS is neither served nor refused. A request for DS records goes to the last config that
-- passes, in the view of another one if that one has none.
theorem serveDNS_version_ds :
    serveDNS .reference (query "example." .a [opt]) (newServer [config "example." ""] false) context =
      some [.error Msg.rcodeBadVers] ∧
    (serveDNS .reference (query "example." .ds []) (newServer [config "example." "a", config "example." "b"] false)
      context).map (fun as => (runs as).map fun t => t.1.viewName) = some ["b".toList] ∧
    (serveDNS .reference (query "a.example." .ds []) (newServer [config "a.example." "a", config "example." ""] false)
      context).map (fun as => (runs as).map fun t => (t.1.zone, t.2.view)) =
        some [("example.".toList, some "a".toList)] := by
  refine ⟨?_, ?_, ?_⟩
  · rfl
  · decide +kernel
  · decide +kernel

end Dnsserver
