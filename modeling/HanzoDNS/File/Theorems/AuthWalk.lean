import HanzoDNS.Dns.Nsec
import HanzoDNS.File.AuthWalk
import HanzoDNS.File.Theorems.Zone

open Dns Domain LLRB List

namespace Dns

open Name Nat

-- The start of the label after an offset that is anywhere in a label, and that the last rune ends a string.
structure Labels.Scans (dns : Labels) : Prop where
  nextLabel_inside : ∀ (p : Name) (l : Label) (n : Name), ∀ k ≤ l.text.length,
    dns.nextLabel (cat (p ++ l :: n)) ((cat p).length + k) =
      ((cat (p ++ [l])).length, decide (n = []))
  nextLabel_end : ∀ (s : Str) (i : Nat), s.length ≤ i + 1 → (dns.nextLabel s i).2

def Above (m n : Name) : Prop :=
  Within m n ∧ m.length < n.length

section Scan

-- Finds the label in which an offset is, given the start of the first label.
def scan : List Str → (start i : Nat) → Nat × Bool
  | [], _, i => (i + 1, true)
  | c :: cs, start, i => if i < start + c.length then (start + c.length, cs = []) else scan cs (start + c.length) i

theorem scan_inside (p : Name) (l : Label) (n : Name) (start k : Nat) (hk : k ≤ l.text.length) :
    scan ((p ++ l :: n).map (·.text ++ ['.'])) start (start + (cat p).length + k) =
      (start + (cat (p ++ [l])).length, decide (n = [])) := by
  induction p generalizing start
  case nil =>
    rw [nil_append, map_cons, scan, if_pos (by simp [cat]; omega)]
    simp [cat_singleton]
  case cons m p hi =>
    have hl : (cat (m :: p)).length = (m.text ++ ['.']).length + (cat p).length := by
      simp [cat_cons]
      omega
    have hr : (cat (m :: p ++ [l])).length = (m.text ++ ['.']).length + (cat (p ++ [l])).length := by
      simp [cat_cons]
      omega
    rw [cons_append, map_cons, scan, if_neg (by omega), hl, ←add_assoc, hi, hr, add_assoc]

theorem scan_end (cs : List Str) (hc : ∀ c ∈ cs, c ≠ []) (start i : Nat) (h : start + cs.flatten.length ≤ i + 1) :
    (scan cs start i).2 := by
  induction cs generalizing start
  case nil => rfl
  case cons c cs hi =>
    rw [flatten_cons, length_append] at h
    rw [scan]
    split
    case isTrue hl =>
      cases cs
      case nil => rfl
      case cons d cs =>
        have hd := length_pos_of_ne_nil (hc d (by simp))
        rw [flatten_cons, length_append] at h
        omega
    case isFalse => exact hi (fun c hm => hc c (mem_cons_of_mem _ hm)) _ (by omega)

-- Functions that also do so for offsets that are not the start of a label.
def Labels.indexed : Labels :=
  { Labels.reference with
    nextLabel s i := scan (chunks s) 0 i
    nextLabel_root := rfl
    nextLabel_append p l n := by
      have h := scan_inside p l n 0 0 (zero_le _)
      simpa [chunks_cat] using h }

theorem Labels.Scans.indexed : Labels.indexed.Scans where
  nextLabel_inside p l n k hk := by
    have h := scan_inside p l n 0 k hk
    rw [zero_add, zero_add] at h
    rwa [←chunks_cat] at h
  nextLabel_end s i h := by
    refine scan_end (chunks s) (fun _ => ne_nil_of_mem_chunks) 0 i ?_
    rwa [flatten_chunks, zero_add]

end Scan
end Dns

namespace File

variable (dns : Labels)

def calls : List Str → List Elem → List (Elem × Bool)
  | _, [] => []
  | ns, e :: es => (e, auth dns (noteNS ns e) e.name) :: calls (noteNS ns e) es

def Delegates (es : List Elem) (m : Name) : Prop :=
  ∃ d ∈ es, d.type .ns ≠ [] ∧ d.name = m.text

-- What the walk is for: the function is called for each name in the order of the tree, and the names that are
-- not authoritative are those below a delegated one.
structure Classified (z : Zone) : Prop where
  visited : (z.tree.authCalls dns).map Prod.fst = z.tree.all
  ordered : z.tree.all.Pairwise fun a b => order dns a.name b.name = .lt
  auth : ∀ c ∈ z.tree.authCalls dns, ∀ n : Name, c.1.name = n.text →
    (c.2 = false ↔ ∃ m, Delegates z.tree.all m ∧ Above m n)

-- A name below a delegated one ends with one exactly as it is written, other than the root.
def Spelled (es : List Elem) : Prop :=
  ∀ e ∈ es, ∀ n m : Name, e.name = n.text → Delegates es m → Above m n →
    ∃ d, Delegates es d ∧ d ≠ [] ∧ d <:+ n ∧ d ≠ n

variable {dns}

section Walk

theorem calls_append (ns : List Str) (as bs : List Elem) :
    calls dns ns (as ++ bs) = calls dns ns as ++ calls dns (as.foldl noteNS ns) bs := by
  induction as generalizing ns
  case nil => rfl
  case cons a as hi => rw [cons_append, calls, hi, calls, cons_append, foldl_cons]

theorem authwalk_eq [Monad m] [LawfulMonad m] (fn : Elem → Bool → m PUnit) (n : Node Elem) (ns : List Str) :
    authwalk dns fn n ns = (do
      (calls dns ns n.toList).forM fun c => fn c.1 c.2
      pure (n.toList.foldl noteNS ns)) := by
  induction n generalizing ns
  case nil => simp [authwalk, Node.toList, calls]
  case node e l r c hl hr => simp [authwalk, Node.toList, hl, hr, calls_append, calls]

-- The walk stops at the first call that fails, and otherwise goes on to the end.
theorem authWalk_eq [Monad m] [LawfulMonad m] (fn : Elem → Bool → m PUnit) (t : Tree) :
    t.authWalk dns fn = (calls dns [] t.all).forM fun c => fn c.1 c.2 := by
  simp [Tree.authWalk, authwalk_eq, Tree.all_eq_toList]

theorem authCalls_eq (t : Tree) : t.authCalls dns = calls dns [] t.all := by
  have h (cs seen : List (Elem × Bool)) :
      ((cs.forM fun c => modify (· ++ [(c.1, c.2)]) : StateM (List (Elem × Bool)) PUnit).run seen).2 = seen ++ cs := by
    induction cs generalizing seen
    case nil => exact (append_nil seen).symm
    case cons c cs hi =>
      rw [append_cons]
      exact hi (seen ++ [c])
  rw [Tree.authCalls, authWalk_eq]
  exact h _ []

variable (dns) in
theorem map_fst_calls (ns : List Str) (es : List Elem) : (calls dns ns es).map Prod.fst = es := by
  induction es generalizing ns
  case nil => rfl
  case cons e es hi => rw [calls, map_cons, hi]

theorem mem_foldl_noteNS {es : List Elem} {ns : List Str} {s : Str} :
    s ∈ es.foldl noteNS ns ↔ s ∈ ns ∨ ∃ d ∈ es, d.type .ns ≠ [] ∧ d.name = s := by
  induction es generalizing ns
  case nil => simp
  case cons e es hi =>
    have he : s ∈ noteNS ns e ↔ s ∈ ns ∨ e.type .ns ≠ [] ∧ e.name = s := by
      rw [noteNS]
      split
      case isTrue h => simp [h, or_comm, eq_comm]
      case isFalse h => simp [h]
    rw [foldl_cons, hi, he]
    simp [or_assoc]

theorem mem_calls {es : List Elem} {c : Elem × Bool} (h : c ∈ calls dns [] es) :
    ∃ as bs, es = as ++ c.1 :: bs ∧ c.2 = auth dns ((as ++ [c.1]).foldl noteNS []) c.1.name := by
  suffices hs : ∀ ns, c ∈ calls dns ns es →
      ∃ as bs, es = as ++ c.1 :: bs ∧ c.2 = auth dns ((as ++ [c.1]).foldl noteNS ns) c.1.name from hs [] h
  clear h
  intro ns h
  induction es generalizing ns
  case nil => cases h
  case cons e es hi =>
    rw [calls, mem_cons] at h
    obtain rfl | h := h
    case inl => exact ⟨[], es, rfl, rfl⟩
    case inr =>
      obtain ⟨as, bs, rfl, ha⟩ := hi _ h
      exact ⟨e :: as, bs, rfl, ha⟩

end Walk

section Auth

variable {ns : List Str} {n : Name}

theorem authFrom_eq (scans : dns.Scans) {p n : Name} {l : Label} {fuel k : Nat} (hk : k ≤ l.text.length)
    (hf : (Name.cat (l :: n)).length ≤ fuel + k) :
    ∃ b, authFrom dns ns (Name.cat (p ++ l :: n)) fuel ((Name.cat p).length + k) = some b ∧
      (b = false ↔ ∃ m : Name, m ≠ [] ∧ m <:+ n ∧ m.text ∈ ns) := by
  induction fuel generalizing p n l k
  case zero =>
    rw [Name.cat_cons, length_append, length_cons] at hf
    omega
  case succ fuel hi =>
    rw [authFrom, scans.nextLabel_inside p l n k hk]
    cases n
    case nil => exact ⟨true, by simp, by simp⟩
    case cons m n =>
      have hd : (Name.cat (p ++ l :: m :: n)).drop (Name.cat (p ++ [l])).length = Name.cat (m :: n) := by
        rw [show p ++ l :: m :: n = (p ++ [l]) ++ m :: n by simp, Name.cat_append (p ++ [l]), drop_left]
      simp only [reduceCtorEq, decide_false, Bool.false_eq_true, if_false, hd]
      split
      case isTrue hm => exact ⟨false, rfl, by simpa using ⟨m :: n, by simp, suffix_rfl, hm⟩⟩
      case isFalse hm =>
        -- What is left is below the next label, which is not delegated.
        obtain hk | rfl := Nat.lt_or_eq_of_le hk
        case inl => exact hi (p := p) (k := k + 1) hk (by omega)
        case inr =>
          obtain ⟨b, hb, h⟩ := hi (p := p ++ [l]) (l := m) (n := n) (k := 0) (Nat.zero_le _) (by
            rw [Name.cat_cons l, length_append, length_cons] at hf
            omega)
          refine ⟨b, ?_, h.trans ?_⟩
          · rw [←hb]
            simp [Name.cat_append, Name.cat_singleton, Nat.add_assoc]
          · refine exists_congr fun x => and_congr_right fun _ => ?_
            rw [suffix_cons_iff, or_and_right]
            refine (or_iff_right ?_).symm
            rintro ⟨rfl, hx⟩
            exact hm hx

theorem suffix_cons_and_ne_iff {m n : Name} {l : Label} : m <:+ l :: n ∧ m ≠ l :: n ↔ m <:+ n := by
  rw [suffix_cons_iff]
  constructor
  case mp => exact fun ⟨h, hn⟩ => h.resolve_left hn
  case mpr =>
    refine fun h => ⟨.inr h, ?_⟩
    rintro rfl
    exact absurd h.length_le (by simp)

theorem auth_eq_false_iff (scans : dns.Scans) : auth dns ns n.text = false ↔
    ∃ m : Name, m ≠ [] ∧ m <:+ n ∧ m ≠ n ∧ m.text ∈ ns := by
  cases n
  case nil =>
    have hr : authFrom dns ns ['.'] 2 0 = some true := by
      rw [authFrom, dns.nextLabel_root]
      rfl
    simp [auth, Name.text, hr]
  case cons l n =>
    obtain ⟨b, hb, h⟩ : ∃ b, authFrom dns ns (Name.cat (l :: n)) ((Name.cat (l :: n)).length + 1) 0 = some b ∧
        (b = false ↔ ∃ m : Name, m ≠ [] ∧ m <:+ n ∧ m.text ∈ ns) :=
      authFrom_eq scans (p := []) (Nat.zero_le _) (by omega)
    have ha : auth dns ns (Name.text (l :: n)) = b := by
      rw [auth]
      exact congrArg (Option.getD · true) hb
    rw [ha, h]
    refine exists_congr fun m => and_congr_right fun _ => ?_
    rw [←and_assoc, suffix_cons_and_ne_iff]

end Auth

section Classified

variable {z : Zone} {o n m : Name} {rrs : List RR}

theorem order_lt_of_suffix (h : m <:+ n) (hm : m ≠ []) (hn : m ≠ n) : order dns m.text n.text = .lt := by
  have hnn : n ≠ [] := by
    rintro rfl
    exact hm (suffix_nil.mp h)
  have hne : order dns m.text n.text ≠ .eq := by
    rw [ne_eq, order_text_eq_iff]
    intro he
    exact hn (h.eq_of_length (by simpa using congrArg List.length he))
  have hle : (order dns m.text n.text).isLE := by
    obtain ⟨p, rfl⟩ := h
    rw [order_eq, key_text dns hm, key_text dns hnn, reverse_append, map_append]
    exact compare_append _ _
  exact Ordering.isLE_iff_eq_lt_or_eq_eq.mp hle |>.resolve_right hne

theorem call_iff (scans : dns.Scans) (h : z.Holds dns o rrs) {c : Elem × Bool} (hc : c ∈ calls dns [] z.tree.all)
    (hn : c.1.name = n.text) : c.2 = false ↔ ∃ d, Delegates z.tree.all d ∧ d ≠ [] ∧ d <:+ n ∧ d ≠ n := by
  have hs := h.valid.stores.sorted
  obtain ⟨as, bs, hes, ha⟩ := mem_calls hc
  rw [←Tree.all_eq_toList, hes, pairwise_append, pairwise_cons] at hs
  rw [ha, hn, auth_eq_false_iff scans]
  simp only [mem_foldl_noteNS, not_mem_nil, false_or]
  constructor
  case mp =>
    rintro ⟨d, hd, hdn, hne, e, he, ht, hed⟩
    refine ⟨d, ⟨e, ?_, ht, hed⟩, hd, hdn, hne⟩
    rw [hes, append_cons]
    exact mem_append_left bs he
  case mpr =>
    rintro ⟨d, ⟨e, he, ht, hed⟩, hd, hdn, hne⟩
    have hlt : order dns e.name c.1.name = .lt := hed ▸ hn ▸ order_lt_of_suffix hdn hd hne
    refine ⟨d, hd, hdn, hne, e, ?_, ht, hed⟩
    -- What comes after the element is not above it.
    rw [hes, append_cons, mem_append] at he
    refine he.resolve_right fun hb => ?_
    have hgt := Std.OrientedCmp.gt_of_lt (hs.2.1.1 e hb)
    rw [hlt] at hgt
    cases hgt

theorem classified_iff (scans : dns.Scans) (hn : ∀ rr ∈ rrs, ∃ n : Name, rr.name = n.text)
    (h : (Zone.new dns o.text).load dns rrs = some (.ok z)) : Classified dns z ↔ Spelled z.tree.all := by
  have hz := Zone.load_holds hn h
  have he : ∀ e ∈ z.tree.all, ∃ b, (e, b) ∈ calls dns [] z.tree.all := by
    intro e he
    rw [←map_fst_calls dns [] z.tree.all] at he
    obtain ⟨c, hc, rfl⟩ := mem_map.mp he
    exact ⟨c.2, hc⟩
  constructor
  case mp =>
    intro hc e hm n m hn hd ha
    obtain ⟨b, hb⟩ := he e hm
    rw [←call_iff scans hz hb hn, hc.auth (e, b) (by rwa [authCalls_eq]) n hn]
    exact ⟨m, hd, ha⟩
  case mpr =>
    intro hs
    refine ⟨by rw [authCalls_eq, map_fst_calls], by rw [Tree.all_eq_toList]; exact hz.valid.stores.sorted, ?_⟩
    intro c hc n hn
    rw [authCalls_eq] at hc
    have hm : c.1 ∈ z.tree.all := by
      rw [←map_fst_calls dns [] z.tree.all]
      exact mem_map_of_mem hc
    rw [call_iff scans hz hc hn]
    constructor
    case mp =>
      rintro ⟨d, hd, -, hdn, hne⟩
      refine ⟨d, hd, hdn.map _, lt_of_le_of_ne hdn.length_le fun hl => hne (hdn.eq_of_length hl)⟩
    case mpr => exact fun ⟨m, hd, ha⟩ => hs c.1 hm n m hn hd ha

end Classified

namespace Sample

theorem isLabel_upper : ("A" : String).toList ≠ [] ∧ (unescape ("A" : String)).isSome := by
  decide

theorem isLabel_service : ("_tcp" : String).toList ≠ [] ∧ (unescape ("_tcp" : String)).isSome := by
  decide

-- The name of a delegation in upper case, and that of a service below it.
def upper : Name :=
  label "A" isLabel_upper :: top

def service (n : Name) : RR where
  name := Name.text (label "_tcp" isLabel_service :: n)
  ttl := 3600
  data := .srv 0 0 443 "x.example."

def delegation : RR where
  name := a.text
  ttl := 3600
  data := .ns "ns.example.net."

def walked (records : List RR) : Zone :=
  match (Zone.new .indexed top.text).load .indexed records with
  | some (.ok z) => z
  | _ => .new .indexed []

end Sample

section

open Sample

theorem delegates_iff {m : Name} {e : Elem} (he : e.type .ns = []) :
    Delegates [Elem.new delegation, e] m ↔ m = a := by
  have ht : (Elem.new delegation).type .ns ≠ [] := by decide
  simp only [Delegates, mem_cons, not_mem_nil, or_false, exists_eq_or_imp, exists_eq_left, he, ht, ne_eq,
    not_false_eq_true, true_and, not_true_eq_false, false_and, Elem.name_new]
  exact ⟨fun h => Name.text_injective h.symm, fun h => h ▸ rfl⟩

theorem classified_service : Classified .indexed (walked [service a, delegation]) := by
  have hn : ∀ rr ∈ [service a, delegation], ∃ n : Name, rr.name = n.text := by simp [service, delegation]
  have hall : (walked [service a, delegation]).tree.all = [.new delegation, .new (service a)] := by decide +kernel
  rw [classified_iff (o := top) .indexed hn (by decide +kernel), hall]
  intro e he n m hn hd ha
  obtain rfl := (delegates_iff (by decide)).mp hd
  refine ⟨a, hd, by decide, ?_⟩
  obtain rfl | rfl : e = .new delegation ∨ e = .new (service a) := by simpa using he
  case inl =>
    obtain rfl := Name.text_injective (n := a) hn
    exact absurd ha.2 (lt_irrefl _)
  case inr =>
    obtain rfl := Name.text_injective (n := label "_tcp" isLabel_service :: a) hn
    exact ⟨suffix_cons _ _, by decide⟩

-- The service keeps the case of its name.
theorem not_classified_service : (Zone.new .indexed top.text).load .indexed [service upper, delegation] =
      some (.ok (walked [service upper, delegation])) ∧
    ((walked [service upper, delegation]).tree.authCalls .indexed).map (fun c => (c.1.name, c.2)) =
      [("a.example.".toList, true), ("_tcp.A.example.".toList, true)] ∧
    ¬Classified .indexed (walked [service upper, delegation]) := by
  have hall : (walked [service upper, delegation]).tree.all = [.new delegation, .new (service upper)] := by decide +kernel
  refine ⟨by decide +kernel, by decide +kernel, fun h => ?_⟩
  have hc : (Elem.new (service upper), true) ∈ (walked [service upper, delegation]).tree.authCalls .indexed := by
    decide +kernel
  have hb := (h.auth _ hc (label "_tcp" isLabel_service :: upper) rfl).mpr
  rw [hall] at hb
  exact absurd (hb ⟨a, (delegates_iff (by decide)).mpr rfl, by decide +kernel, by decide⟩) (by decide)

end
end File
