import HanzoDNS.Rewrite.Setup

open Dns Strings List

namespace Rewrite

open Strconv

def placeholder (i : Nat) : Str :=
  '\x7b' :: (itoa i ++ ['\x7d'])

inductive Token
  | lit (c : Char)
  | slot (i : Nat)
deriving DecidableEq

def slotAt : Str → Option Nat
  | [] => none
  | c :: s =>
    let number := s.takeWhile Char.isDigit
    if c = '\x7b' ∧ (s.drop number.length).head? = some '\x7d' then
      (digits number).filter (itoa · = number)
    else
      none

-- A placeholder covers the next runes, and there are some left of it to skip.
def tokensFrom : Nat → Str → List Token
  | _, [] => []
  | skip + 1, _ :: s => tokensFrom skip s
  | 0, c :: s =>
    match slotAt (c :: s) with
    | some i => .slot i :: tokensFrom ((placeholder i).length - 1) s
    | none => .lit c :: tokensFrom 0 s

def tokens (template : Str) : List Token :=
  tokensFrom 0 template

def Token.render (groups : List Str) : Token → Str
  | lit c => [c]
  | slot i => groups[i]?.getD (placeholder i)

def expand (groups : List Str) (template : Str) : Str :=
  (tokens template).flatMap (Token.render groups)

structure Substituted (pattern : Regexp) (template input : Str) : Prop where
  rewriter : (StringRewriter.regex pattern template).rewriteString input =
    expand (pattern.findStringSubmatch input) template
  rule : ∀ env base (r : Msg), base.replacement = template → r.name env.dns.toLibrary = input →
    ((Rule.regexNameRule base pattern).rewrite env r).1 = setName (expand (pattern.findStringSubmatch input) template) r
  target : ∀ rule : CnameTargetRule, rule.rewriteType = .regexMatch pattern → rule.paramToTarget = template →
    rule.getFromAndToTarget input = (input, expand (pattern.findStringSubmatch input) template)
  -- After every step, nothing but the placeholders of the template has been replaced.
  once : ∀ n ≤ (pattern.findStringSubmatch input).length,
    substitute template ((pattern.findStringSubmatch input).take n) =
      expand ((pattern.findStringSubmatch input).take n) template

def Uses (template : Str) (i : Nat) : Prop :=
  contains template (placeholder i)

instance {template : Str} : DecidablePred (Uses template) :=
  fun _ => inferInstanceAs (Decidable (_ = true))

structure Templated (compile : Str → Option Regexp) (pattern : Regexp) (rewriteFrom template input : Str) : Prop where
  valid : isValidRegexPattern compile rewriteFrom template = .ok pattern ↔
    ∀ i, Uses template i → i ≤ pattern.numSubexp
  substituted : isValidRegexPattern compile rewriteFrom template = .ok pattern →
    pattern.findStringSubmatch input ≠ [] → Substituted pattern template input

-- What is between the placeholders for a group, with the groups before it in their places.
def pieces (groups : List Str) (template : Str) (n : Nat) : List Str :=
  ((tokens template).splitOn (.slot n)).map fun piece => piece.flatMap (Token.render (groups.take n))

section Tokens

variable {s : Str} {i n : Nat} {c : Char}

theorem slotAt_eq_some_iff : slotAt s = some i ↔ placeholder i <+: s := by
  cases s
  case nil => simp [slotAt, placeholder]
  case cons c s =>
    rw [slotAt, placeholder, cons_prefix_cons]
    constructor
    case mp =>
      intro h
      split at h
      case isFalse => cases h
      case isTrue hc =>
        obtain ⟨-, hn⟩ := Option.filter_eq_some_iff.mp h
        have hn : itoa i = s.takeWhile Char.isDigit := of_decide_eq_true hn
        obtain ⟨t, ht⟩ := head?_eq_some_iff.mp hc.2
        refine ⟨hc.1.symm, t, ?_⟩
        rw [hn, append_assoc, singleton_append, ←ht]
        exact prefix_iff_eq_append.mp ( takeWhile_prefix _)
    case mpr =>
      rintro ⟨rfl, t, rfl⟩
      have hd : (itoa i ++ ['\x7d'] ++ t).takeWhile Char.isDigit = itoa i := by
        rw [append_assoc, takeWhile_append_of_pos fun c hc => isDigit_of_mem_itoa hc]
        simp
      simp only [hd]
      rw [if_pos ⟨trivial, by simp⟩, digits_itoa]
      exact Option.filter_some_pos (decide_eq_true rfl)

theorem tokensFrom_eq_drop : tokensFrom n s = tokens (s.drop n) := by
  induction s generalizing n
  case nil =>
    rw [drop_nil]
    cases n <;> rfl
  case cons c s hi =>
    cases n
    case zero => rfl
    case succ n => exact hi

theorem tokens_placeholder : tokens (placeholder i ++ s) = .slot i :: tokens s := by
  have hp : slotAt ('\x7b' :: (itoa i ++ ['\x7d'] ++ s)) = some i :=
    slotAt_eq_some_iff.mpr (prefix_append (placeholder i) s)
  rw [tokens, placeholder, cons_append, tokensFrom, hp]
  refine congrArg (Token.slot i :: ·) (tokensFrom_eq_drop.trans (congrArg tokens ?_))
  exact drop_left

theorem tokens_cons (h : slotAt (c :: s) = none) : tokens (c :: s) = .lit c :: tokens s := by
  rw [tokens, tokensFrom, h]
  rfl

theorem brace_notMem (n : Nat) : '\x7b' ∉ itoa n ++ ['\x7d'] := by
  intro h
  obtain h | h := mem_append.mp h
  · exact absurd (isDigit_of_mem_itoa h) (by decide)
  · exact absurd h (by decide)

theorem tokens_append {u v : Str} : tokens (u ++ placeholder i ++ v) = tokens u ++ .slot i :: tokens v := by
  induction hl : u.length using Nat.strong_induction_on generalizing u
  case h n hi =>
    cases u
    case nil => exact tokens_placeholder
    case cons c u =>
      cases hs : slotAt (c :: u ++ placeholder i ++ v)
      case none =>
        have hu : slotAt (c :: u) = none := by
          rw [Option.eq_none_iff_forall_ne_some] at hs ⊢
          intro j hj
          rw [slotAt_eq_some_iff] at hj
          refine hs j (slotAt_eq_some_iff.mpr (hj.trans ?_))
          rw [append_assoc]
          exact prefix_append ..
        rw [cons_append, cons_append] at hs ⊢
        rw [tokens_cons hs, tokens_cons hu, hi u.length (hl ▸ Nat.lt_succ_self _) rfl]
        rfl
      case some j =>
        have hp : placeholder j <+: c :: u := by
          rw [slotAt_eq_some_iff, append_assoc] at hs
          exact prefix_of_prefix_append (brace_notMem j) (cons_ne_nil c u) hs
        obtain ⟨t, ht⟩ := hp
        have hlt : t.length < n := by
          rw [←hl, ←ht]
          simp only [placeholder, length_append, length_cons]
          omega
        rw [←ht, append_assoc, append_assoc, tokens_placeholder, tokens_placeholder, ←append_assoc,
          hi t.length hlt rfl]
        rfl

theorem expand_nil : expand [] s = s := by
  induction hl : s.length using Nat.strong_induction_on generalizing s
  case h n hi =>
    cases s
    case nil => rfl
    case cons c s =>
      cases hs : slotAt (c :: s)
      case none =>
        rw [expand, tokens_cons hs, flatMap_cons, ←expand, hi s.length (hl ▸ Nat.lt_succ_self _) rfl]
        rfl
      case some i =>
        obtain ⟨t, ht⟩ := slotAt_eq_some_iff.mp hs
        have hlt : t.length < n := by
          rw [←hl, ←ht]
          simp only [placeholder, length_append, length_cons]
          omega
        rw [←ht, expand, tokens_placeholder, flatMap_cons, ←expand, hi t.length hlt rfl]
        rfl

end Tokens

section Stages

variable {groups : List Str} {template group : Str} {n : Nat}

theorem flatMap_intercalate {α : Type} (f : α → Str) (x : α) (ls : List (List α)) :
    (List.intercalate [x] ls).flatMap f = (f x).intercalate (ls.map (·.flatMap f)) := by
  induction ls
  case nil => rfl
  case cons l ls hi =>
    cases ls
    case nil => simp
    case cons l' ls =>
      rw [intercalate_cons_cons, flatMap_append, flatMap_append, hi, flatMap_singleton]
      simp only [map_cons, intercalate_cons_cons]

theorem expand_take : expand (groups.take n) template = List.intercalate (placeholder n) (pieces groups template n) := by
  have hr : Token.render (groups.take n) (.slot n) = placeholder n := by simp [Token.render]
  have hs := flatMap_intercalate (Token.render (groups.take n)) (.slot n) ((tokens template).splitOn (.slot n))
  rwa [intercalate_splitOn, hr] at hs

theorem expand_take_succ (h : groups[n]? = some group) :
    expand (groups.take (n + 1)) template = List.intercalate group (pieces groups template n) := by
  have hr : Token.render (groups.take (n + 1)) (.slot n) = group := by simp [Token.render, h]
  have hs := flatMap_intercalate (Token.render (groups.take (n + 1))) (.slot n) ((tokens template).splitOn (.slot n))
  rw [intercalate_splitOn, hr] at hs
  refine hs.trans (congrArg (List.intercalate group) (map_congr_left fun piece hp => ?_))
  refine flatMap_congr fun token hm => ?_
  cases token
  case lit => rfl
  case slot i =>
    have hi : i ≠ n := by
      rintro rfl
      exact notMem_of_mem_splitOn hp hm
    have ht : (groups.take (n + 1))[i]? = (groups.take n)[i]? := by
      rw [getElem?_take, getElem?_take]
      exact if_congr (by omega) rfl rfl
    rw [Token.render, Token.render, ht]

theorem substitute_take_succ (h : groups[n]? = some group) : substitute template (groups.take (n + 1)) =
      replaceFrom (placeholder n) group 0 (substitute template (groups.take n)) := by
  have hl : n < groups.length := (List.getElem?_eq_some_iff.mp h).1
  have ht : groups.take (n + 1) = groups.take n ++ [group] := by rw [take_add_one, h]; rfl
  have hn : (groups.take n).length = n := length_take_of_le hl.le
  rw [substitute, ht, zipIdx_append, foldl_append, Nat.zero_add, hn]
  have hr (s : Str) : replaceAll s (placeholder n) group = replaceFrom (placeholder n) group 0 s :=
    if_neg (cons_ne_nil _ _)
  exact hr _

theorem substitute_eq_expand_iff :
    (∀ n ≤ groups.length, substitute template (groups.take n) = expand (groups.take n) template) ↔
      ∀ n group, groups[n]? = some group →
        group = placeholder n ∨ ∀ piece ∈ pieces groups template n, ¬contains piece (placeholder n) := by
  have step {n : Nat} {group : Str} (hn : groups[n]? = some group)
      (he : substitute template (groups.take n) = expand (groups.take n) template) :
      substitute template (groups.take (n + 1)) = expand (groups.take (n + 1)) template ↔
        group = placeholder n ∨ ∀ piece ∈ pieces groups template n, ¬contains piece (placeholder n) := by
    simp only [contains_iff]
    rw [substitute_take_succ hn, he, expand_take, expand_take_succ hn]
    exact replaceFrom_intercalate_eq_iff (brace_notMem n)
  constructor
  case mp =>
    intro h n group hn
    have hl : n < groups.length := (List.getElem?_eq_some_iff.mp hn).1
    exact (step hn (h n hl.le)).mp (h (n + 1) hl)
  case mpr =>
    intro h n hl
    induction n
    case zero => exact expand_nil.symm
    case succ n hi =>
      exact (step (getElem?_eq_getElem hl) (hi (Nat.le_of_lt hl))).mpr (h n _ (getElem?_eq_getElem hl))

end Stages

section Usage

variable {template : Str} {k : Nat}

theorem uses_iff {i : Nat} : Uses template i ↔ .slot i ∈ tokens template := by
  rw [Uses, contains_iff]
  constructor
  case mp =>
    rintro ⟨u, v, rfl⟩
    rw [tokens_append]
    exact mem_append_right _ mem_cons_self
  case mpr =>
    intro h
    obtain ⟨a, b, hab⟩ := append_of_mem h
    have hs : expand [] template = template := expand_nil
    rw [expand, hab, flatMap_append, flatMap_cons] at hs
    exact ⟨_, _, (append_assoc ..).trans hs⟩

theorem getSubExprUsage_eq : getSubExprUsage template = (List.range 101).countP (Uses template ·) := by
  simp only [getSubExprUsage, bind_eq_flatMap, pure_def, ←map_eq_flatMap, countP_map]
  refine countP_congr fun i _ => ?_
  rw [decide_eq_true_iff]
  rfl

-- If all groups in use are there, the number of those in use is not too large, unless each one is used.
theorem usage_le_of_forall_le (h : ∀ i, Uses template i → i ≤ k) :
    getSubExprUsage template ≤ k ↔ ¬(k ≤ 100 ∧ ∀ i, Uses template i ↔ i ≤ k) := by
  rw [getSubExprUsage_eq]
  by_cases hk : k ≤ 100
  case neg =>
    have hl : (List.range 101).countP (Uses template ·) ≤ 101 := countP_le_length.trans (by simp)
    exact iff_of_true (by omega) fun hn => hk hn.1
  case pos =>
    have hs : (List.range 101).countP (Uses template ·) = (List.range (k + 1)).countP (Uses template ·) := by
      have hr : List.range 101 = List.range (k + 1) ++ (List.range (100 - k)).map (k + 1 + ·) := by
        rw [←range_add]
        congr 1
        omega
      rw [hr, countP_append, Nat.add_eq_left, countP_eq_zero]
      simp only [mem_map, decide_eq_true_eq]
      rintro i ⟨j, -, rfl⟩ hu
      exact absurd (h _ hu) (by omega)
    have hl : (List.range (k + 1)).countP (Uses template ·) ≤ k + 1 := countP_le_length.trans (by simp)
    have he : (List.range (k + 1)).countP (Uses template ·) = k + 1 ↔ ∀ i, Uses template i ↔ i ≤ k := by
      have hc := countP_eq_length (p := (Uses template ·)) (l := List.range (k + 1))
      rw [length_range] at hc
      rw [hc]
      simp only [mem_range, decide_eq_true_eq]
      exact ⟨fun ha i => ⟨h i, fun hi => ha i (by omega)⟩, fun ha i hi => (ha i).mpr (by omega)⟩
    rw [hs, and_iff_right hk, ←he]
    omega

theorem usage_le_iff : (getSubExprUsage template ≤ k ↔ ∀ i, Uses template i → i ≤ k) ↔
    ¬(k ≤ 100 ∧ ∀ i, Uses template i ↔ i ≤ k) ∧ ∀ i, Uses template i → k < i → k < getSubExprUsage template := by
  constructor
  case mp =>
    intro h
    refine ⟨fun hn => ?_, fun i hu hi => ?_⟩
    · have hle : ∀ i, Uses template i → i ≤ k := fun i => (hn.2 i).mp
      exact (usage_le_of_forall_le hle).mp (h.mpr hle) hn
    · by_contra hc
      exact absurd (h.mp (not_lt.mp hc) i hu) (not_le.mpr hi)
  case mpr =>
    rintro ⟨hn, hi⟩
    refine ⟨fun hk i hu => ?_, fun hle => (usage_le_of_forall_le hle).mpr hn⟩
    by_contra hc
    exact absurd (hi i hu (not_le.mp hc)) (not_lt.mpr hk)

end Usage

section Rules

variable {compile : Str → Option Regexp} {pattern : Regexp} {rewriteFrom template input : Str}

theorem isValidRegexPattern_eq_ok_iff (template : Str) (hc : compile rewriteFrom = some pattern)
    (hl : len rewriteFrom ≤ maxRegexpLen) :
    isValidRegexPattern compile rewriteFrom template = .ok pattern ↔ getSubExprUsage template ≤ pattern.numSubexp := by
  simp only [isValidRegexPattern, if_neg (not_lt.mpr hl), hc]
  split
  case isTrue h =>
    refine iff_of_false (fun he => ?_) (not_le.mpr h)
    cases he
  case isFalse h => exact iff_of_true rfl (not_lt.mp h)

theorem substituted_iff (hi : pattern.findStringSubmatch input ≠ []) : Substituted pattern template input ↔
    ∀ n group, (pattern.findStringSubmatch input)[n]? = some group → group = placeholder n ∨
      ∀ piece ∈ pieces (pattern.findStringSubmatch input) template n, ¬contains piece (placeholder n) := by
  rw [←substitute_eq_expand_iff]
  refine ⟨Substituted.once, fun h => ?_⟩
  have he := h _ le_rfl
  rw [take_length] at he
  obtain ⟨group, groups, hg⟩ := exists_cons_of_ne_nil hi
  refine ⟨?_, ?_, ?_, h⟩
  · rw [StringRewriter.rewriteString, ←he, hg]
  · rintro env base r rfl rfl
    rw [Rule.rewrite, ←he, hg]
    rfl
  · rintro rule ht rfl
    rw [CnameTargetRule.getFromAndToTarget, ht, ←he]
    dsimp only
    rw [hg]

theorem templated_iff (hc : compile rewriteFrom = some pattern) (hl : len rewriteFrom ≤ maxRegexpLen) :
    Templated compile pattern rewriteFrom template input ↔
      ¬(pattern.numSubexp ≤ 100 ∧ ∀ i, Uses template i ↔ i ≤ pattern.numSubexp) ∧
      (∀ i, Uses template i → pattern.numSubexp < i →
        pattern.numSubexp < (List.range 101).countP (Uses template ·)) ∧
      ((List.range 101).countP (Uses template ·) ≤ pattern.numSubexp →
        ∀ n group, (pattern.findStringSubmatch input)[n]? = some group → group = placeholder n ∨
          ∀ piece ∈ pieces (pattern.findStringSubmatch input) template n, ¬contains piece (placeholder n)) := by
  have hv := isValidRegexPattern_eq_ok_iff template hc hl
  rw [←and_assoc, ←getSubExprUsage_eq, ←usage_le_iff, ←hv]
  constructor
  case mp =>
    rintro ⟨h, hs⟩
    refine ⟨h, fun ha n group hg => ?_⟩
    have hi : pattern.findStringSubmatch input ≠ [] := ne_nil_of_mem (mem_of_getElem? hg)
    exact (substituted_iff hi).mp (hs ha hi) n group hg
  case mpr =>
    rintro ⟨h, hs⟩
    exact ⟨h, fun ha hi => (substituted_iff hi).mpr (hs ha)⟩

end Rules

namespace Sample

-- An expression that splits an input in two if the input is the concatenation of two strings.
def halves (left right : Str) : Regexp where
  numSubexp := 2
  findStringSubmatch s := if s = left ++ right then [left ++ right, left, right] else []
  within s := by
    split
    case isTrue h =>
      subst h
      simp [prefix_append, IsPrefix.isInfix, IsSuffix.isInfix]
    case isFalse => exact forall_mem_nil _

end Sample

theorem templated_sample : Templated (fun _ => some (Sample.halves "a" "b")) (Sample.halves "a" "b") "(a)(b)"
    (placeholder 2 ++ placeholder 1) "ab" := by
  have ht : tokens (placeholder 2 ++ placeholder 1) = [.slot 2, .slot 1] := by decide
  refine (templated_iff rfl (by decide)).mpr ⟨?_, ?_, ?_⟩
  · exact fun h => absurd ((h.2 0).mpr (by decide)) (by decide)
  · intro i hu hi
    rw [uses_iff, ht] at hu
    simp only [mem_cons, Token.slot.injEq, not_mem_nil, or_false] at hu
    have hn : (Sample.halves "a" "b").numSubexp = 2 := rfl
    omega
  · intro _ n group hg
    have hn : n < 3 := (List.getElem?_eq_some_iff.mp hg).1
    right
    obtain rfl | rfl | rfl : n = 0 ∨ n = 1 ∨ n = 2 := by omega
    all_goals decide

-- The text of a group can be taken for a placeholder. Some templates are accepted although a group is missing, and others
-- are not although all groups are there.
theorem not_templated_group :
    ¬Templated (fun _ => some (Sample.halves (placeholder 2) "b")) (Sample.halves (placeholder 2) "b") "(...)(b)"
      (placeholder 1) (placeholder 2 ++ "b") ∧
    isValidRegexPattern (fun _ => some (Sample.halves "a" "b")) "(a)(b)" (placeholder 5) = .ok (Sample.halves "a" "b") ∧
    isValidRegexPattern (fun _ => some (Sample.halves "a" "b")) "(a)(b)" (placeholder 0 ++ placeholder 1 ++ placeholder 2) ≠
      .ok (Sample.halves "a" "b") := by
  refine ⟨fun h => ?_, rfl, fun h => ?_⟩
  · exact absurd (h.substituted rfl (by decide)).rewriter (by decide)
  · exact absurd ((isValidRegexPattern_eq_ok_iff _ rfl (by decide)).mp h) (by decide)

end Rewrite
