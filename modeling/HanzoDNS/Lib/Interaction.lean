import HanzoDNS.Lib.Transition

-- Programs that interact with their surroundings: a program is done, or it asks a question and goes on
-- with the answer. What the questions do to the state of the surroundings is not part of a program.
inductive Prog {Q : Type} (A : Q → Type) (α : Type)
  | done (a : α)
  | ask (q : Q) (k : A q → Prog A α)

namespace Prog

variable {Q : Type} {A : Q → Type} {α β : Type}

def bind : Prog A α → (α → Prog A β) → Prog A β
  | done a, f => f a
  | ask q k, f => ask q fun a => (k a).bind f

instance : Monad (Prog A) where
  pure := done
  bind := bind

def query (q : Q) : Prog A (A q) :=
  ask q done

abbrev Event (A : Q → Type) : Type :=
  (q : Q) × A q

def Path : Prog A α → List (Event A) → α → Prop
  | done a, es, b => es = [] ∧ b = a
  | ask q k, es, b => ∃ a es', es = ⟨q, a⟩ :: es' ∧ (k a).Path es' b

variable {p : Prog A α} {f : α → Prog A β} {es : List (Event A)} {a b : α}

@[simp]
theorem path_pure : (pure a : Prog A α).Path es b ↔ es = [] ∧ b = a :=
  .rfl

@[simp]
theorem path_query {q : Q} {a : A q} : (query q).Path es a ↔ es = [⟨q, a⟩] := by
  simp only [query, Path]
  constructor
  case mp => rintro ⟨_, _, rfl, rfl, rfl⟩; rfl
  case mpr => rintro rfl; exact ⟨a, [], rfl, rfl, rfl⟩

-- A program logic over what has happened so far: every question is admissible after the history in which
-- it is asked, and the result is as it should be after the complete history.
def Meets (adm : List (Event A) → Q → Prop) (post : List (Event A) → α → Prop) :
    Prog A α → List (Event A) → Prop
  | done a, h => post h a
  | ask q k, h => adm h q ∧ ∀ a, (k a).Meets adm post (h ++ [⟨q, a⟩])

section Meets

variable {adm : List (Event A) → Q → Prop} {post post' : List (Event A) → α → Prop}
variable {h : List (Event A)}

@[simp]
theorem meets_pure : (pure a : Prog A α).Meets adm post h ↔ post h a :=
  .rfl

theorem meets_query_bind {q : Q} {f : A q → Prog A α} :
    (query q >>= f).Meets adm post h ↔ adm h q ∧ ∀ a, (f a).Meets adm post (h ++ [⟨q, a⟩]) :=
  .rfl

theorem meets_bind {post : List (Event A) → β → Prop} :
    (p >>= f).Meets adm post h ↔ p.Meets adm (fun h a => (f a).Meets adm post h) h := by
  change (p.bind f).Meets adm post h ↔ _
  induction p generalizing h
  case done => exact .rfl
  case ask q k hi => simp only [bind, Meets, hi]

theorem Meets.result (m : p.Meets adm post h) (hp : p.Path es a) : post (h ++ es) a := by
  induction p generalizing h es
  case done =>
    obtain ⟨rfl, rfl⟩ := hp
    simpa [Meets] using m
  case ask q k hi =>
    obtain ⟨b, es, rfl, hp⟩ := hp
    simpa using hi b (m.right b) hp

theorem Meets.admissible (m : p.Meets adm post h) (hp : p.Path (es₁ ++ x :: es₂) a) : adm (h ++ es₁) x.1 := by
  induction p generalizing h es₁
  case done => simp [Path] at hp
  case ask q k hi =>
    obtain ⟨b, es, he, hp⟩ := hp
    cases es₁
    case nil =>
      cases he
      simpa using m.left
    case cons =>
      cases he
      simpa using hi b (m.right b) hp

end Meets

structure Served (A : Q → Type) (α σ : Type) where
  events : List (Event A)
  result : α
  state : σ

def serve (answer : σ → (q : Q) → A q × σ) (s : σ) : Prog A α → Served A α σ
  | done a => { events := [], result := a, state := s }
  | ask q k =>
    let (a, s') := answer s q
    let served := (k a).serve answer s'
    { served with events := ⟨q, a⟩ :: served.events }

section Served

variable {answer : σ → (q : Q) → A q × σ} {s : σ}

theorem serve_path : p.Path (p.serve answer s).events (p.serve answer s).result := by
  induction p generalizing s
  case done => exact ⟨rfl, rfl⟩
  case ask q k hi => exact ⟨_, _, rfl, hi _⟩

theorem serve_steps {step : σ → Event A → σ → Prop} (h : ∀ s q, step s ⟨q, (answer s q).1⟩ (answer s q).2) :
    Steps step s (p.serve answer s).events (p.serve answer s).state := by
  induction p generalizing s
  case done => exact .refl
  case ask q k hi => exact .trans (h s q) (hi _)

end Served
end Prog

-- The part of one party in a history to which several parties contribute.
def List.of [DecidableEq ι] (i : ι) (h : List (ι × α)) : List α :=
  h.filterMap fun x => if x.1 = i then some x.2 else none

namespace List

variable [DecidableEq ι] {i j : ι} {a : α} {h : List (ι × α)}

@[simp]
theorem of_cons_self : of i ((i, a) :: h) = a :: h.of i := by
  simp [of]

@[simp]
theorem of_cons_ne (hj : j ≠ i) : of i ((j, a) :: h) = h.of i := by
  simp [of, hj]

@[simp]
theorem mem_of_iff : a ∈ h.of i ↔ (i, a) ∈ h := by
  simp only [of, mem_filterMap, Option.ite_none_right_eq_some, Prod.exists]
  constructor
  case mp => rintro ⟨_, _, hm, rfl, ha⟩; cases ha; exact hm
  case mpr => exact fun hm => ⟨i, a, hm, rfl, rfl⟩

-- What comes after the last element with an effect does not matter to a fold.
theorem foldl_inert {f : β → α → β} {l : List α} (h : ∀ x ∈ l, ∀ b, f b x = b) : l.foldl f b = b := by
  induction l generalizing b
  case nil => rfl
  case cons x l hi => rw [foldl_cons, h x (by simp), hi fun y hy => h y (by simp [hy])]

theorem foldl_last {f : β → α → β} {l₁ l₂ : List α} (h : ∀ y ∈ l₂, ∀ b, f b y = b) :
    (l₁ ++ x :: l₂).foldl f b = f (l₁.foldl f b) x := by
  rw [foldl_append, foldl_cons, foldl_inert h]

theorem of_append_cons {h₁ h₂ : List (ι × α)} : (h₁ ++ (i, a) :: h₂).of i = h₁.of i ++ a :: h₂.of i := by
  simp [of]

end List

-- The last contribution of a certain kind, and the party that it comes from.
def List.latest (g : α → Option β) (h : List (ι × α)) : Option (ι × β) :=
  (h.filterMap fun x => (g x.2).map (x.1, ·)).getLast?

namespace List

variable {g : α → Option β} {h : List (ι × α)} {i : ι} {b : β}

theorem latest_eq_none_iff : h.latest g = none ↔ ∀ x ∈ h, g x.2 = none := by
  simp [latest]

theorem latest_eq_some_iff : h.latest g = some (i, b) ↔
      ∃ h₁ a h₂, h = h₁ ++ (i, a) :: h₂ ∧ g a = some b ∧ ∀ x ∈ h₂, g x.2 = none := by
  rw [latest, getLast?_filterMap, findSome?_eq_some_iff]
  constructor
  case mp =>
    rintro ⟨l₁, ⟨j, a⟩, l₂, he, hg, hn⟩
    have ⟨_, hg, hb⟩ := Option.map_eq_some_iff.mp hg
    cases hb
    exact ⟨l₂.reverse, a, l₁.reverse, by simpa using congrArg reverse he, hg, by simpa using hn⟩
  case mpr =>
    rintro ⟨h₁, a, h₂, rfl, hg, hn⟩
    exact ⟨h₂.reverse, (i, a), h₁.reverse, by simp, by simp [hg], by simpa using hn⟩

theorem getLast?_of_latest [DecidableEq ι] (hl : h.latest g = some (i, b)) :
    ((h.of i).filterMap g).getLast? = some b := by
  have ⟨h₁, a, h₂, he, hg, hn⟩ := latest_eq_some_iff.mp hl
  have h₂ : (h₂.of i).filterMap g = [] :=
    filterMap_eq_nil_iff.mpr fun y hy => hn (i, y) (mem_of_iff.mp hy)
  simp [he, of_append_cons, hg, h₂]

end List

namespace Prog

variable {Q : Type} {A : Q → Type} {α σ ι : Type} [DecidableEq ι]

structure Interleaved (A : Q → Type) (α σ ι : Type) where
  history : List (ι × Event A)
  state : σ
  rest : ι → Prog A α

-- The run in which the programs take turns in a fixed order. A turn is the answer to one question.
def interleave (answer : σ → (q : Q) → A q × σ) : List ι → σ → (ι → Prog A α) → Interleaved A α σ ι
  | [], s, ps => { history := [], state := s, rest := ps }
  | i :: is, s, ps =>
    match ps i with
    | done _ => interleave answer is s ps
    | ask q k =>
      let (a, s') := answer s q
      let il := interleave answer is s' (Function.update ps i (k a))
      { il with history := (i, ⟨q, a⟩) :: il.history }

def isDone : Prog A α → Bool
  | done _ => true
  | ask .. => false

variable {answer : σ → (q : Q) → A q × σ} {is : List ι} {s : σ} {ps : ι → Prog A α}

theorem interleave_path (h : ((interleave answer is s ps).rest i).isDone) :
    ∃ a, (ps i).Path ((interleave answer is s ps).history.of i) a := by
  induction is generalizing s ps
  case nil =>
    simp only [interleave] at h ⊢
    cases hp : ps i
    case done a => exact ⟨a, rfl, rfl⟩
    case ask => simp [hp, isDone] at h
  case cons j is hi =>
    cases hj : ps j
    case done =>
      simp only [interleave, hj] at h ⊢
      exact hi h
    case ask q k =>
      simp only [interleave, hj] at h ⊢
      have ⟨b, hb⟩ := hi h
      by_cases hij : j = i
      case neg =>
        rw [Function.update_of_ne (Ne.symm hij)] at hb
        rw [List.of_cons_ne hij]
        exact ⟨b, hb⟩
      case pos =>
        subst hij
        rw [Function.update_self] at hb
        rw [hj, List.of_cons_self]
        exact ⟨b, _, _, rfl, hb⟩

theorem interleave_steps {step : σ → Event A → σ → Prop}
    (h : ∀ s q, step s ⟨q, (answer s q).1⟩ (answer s q).2) :
    Steps step s ((interleave answer is s ps).history.map Prod.snd) (interleave answer is s ps).state := by
  induction is generalizing s ps
  case nil => exact .refl
  case cons j is hi =>
    cases hj : ps j
    case done => simpa only [interleave, hj] using hi
    case ask q k =>
      simp only [interleave, hj]
      exact .trans (h s q) hi

end Prog
