import HanzoDNS.Transfer.Basic

open Dns List Option

namespace Transfer

open Batch Batching Batch.State

variable (len : RR → Nat)

-- A client gets the records of a stream: a single SOA in a reply, everything else in envelopes.
structure Complete (slices : List (List RR)) (out : Out) : Prop where
  single : slices.flatten = [rr] → isSoa rr → out = { reply := some [rr] }
  stream : (∀ rr, slices.flatten = [rr] → ¬isSoa rr) → out.reply = none ∧ out.envelopes.flatten = slices.flatten
  fits : e ∈ out.envelopes → (e.map len).sum ≤ threshold ∨ e.length = 1

def firstSoa (slices : List (List RR)) : Option RR :=
  (slices.filterMap List.head?).find? isSoa

def collected (slices : List (List RR)) : Batching where
  toState := run threshold len slices.flatten
  soa := firstSoa slices

variable {len} {slices : List (List RR)} {rr : RR}

theorem foldlM_receive (b : Batching) (h : [] ∉ slices) : slices.foldlM (Batching.receive len) b =
    some ⟨slices.flatten.foldl (Batch.State.add threshold len) b.toState, b.soa.or (firstSoa slices)⟩ := by
  induction slices generalizing b
  case nil => simp [firstSoa]
  case cons records slices hi =>
    obtain ⟨hr, hs⟩ := not_or.mp (mt mem_cons.mpr h)
    cases records
    case nil => contradiction
    case cons first records =>
      rw [foldlM_cons, Batching.receive, head?_cons]
      simp only [Option.bind_eq_bind, Option.bind_some, Option.pure_def, hi _ hs]
      by_cases hf : isSoa first
      all_goals simp [firstSoa, hf]

theorem foldlM_receive_none (b : Batching) (h : [] ∈ slices) : slices.foldlM (Batching.receive len) b = none := by
  induction slices generalizing b
  case nil => cases h
  case cons records slices hi =>
    rw [foldlM_cons]
    cases records
    case nil => rfl
    case cons first records =>
      have hs : [] ∈ slices := by simpa using h
      simp only [Batching.receive, List.head?_cons, Option.bind_eq_bind, Option.bind_some, Option.pure_def]
      exact hi _ hs

theorem respond_eq (h : [] ∉ slices) : respond len slices = some (collected len slices).finish := by
  rw [respond, foldlM_receive _ h]
  rfl

theorem respond_eq_none_iff : respond len slices = none ↔ [] ∈ slices := by
  constructor
  case mp =>
    intro h
    by_contra hn
    rw [respond_eq hn] at h
    cases h
  case mpr =>
    intro h
    rw [respond, foldlM_receive_none _ h]
    rfl

theorem firstSoa_isSoa (h : firstSoa slices = some rr) : isSoa rr :=
  find?_some h

theorem firstSoa_isSome_iff : (firstSoa slices).isSome ↔ ∃ soa rest, soa :: rest ∈ slices ∧ isSoa soa := by
  rw [firstSoa, find?_isSome]
  constructor
  case mp =>
    rintro ⟨soa, hm, hs⟩
    obtain ⟨records, hr, hh⟩ := mem_filterMap.mp hm
    obtain ⟨rest, rfl⟩ := head?_eq_some_iff.mp hh
    exact ⟨soa, rest, hr, hs⟩
  case mpr =>
    rintro ⟨soa, rest, hr, hs⟩
    exact ⟨soa, mem_filterMap.mpr ⟨soa :: rest, hr, rfl⟩, hs⟩

theorem slices_eq_of_single (hn : [] ∉ slices) (h : slices.flatten = [rr]) : slices = [[rr]] := by
  cases slices
  case nil => cases h
  case cons records slices =>
    obtain ⟨hr, hs⟩ := not_or.mp (mt mem_cons.mpr hn)
    rw [flatten_cons, append_eq_singleton_iff] at h
    obtain ⟨rfl, -⟩ | ⟨rfl, hf⟩ := h
    case inl => contradiction
    case inr =>
      cases slices
      case nil => rfl
      case cons records slices =>
        obtain ⟨rfl, -⟩ := append_eq_nil_iff.mp hf
        exact absurd mem_cons_self hs

section Finish

variable {b : Batching} {soa : RR}

theorem finish_reply (hs : b.soa = some soa) (hl : b.toState.batch.length = 1) :
    b.finish = { envelopes := b.toState.sent, reply := some [soa] } := by
  simp [finish, hs, hl]

theorem finish_envelopes (h : ¬(b.toState.batch.length = 1 ∧ b.soa ≠ none)) :
    b.finish.reply = none ∧ b.finish.envelopes.flatten = b.toState.stream := by
  rw [finish, if_neg h]
  split
  case isTrue => exact ⟨rfl, by simp [stream]⟩
  case isFalse h => exact ⟨rfl, by simp [stream, not_not.mp h]⟩

theorem finish_fits (hv : b.toState.Valid threshold len) (h : e ∈ b.finish.envelopes) :
    Batch.Fits threshold len e := by
  rw [finish] at h
  split_ifs at h with hs hb
  · exact hv.sent e h
  · obtain h | h := mem_append.mp h
    · exact hv.sent e h
    · exact mem_singleton.mp h ▸ hv.batch hb
  · exact hv.sent e h

end Finish

theorem collected_single (hn : [] ∉ slices) (h : slices.flatten = [rr]) (hs : isSoa rr) :
    (collected len slices).finish = { reply := some [rr] } := by
  obtain rfl := slices_eq_of_single hn h
  simp [collected, firstSoa, run, add, finish, hs]

-- A slice without records is a panic. A single record that does not fit into an envelope with the others is lost
-- at the end of a stream, since it is taken for the SOA of an empty transfer.
theorem respond_complete_iff (len : RR → Nat) (slices : List (List RR)) :
    (∃ out, respond len slices = some out ∧ Complete len slices out) ↔ [] ∉ slices ∧
      ¬(Batch.Overruns threshold len slices.flatten ∧ ∃ soa rest, soa :: rest ∈ slices ∧ isSoa soa) := by
  rw [←firstSoa_isSome_iff]
  constructor
  case mp =>
    rintro ⟨out, hr, hc⟩
    have hn : [] ∉ slices := fun hn => by simp [respond_eq_none_iff.mpr hn] at hr
    refine ⟨hn, ?_⟩
    rintro ⟨ho, hs⟩
    obtain ⟨soa, hs⟩ := isSome_iff_exists.mp hs
    obtain rfl : (collected len slices).finish = out := by simpa [respond_eq hn] using hr
    have hf : (collected len slices).finish.reply = some [soa] := by
      rw [finish_reply hs (length_batch_run_eq_one_iff.mpr (.inr ho))]
    -- The stream has more than one record, so there should be no reply.
    have hm : ∀ rr, slices.flatten = [rr] → ¬isSoa rr := by
      intro rr h
      have := ho.one_lt_length
      simp [h] at this
    rw [(hc.stream hm).1] at hf
    cases hf
  case mpr =>
    rintro ⟨hn, hs⟩
    refine ⟨_, respond_eq hn, collected_single hn, fun hm => ?_, finish_fits valid_run⟩
    have ht : (collected len slices).toState.stream = slices.flatten := stream_run
    rw [←ht]
    apply finish_envelopes
    rintro ⟨hl, hsoa⟩
    obtain ⟨soa, hsoa⟩ := ne_none_iff_exists'.mp hsoa
    obtain hl | ho := length_batch_run_eq_one_iff.mp hl
    case inl =>
      obtain ⟨rr, h⟩ := length_eq_one_iff.mp hl
      obtain rfl := slices_eq_of_single hn h
      obtain rfl : soa = rr := mem_singleton.mp (mem_of_find?_eq_some hsoa)
      exact hm soa h (firstSoa_isSoa hsoa)
    case inr => exact hs ⟨ho, isSome_iff_exists.mpr ⟨soa, hsoa⟩⟩

namespace Sample

def soa : RR where
  name := ['.']
  ttl := 0
  data := .soa ⟨['.'], ['.'], 1, 0, 0, 0, 0⟩

def txt : RR where
  name := ['.']
  ttl := 0
  data := .other 16 [] (by decide)

def size (rr : RR) : Nat :=
  if isSoa rr then 100 else 63000

def stream : List (List RR) :=
  [[soa], [txt], [soa]]

end Sample

-- The last SOA is missing in the envelopes and comes as a reply of its own.
theorem respond_last_lost : ¬∃ out, respond Sample.size Sample.stream = some out ∧
    Complete Sample.size Sample.stream out := by
  rintro ⟨out, hr, hc⟩
  have hs : respond Sample.size Sample.stream =
      some { envelopes := [[Sample.soa], [Sample.txt]], reply := some [Sample.soa] } := by decide +kernel
  obtain rfl := some_inj.mp (hs.symm.trans hr)
  have hm : ∀ rr, Sample.stream.flatten = [rr] → ¬isSoa rr := by
    intro rr h
    cases h
  cases (hc.stream hm).1

end Transfer
