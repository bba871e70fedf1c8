import Mathlib

open List

-- Reading from a stream that arrives in chunks of any size and ends after the last one.
namespace Reader

inductive Error
  | eof
  | unexpectedEOF
deriving DecidableEq

-- The loop that fills a buffer: what was read into it, and what is left of the stream.
def read : List (List α) → Nat → List α × List (List α)
  | chunks, 0 => ([], chunks)
  | [], _ => ([], [])
  | chunk :: chunks, n =>
    if n < chunk.length then
      (chunk.take n, chunk.drop n :: chunks)
    else
      let (bytes, rest) := read chunks (n - chunk.length)
      (chunk ++ bytes, rest)

-- Go's `io.ReadFull`. It is an error if the stream ends before the buffer is full, and a different one if nothing was read.
def readFull (chunks : List (List α)) (n : Nat) : List α × List (List α) × Option Error :=
  let (bytes, rest) := read chunks n
  (bytes, rest, if n ≤ bytes.length then none else if bytes = [] then some .eof else some .unexpectedEOF)

-- How the stream is cut into chunks makes no difference.
theorem read_eq (chunks : List (List α)) (n : Nat) :
    (read chunks n).1 = chunks.flatten.take n ∧ (read chunks n).2.flatten = chunks.flatten.drop n := by
  fun_induction read chunks n
  case case1 => simp
  case case2 => simp
  case case3 chunk chunks n _ h =>
    simp [take_append_of_le_length h.le, drop_append_of_le_length h.le]
  case case4 chunk chunks n _ h bytes rest hr ih =>
    rw [hr] at ih
    have hl : chunk.length ≤ n := not_lt.mp h
    rw [flatten_cons, take_append, drop_append, take_of_length_le hl, drop_of_length_le hl]
    exact ⟨congrArg (chunk ++ ·) ih.1, ih.2⟩

section

variable {chunks : List (List α)} {n : Nat}

theorem readFull_of_le (h : n ≤ chunks.flatten.length) :
    ∃ rest, rest.flatten = chunks.flatten.drop n ∧ readFull chunks n = (chunks.flatten.take n, rest, none) := by
  obtain ⟨hb, hr⟩ := read_eq chunks n
  have hl : n ≤ (chunks.flatten.take n).length := (length_take_of_le h).ge
  refine ⟨(read chunks n).2, hr, ?_⟩
  simp only [readFull, hb, if_pos hl]

theorem readFull_of_lt (h : chunks.flatten.length < n) : ∃ rest, readFull chunks n =
      (chunks.flatten, rest, if chunks.flatten = [] then some .eof else some .unexpectedEOF) := by
  obtain ⟨hb, -⟩ := read_eq chunks n
  refine ⟨(read chunks n).2, ?_⟩
  simp only [readFull, hb, take_of_length_le h.le, if_neg (not_le.mpr h)]

end
end Reader

-- Go's `bufio.Reader` with a buffer of the default size, for a source that always returns as much as there is room for.
structure Bufio (α : Type) where
  buf : List α := []
  rd : List α
deriving DecidableEq

namespace Bufio

def defaultBufSize : Nat := 4096

-- The buffer is only filled again when it is empty.
def readByte (b : Bufio α) : Option (α × Bufio α) :=
  match b.buf with
  | x :: buf => some (x, { b with buf })
  | [] =>
    match b.rd.take defaultBufSize with
    | x :: buf => some (x, { buf, rd := b.rd.drop defaultBufSize })
    | [] => none

def discard : Nat → Bufio α → Option (Bufio α)
  | 0, b => some b
  | n + 1, b => do
    let b ← discard n b
    let (_, b) ← b.readByte
    return b

-- How much of the source is read in order to get some bytes.
def loaded (n : Nat) : Nat :=
  defaultBufSize * ((n + (defaultBufSize - 1)) / defaultBufSize)

theorem le_loaded (n : Nat) : n ≤ loaded n := by
  simp only [loaded, defaultBufSize]
  omega

theorem discard_eq {l : List α} {n : Nat} (h : n ≤ l.length) :
    discard n { rd := l } = some { buf := (l.take (loaded n)).drop n, rd := l.drop (loaded n) } := by
  induction n
  case zero => simp [discard, loaded, defaultBufSize]
  case succ n hi =>
    have hn : n < l.length := h
    rw [discard, hi (Nat.le_of_lt h)]
    simp only [Option.bind_eq_bind, Option.bind_some]
    by_cases hd : loaded n = n
    case pos =>
      have hs : loaded (n + 1) = n + defaultBufSize := by simp only [loaded, defaultBufSize] at *; omega
      have hf : (l.drop n).take defaultBufSize = l[n] :: (l.take (loaded (n + 1))).drop (n + 1) := by
        rw [drop_take, hs, Nat.add_sub_add_left, drop_eq_getElem_cons hn]
        rfl
      have hb : (l.take n).drop n = [] := drop_eq_nil_of_le (length_take_le n l)
      simp only [hd, hb, readByte, hf, drop_drop, ←hs]
      rfl
    case neg =>
      have hs : loaded (n + 1) = loaded n ∧ n < loaded n := by simp only [loaded, defaultBufSize] at *; omega
      have hl : n < (l.take (loaded n)).length := by simp [hs.2, hn]
      rw [hs.1, drop_eq_getElem_cons hl]
      rfl

end Bufio
