import Mathlib.Data.List.Basic
import Mathlib.Data.List.Flatten

/-!
# Streams of delimited frames

A stream arrives in chunks, of any size. A reader buffers what has come and takes from it
up to the next delimiter, which stays at the end of what it takes.

* `cut_frame` — **a frame without delimiters is taken as it was sent**, whatever follows.
* `readBytes_eq` — what a reader takes depends on the stream alone, not on its chunks.
* `readBytes_frame`, `readBytes_end` — what it takes where a frame comes, and at the end.
* `unread_length_lt` — what is taken is not empty.
-/

namespace DelimitedStream

variable {α : Type*} [DecidableEq α] (delim : α)

/-- The part of a list up to the first delimiter, with it, and what is behind; `none` where
there is no delimiter. -/
def cut : List α → Option (List α × List α)
  | [] => none
  | a :: l => if a = delim then some ([a], l) else (cut l).map fun p => (a :: p.1, p.2)

/-- Takes up to the next delimiter: what is taken, and what is not; at the end of the stream
all is taken, and there is nothing behind it. -/
def takeFrame (stream : List α) : List α × Option (List α) :=
  match cut delim stream with
  | some (frame, rest) => (frame, some rest)
  | none => (stream, none)

/-- A stream that is read. -/
structure Reader (α : Type*) where
  /-- what has come and is not taken -/
  buffer : List α
  /-- what will come -/
  chunks : List (List α)

/-- What is not taken from a stream. -/
def Reader.unread (r : Reader α) : List α := r.buffer ++ r.chunks.flatten

/-- Takes up to the next delimiter from what is buffered, and waits for a chunk as long as
there is none. -/
def readBytes (buffer : List α) (chunks : List (List α)) : List α × Option (Reader α) :=
  match cut delim buffer with
  | some (frame, rest) => (frame, some ⟨rest, chunks⟩)
  | none =>
    match chunks with
    | [] => (buffer, none)
    | chunk :: chunks => readBytes (buffer ++ chunk) chunks

variable {delim} {l l' frame rest : List α}

/-- What follows a delimiter is behind it. -/
theorem cut_append (h : cut delim l = some (frame, rest)) (l' : List α) :
    cut delim (l ++ l') = some (frame, rest ++ l') := by
  induction l generalizing frame with
  | nil => cases h
  | cons a l ih =>
    rw [cut] at h
    rw [List.cons_append, cut]
    split at h
    next ha =>
      obtain ⟨rfl, rfl⟩ := Prod.mk.inj (Option.some.inj h)
      rw [if_pos ha]
    next ha =>
      obtain ⟨⟨frame', rest'⟩, hcut, heq⟩ := Option.map_eq_some_iff.mp h
      obtain ⟨rfl, rfl⟩ := Prod.mk.inj heq
      rw [if_neg ha, ih hcut]
      rfl

/-- **A frame without delimiters** is taken as it was sent, and the delimiter with it. -/
theorem cut_frame (h : delim ∉ frame) (rest : List α) :
    cut delim (frame ++ delim :: rest) = some (frame ++ [delim], rest) := by
  induction frame with
  | nil => exact if_pos rfl
  | cons a frame ih =>
    rw [List.mem_cons, not_or] at h
    rw [List.cons_append, cut, if_neg (Ne.symm h.1), ih h.2]
    rfl

/-- What is taken is not empty. -/
theorem length_lt_of_cut (h : cut delim l = some (frame, rest)) : rest.length < l.length := by
  induction l generalizing frame with
  | nil => cases h
  | cons a l ih =>
    rw [cut] at h
    split at h
    next =>
      obtain ⟨rfl, rfl⟩ := Prod.mk.inj (Option.some.inj h)
      exact Nat.lt_succ_self _
    next =>
      obtain ⟨⟨frame', rest'⟩, hcut, heq⟩ := Option.map_eq_some_iff.mp h
      obtain ⟨rfl, rfl⟩ := Prod.mk.inj heq
      exact Nat.lt_trans (ih hcut) (Nat.lt_succ_self _)

variable (delim) in
/-- **The chunks do not matter**: a reader takes what the stream has up to the next
delimiter. -/
theorem readBytes_eq (buffer : List α) (chunks : List (List α)) :
    ((readBytes delim buffer chunks).1,
        (readBytes delim buffer chunks).2.map Reader.unread) =
      takeFrame delim (buffer ++ chunks.flatten) := by
  induction chunks generalizing buffer with
  | nil =>
    rw [readBytes, takeFrame, List.flatten_nil, List.append_nil]
    cases hcut : cut delim buffer with
    | none => rfl
    | some p => simp [Reader.unread]
  | cons chunk chunks ih =>
    rw [readBytes]
    cases hcut : cut delim buffer with
    | none =>
      rw [List.flatten_cons, ← List.append_assoc]
      exact ih (buffer ++ chunk)
    | some p =>
      rw [takeFrame, cut_append hcut]
      rfl

variable {r r' : Reader α}

/-- A reader takes a frame as it was sent, and leaves what is behind it. -/
theorem readBytes_frame (h : delim ∉ frame) (hr : r.unread = frame ++ delim :: rest) :
    ∃ r', readBytes delim r.buffer r.chunks = (frame ++ [delim], some r') ∧ r'.unread = rest := by
  have hread := readBytes_eq delim r.buffer r.chunks
  rw [← Reader.unread, hr, takeFrame, cut_frame h] at hread
  obtain ⟨hframe, hrest⟩ := Prod.mk.inj hread
  obtain ⟨r', hr', hunread⟩ := Option.map_eq_some_iff.mp hrest
  exact ⟨r', Prod.ext hframe hr', hunread⟩

/-- At the end of the stream there is nothing to take. -/
theorem readBytes_end (hr : r.unread = []) : readBytes delim r.buffer r.chunks = ([], none) := by
  have hread := readBytes_eq delim r.buffer r.chunks
  rw [← Reader.unread, hr] at hread
  obtain ⟨hframe, hrest⟩ := Prod.mk.inj hread
  exact Prod.ext hframe (Option.map_eq_none_iff.mp hrest)

/-- With each frame less of the stream is left. -/
theorem unread_length_lt (h : (readBytes delim r.buffer r.chunks).2 = some r') :
    r'.unread.length < r.unread.length := by
  have hread := congrArg Prod.snd (readBytes_eq delim r.buffer r.chunks)
  rw [h, ← Reader.unread, takeFrame] at hread
  cases hcut : cut delim r.unread with
  | none =>
    rw [hcut] at hread
    cases hread
  | some p =>
    rw [hcut] at hread
    rw [Option.some.inj hread]
    exact length_lt_of_cut hcut

end DelimitedStream
