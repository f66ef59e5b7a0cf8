/-
SpringDome.Protobuf.CodedInputTheorems — a coded stream is a place in a list of
bytes.

`Cursor` is what a stream is for: the bytes ahead, how many lie behind, and the
limits. `CodedInputStream.abs` says which cursor a stream is, `WellFormed` is
its invariant, and every reader `Simulates` the reader of `Lib.WireFormat` on
the bytes that may be read. Where the buffers end plays no part, and no fast
path reads behind one.

How the proofs go. Every reader of the class has the same two ways: a fast one
on the buffer at hand, and a slow one that asks for the next buffer.

  - Bytes leave the buffer by `WellFormed.drop` alone. The fast ways are that
    lemma and the fact that what may be read starts with the buffer
    (`WellFormed.readable_eq`).
  - A new buffer comes by `refresh` alone. `refresh_true` says that the cursor
    does not move, `refresh_false` that nothing may be read any more. Each
    success takes at least one buffer of the input away, which is what the
    fuel of the loops counts (`readRawLoop_spec`, `refreshUntilBytes_spec`).
  - `readRaw`, `readString` and `skip` are then readers of so many bytes
    (section 3), the fixed numbers are `readRaw` and arithmetic (section 4),
    and the varints are the unrolled decoders of section 5 where the guard
    `varintEndsInBuffer` lets them run, else the loop of section 6.

Why the fields of `WellFormed` are there. `buffer_end_` stops at the closest
limit, and the bytes behind it are kept aside in `afterLimit`: `afterLimit`
says how many these are, and `closest` that the place itself is not past the
limit. `total`, `limit` and `input` are the bounds of the `int`s of the class;
without them the distance to the limit could not be taken, and a buffer could
be longer than `total_bytes_read_` can count. `overflow` says that bytes are
kept for lack of room only when the count has reached INT_MAX. Every limit is
at most that, so the bytes kept are never read.
-/
import SpringDome.Protobuf.CodedInputStream
import SpringDome.Lib.Machine

namespace SpringDome.Protobuf

open SpringDome.Lib.WireFormat

/-! ## 1. Cursors

Both limits are absolute positions. A limit that lies behind the end of the
input is allowed: then `readable` is all that is ahead. -/

structure Cursor where
  /-- All bytes that are still to come. -/
  ahead : List UInt8
  position : Nat
  currentLimit : Nat
  totalBytesLimit : Nat
  lastTag : UInt32
  legitimateMessageEnd : Bool
  recursionBudget : Int
  recursionLimit : Int
  deriving DecidableEq, Repr

namespace Cursor

def closestLimit (c : Cursor) : Nat := min c.currentLimit c.totalBytesLimit

/-- The bytes before the closest limit. -/
def readable (c : Cursor) : List UInt8 := c.ahead.take (c.closestLimit - c.position)

def advance (c : Cursor) (n : Nat) : Cursor :=
  { c with ahead := c.ahead.drop n, position := c.position + n }

theorem readable_advance (c : Cursor) (n : Nat) :
    (c.advance n).readable = c.readable.drop n := by
  unfold readable advance
  rw [List.drop_take, Nat.sub_add_eq]
  rfl

theorem advance_advance (c : Cursor) (m n : Nat) :
    (c.advance m).advance n = c.advance (m + n) := by
  unfold advance
  rw [List.drop_drop, Nat.add_assoc]

end Cursor

namespace CodedInputStream

/-- In the order in which they come: what is kept behind a limit is read when
the limit is taken back, before the next buffer. -/
def ahead (s : CodedInputStream) : List UInt8 :=
  s.buffer ++ (s.afterLimit ++ (s.overflow ++ s.input.flatten))

def abs (s : CodedInputStream) : Cursor where
  ahead := s.ahead
  position := s.currentPosition
  currentLimit := s.currentLimit
  totalBytesLimit := s.totalBytesLimit
  lastTag := s.lastTag
  legitimateMessageEnd := s.legitimateMessageEnd
  recursionBudget := s.recursionBudget
  recursionLimit := s.recursionLimit

/-- The buffer ends at the closest limit or before it, and what was read lies
where an `int` can name it. -/
structure WellFormed (s : CodedInputStream) : Prop where
  position : s.buffer.length + s.afterLimit.length ≤ s.totalBytesRead
  total : s.totalBytesRead ≤ intMax
  limit : s.currentLimit ≤ intMax
  afterLimit : s.afterLimit.length = s.totalBytesRead - s.closestLimit
  closest : s.currentPosition ≤ s.closestLimit
  overflow : s.overflow ≠ [] → s.totalBytesRead = intMax
  input : ∀ data ∈ s.input, data.length ≤ intMax

theorem closestLimit_le (s : CodedInputStream) : s.closestLimit ≤ s.currentLimit :=
  Nat.min_le_left _ _

/-- The three reasons for which `Refresh` asks for nothing: in each of them the
closest limit is not behind the buffer. -/
theorem WellFormed.buffer_of_limit {s : CodedInputStream} (h : s.WellFormed)
    (hlimit : s.afterLimit ≠ [] ∨ s.overflow ≠ [] ∨ s.totalBytesRead = s.currentLimit) :
    s.closestLimit - s.currentPosition ≤ s.buffer.length := by
  have hposition := h.position
  have hafter := h.afterLimit
  have hle := s.closestLimit_le
  have hcurrent := h.limit
  unfold currentPosition
  rcases hlimit with hlimit | hlimit | hlimit
  · have hpos := List.length_pos_iff.mpr hlimit
    omega
  · have hmax := h.overflow hlimit
    omega
  · omega

/-- What may be read starts with the buffer. -/
theorem WellFormed.readable_eq {s : CodedInputStream} (h : s.WellFormed) :
    s.abs.readable = s.buffer ++
      (s.afterLimit ++ (s.overflow ++ s.input.flatten)).take
        (s.closestLimit - s.currentPosition - s.buffer.length) := by
  have hposition := h.position
  have hafter := h.afterLimit
  have hclosest := h.closest
  have hlong : s.buffer.length ≤ s.closestLimit - s.currentPosition := by
    unfold currentPosition at hclosest ⊢
    omega
  show (s.buffer ++ _).take (s.closestLimit - s.currentPosition) = _
  rw [List.take_append, List.take_of_length_le hlong]

/-- At a limit, the buffer is all that may be read. -/
theorem WellFormed.readable_of_limit {s : CodedInputStream} (h : s.WellFormed)
    (hlimit : s.afterLimit ≠ [] ∨ s.overflow ≠ [] ∨ s.totalBytesRead = s.currentLimit) :
    s.abs.readable = s.buffer := by
  have hle := h.buffer_of_limit hlimit
  rw [h.readable_eq, Nat.sub_eq_zero_of_le hle, List.take_zero, List.append_nil]

/-- Taking bytes from the buffer. The bytes counted and those behind the limit
stay, so only the two fields that name the buffer have to be shown again. -/
theorem WellFormed.drop {s : CodedInputStream} (h : s.WellFormed) {n : Nat}
    (hn : n ≤ s.buffer.length) :
    ({ s with buffer := s.buffer.drop n } : CodedInputStream).WellFormed ∧
      ({ s with buffer := s.buffer.drop n } : CodedInputStream).abs = s.abs.advance n := by
  have hposition := h.position
  have hafter := h.afterLimit
  have hclosest := h.closest
  have hmove : ({ s with buffer := s.buffer.drop n } : CodedInputStream).currentPosition =
      s.currentPosition + n := by
    unfold currentPosition
    simp only [List.length_drop]
    omega
  refine ⟨⟨?_, h.total, h.limit, hafter, ?_, h.overflow, h.input⟩, ?_⟩
  · simp only [List.length_drop]
    omega
  · rw [hmove]
    show s.currentPosition + n ≤ s.closestLimit
    unfold currentPosition at hclosest ⊢
    omega
  · unfold abs Cursor.advance ahead
    rw [hmove]
    simp only [List.drop_append_of_le_length hn]

/-! ## 2. Buffers

`RecomputeBufferLimits` puts the two parts of the buffer together and cuts them
again at the closest limit. It is asked for after each change of a limit and
after each new buffer, so the lemma assumes of the stream before only what both
callers know: all of `WellFormed` but the place of the cut. -/

/-- The limit is found in the buffer, wherever it was before. -/
theorem recomputeBufferLimits_spec {s : CodedInputStream}
    (hposition : s.buffer.length + s.afterLimit.length ≤ s.totalBytesRead)
    (htotal : s.totalBytesRead ≤ intMax) (hlimit : s.currentLimit ≤ intMax)
    (hclosest : s.currentPosition ≤ s.closestLimit)
    (hoverflow : s.overflow ≠ [] → s.totalBytesRead = intMax)
    (hinput : ∀ data ∈ s.input, data.length ≤ intMax) :
    s.recomputeBufferLimits.WellFormed ∧ s.recomputeBufferLimits.abs = s.abs := by
  have hlength : (s.buffer ++ s.afterLimit).length = s.buffer.length + s.afterLimit.length :=
    List.length_append
  unfold recomputeBufferLimits
  unfold currentPosition at hclosest
  dsimp only
  split
  · -- the limit lies in the buffer: as many bytes are kept as were read past it
    rename_i hnear
    have hafter : ((s.buffer ++ s.afterLimit).drop ((s.buffer ++ s.afterLimit).length -
        (s.totalBytesRead - s.closestLimit))).length = s.totalBytesRead - s.closestLimit := by
      rw [List.length_drop]
      omega
    have hbuffer : ((s.buffer ++ s.afterLimit).take ((s.buffer ++ s.afterLimit).length -
        (s.totalBytesRead - s.closestLimit))).length =
          s.buffer.length + s.afterLimit.length - (s.totalBytesRead - s.closestLimit) := by
      rw [List.length_take]
      omega
    refine ⟨⟨?_, htotal, hlimit, hafter, ?_, hoverflow, hinput⟩, ?_⟩
    · dsimp only
      omega
    · unfold currentPosition
      dsimp only
      rw [hafter, hbuffer]
      show _ ≤ s.closestLimit
      omega
    · unfold abs ahead currentPosition
      dsimp only
      rw [hafter, hbuffer, ← List.append_assoc, List.take_append_drop, List.append_assoc,
        show s.buffer.length + s.afterLimit.length - (s.totalBytesRead - s.closestLimit) +
          (s.totalBytesRead - s.closestLimit) = s.buffer.length + s.afterLimit.length by omega]
  · -- it lies behind: nothing is kept
    rename_i hfar
    refine ⟨⟨?_, htotal, hlimit, ?_, ?_, hoverflow, hinput⟩, ?_⟩
    · dsimp only
      rw [hlength, List.length_nil]
      omega
    · dsimp only
      show 0 = s.totalBytesRead - s.closestLimit
      omega
    · unfold currentPosition
      dsimp only
      rw [hlength]
      exact hclosest
    · unfold abs ahead currentPosition
      dsimp only
      rw [hlength, List.nil_append, List.append_assoc]
      rfl

/-- The loop of `Refresh` passes over empty buffers, which the input is free to
give. -/
theorem nextNonEmpty_none {input : List (List UInt8)} (h : nextNonEmpty input = none) :
    input.flatten = [] := by
  induction input with
  | nil => rfl
  | cons data input ih =>
      cases data with
      | nil => exact ih h
      | cons b data => cases h

theorem nextNonEmpty_some {input rest : List (List UInt8)} {data : List UInt8}
    (h : nextNonEmpty input = some (data, rest)) :
    input.flatten = data ++ rest.flatten ∧ rest.length < input.length ∧ data ∈ input ∧
      (∀ d ∈ rest, d ∈ input) ∧ data ≠ [] := by
  induction input with
  | nil => cases h
  | cons first input ih =>
      cases first with
      | nil =>
          obtain ⟨hflatten, hlength, hdata, hrest, hne⟩ := ih h
          exact ⟨hflatten, Nat.lt_succ_of_lt hlength, List.mem_cons_of_mem _ hdata,
            fun d hd => List.mem_cons_of_mem _ (hrest d hd), hne⟩
      | cons b first =>
          cases h
          exact ⟨rfl, Nat.lt_succ_self _, List.mem_cons_self,
            fun d hd => List.mem_cons_of_mem _ hd, List.cons_ne_nil _ _⟩

theorem recomputeBufferLimits_input (s : CodedInputStream) :
    s.recomputeBufferLimits.input = s.input := by
  unfold recomputeBufferLimits
  dsimp only
  split <;> rfl

/-- A buffer that was fetched behind an empty one: `front` is what can be
counted of it, and `back` is kept apart. -/
theorem WellFormed.fetched {s t : CodedInputStream} (h : s.WellFormed) (hempty : s.buffer = [])
    (hafter : s.afterLimit = []) (hoverflow : s.overflow = []) {front back : List UInt8}
    {input : List (List UInt8)} {total : Nat}
    (ht : t = { s with
      buffer := front, input := input, overflow := back, totalBytesRead := total })
    (hflatten : s.input.flatten = front ++ (back ++ input.flatten))
    (htotal : total = s.totalBytesRead + front.length) (hmax : total ≤ intMax)
    (hback : back ≠ [] → total = intMax) (hinput : ∀ data ∈ input, data.length ≤ intMax) :
    t.recomputeBufferLimits.WellFormed ∧ t.recomputeBufferLimits.abs = s.abs := by
  have hclosest := h.closest
  have hposition : s.currentPosition = s.totalBytesRead := by
    unfold currentPosition
    rw [hempty, hafter]
    rfl
  have hposition' : t.currentPosition = s.currentPosition := by
    rw [ht, hposition, htotal]
    unfold currentPosition
    dsimp only
    rw [hafter, List.length_nil]
    omega
  obtain ⟨hwell, habs⟩ := @recomputeBufferLimits_spec t
    (by rw [ht]; dsimp only; rw [hafter, List.length_nil]; omega) (by rw [ht]; exact hmax)
    (by rw [ht]; exact h.limit) (by rw [hposition', ht]; exact hclosest)
    (by rw [ht]; exact hback) (by rw [ht]; exact hinput)
  refine ⟨hwell, habs.trans ?_⟩
  unfold abs
  rw [hposition', ht]
  unfold ahead
  dsimp only
  rw [hempty, hafter, hoverflow, hflatten]
  rfl

/-- A refresh at the end of a buffer fetches bytes. What is ahead is the same
list before and after: its front was the input's and is now the buffer's. -/
theorem WellFormed.refresh_true {s s' : CodedInputStream} (h : s.WellFormed)
    (hempty : s.buffer = []) (hrefresh : s.refresh = (true, s')) :
    s'.WellFormed ∧ s'.abs = s.abs ∧ s'.input.length < s.input.length := by
  unfold refresh at hrefresh
  split at hrefresh
  · cases hrefresh
  · rename_i hlimit
    have hafter : s.afterLimit = [] :=
      Classical.byContradiction fun hne => hlimit (.inl hne)
    have hoverflow : s.overflow = [] :=
      Classical.byContradiction fun hne => hlimit (.inr (.inl hne))
    have htotal := h.total
    split at hrefresh
    · cases hrefresh
    · rename_i data input hnext
      obtain ⟨hflatten, hlength, hdata, hrest, -⟩ := nextNonEmpty_some hnext
      have hshort := h.input data hdata
      have hinput : ∀ d ∈ input, d.length ≤ intMax := fun d hd => h.input d (hrest d hd)
      split at hrefresh
      · -- the bytes read so far can still be counted
        cases hrefresh
        have hwhole : ({ s with
            buffer := data, input := input
            totalBytesRead := s.totalBytesRead + data.length } : CodedInputStream) = { s with
              buffer := data, input := input, overflow := []
              totalBytesRead := s.totalBytesRead + data.length } := by rw [hoverflow]
        obtain ⟨hwell, habs⟩ := h.fetched hempty hafter hoverflow hwhole
          (show s.input.flatten = data ++ ([] ++ input.flatten) from hflatten)
          rfl (by omega) (fun hne => absurd rfl hne) hinput
        refine ⟨hwell, habs, ?_⟩
        rw [recomputeBufferLimits_input]
        exact hlength
      · -- they cannot: the count stops at INT_MAX, and the rest is kept apart
        cases hrefresh
        have hcut : s.input.flatten =
            data.take (data.length - (s.totalBytesRead - (intMax - data.length))) ++
              (data.drop (data.length - (s.totalBytesRead - (intMax - data.length))) ++
                input.flatten) := by
          rw [hflatten, ← List.append_assoc, List.take_append_drop]
        obtain ⟨hwell, habs⟩ := h.fetched hempty hafter hoverflow rfl hcut
          (by rw [List.length_take]; omega) (Nat.le_refl _) (fun _ => rfl) hinput
        refine ⟨hwell, habs, ?_⟩
        rw [recomputeBufferLimits_input]
        exact hlength

/-- Or it finds that there are none to read: at a limit, or at the end of the
input. -/
theorem WellFormed.refresh_false {s s' : CodedInputStream} (h : s.WellFormed)
    (hempty : s.buffer = []) (hrefresh : s.refresh = (false, s')) :
    s'.WellFormed ∧ s'.abs = s.abs ∧ s'.buffer = [] ∧ s.abs.readable = [] := by
  unfold refresh at hrefresh
  split at hrefresh
  · rename_i hlimit
    cases hrefresh
    exact ⟨h, rfl, hempty, by rw [h.readable_of_limit hlimit, hempty]⟩
  · rename_i hlimit
    have hafter : s.afterLimit = [] :=
      Classical.byContradiction fun hne => hlimit (.inl hne)
    have hoverflow : s.overflow = [] :=
      Classical.byContradiction fun hne => hlimit (.inr (.inl hne))
    split at hrefresh
    · rename_i hnext
      cases hrefresh
      have hahead : s.ahead = [] := by
        unfold ahead
        rw [hempty, hafter, hoverflow, nextNonEmpty_none hnext]
        rfl
      have habs : ({ s with buffer := [], input := [] } : CodedInputStream).abs = s.abs := by
        unfold abs
        rw [hahead]
        unfold ahead currentPosition
        dsimp only
        rw [hempty, hafter, hoverflow]
        rfl
      refine ⟨⟨?_, h.total, h.limit, h.afterLimit, ?_, h.overflow, fun d hd => nomatch hd⟩, habs,
        rfl, ?_⟩
      · have hposition := h.position
        rw [hempty] at hposition
        exact hposition
      · have hclosest := h.closest
        unfold currentPosition at hclosest
        rw [hempty] at hclosest
        exact hclosest
      · show s.ahead.take _ = []
        rw [hahead, List.take_nil]
    · split at hrefresh <;> cases hrefresh

end CodedInputStream

/-! ## 3. Simulation

A reader of the class gives its result through a pointer and `true`, or `false`
and leaves the stream somewhere. So a failure is compared by itself, and only a
success says where the cursor is. `Simulates` is kept by sequence
(`Answers.andThen`), and each reader below is one instance. -/

/-- A call ends as a cursor does, and fails when there is no answer. -/
@[reducible] def Answers {α : Type} (result : Outcome α × CodedInputStream) :
    Option (α × Cursor) → Prop
  | some (a, c) => ∃ s', result = (.done a, s') ∧ s'.WellFormed ∧ s'.abs = c
  | none => result.1 = .failed

/-- What a call does to a stream is what `spec` does to the cursor. -/
def Simulates {α : Type} (call : CodedInputStream → Outcome α × CodedInputStream)
    (spec : Cursor → Option (α × Cursor)) : Prop :=
  ∀ s : CodedInputStream, s.WellFormed → Answers (call s) (spec s.abs)

theorem Answers.andThen_none {α β : Type} {result : Outcome α × CodedInputStream}
    (h : Answers result none) (next : α → CodedInputStream → Outcome β × CodedInputStream) :
    Answers (andThen result next) none := by
  obtain ⟨outcome, s⟩ := result
  obtain rfl : outcome = .failed := h
  rfl

/-- In sequence: what the first call leaves is what the second starts from. -/
theorem Answers.andThen {α β : Type} {result : Outcome α × CodedInputStream}
    {spec : Option (α × Cursor)} (h : Answers result spec)
    {next : α → CodedInputStream → Outcome β × CodedInputStream}
    {specNext : α → Cursor → Option (β × Cursor)} (hnext : ∀ a, Simulates (next a) (specNext a)) :
    Answers (andThen result next) (spec.bind fun (a, c) => specNext a c) := by
  cases spec with
  | none => exact h.andThen_none next
  | some x =>
      obtain ⟨a, c⟩ := x
      obtain ⟨s', rfl, hwell, rfl⟩ := h
      exact hnext a s' hwell

/-- Handing out a value without a look at the stream. -/
theorem simulates_done {α : Type} (a : α) :
    Simulates (fun s => (.done a, s)) fun c => some (a, c) :=
  fun s h => ⟨s, rfl, h, rfl⟩

/-- Reading from what may be read. -/
def Cursor.readWith {α : Type} (reader : List UInt8 → Except Failure (α × List UInt8))
    (c : Cursor) : Option (α × Cursor) :=
  match reader c.readable with
  | .ok (a, rest) => some (a, c.advance (c.readable.length - rest.length))
  | .error _ => none

/-- `size` bytes. -/
def readBytes (size : Nat) (bytes : List UInt8) : Except Failure (List UInt8 × List UInt8) :=
  if size ≤ bytes.length then .ok (bytes.take size, bytes.drop size) else .error .truncated

namespace CodedInputStream

/-- What is ahead is the buffer, then what comes after a refresh. -/
theorem WellFormed.readable_length {s : CodedInputStream} (h : s.WellFormed) :
    s.buffer.length ≤ s.abs.readable.length := by
  rw [h.readable_eq, List.length_append]
  exact Nat.le_add_right _ _

/-- The loop of `ReadRaw`. By induction on the buffers of the input: the buffer
is taken whole, and the rest of the size is read from the bytes behind it. -/
theorem readRawLoop_spec {s : CodedInputStream} (h : s.WellFormed) {fuel : Nat}
    (hfuel : s.input.length < fuel) (size : Nat) (copied : List UInt8) :
    if size ≤ s.abs.readable.length then
      ∃ s', readRawLoop fuel s size copied = (.done (copied ++ s.abs.readable.take size), s') ∧
        s'.WellFormed ∧ s'.abs = s.abs.advance size
    else (readRawLoop fuel s size copied).1 = .failed := by
  induction fuel generalizing s size copied with
  | zero => omega
  | succ fuel ih =>
      have hlong := h.readable_length
      rw [readRawLoop]
      by_cases hsize : s.buffer.length < size
      · rw [if_pos hsize]
        obtain ⟨hdrop, habs⟩ := h.drop (Nat.le_refl _)
        rw [List.drop_length] at hdrop habs
        cases hrefresh : ({ s with buffer := [] } : CodedInputStream).refresh with
        | mk success s' =>
            cases success with
            | true =>
                -- the cursor stands behind the buffer taken, and nowhere else
                obtain ⟨hwell', habs', hinput⟩ := hdrop.refresh_true rfl hrefresh
                have hreadable : s'.abs.readable = s.abs.readable.drop s.buffer.length := by
                  rw [habs', habs, Cursor.readable_advance]
                have hread := ih hwell' (by dsimp only at hinput; omega)
                  (size - s.buffer.length) (copied ++ s.buffer)
                rw [hreadable, List.length_drop] at hread
                by_cases hle : size ≤ s.abs.readable.length
                · rw [if_pos (by omega)] at hread
                  rw [if_pos hle]
                  obtain ⟨s'', hloop, hwell'', habs''⟩ := hread
                  refine ⟨s'', ?_, hwell'', ?_⟩
                  · have htake : s.abs.readable.take size = s.buffer ++
                        (s.abs.readable.drop s.buffer.length).take (size - s.buffer.length) := by
                      rw [h.readable_eq, List.take_append, List.take_of_length_le (by omega),
                        List.drop_left]
                    rw [htake, ← List.append_assoc]
                    exact hloop
                  · rw [habs'', habs', habs, Cursor.advance_advance,
                      Nat.add_sub_cancel' (by omega)]
                · rw [if_neg (by omega)] at hread
                  rw [if_neg hle]
                  exact hread
            | false =>
                -- the buffer was all there is, and it is too short
                obtain ⟨-, -, -, hnone⟩ := hdrop.refresh_false rfl hrefresh
                rw [habs, Cursor.readable_advance] at hnone
                have hle := List.drop_eq_nil_iff.mp hnone
                rw [if_neg (by omega)]
      · rw [if_neg hsize, if_pos (by omega)]
        obtain ⟨hdrop, habs⟩ := h.drop (n := size) (by omega)
        refine ⟨_, ?_, hdrop, habs⟩
        rw [h.readable_eq, List.take_append_of_le_length (by omega)]

/-- So many bytes are there or they are not. -/
theorem readWith_readBytes (c : Cursor) (size : Nat) :
    c.readWith (readBytes size) =
      if size ≤ c.readable.length then some (c.readable.take size, c.advance size) else none := by
  unfold Cursor.readWith readBytes
  by_cases hsize : size ≤ c.readable.length
  · simp only [if_pos hsize, List.length_drop]
    rw [show c.readable.length - (c.readable.length - size) = size by omega]
  · simp only [if_neg hsize]

/-- The loop has a round for each buffer of the input and one for the buffer at
hand. -/
theorem readRaw_simulates (size : Nat) :
    Simulates (fun s => s.readRaw size) fun c => c.readWith (readBytes size) := by
  intro s h
  have hread := readRawLoop_spec h (Nat.lt_succ_self _) size []
  dsimp only
  rw [readWith_readBytes]
  split at hread
  · rename_i hsize
    rw [if_pos hsize]
    exact hread
  · rename_i hsize
    rw [if_neg hsize]
    exact hread

/-- A negative size is refused. -/
theorem readString_simulates (size : Int) :
    Simulates (fun s => s.readString size) fun c =>
      if size < 0 then none else c.readWith (readBytes size.toNat) := by
  intro s h
  dsimp only
  unfold readString
  by_cases hneg : size < 0
  · rw [if_pos hneg, if_pos hneg]
  · rw [if_neg hneg, if_neg hneg]
    by_cases hshort : size.toNat ≤ s.buffer.length
    · have hlong := h.readable_length
      rw [if_pos hshort, readWith_readBytes, if_pos (by omega)]
      obtain ⟨hdrop, habs⟩ := h.drop hshort
      refine ⟨_, ?_, hdrop, habs⟩
      rw [h.readable_eq, List.take_append_of_le_length hshort]
    · rw [if_neg hshort]
      exact readRaw_simulates size.toNat s h

/-- `Skip` of the input says whether there were so many bytes, and has passed
over as many as there were either way. -/
theorem skipInput_spec (count : Nat) (input : List (List UInt8)) :
    (skipInput count input).1 = decide (count ≤ input.flatten.length) ∧
      (skipInput count input).2.flatten = input.flatten.drop count ∧
        ∀ d ∈ (skipInput count input).2, ∃ data ∈ input, d.length ≤ data.length := by
  induction input generalizing count with
  | nil =>
      cases count with
      | zero => exact ⟨rfl, rfl, fun d hd => nomatch hd⟩
      | succ count => exact ⟨by simp [skipInput], by simp [skipInput], fun d hd => nomatch hd⟩
  | cons data input ih =>
      cases count with
      | zero => exact ⟨by simp [skipInput], rfl, fun d hd => ⟨d, hd, Nat.le_refl _⟩⟩
      | succ count =>
          rw [skipInput, List.flatten_cons, List.length_append]
          split
          · rename_i hle
            refine ⟨by simp; omega, ?_, ?_⟩
            · rw [List.flatten_cons, List.drop_append_of_le_length hle]
            · intro d hd
              rcases List.mem_cons.mp hd with rfl | hd
              · refine ⟨data, List.mem_cons_self, ?_⟩
                rw [List.length_drop]
                exact Nat.sub_le _ _
              · exact ⟨d, List.mem_cons_of_mem _ hd, Nat.le_refl _⟩
          · rename_i hlong
            obtain ⟨hskipped, hflatten, hshort⟩ := ih (count + 1 - data.length)
            refine ⟨?_, ?_, ?_⟩
            · rw [hskipped]
              exact decide_eq_decide.mpr (by omega)
            · rw [hflatten, List.drop_append,
                List.drop_eq_nil_of_le (show data.length ≤ count + 1 by omega), List.nil_append]
            · intro d hd
              obtain ⟨data', hdata', hle⟩ := hshort d hd
              exact ⟨data', List.mem_cons_of_mem _ hdata', hle⟩

/-- The limit, if there is one, lies in the input: what may be read behind the
buffer is input, as far as the limit. -/
theorem WellFormed.readable_of_input {s : CodedInputStream} (h : s.WellFormed)
    (hafter : s.afterLimit = []) :
    s.currentPosition + s.buffer.length = s.totalBytesRead ∧
      s.abs.readable.length = s.buffer.length +
        min (s.closestLimit - s.totalBytesRead) (s.overflow ++ s.input.flatten).length := by
  have hposition : s.currentPosition + s.buffer.length = s.totalBytesRead := by
    have hle := h.position
    unfold currentPosition
    rw [hafter, List.length_nil] at hle ⊢
    omega
  refine ⟨hposition, ?_⟩
  rw [h.readable_eq, hafter, List.nil_append, List.length_append, List.length_take]
  omega

/-- The stream behind the buffer and so many bytes of the input, not past the
limit. -/
theorem WellFormed.skip_input {s : CodedInputStream} (h : s.WellFormed)
    (hafter : s.afterLimit = []) (hoverflow : s.overflow = []) {count : Nat}
    (hcount : s.buffer.length ≤ count)
    (hlimit : s.totalBytesRead + (count - s.buffer.length) ≤ s.closestLimit) :
    ({ s with
        buffer := [], input := (skipInput (count - s.buffer.length) s.input).2
        totalBytesRead := s.totalBytesRead + (count - s.buffer.length) } :
      CodedInputStream).WellFormed ∧
    ({ s with
        buffer := [], input := (skipInput (count - s.buffer.length) s.input).2
        totalBytesRead := s.totalBytesRead + (count - s.buffer.length) } :
      CodedInputStream).abs = s.abs.advance count := by
  obtain ⟨hposition, -⟩ := h.readable_of_input hafter
  obtain ⟨-, hflatten, hinput⟩ := skipInput_spec (count - s.buffer.length) s.input
  have hmin := s.closestLimit_le
  have hmax := h.limit
  have hmove : ({ s with
      buffer := [], input := (skipInput (count - s.buffer.length) s.input).2
      totalBytesRead := s.totalBytesRead + (count - s.buffer.length) } :
        CodedInputStream).currentPosition = s.currentPosition + count := by
    unfold currentPosition at hposition ⊢
    dsimp only
    rw [hafter, List.length_nil] at hposition ⊢
    omega
  refine ⟨⟨?_, ?_, h.limit, ?_, ?_, ?_, ?_⟩, ?_⟩
  · dsimp only
    rw [hafter, List.length_nil]
    omega
  · dsimp only
    omega
  · dsimp only
    rw [hafter, List.length_nil]
    show 0 = _ - s.closestLimit
    omega
  · rw [hmove]
    show _ ≤ s.closestLimit
    omega
  · exact fun hne => absurd hoverflow hne
  · intro d hd
    obtain ⟨data, hdata, hshorter⟩ := hinput d hd
    exact Nat.le_trans hshorter (h.input data hdata)
  · unfold abs Cursor.advance
    rw [hmove]
    unfold ahead
    dsimp only
    rw [hafter, hoverflow, hflatten, List.drop_append, List.drop_eq_nil_of_le hcount]
    rfl

/-- Five cases, as in the source: a negative count, bytes of the buffer, a limit
in the buffer, a limit before the target, and the input asked to skip. The last
two are compared with the closest limit, which is why the answer depends on the
bytes that may be read and on nothing else. -/
theorem skip_simulates (count : Int) :
    Simulates (fun s => s.skip count) fun c =>
      if count < 0 then none
      else if count.toNat ≤ c.readable.length then some ((), c.advance count.toNat)
      else none := by
  intro s h
  dsimp only
  unfold skip
  by_cases hneg : count < 0
  · rw [if_pos hneg, if_pos hneg]
  rw [if_neg hneg, if_neg hneg]
  have hlong := h.readable_length
  by_cases hshort : count.toNat ≤ s.buffer.length
  · rw [if_pos hshort, if_pos (by omega)]
    obtain ⟨hdrop, habs⟩ := h.drop hshort
    exact ⟨_, rfl, hdrop, habs⟩
  rw [if_neg hshort]
  unfold skipFallback
  by_cases hafter : s.afterLimit ≠ []
  · have hreadable := h.readable_of_limit (.inl hafter)
    rw [hreadable, if_neg hshort, if_pos hafter]
  have hafter' : s.afterLimit = [] := Classical.byContradiction hafter
  obtain ⟨-, hreadable⟩ := h.readable_of_input hafter'
  rw [if_neg hafter]
  dsimp only
  rw [show ({ s with buffer := [] } : CodedInputStream).closestLimit = s.closestLimit from rfl]
  -- the target is past the limit: the stream goes to the limit and fails
  by_cases hnear : (s.closestLimit : Int) - s.totalBytesRead <
      ((count.toNat - s.buffer.length : Nat) : Int)
  · rw [if_pos hnear, if_neg (show ¬count.toNat ≤ s.abs.readable.length by omega)]
    split <;> rfl
  rw [if_neg hnear]
  have hoverflow : s.overflow = [] := by
    refine Classical.byContradiction fun hne => ?_
    have hmax := h.overflow hne
    have hmin := s.closestLimit_le
    have hlimit := h.limit
    omega
  rw [hoverflow, List.nil_append] at hreadable
  -- else the input decides, and the count goes up by what was asked
  obtain ⟨hskipped, -, -⟩ := skipInput_spec (count.toNat - s.buffer.length) s.input
  by_cases hle : count.toNat ≤ s.abs.readable.length
  · obtain ⟨hwell, habs⟩ := h.skip_input hafter' hoverflow (Nat.le_of_not_le hshort)
      (show s.totalBytesRead + (count.toNat - s.buffer.length) ≤ s.closestLimit by omega)
    rw [if_pos hle, hskipped, decide_eq_true (by omega), if_pos rfl]
    exact ⟨_, rfl, hwell, habs⟩
  · rw [if_neg hle, hskipped, decide_eq_false (by omega)]
    rfl

/-! ## 4. Fixed numbers

The bytes are put together with shifts and `|`, the number of `Lib.WireFormat`
with sums and products. Each shift moves a byte above all that was there, so
that `|` adds (`toNat_or_shiftLeft32`). -/

/-- The bytes in turn: what was put together so far fits below the shift. -/
theorem readLittleEndian32FromArray_cons (b0 b1 b2 b3 : UInt8) (rest : List UInt8) :
    readLittleEndian32FromArray (b0 :: b1 :: b2 :: b3 :: rest) =
      .done (UInt32.ofNat
        (b0.toNat + 256 * (b1.toNat + 256 * (b2.toNat + 256 * (b3.toNat + 256 * 0))))) := by
  have h0 := b0.toNat_lt
  have h1 := b1.toNat_lt
  have h2 := b2.toNat_lt
  have h3 := b3.toNat_lt
  rw [readLittleEndian32FromArray]
  congr 1
  refine UInt32.toNat_inj.mp ?_
  have height : (b0.toUInt32 ||| b1.toUInt32 <<< 8).toNat = b0.toNat + b1.toNat * 256 := by
    rw [toNat_or_shiftLeft32 (by decide) (by simpa using h0)]
    simp
    omega
  have hsixteen : (b0.toUInt32 ||| b1.toUInt32 <<< 8 ||| b2.toUInt32 <<< 16).toNat =
      b0.toNat + b1.toNat * 256 + b2.toNat * 65536 := by
    rw [toNat_or_shiftLeft32 (by decide) (by rw [height]; simp; omega), height]
    simp
    omega
  rw [toNat_or_shiftLeft32 (by decide) (by rw [hsixteen]; simp; omega), hsixteen]
  simp
  omega

/-- The number that `size` bytes are. -/
def readFixedNumber {α : Type} (ofNat : Nat → α) (size : Nat) (bytes : List UInt8) :
    Except Failure (α × List UInt8) :=
  (readLittleEndian size bytes).map fun (n, rest) => (ofNat n, rest)

theorem readFixedNumber_short {α : Type} (ofNat : Nat → α) {size : Nat} {bytes : List UInt8}
    (h : bytes.length < size) : readFixedNumber ofNat size bytes = .error .truncated := by
  unfold readFixedNumber
  have hshort : readLittleEndian size bytes = .error .truncated := by
    induction size generalizing bytes with
    | zero => cases h
    | succ size ih =>
        cases bytes with
        | nil => rfl
        | cons b bytes =>
            rw [readLittleEndian, ih (Nat.lt_of_succ_lt_succ h)]
            rfl
  rw [hshort]
  rfl

/-- An array reader that sees `size` bytes sees the number that they are. Said
for the array that starts with them and for the array that is just them: the
fast way reads in the buffer, the slow one in `size` bytes copied out of it. -/
def ReadsFixed {α : Type} (fromArray : List UInt8 → Outcome α) (ofNat : Nat → α) (size : Nat) :
    Prop :=
  ∀ bytes : List UInt8, size ≤ bytes.length → ∃ a, fromArray bytes = .done a ∧
    fromArray (bytes.take size) = .done a ∧ ∀ more,
      readFixedNumber ofNat size (bytes ++ more) = .ok (a, bytes.drop size ++ more)

theorem readsFixed32 : ReadsFixed readLittleEndian32FromArray UInt32.ofNat 4 := by
  intro bytes hlength
  match bytes, hlength with
  | b0 :: b1 :: b2 :: b3 :: rest, _ =>
      exact ⟨_, readLittleEndian32FromArray_cons b0 b1 b2 b3 rest,
        readLittleEndian32FromArray_cons b0 b1 b2 b3 [], fun more => rfl⟩

theorem readLittleEndian64FromArray_cons (b0 b1 b2 b3 b4 b5 b6 b7 : UInt8) (rest : List UInt8) :
    readLittleEndian64FromArray (b0 :: b1 :: b2 :: b3 :: b4 :: b5 :: b6 :: b7 :: rest) =
      .done (UInt64.ofNat
        (b0.toNat + 256 * (b1.toNat + 256 * (b2.toNat + 256 * (b3.toNat + 256 *
          (b4.toNat + 256 * (b5.toNat + 256 * (b6.toNat + 256 * (b7.toNat + 256 * 0))))))))) := by
  have h0 := b0.toNat_lt
  have h1 := b1.toNat_lt
  have h2 := b2.toNat_lt
  have h3 := b3.toNat_lt
  have h4 := b4.toNat_lt
  have h5 := b5.toNat_lt
  have h6 := b6.toNat_lt
  have h7 := b7.toNat_lt
  have hlow := readLittleEndian32FromArray_cons b0 b1 b2 b3 (b4 :: b5 :: b6 :: b7 :: rest)
  have hhigh := readLittleEndian32FromArray_cons b4 b5 b6 b7 rest
  rw [readLittleEndian64FromArray, hlow]
  simp only [List.drop_succ_cons, List.drop_zero, hhigh]
  congr 1
  refine UInt64.toNat_inj.mp ?_
  rw [toNat_or_shiftLeft64 (by decide) (by simp; omega)]
  simp
  omega

theorem readsFixed64 : ReadsFixed readLittleEndian64FromArray UInt64.ofNat 8 := by
  intro bytes hlength
  match bytes, hlength with
  | b0 :: b1 :: b2 :: b3 :: b4 :: b5 :: b6 :: b7 :: rest, _ =>
      exact ⟨_, readLittleEndian64FromArray_cons b0 b1 b2 b3 b4 b5 b6 b7 rest,
        readLittleEndian64FromArray_cons b0 b1 b2 b3 b4 b5 b6 b7 [], fun more => rfl⟩

/-- In the buffer the number is read where it stands; elsewhere its bytes are
copied first, and the copy is read. -/
theorem readFixed_simulates {α : Type} {fromArray : List UInt8 → Outcome α} {ofNat : Nat → α}
    {size : Nat} (hreads : ReadsFixed fromArray ofNat size) :
    Simulates (readFixed fromArray size) fun c => c.readWith (readFixedNumber ofNat size) := by
  intro s h
  dsimp only
  have hlong := h.readable_length
  unfold readFixed
  by_cases hbuffer : size ≤ s.buffer.length
  · obtain ⟨a, harray, -, hnumber⟩ := hreads s.buffer hbuffer
    obtain ⟨hdrop, habs⟩ := h.drop hbuffer
    rw [if_pos hbuffer, harray]
    have hread : readFixedNumber ofNat size s.abs.readable = .ok (a, s.abs.readable.drop size) := by
      rw [h.readable_eq, hnumber, List.drop_append_of_le_length hbuffer]
    unfold Cursor.readWith
    rw [hread]
    refine ⟨_, rfl, hdrop, ?_⟩
    rw [habs, List.length_drop]
    congr 1
    omega
  · have hraw := readRaw_simulates size s h
    dsimp only at hraw
    rw [if_neg hbuffer]
    rw [readWith_readBytes] at hraw
    by_cases hsize : size ≤ s.abs.readable.length
    · rw [if_pos hsize] at hraw
      obtain ⟨s', hs', hwell, habs⟩ := hraw
      obtain ⟨a, -, htake, hnumber⟩ := hreads s.abs.readable hsize
      have hread := hnumber []
      rw [List.append_nil, List.append_nil] at hread
      unfold Cursor.readWith
      rw [hread, hs', andThen, htake]
      refine ⟨s', rfl, hwell, ?_⟩
      rw [habs, List.length_drop]
      congr 1
      omega
    · rw [if_neg hsize] at hraw
      unfold Cursor.readWith
      rw [readFixedNumber_short ofNat (by omega)]
      exact hraw.andThen_none _

end CodedInputStream

/-! ## 5. Varints in an array

The decoders are unrolled, one `varintLine` a byte, and go on without a test
for the end of the array. `FromArray.overrun` is the reading behind it, which
`Reads` puts where `Varint.decode` finds too few bytes; that the callers exclude
it is shown in section 6. -/

/-- The mark of a byte that has more behind it, checked for all 256. -/
theorem and_high_eq_zero_iff (b : UInt8) : b &&& 0x80 = 0 ↔ b.toNat < 128 := by
  have hbits : ∀ v : BitVec 8, v &&& 0x80#8 = 0#8 ↔ v.toNat < 128 := by decide
  rw [← UInt8.toBitVec_inj]
  exact hbits b.toBitVec

/-- Reading on from a place in the array: what `Varint.decode` reads there,
turned into a value. -/
def Reads {α : Type} (k : List UInt8 → FromArray α) (limit : Nat) (v : Nat → α) : Prop :=
  ∀ ptr, k ptr =
    match Varint.decode limit ptr with
    | .ok (n, rest) => .done (v n) rest
    | .error .truncated => .overrun
    | .error _ => .malformed

theorem ofNat_add_shiftLeft {shift : UInt32} (hshift : shift.toNat < 32) (a : Nat) (b : UInt32) :
    UInt32.ofNat a + b <<< shift = UInt32.ofNat (a + b.toNat * 2 ^ shift.toNat) := by
  refine UInt32.toNat_inj.mp ?_
  rw [UInt32.toNat_add, UInt32.toNat_ofNat', UInt32.toNat_ofNat', UInt32.toNat_shiftLeft,
    Nat.mod_eq_of_lt hshift, Nat.shiftLeft_eq, ← Nat.add_mod]

/-- One line takes seven bits. The value so far fits below `shift`, so the line
adds; the bit that says "more" is added with the byte, and the subtraction
before the next line takes it away again. -/
theorem varintLine_reads {α : Type} (shift : UInt32) (hshift : shift.toNat < 32)
    {done next : UInt32 → List UInt8 → FromArray α} {limit a : Nat} (ha : a < 2 ^ shift.toNat)
    {v : Nat → α}
    (hdone : ∀ a', a' < 2 ^ (shift.toNat + 7) → ∀ ptr,
      done (UInt32.ofNat a') ptr = .done (v a') ptr)
    (hnext : ∀ a', a' < 2 ^ (shift.toNat + 7) →
      Reads (next (UInt32.ofNat a')) limit fun n => v (a' + n * 2 ^ (shift.toNat + 7))) :
    Reads (varintLine shift done next (UInt32.ofNat a)) (limit + 1)
      fun n => v (a + n * 2 ^ shift.toNat) := by
  intro ptr
  have hpow : 2 ^ (shift.toNat + 7) = 128 * 2 ^ shift.toNat := by
    rw [Nat.pow_add, Nat.mul_comm]
  have hbound : ∀ m, m < 128 → a + m * 2 ^ shift.toNat < 2 ^ (shift.toNat + 7) := by
    intro m hm
    have hle := Nat.mul_le_mul_right (2 ^ shift.toNat) (Nat.succ_le_of_lt hm)
    rw [Nat.succ_mul] at hle
    omega
  cases ptr with
  | nil => rfl
  | cons b ptr =>
      rw [varintLine, ofNat_add_shiftLeft hshift, UInt8.toNat_toUInt32]
      by_cases hlast : b.toNat < 128
      · rw [if_pos ((and_high_eq_zero_iff b).mpr hlast), Varint.decode_last hlast,
          hdone _ (hbound b.toNat hlast)]
      · -- the mark of the byte is what the source subtracts
        have hb := b.toNat_lt
        have hsub : UInt32.ofNat (a + b.toNat * 2 ^ shift.toNat) - 0x80 <<< shift =
            UInt32.ofNat (a + (b.toNat - 128) * 2 ^ shift.toNat) := by
          have hadd := ofNat_add_shiftLeft hshift (a + (b.toNat - 128) * 2 ^ shift.toNat) 0x80
          rw [show (0x80 : UInt32).toNat = 128 from rfl, Nat.add_assoc, ← Nat.add_mul,
            Nat.sub_add_cancel (by omega)] at hadd
          rw [← hadd, UInt32.add_sub_cancel]
        rw [if_neg (fun h => hlast ((and_high_eq_zero_iff b).mp h)), hsub,
          hnext _ (hbound _ (by omega)) ptr, Varint.decode_more (by omega)]
        cases Varint.decode limit ptr with
        | error failure => cases failure <;> rfl
        | ok x =>
            obtain ⟨n, rest⟩ := x
            show FromArray.done (v _) rest = .done (v _) rest
            congr 2
            rw [hpow, Nat.add_mul, ← Nat.add_assoc, Nat.mul_comm 128 n, Nat.mul_assoc]

/-- The bytes that a 32 bit number has no room for: they are read and dropped,
and a tenth byte that asks for more is malformed here as well. -/
theorem discardHighOrder_reads (limit : Nat) (result : UInt32) :
    Reads (discardHighOrder limit result) limit fun _ => result := by
  induction limit with
  | zero => exact fun _ => rfl
  | succ limit ih =>
      intro ptr
      cases ptr with
      | nil => rfl
      | cons b ptr =>
          rw [discardHighOrder]
          by_cases hlast : b.toNat < 128
          · rw [if_pos ((and_high_eq_zero_iff b).mpr hlast), Varint.decode_last hlast]
          · rw [if_neg (fun h => hlast ((and_high_eq_zero_iff b).mp h)), ih ptr,
              Varint.decode_more (by omega)]
            cases Varint.decode limit ptr with
            | error failure => cases failure <;> rfl
            | ok x => rfl

/-- More than 35 bits do not show in 32. -/
theorem ofNat_add_mul_pow35 (a n : Nat) :
    UInt32.ofNat (a + n * 2 ^ 35) = UInt32.ofNat a := by
  refine UInt32.toNat_inj.mp ?_
  rw [UInt32.toNat_ofNat', UInt32.toNat_ofNat']
  omega

/-- The first byte is known to ask for more, since the caller has read it: its
mark is taken away before the first line. -/
theorem readVarint32FromArray_eq {b : UInt8} (hb : 128 ≤ b.toNat) (ptr : List UInt8) :
    readVarint32FromArray b.toUInt32 (b :: ptr) =
      match Varint.decode 10 (b :: ptr) with
      | .ok (n, rest) => .done (UInt32.ofNat n) rest
      | .error .truncated => .overrun
      | .error _ => .malformed := by
  have hlines : Reads (varintLine 7 .done (varintLine 14 .done (varintLine 21 .done
      (varintLine 28 .done (discardHighOrder 5)))) (UInt32.ofNat (b.toNat - 128))) 9
        fun n => UInt32.ofNat (b.toNat - 128 + n * 2 ^ 7) := by
    have hlt := b.toNat_lt
    refine varintLine_reads 7 (by decide) (by simp; omega) (fun _ _ _ => rfl) ?_
    intro a ha
    refine varintLine_reads 14 (by decide) ha (fun _ _ _ => rfl) ?_
    intro a ha
    refine varintLine_reads 21 (by decide) ha (fun _ _ _ => rfl) ?_
    intro a ha
    refine varintLine_reads 28 (by decide) ha (fun _ _ _ => rfl) ?_
    intro a ha ptr
    have hsame : ∀ n, UInt32.ofNat (a + n * 2 ^ ((28 : UInt32).toNat + 7)) = UInt32.ofNat a :=
      fun n => ofNat_add_mul_pow35 a n
    simp only [hsame]
    exact discardHighOrder_reads 5 _ ptr
  have hfirst : b.toUInt32 - 0x80 = UInt32.ofNat (b.toNat - 128) := by
    refine UInt32.toNat_inj.mp ?_
    have hlt := b.toNat_lt
    rw [UInt32.toNat_sub_of_le _ _ (by rw [UInt32.le_iff_toNat_le]; simpa using hb),
      UInt32.toNat_ofNat']
    simp
    omega
  rw [readVarint32FromArray, hfirst, hlines ptr, Varint.decode_more hb]
  cases Varint.decode 9 ptr with
  | error failure => cases failure <;> rfl
  | ok x =>
      obtain ⟨n, rest⟩ := x
      show FromArray.done (UInt32.ofNat _) rest = FromArray.done (UInt32.ofNat _) rest
      rw [Nat.mul_comm 128 n]
      rfl

/-- Three pieces of 28 bits, as far as there is room for the last. -/
theorem varint64Done_eq {a0 a1 a2 : Nat} (h0 : a0 < 2 ^ 28) (h1 : a1 < 2 ^ 28) (h2 : a2 < 2 ^ 32)
    (ptr : List UInt8) :
    varint64Done (UInt32.ofNat a0) (UInt32.ofNat a1) (UInt32.ofNat a2) ptr =
      .done (UInt64.ofNat (a0 + (a1 + a2 * 2 ^ 28) * 2 ^ 28)) ptr := by
  have hsmall : ∀ a, a < 2 ^ 32 → (UInt32.ofNat a).toUInt64.toNat = a := by
    intro a ha
    rw [UInt32.toNat_toUInt64, UInt32.toNat_ofNat', Nat.mod_eq_of_lt ha]
  have hlow := toNat_or_shiftLeft64 (k := 28) (x := (UInt32.ofNat a0).toUInt64) (by decide)
    (by rw [hsmall a0 (by omega)]; exact h0) (UInt32.ofNat a1).toUInt64
  rw [hsmall a0 (by omega), hsmall a1 (by omega)] at hlow
  unfold varint64Done
  congr 1
  refine UInt64.toNat_inj.mp ?_
  rw [toNat_or_shiftLeft64 (by decide) (by rw [hlow]; simp; omega), hlow, hsmall a2 h2,
    UInt64.toNat_ofNat']
  simp
  omega

/-- The four lines of a piece. Each may be the last of the number, so `done` is
asked for at all four lengths. -/
theorem varintPart_reads {α : Type} {done next : UInt32 → List UInt8 → FromArray α} {limit : Nat}
    {v : Nat → α}
    (hdone : ∀ a, a < 2 ^ 28 → ∀ ptr, done (UInt32.ofNat a) ptr = .done (v a) ptr)
    (hnext : ∀ a, a < 2 ^ 28 → Reads (next (UInt32.ofNat a)) limit fun n => v (a + n * 2 ^ 28)) :
    Reads (varintPart done next) (limit + 4) v := by
  have hless : ∀ {k}, k ≤ 28 → ∀ a, a < 2 ^ k → ∀ ptr,
      done (UInt32.ofNat a) ptr = .done (v a) ptr := by
    intro k hk a ha
    exact hdone a (Nat.lt_of_lt_of_le ha (Nat.pow_le_pow_right (by decide) hk))
  have hpart : Reads (varintPart done next) (limit + 4)
      fun n => v (0 + n * 2 ^ (0 : UInt32).toNat) := by
    refine varintLine_reads 0 (by decide) (by decide) (hless (by decide)) ?_
    intro a ha
    refine varintLine_reads 7 (by decide) ha (hless (by decide)) ?_
    intro a ha
    refine varintLine_reads 14 (by decide) ha (hless (by decide)) ?_
    intro a ha
    exact varintLine_reads 21 (by decide) ha (hless (by decide)) hnext
  intro ptr
  have hread := hpart ptr
  simp only [Nat.zero_add, show (0 : UInt32).toNat = 0 from rfl, Nat.pow_zero, Nat.mul_one] at hread
  exact hread

/-- Two pieces of four lines and one of two: ten bytes, and the last of them
has one bit of room. -/
theorem readVarint64FromArray_eq (ptr : List UInt8) :
    readVarint64FromArray ptr =
      match Varint.decode 10 ptr with
      | .ok (n, rest) => .done (UInt64.ofNat n) rest
      | .error .truncated => .overrun
      | .error _ => .malformed := by
  have hzero : (0 : UInt32) = UInt32.ofNat 0 := rfl
  have hparts : Reads readVarint64FromArray (6 + 4) UInt64.ofNat := by
    refine varintPart_reads ?_ ?_
    · intro a ha ptr
      rw [hzero, varint64Done_eq ha (by decide) (by decide)]
      simp
    · intro a0 h0
      show Reads _ (2 + 4) _
      refine varintPart_reads ?_ ?_
      · intro a ha ptr
        rw [hzero, varint64Done_eq h0 ha (by decide)]
        simp
      · intro a1 h1 ptr
        have hdone : ∀ {k}, k ≤ 14 → ∀ a, a < 2 ^ k → ∀ ptr,
            varint64Done (UInt32.ofNat a0) (UInt32.ofNat a1) (UInt32.ofNat a) ptr =
              .done (UInt64.ofNat (a0 + (a1 + a * 2 ^ 28) * 2 ^ 28)) ptr := by
          intro k hk a ha
          have hlt := Nat.lt_of_lt_of_le ha (Nat.pow_le_pow_right (show 0 < 2 by decide) hk)
          exact varint64Done_eq h0 h1 (Nat.lt_trans hlt (by decide))
        have hlines : Reads (varintLine 0 (varint64Done (UInt32.ofNat a0) (UInt32.ofNat a1))
            (varintLine 7 (varint64Done (UInt32.ofNat a0) (UInt32.ofNat a1))
              fun _ _ => .malformed) (UInt32.ofNat 0)) 2
                fun n => UInt64.ofNat
                  (a0 + (a1 + (0 + n * 2 ^ (0 : UInt32).toNat) * 2 ^ 28) * 2 ^ 28) := by
          refine @varintLine_reads _ 0 (by decide) _ _ _ 0 (by decide)
            (fun a => UInt64.ofNat (a0 + (a1 + a * 2 ^ 28) * 2 ^ 28)) (hdone (by decide)) ?_
          intro a ha
          exact @varintLine_reads _ 7 (by decide) _ _ _ a ha
            (fun a => UInt64.ofNat (a0 + (a1 + a * 2 ^ 28) * 2 ^ 28)) (hdone (by decide))
              fun _ _ _ => rfl
        have hread := hlines ptr
        simp only [Nat.zero_add, show (0 : UInt32).toNat = 0 from rfl, Nat.pow_zero,
          Nat.mul_one] at hread
        exact hread
  exact hparts ptr

/-! ## 6. Varints in a stream

A one-byte number is taken at once. A longer one goes to the array where it is
sure to end in the buffer, and else byte by byte, with a refresh before each. -/

/-- A varint, as a value. -/
def readVarintAs {α : Type} (limit : Nat) (v : Nat → α) (bytes : List UInt8) :
    Except Failure (α × List UInt8) :=
  (Varint.decode limit bytes).map fun (n, rest) => (v n, rest)

/-- The two outcomes of a varint on a cursor, for any value made of it. -/
theorem Cursor.readWith_varint {α : Type} {c : Cursor} {limit n : Nat} {rest : List UInt8}
    (h : Varint.decode limit c.readable = .ok (n, rest)) (v : Nat → α) :
    c.readWith (readVarintAs limit v) = some (v n, c.advance (c.readable.length - rest.length)) := by
  unfold readWith readVarintAs
  rw [h]
  rfl

theorem Cursor.readWith_varint_error {α : Type} {c : Cursor} {limit : Nat} {failure : Failure}
    (h : Varint.decode limit c.readable = .error failure) (v : Nat → α) :
    c.readWith (readVarintAs limit v) = none := by
  unfold readWith readVarintAs
  rw [h]
  rfl

namespace CodedInputStream

/-- The fast paths are safe. Their test is that the buffer has ten bytes, or
that its last byte ends a number: either way the array ends no number early. -/
theorem decode_of_varintEndsInBuffer {s : CodedInputStream} (h : s.varintEndsInBuffer = true) :
    Varint.decode kMaxVarintBytes s.buffer ≠ .error .truncated := by
  refine Varint.decode_ne_truncated ?_
  unfold varintEndsInBuffer at h
  rw [Bool.or_eq_true, decide_eq_true_eq] at h
  refine h.imp id fun hlast => ?_
  split at hlast
  · cases hlast
  · rename_i b hb
    rw [beq_iff_eq, and_high_eq_zero_iff] at hlast
    exact ⟨b, hb, hlast⟩

/-- A number at the front of the buffer is the number at the front of what may
be read, since `Varint.decode` does not look behind the byte it stops at. -/
theorem WellFormed.take_varint {s : CodedInputStream} (h : s.WellFormed) {limit n : Nat}
    {ptr : List UInt8} (hdecode : Varint.decode limit s.buffer = .ok (n, ptr)) :
    ∃ rest, Varint.decode limit s.abs.readable = .ok (n, rest) ∧
      ({ s with buffer := ptr } : CodedInputStream).WellFormed ∧
        ({ s with buffer := ptr } : CodedInputStream).abs =
          s.abs.advance (s.abs.readable.length - rest.length) := by
  obtain ⟨front, hfront, -⟩ := Varint.exists_of_decode hdecode
  have hlength : s.buffer.length = front.length + ptr.length := by
    rw [hfront, List.length_append]
  have hdrop : s.buffer.drop front.length = ptr := by
    rw [hfront, List.drop_left]
  obtain ⟨hwell, habs⟩ := h.drop (n := front.length) (by omega)
  rw [hdrop] at hwell habs
  have hmore := Varint.decode_append hdecode
    ((s.afterLimit ++ (s.overflow ++ s.input.flatten)).take
      (s.closestLimit - s.currentPosition - s.buffer.length))
  rw [← h.readable_eq] at hmore
  refine ⟨_, hmore, hwell, ?_⟩
  rw [habs]
  congr 1
  rw [h.readable_eq, List.length_append, List.length_append]
  omega

/-- What an array decoder of section 5 makes of a stream under the test. -/
theorem takeFromArray_spec {α : Type} {s : CodedInputStream} (h : s.WellFormed)
    (hguard : s.varintEndsInBuffer = true) {array : FromArray α} {v : Nat → α}
    (harray : array =
      match Varint.decode kMaxVarintBytes s.buffer with
      | .ok (n, rest) => .done (v n) rest
      | .error .truncated => .overrun
      | .error _ => .malformed) :
    Answers (s.takeFromArray array) (s.abs.readWith (readVarintAs kMaxVarintBytes v)) := by
  have henough := decode_of_varintEndsInBuffer hguard
  cases hdecode : Varint.decode kMaxVarintBytes s.buffer with
  | ok x =>
      obtain ⟨n, ptr⟩ := x
      obtain ⟨rest, hmore, hwell, habs⟩ := h.take_varint hdecode
      rw [hdecode] at harray
      rw [Cursor.readWith_varint hmore, harray]
      exact ⟨_, rfl, hwell, habs⟩
  | error failure =>
      obtain rfl : failure = .malformedVarint := by
        rcases Varint.decode_error hdecode with rfl | rfl
        · exact absurd hdecode henough
        · rfl
      have hmore := Varint.decode_malformed_append hdecode
        ((s.afterLimit ++ (s.overflow ++ s.input.flatten)).take
          (s.closestLimit - s.currentPosition - s.buffer.length))
      rw [← h.readable_eq] at hmore
      rw [hdecode] at harray
      rw [Cursor.readWith_varint_error hmore, harray]
      rfl

/-- `while (buffer_ == buffer_end_) Refresh()`: a refresh may succeed and leave
the buffer empty, when a limit stands at its start. -/
theorem refreshUntilBytes_spec {s s' : CodedInputStream} (h : s.WellFormed) {fuel : Nat}
    (hfuel : s.input.length + 1 < fuel) {found : Bool}
    (hrun : refreshUntilBytes fuel s = (found, s')) :
    if found then s'.WellFormed ∧ s'.abs = s.abs ∧ s'.buffer ≠ [] else s.abs.readable = [] := by
  induction fuel generalizing s with
  | zero => omega
  | succ fuel ih =>
      rw [refreshUntilBytes] at hrun
      split at hrun
      · rename_i b buffer hbuffer
        cases hrun
        exact ⟨h, rfl, by rw [hbuffer]; exact List.cons_ne_nil _ _⟩
      · rename_i hempty
        cases hrefresh : s.refresh with
        | mk success s'' =>
            rw [hrefresh] at hrun
            cases success with
            | false =>
                cases hrun
                exact (h.refresh_false hempty hrefresh).2.2.2
            | true =>
                obtain ⟨hwell, habs, hinput⟩ := h.refresh_true hempty hrefresh
                have hrest := ih hwell (by omega) hrun
                rw [habs] at hrest
                exact hrest

/-- Seven bits more. -/
theorem toNat_or_group {count a : Nat} (hcount : count < 10) (ha : a < 2 ^ (7 * count)) (b : UInt8) :
    UInt64.ofNat a ||| (b &&& 0x7F).toUInt64 <<< (7 * UInt64.ofNat count) =
      UInt64.ofNat (a + b.toNat % 128 * 2 ^ (7 * count)) := by
  have hlow : (b &&& 0x7F).toNat = b.toNat % 128 := by
    rw [UInt8.toNat_and]
    exact Nat.and_two_pow_sub_one_eq_mod b.toNat 7
  have hshift : (7 * UInt64.ofNat count).toNat = 7 * count := by
    rw [UInt64.toNat_mul, UInt64.toNat_ofNat']
    show 7 * (count % 2 ^ 64) % 2 ^ 64 = 7 * count
    omega
  have hsmall : (UInt64.ofNat a).toNat = a := by
    rw [UInt64.toNat_ofNat']
    refine Nat.mod_eq_of_lt (Nat.lt_of_lt_of_le ha ?_)
    exact Nat.pow_le_pow_right (by decide) (by omega)
  refine UInt64.toNat_inj.mp ?_
  rw [toNat_or_shiftLeft64 (by omega) (by rw [hsmall, hshift]; exact ha), hsmall, hshift,
    UInt8.toNat_toUInt64, hlow, UInt64.toNat_ofNat']

/-- The loop of `ReadVarint64Slow`, by induction on the bytes it may still read.
`count` are behind it and have given `a`, which fits below the next group; that
is the invariant, and `toNat_or_group` keeps it. -/
theorem readVarint64Loop_spec {s : CodedInputStream} (h : s.WellFormed) {left count a : Nat}
    (hcount : left + count = 10) (ha : a < 2 ^ (7 * count)) :
    Answers (readVarint64Loop left (UInt64.ofNat count) (UInt64.ofNat a) s)
      (s.abs.readWith (readVarintAs left fun n => UInt64.ofNat (a + n * 2 ^ (7 * count)))) := by
  induction left generalizing s count a with
  | zero => rfl
  | succ left ih =>
      rw [readVarint64Loop]
      cases hrun : refreshUntilBytes (s.input.length + 2) s with
      | mk found s₁ =>
          have hspec := refreshUntilBytes_spec h (Nat.lt_succ_self _) hrun
          cases found with
          | false =>
              have hnone : s.abs.readable = [] := hspec
              rw [Cursor.readWith_varint_error (by rw [hnone]; rfl)]
          | true =>
              obtain ⟨hwell, habs, hbuffer⟩ := hspec
              obtain ⟨b, buffer, hb⟩ := List.exists_cons_of_ne_nil hbuffer
              obtain ⟨hdrop, hmove⟩ := hwell.drop (n := 1) (by rw [hb]; simp)
              rw [hb, List.drop_one, List.tail_cons] at hdrop hmove
              have hreadable : s.abs.readable = b :: (s.abs.advance 1).readable := by
                rw [Cursor.readable_advance, ← habs, hwell.readable_eq, hb]
                rfl
              have hlt := b.toNat_lt
              have hgroup : b.toNat % 128 * 2 ^ (7 * count) + a < 2 ^ (7 * (count + 1)) := by
                have hle := Nat.mul_le_mul_right (2 ^ (7 * count))
                  (Nat.succ_le_of_lt (Nat.mod_lt b.toNat (show 0 < 128 by decide)))
                rw [Nat.succ_mul] at hle
                rw [Nat.mul_succ, Nat.pow_add]
                omega
              -- the byte is taken, wherever its buffer came from
              dsimp only
              rw [hb]
              dsimp only
              rw [toNat_or_group (by omega) ha b]
              by_cases hlast : b.toNat < 128
              · rw [if_pos ((and_high_eq_zero_iff b).mpr hlast),
                  Cursor.readWith_varint (by rw [hreadable]; exact Varint.decode_last hlast left _),
                  Nat.mod_eq_of_lt hlast]
                refine ⟨_, rfl, hdrop, ?_⟩
                rw [hmove, habs, hreadable, List.length_cons, Nat.add_sub_cancel_left]
              · rw [if_neg (fun h => hlast ((and_high_eq_zero_iff b).mp h))]
                have hnext := ih hdrop (show left + (count + 1) = 10 by omega)
                  (show a + b.toNat % 128 * 2 ^ (7 * count) < 2 ^ (7 * (count + 1)) by omega)
                rw [hmove, habs] at hnext
                have hsum : UInt64.ofNat count + 1 = UInt64.ofNat (count + 1) := by
                  simp
                rw [hsum]
                cases hrest : Varint.decode left (s.abs.advance 1).readable with
                | error failure =>
                    rw [Cursor.readWith_varint_error hrest] at hnext
                    rw [Cursor.readWith_varint_error
                      (by rw [hreadable, Varint.decode_more (by omega), hrest]; rfl)]
                    exact hnext
                | ok x =>
                    obtain ⟨n, rest⟩ := x
                    have hshort := Varint.exists_of_decode hrest
                    rw [Cursor.readWith_varint hrest] at hnext
                    rw [Cursor.readWith_varint
                      (by rw [hreadable, Varint.decode_more (by omega), hrest]; rfl)]
                    obtain ⟨s', hs', hwell', habs'⟩ := hnext
                    refine ⟨s', ?_, hwell', ?_⟩
                    · rw [hs']
                      congr 3
                      have hmod : b.toNat % 128 = b.toNat - 128 := by omega
                      have hpow : n * (2 ^ (7 * count) * 2 ^ 7) = 128 * n * 2 ^ (7 * count) := by
                        rw [Nat.mul_comm 128 n, Nat.mul_assoc, Nat.mul_comm 128]
                        rfl
                      rw [Nat.mul_succ, Nat.pow_add, Nat.add_mul, hmod, hpow, Nat.add_assoc]
                    · obtain ⟨front, hfront, -⟩ := hshort
                      have hlength : (s.abs.advance 1).readable.length =
                          front.length + rest.length := by
                        rw [hfront, List.length_append]
                      rw [habs', Cursor.advance_advance, hreadable, List.length_cons]
                      congr 1
                      omega

theorem readVarint64Fallback_simulates :
    Simulates readVarint64Fallback fun c =>
      c.readWith (readVarintAs kMaxVarintBytes UInt64.ofNat) := by
  intro s h
  unfold readVarint64Fallback
  by_cases hguard : s.varintEndsInBuffer = true
  · rw [if_pos hguard]
    exact takeFromArray_spec h hguard (readVarint64FromArray_eq s.buffer)
  · rw [if_neg hguard]
    have hloop := @readVarint64Loop_spec s h 10 0 0 rfl (by decide)
    simp only [Nat.mul_zero, Nat.pow_zero, Nat.mul_one, Nat.zero_add] at hloop
    exact hloop

/-- The fast path of all varints: one byte. -/
theorem WellFormed.take_byte {s : CodedInputStream} (h : s.WellFormed) {b : UInt8}
    {buffer : List UInt8} (hbuffer : s.buffer = b :: buffer) (hb : b < 0x80) :
    ∃ rest, Varint.decode kMaxVarintBytes s.abs.readable = .ok (b.toNat, rest) ∧
      ({ s with buffer := buffer } : CodedInputStream).WellFormed ∧
        ({ s with buffer := buffer } : CodedInputStream).abs =
          s.abs.advance (s.abs.readable.length - rest.length) := by
  have hdecode : Varint.decode kMaxVarintBytes s.buffer = .ok (b.toNat, buffer) := by
    rw [hbuffer]
    exact Varint.decode_last (by simpa using UInt8.lt_iff_toNat_lt.mp hb) 9 buffer
  exact h.take_varint hdecode

theorem varintEndsInBuffer_nil {s : CodedInputStream} (h : s.buffer = []) :
    s.varintEndsInBuffer = false := by
  unfold varintEndsInBuffer
  rw [h]
  rfl

/-- One byte, or the fallback: on a buffer that is empty the fallback as well. -/
theorem readVarint64_simulates :
    Simulates readVarint64 fun c => c.readWith (readVarintAs kMaxVarintBytes UInt64.ofNat) := by
  intro s h
  unfold readVarint64
  cases hbuffer : s.buffer with
  | nil => exact readVarint64Fallback_simulates s h
  | cons b buffer =>
      dsimp only
      by_cases hb : b < 0x80
      · obtain ⟨rest, hdecode, hwell, habs⟩ := h.take_byte hbuffer hb
        rw [if_pos hb, Cursor.readWith_varint hdecode]
        refine ⟨_, ?_, hwell, habs⟩
        congr 2
        refine UInt64.toNat_inj.mp ?_
        simp
      · rw [if_neg hb]
        exact readVarint64Fallback_simulates s h

/-- Cutting to 64 bits on the way to 32 changes nothing. -/
theorem toUInt32_ofNat (n : Nat) : (UInt64.ofNat n).toUInt32 = UInt32.ofNat n := by
  refine UInt32.toNat_inj.mp ?_
  rw [UInt64.toNat_toUInt32, UInt64.toNat_ofNat', UInt32.toNat_ofNat']
  omega

/-- The slow reader of 32 bits reads 64 and throws the upper half away. -/
theorem readVarint32Slow_simulates :
    Simulates readVarint32Slow fun c =>
      c.readWith (readVarintAs kMaxVarintBytes UInt32.ofNat) := by
  intro s h
  have hslow := (readVarint64Fallback_simulates s h).andThen
    fun value => simulates_done value.toUInt32
  unfold readVarint32Slow
  dsimp only at hslow ⊢
  cases hdecode : Varint.decode kMaxVarintBytes s.abs.readable with
  | error failure =>
      rw [Cursor.readWith_varint_error hdecode] at hslow ⊢
      exact hslow
  | ok x =>
      obtain ⟨n, rest⟩ := x
      rw [Cursor.readWith_varint hdecode] at hslow ⊢
      rw [← toUInt32_ofNat]
      exact hslow

/-- The caller hands over the byte it has seen, and hands over a byte that asks
for more: the array decoder would be wrong on any other. -/
theorem readVarint32Fallback_spec {s : CodedInputStream} (h : s.WellFormed) {first : UInt32}
    (hfirst : ∀ b buffer, s.buffer = b :: buffer → first = b.toUInt32 ∧ 128 ≤ b.toNat) :
    Answers (s.readVarint32Fallback first)
      (s.abs.readWith (readVarintAs kMaxVarintBytes UInt32.ofNat)) := by
  unfold readVarint32Fallback
  by_cases hguard : s.varintEndsInBuffer = true
  · rw [if_pos hguard]
    refine takeFromArray_spec h hguard ?_
    cases hbuffer : s.buffer with
    | nil =>
        rw [varintEndsInBuffer_nil hbuffer] at hguard
        cases hguard
    | cons b buffer =>
        obtain ⟨rfl, hb⟩ := hfirst b buffer hbuffer
        exact readVarint32FromArray_eq hb buffer
  · rw [if_neg hguard]
    exact readVarint32Slow_simulates s h

theorem toNat_of_not_lt {b : UInt8} (h : ¬b < 0x80) : 128 ≤ b.toNat := by
  refine Nat.le_of_not_lt fun hlt => h ?_
  exact UInt8.lt_iff_toNat_lt.mpr hlt

theorem readVarint32_simulates :
    Simulates readVarint32 fun c => c.readWith (readVarintAs kMaxVarintBytes UInt32.ofNat) := by
  intro s h
  unfold readVarint32
  cases hbuffer : s.buffer with
  | nil =>
      refine readVarint32Fallback_spec h fun b buffer hcons => ?_
      rw [hbuffer] at hcons
      cases hcons
  | cons b buffer =>
      dsimp only
      by_cases hb : b < 0x80
      · obtain ⟨rest, hdecode, hwell, habs⟩ := h.take_byte hbuffer hb
        rw [if_pos hb, Cursor.readWith_varint hdecode]
        refine ⟨_, ?_, hwell, habs⟩
        congr 2
        refine UInt32.toNat_inj.mp ?_
        simp
      · rw [if_neg hb]
        refine readVarint32Fallback_spec h fun b' buffer' hcons => ?_
        rw [hbuffer] at hcons
        cases hcons
        exact ⟨rfl, toNat_of_not_lt hb⟩

/-- A varint that an `int` can hold. A number of 65 to 70 bits is cut first, so
it may pass. -/
def readSizeAsInt (bytes : List UInt8) : Except Failure (Nat × List UInt8) :=
  match Varint.decode kMaxVarintBytes bytes with
  | .ok (n, rest) =>
      if intMax < n % 2 ^ 64 then .error .negativeSize else .ok (n % 2 ^ 64, rest)
  | .error failure => .error failure

/-- The size is tested after the bytes are taken on the slow way and before on
the fast one. Both are failures, which is all the caller sees. -/
theorem readVarintSizeAsIntFallback_simulates :
    Simulates readVarintSizeAsIntFallback fun c => c.readWith readSizeAsInt := by
  intro s h
  have hfallback := readVarint64Fallback_simulates s h
  dsimp only at hfallback ⊢
  have harray := readVarint64FromArray_eq s.buffer
  unfold readVarintSizeAsIntFallback
  unfold readVarint64Fallback at hfallback ⊢
  unfold Cursor.readWith readSizeAsInt
  by_cases hguard : s.varintEndsInBuffer = true
  · rw [if_pos hguard] at hfallback ⊢
    have henough := decode_of_varintEndsInBuffer hguard
    rw [harray]
    cases hdecode : Varint.decode 10 s.buffer with
    | ok x =>
        obtain ⟨n, ptr⟩ := x
        obtain ⟨rest, hmore, hwell, habs⟩ := h.take_varint hdecode
        rw [show kMaxVarintBytes = 10 from rfl, hmore]
        dsimp only
        rw [UInt64.toNat_ofNat']
        by_cases hlarge : intMax < n % 2 ^ 64
        · rw [if_pos hlarge, if_pos hlarge]
        · rw [if_neg hlarge, if_neg hlarge]
          exact ⟨_, rfl, hwell, habs⟩
    | error failure =>
        obtain rfl : failure = .malformedVarint := by
          rcases Varint.decode_error hdecode with rfl | rfl
          · exact absurd hdecode henough
          · rfl
        have hmore := Varint.decode_malformed_append hdecode
          ((s.afterLimit ++ (s.overflow ++ s.input.flatten)).take
            (s.closestLimit - s.currentPosition - s.buffer.length))
        rw [← h.readable_eq] at hmore
        rw [show kMaxVarintBytes = 10 from rfl, hmore]
  · rw [if_neg hguard] at hfallback ⊢
    rw [if_neg hguard]
    have hslow := hfallback.andThen fun value : UInt64 =>
      show Simulates (fun s => (if intMax < value.toNat then .failed else .done value.toNat, s))
        fun c => if intMax < value.toNat then none else some (value.toNat, c) by
          intro s h
          dsimp only
          by_cases hlarge : intMax < value.toNat
          · rw [if_pos hlarge, if_pos hlarge]
          · rw [if_neg hlarge, if_neg hlarge]
            exact ⟨s, rfl, h, rfl⟩
    cases hdecode : Varint.decode kMaxVarintBytes s.abs.readable with
    | error failure =>
        rw [Cursor.readWith_varint_error hdecode] at hslow
        exact hslow
    | ok x =>
        obtain ⟨n, rest⟩ := x
        rw [Cursor.readWith_varint hdecode, Option.bind_some] at hslow
        dsimp only at hslow ⊢
        rw [UInt64.toNat_ofNat'] at hslow
        by_cases hlarge : intMax < n % 2 ^ 64
        · rw [if_pos hlarge] at hslow ⊢
          exact hslow
        · rw [if_neg hlarge] at hslow ⊢
          exact hslow

theorem readVarintSizeAsInt_simulates :
    Simulates readVarintSizeAsInt fun c => c.readWith readSizeAsInt := by
  intro s h
  unfold readVarintSizeAsInt
  cases hbuffer : s.buffer with
  | nil => exact readVarintSizeAsIntFallback_simulates s h
  | cons b buffer =>
      dsimp only
      by_cases hb : b < 0x80
      · obtain ⟨rest, hdecode, hwell, habs⟩ := h.take_byte hbuffer hb
        have hsmall : b.toNat % 2 ^ 64 = b.toNat := by
          have hlt := b.toNat_lt
          omega
        have hfits : ¬intMax < b.toNat := by
          have hlt := b.toNat_lt
          unfold intMax
          omega
        unfold Cursor.readWith readSizeAsInt
        rw [if_pos hb, hdecode]
        dsimp only
        rw [hsmall, if_neg hfits]
        exact ⟨_, rfl, hwell, habs⟩
      · rw [if_neg hb]
        exact readVarintSizeAsIntFallback_simulates s h

end CodedInputStream

end SpringDome.Protobuf
