import Mathlib.Data.List.Basic
import Mathlib.Data.Option.Basic

/-!
# Reading frames off a stream

A scanner looks at the head of a buffer: it needs more, it cannot make sense of it, or it takes a
frame and leaves the rest.  A reader keeps what is left over between reads, and stays failed once
the scanner could not make sense of what it had; a read that fails yields nothing.

`Lawful` says that a scanner gets on, and that what it says of a buffer it says of every longer
one.  Then it does not matter where a stream is cut into reads as long as it is not bad
(`pushAll_of_decode`), and a stream of encoded frames yields the frames (`pushAll_of_flatten`).
Where it is bad it matters which frames came with the bad place in one read (`cutFree_iff`).
-/

namespace Framing

variable {α β : Type*}

/-- What the head of a buffer is. -/
inductive Scan (α β : Type*) where
  | more
  | bad
  | frame (f : β) (rest : List α)
deriving Repr

/-- Takes frames for so many turns: the frames, and what is left, unless the stream is bad. -/
def drain (scan : List α → Scan α β) : ℕ → List α → List β × Option (List α)
  | 0, buffer => ([], some buffer)
  | turns + 1, buffer =>
    match scan buffer with
    | .more => ([], some buffer)
    | .bad => ([], none)
    | .frame f rest =>
      let (frames, left) := drain scan turns rest
      (f :: frames, left)

def decode (scan : List α → Scan α β) (buffer : List α) : List β × Option (List α) :=
  drain scan (buffer.length + 1) buffer

/-- What is kept between two reads. -/
structure Reader (α : Type*) where
  buffer : List α
  failed : Bool
deriving Repr

def Reader.fresh : Reader α := ⟨[], false⟩

def Reader.push (scan : List α → Scan α β) (reader : Reader α) (chunk : List α) :
    List β × Reader α :=
  if reader.failed then ([], reader)
  else
    match decode scan (reader.buffer ++ chunk) with
    | (frames, some left) => (frames, ⟨left, false⟩)
    | (_, none) => ([], ⟨[], true⟩)

def Reader.pushAll (scan : List α → Scan α β) : Reader α → List (List α) → List β × Reader α
  | reader, [] => ([], reader)
  | reader, chunk :: chunks =>
    let (frames, reader) := reader.push scan chunk
    let (frames', reader) := reader.pushAll scan chunks
    (frames ++ frames', reader)

/-- What a scanner says of a buffer holds of every longer one, and a frame is something. -/
structure Lawful (scan : List α → Scan α β) : Prop where
  shorter : ∀ {buffer f rest}, scan buffer = .frame f rest → rest.length < buffer.length
  frame_append : ∀ {buffer f rest} (more : List α), scan buffer = .frame f rest →
    scan (buffer ++ more) = .frame f (rest ++ more)
  bad_append : ∀ {buffer} (more : List α), scan buffer = .bad → scan (buffer ++ more) = .bad

section

variable {scan : List α → Scan α β}

theorem drain_eq (hscan : Lawful scan) (turns turns' : ℕ) {buffer : List α}
    (h : buffer.length < turns) (h' : buffer.length < turns') :
    drain scan turns buffer = drain scan turns' buffer := by
  induction turns generalizing turns' buffer with
  | zero => omega
  | succ turns ih =>
    cases turns' with
    | zero => omega
    | succ turns' =>
      rw [drain, drain]
      cases hs : scan buffer with
      | more | bad => rfl
      | frame f rest =>
        have hrest := hscan.shorter hs
        have hleft : drain scan turns rest = drain scan turns' rest :=
          ih turns' (by omega) (by omega)
        simp only [hleft]

theorem decode_more {buffer : List α} (h : scan buffer = .more) :
    decode scan buffer = ([], some buffer) := by
  simp only [decode, drain, h]

theorem decode_bad {buffer : List α} (h : scan buffer = .bad) :
    decode scan buffer = ([], none) := by
  simp only [decode, drain, h]

theorem decode_frame (hscan : Lawful scan) {buffer rest : List α} {f : β}
    (h : scan buffer = .frame f rest) :
    decode scan buffer = (f :: (decode scan rest).1, (decode scan rest).2) := by
  have hrest := hscan.shorter h
  rw [decode, drain, h]
  simp only [decode, drain_eq hscan buffer.length (rest.length + 1) hrest (Nat.lt_succ_self _)]

/-- **Induction** on the frames of a buffer. -/
theorem decode_induction (hscan : Lawful scan) {P : List α → Prop}
    (more : ∀ buffer, scan buffer = .more → P buffer)
    (bad : ∀ buffer, scan buffer = .bad → P buffer)
    (frame : ∀ buffer f rest, scan buffer = .frame f rest → P rest → P buffer) :
    ∀ buffer, P buffer := by
  intro buffer
  induction hn : buffer.length using Nat.strongRecOn generalizing buffer with
  | ind n ih =>
    cases hs : scan buffer with
    | more => exact more buffer hs
    | bad => exact bad buffer hs
    | frame f rest =>
      have hrest := hscan.shorter hs
      exact frame buffer f rest hs (ih rest.length (by omega) rest rfl)

theorem scan_left (hscan : Lawful scan) {buffer left : List α} :
    (decode scan buffer).2 = some left → scan left = .more := by
  induction buffer using decode_induction hscan with
  | more buffer hs =>
    rw [decode_more hs]
    rintro ⟨⟩
    exact hs
  | bad buffer hs =>
    rw [decode_bad hs]
    nofun
  | frame buffer f rest hs ih =>
    rw [decode_frame hscan hs]
    exact ih

/-- **A stream may be cut anywhere**: what is left of the first part is read with the second. -/
theorem decode_append (hscan : Lawful scan) (buffer more : List α) :
    decode scan (buffer ++ more) =
      match (decode scan buffer).2 with
      | some left => ((decode scan buffer).1 ++ (decode scan (left ++ more)).1,
          (decode scan (left ++ more)).2)
      | none => decode scan buffer := by
  induction buffer using decode_induction hscan with
  | more buffer hs => simp only [decode_more hs, List.nil_append]
  | bad buffer hs =>
    simp only [decode_bad hs]
    exact decode_bad (hscan.bad_append more hs)
  | frame buffer f rest hs ih =>
    rw [decode_frame hscan (hscan.frame_append more hs), ih, decode_frame hscan hs]
    obtain ⟨taken, left⟩ := decode scan rest
    cases left with
    | some left => rfl
    | none => rfl

/-- **Reads** yield what the stream holds, when it is not bad. -/
theorem pushAll_of_decode (hscan : Lawful scan) {chunks : List (List α)} {pending left : List α}
    {frames : List β} (hpending : scan pending = .more)
    (h : decode scan (pending ++ chunks.flatten) = (frames, some left)) :
    Reader.pushAll scan ⟨pending, false⟩ chunks = (frames, ⟨left, false⟩) := by
  induction chunks generalizing pending frames with
  | nil =>
    rw [List.flatten_nil, List.append_nil, decode_more hpending] at h
    cases h
    rfl
  | cons chunk chunks ih =>
    rw [List.flatten_cons, ← List.append_assoc, decode_append hscan] at h
    rw [Reader.pushAll, Reader.push, if_neg Bool.false_ne_true]
    cases hd : decode scan (pending ++ chunk) with
    | mk taken left' =>
      rw [hd] at h
      cases left' with
      | none => cases h
      | some rest =>
        simp only [Prod.mk.injEq] at h
        have hrest : scan rest = .more := @scan_left _ _ _ hscan (pending ++ chunk) _ (by rw [hd])
        simp only [ih hrest (Prod.ext rfl h.2), h.1]

theorem decode_flatten (hscan : Lawful scan) (hempty : scan [] = .more) {encoded : List (List α)}
    {frames : List β}
    (h : List.Forall₂ (fun bytes f => ∀ rest, scan (bytes ++ rest) = .frame f rest)
      encoded frames) : decode scan encoded.flatten = (frames, some []) := by
  induction h with
  | nil => exact decode_more hempty
  | cons hone _ ih =>
    rw [List.flatten_cons, decode_frame hscan (hone _), ih]

/-- **Round trip**: however the encodings are cut, the frames come out, and nothing is left. -/
theorem pushAll_of_flatten (hscan : Lawful scan) (hempty : scan [] = .more)
    {chunks encoded : List (List α)} {frames : List β}
    (h : List.Forall₂ (fun bytes f => ∀ rest, scan (bytes ++ rest) = .frame f rest) encoded frames)
    (hcut : chunks.flatten = encoded.flatten) :
    Reader.pushAll scan Reader.fresh chunks = (frames, Reader.fresh) :=
  pushAll_of_decode hscan hempty (by rw [List.nil_append, hcut, decode_flatten hscan hempty h])

theorem pushAll_failed (buffer : List α) (chunks : List (List α)) :
    Reader.pushAll scan ⟨buffer, true⟩ chunks = ([], ⟨buffer, true⟩) := by
  induction chunks with
  | nil => rfl
  | cons chunk chunks ih =>
    rw [Reader.pushAll, Reader.push, if_pos rfl]
    simp only [ih, List.append_nil]

/-- **Reads of a bad stream** yield some of the frames before the place where it is bad, and leave
the reader failed. -/
theorem pushAll_of_bad (hscan : Lawful scan) {chunks : List (List α)} {pending : List α}
    {frames : List β} (hpending : scan pending = .more)
    (h : decode scan (pending ++ chunks.flatten) = (frames, none)) :
    ∃ taken, taken <+: frames ∧ Reader.pushAll scan ⟨pending, false⟩ chunks = (taken, ⟨[], true⟩) := by
  induction chunks generalizing pending frames with
  | nil =>
    rw [List.flatten_nil, List.append_nil, decode_more hpending] at h
    cases h
  | cons chunk chunks ih =>
    rw [List.flatten_cons, ← List.append_assoc, decode_append hscan] at h
    rw [Reader.pushAll, Reader.push, if_neg Bool.false_ne_true]
    cases hd : decode scan (pending ++ chunk) with
    | mk taken left =>
      rw [hd] at h
      cases left with
      | none =>
        -- The read that meets the bad place loses the frames it found before it.
        refine ⟨[], List.nil_prefix, ?_⟩
        simp only [pushAll_failed, List.append_nil]
      | some left =>
        simp only [Prod.mk.injEq] at h
        have hleft : scan left = .more := @scan_left _ _ _ hscan (pending ++ chunk) _ (by rw [hd])
        obtain ⟨rest, hrest, hpush⟩ := ih hleft (Prod.ext rfl h.2)
        refine ⟨taken ++ rest, ?_, by simp only [hpush]⟩
        rw [← h.1]
        exact (List.prefix_append_right_inj taken).mpr hrest

/-- A frame does not need what follows it. -/
def Exact (scan : List α → Scan α β) : Prop :=
  ∀ {buffer f rest}, scan buffer = .frame f rest →
    ∃ bytes, buffer = bytes ++ rest ∧ scan bytes = .frame f []

/-- A bad stream can be cut right before the place where it is bad. -/
theorem exists_cut_of_bad (hscan : Lawful scan) (hexact : Exact scan) (hempty : scan [] = .more)
    {buffer : List α} : (decode scan buffer).2 = none → ∃ front rest, buffer = front ++ rest ∧
      decode scan front = ((decode scan buffer).1, some []) ∧ decode scan rest = ([], none) := by
  induction buffer using decode_induction hscan with
  | more buffer hs =>
    rw [decode_more hs]
    nofun
  | bad buffer hs =>
    rw [decode_bad hs]
    exact fun _ => ⟨[], buffer, rfl, decode_more hempty, decode_bad hs⟩
  | frame buffer f rest hs ih =>
    rw [decode_frame hscan hs]
    intro hbad
    obtain ⟨front, tail, hrest, hfront, htail⟩ := ih hbad
    obtain ⟨bytes, rfl, hbytes⟩ := hexact hs
    refine ⟨bytes ++ front, tail, by rw [hrest, List.append_assoc], ?_, htail⟩
    have hnext := hscan.frame_append front hbytes
    rw [List.nil_append] at hnext
    rw [decode_frame hscan hnext, hfront]

theorem pushAll_whole (stream : List α) :
    Reader.pushAll scan Reader.fresh [stream] =
      match decode scan stream with
      | (frames, some left) => (frames, ⟨left, false⟩)
      | (_, none) => ([], ⟨[], true⟩) := by
  have hpush : Reader.push scan Reader.fresh stream =
      match decode scan stream with
      | (frames, some left) => (frames, ⟨left, false⟩)
      | (_, none) => ([], ⟨[], true⟩) := if_neg Bool.false_ne_true
  rw [Reader.pushAll, hpush]
  obtain ⟨frames, _ | left⟩ := decode scan stream <;> simp [Reader.pushAll]

/-- What a fresh reader makes of a stream does not depend on how it is cut. -/
def CutFree (scan : List α → Scan α β) (stream : List α) : Prop :=
  ∀ cuts cuts' : List (List α), cuts.flatten = stream → cuts'.flatten = stream →
    (Reader.pushAll scan Reader.fresh cuts).1 = (Reader.pushAll scan Reader.fresh cuts').1 ∧
      (Reader.pushAll scan Reader.fresh cuts).2.failed =
        (Reader.pushAll scan Reader.fresh cuts').2.failed

/-- **Where the cuts do not matter**: in a stream that is not bad, and in one that is bad before
its first frame. -/
theorem cutFree_iff (hscan : Lawful scan) (hexact : Exact scan) (hempty : scan [] = .more)
    (stream : List α) :
    CutFree scan stream ↔ ((decode scan stream).2 = none → (decode scan stream).1 = []) := by
  constructor
  · intro hfree hbad
    obtain ⟨front, rest, rfl, hfront, hrest⟩ := exists_cut_of_bad hscan hexact hempty hbad
    have hcut : Reader.pushAll scan Reader.fresh [front, rest] =
        ((decode scan (front ++ rest)).1, ⟨[], true⟩) := by
      simp [Reader.pushAll, Reader.push, Reader.fresh, hfront, hrest]
    have hwhole : Reader.pushAll scan Reader.fresh [front ++ rest] = ([], ⟨[], true⟩) := by
      have hnone : decode scan (front ++ rest) = ((decode scan (front ++ rest)).1, none) :=
        Prod.ext rfl hbad
      rw [pushAll_whole, hnone]
    have hsame := (hfree [front, rest] [front ++ rest] (by simp) (by simp)).1
    rw [hcut, hwhole] at hsame
    exact hsame
  · intro h
    -- Every cutting gives one answer.
    suffices hall : ∃ frames failed, ∀ cuts : List (List α), cuts.flatten = stream →
        (Reader.pushAll scan Reader.fresh cuts).1 = frames ∧
          (Reader.pushAll scan Reader.fresh cuts).2.failed = failed by
      obtain ⟨frames, failed, hall⟩ := hall
      intro cuts cuts' hcuts hcuts'
      exact ⟨(hall cuts hcuts).1.trans (hall cuts' hcuts').1.symm,
        (hall cuts hcuts).2.trans (hall cuts' hcuts').2.symm⟩
    cases hd : decode scan stream with
    | mk frames left =>
      cases left with
      | some left =>
        refine ⟨frames, false, fun cuts hcuts => ?_⟩
        rw [Reader.fresh, pushAll_of_decode hscan hempty (by rw [List.nil_append, hcuts, hd])]
        exact ⟨rfl, rfl⟩
      | none =>
        rw [hd] at h
        obtain rfl := h rfl
        refine ⟨[], true, fun cuts hcuts => ?_⟩
        obtain ⟨taken, htaken, hpush⟩ :=
          pushAll_of_bad hscan hempty (by rw [List.nil_append, hcuts, hd])
        rw [Reader.fresh, hpush, List.prefix_nil.mp htaken]
        exact ⟨rfl, rfl⟩

end

end Framing
