import MediaCenterSync.FileMove.Service

/-!
# What a move leaves on the disk

Every disk in which a call of the move service can be cut is one of a few (`Left`): the disk it
found with another content in the partial (`staged`); that disk with the source renamed to the
destination; or the disk of a committed copy (`committed`) after some of the steps that follow it
(`Settled`).  `always_move` says so for the whole program, and which of them belongs to which
result.

The content that is committed depends on the disk found and on nothing else (`assembled`): a
partial no longer than the source is taken for its beginning, and topped up with the bytes of the
source from its length on.  It is the source exactly when the partial was absent, a beginning of
the source, or longer than the source (`assembled_eq_iff`).
-/

namespace MediaCenterSync.FileMove

open Program (Always always_ask_bind)

variable (M : Mounts) (request : FileMoveRequest)

/-! ### Disks -/

/-- The disk found, with another content in the partial. -/
def staged (d : Disk UInt8) (b : Option Bytes) : Disk UInt8 :=
  d.set (M.locate (partialOf request.destination)) (b.map .file)

/-- What a copy commits: `b` is the partial it found, `c` the source. -/
def assembled (b : Option Bytes) (c : Bytes) : Bytes :=
  match b with
  | some y => if y.length ≤ c.length then y ++ c.drop y.length else c
  | none => c

def committed (d : Disk UInt8) (x : Bytes) : Disk UInt8 :=
  (d.set (M.locate (partialOf request.destination)) none).set (M.locate request.destination)
    (some (.file x))

/-- The disks a committed copy passes as the source goes or becomes a link. -/
inductive Settled (d : Disk UInt8) : Disk UInt8 → Prop
  | here : Settled d d
  | unlinked : request.keepSource = false → Settled d (d.set (M.locate request.source) none)
  | swept : request.keepSource = true → request.linkSource = true →
      Settled d (d.set (M.locate (temporaryOf request.source)) none)
  | built : request.keepSource = true → request.linkSource = true →
      d (M.locate (temporaryOf request.source)) = none →
      Settled d (d.set (M.locate (temporaryOf request.source))
        (some (.link (linkTargetOf request))))
  | linked : request.keepSource = true → request.linkSource = true →
      d (M.locate (temporaryOf request.source)) = none →
      Settled d (d.set (M.locate request.source) (some (.link (linkTargetOf request))))
  | noted {d' : Disk UInt8} {w : FilePath} {note : Bytes} :
      request.keepSource = true → request.linkSource = true →
      d (M.locate (temporaryOf request.source)) = none →
      d' = d.set (M.locate request.source) (some (.link (linkTargetOf request))) →
      d'.lookup M (witnessOf request.destination) = some w →
      Settled d (d'.set w (some (.file note)))

def SameDevice : Prop :=
  M.device (M.real request.source.dir) = M.device (M.real request.destination.dir)

def Renamed (d d' : Disk UInt8) : Prop :=
  request.keepSource = false ∧ SameDevice M request ∧
    ∃ entry, d (M.locate request.source) = some entry ∧
      d' = (d.set (M.locate request.source) none).set (M.locate request.destination) (some entry)

/-- The disk of a copy, committed: `b` is the partial it found, `c` the source. -/
def Committed (d : Disk UInt8) (b : Option Bytes) (c : Bytes) (d' : Disk UInt8) : Prop :=
  (request.keepSource = true ∨ ¬ SameDevice M request) ∧
    Settled M request (committed M request d (assembled b c)) d'

/-- **The disks a call may leave behind**, wherever it is cut. -/
inductive Left (d : Disk UInt8) (b : Option Bytes) (c : Bytes) : Disk UInt8 → Prop
  | staged (b' : Option Bytes) : Left d b c (staged M request d b')
  | renamed {d' : Disk UInt8} : Renamed M request d d' → Left d b c d'
  | committed {d' : Disk UInt8} : Committed M request d b c d' → Left d b c d'

def Ended (d : Disk UInt8) (b : Option Bytes) (c : Bytes) :
    Except Failure FileMoveResult → Disk UInt8 → Prop
  | .ok ⟨.RENAMED, _, _⟩, d' => Renamed M request d d'
  | .ok ⟨.COPIED, _, _⟩, d' => Committed M request d b c d'
  | .ok ⟨.PAUSED, _, _⟩, _ | .ok ⟨.CANCELLED, _, _⟩, _ => request.signal = true
  | .error _, _ => True

/-! ### What is committed -/

/-- **The committed bytes are the source's exactly when the partial was no foreign one.** -/
theorem assembled_eq_iff {b : Option Bytes} {c : Bytes} :
    assembled b c = c ↔ ∀ y, b = some y → y <+: c ∨ c.length < y.length := by
  cases b with
  | none => simp [assembled]
  | some y =>
    rw [assembled]
    constructor
    · rintro h _ ⟨⟩
      by_cases hle : y.length ≤ c.length
      · rw [if_pos hle] at h
        exact .inl ⟨_, h⟩
      · exact .inr (by omega)
    · intro h
      split
      · rename_i hle
        rcases h y rfl with ⟨tail, rfl⟩ | hlt
        · rw [List.drop_left]
        · omega
      · rfl

/-- How much of a partial a call resumes from: `b'` is the partial then. -/
def Resumed (b : Option Bytes) (c : Bytes) (offset : ℕ) (b' : Option Bytes) : Prop :=
  b' = b ∧ (offset = 0 ∨ ∃ y, b = some y ∧ offset = y.length) ∨
    b' = none ∧ offset = 0 ∧ ∃ y, b = some y ∧ c.length < y.length

/-- Of all that a copy may have topped up, only `assembled` has the length of the source. -/
theorem Resumed.eq_assembled {b b' : Option Bytes} {c : Bytes} {offset : ℕ}
    (h : Resumed b c offset b') (hlen : (b'.getD [] ++ c.drop offset).length = c.length) :
    b'.getD [] ++ c.drop offset = assembled b c := by
  rcases h with ⟨rfl, rfl | ⟨y, rfl, rfl⟩⟩ | ⟨rfl, rfl, y, rfl, hlt⟩
  · -- Copied from the start: the length leaves no room for an old partial.
    have hnil : b'.getD [] = [] := by
      rw [List.length_append, List.drop_zero] at hlen
      exact List.length_eq_zero_iff.mp (by omega)
    cases b' with
    | none => simp [assembled]
    | some y =>
      obtain rfl : y = [] := hnil
      simp [assembled]
  · simp only [Option.getD_some, List.length_append, List.length_drop] at hlen ⊢
    rw [assembled, if_pos (by omega)]
  · simp [assembled, Nat.not_le.mpr hlt]

/-! ### The partial -/

section Staged

variable {M request} {d : Disk UInt8} {b : Option Bytes} {c : Bytes}

theorem staged_self (hb : d (M.locate (partialOf request.destination)) = b.map .file) :
    staged M request d b = d :=
  Disk.set_eq_self hb

theorem staged_staged (b₁ b₂ : Option Bytes) :
    staged M request (staged M request d b₁) b₂ = staged M request d b₂ :=
  Disk.set_set ..

@[simp]
theorem staged_here :
    staged M request d b (M.locate (partialOf request.destination)) = b.map .file :=
  Disk.set_here ..

theorem lookup_staged :
    (staged M request d b).lookup M (partialOf request.destination) =
      some (M.locate (partialOf request.destination)) :=
  Disk.final_of_not_link (by simp) _

theorem read_staged :
    (staged M request d b).read M (partialOf request.destination) = b := by
  rw [Disk.read, lookup_staged]
  cases b <;> simp

theorem unlink_staged {d' : Disk UInt8} {r : Except Errno Unit}
    (h : Effect M (staged M request d b) (.unlink (partialOf request.destination)) d' r) :
    d' = staged M request d b ∨ d' = staged M request d none := by
  rcases r with code | _
  · exact .inl h
  · obtain ⟨-, rfl⟩ := h
    exact .inr (staged_staged b none)

theorem write_staged {y chunk : Bytes} {d' : Disk UInt8} {r : Except Errno Unit}
    (h : Effect M (staged M request d (some y)) (.write (partialOf request.destination) chunk)
      d' r) :
    ∃ y', d' = staged M request d (some y') ∧ (r = .ok () → y' = y ++ chunk) := by
  rcases r with code | _
  · rcases h with rfl | ⟨place, content, hplace, hread, written, -, rfl⟩
    · exact ⟨y, rfl, fun hr => nomatch hr⟩
    · rw [lookup_staged, Option.some.injEq] at hplace
      subst hplace
      exact ⟨content ++ written, staged_staged _ (some _), fun hr => nomatch hr⟩
  · obtain ⟨place, content, hplace, hread, rfl⟩ := h
    rw [lookup_staged, Option.some.injEq] at hplace
    rw [read_staged, Option.some.injEq] at hread
    subst hplace hread
    exact ⟨y ++ chunk, staged_staged _ (some _), fun _ => rfl⟩

end Staged

/-! ### The copy -/

section Copy

variable {M request} {d : Disk UInt8} {b : Option Bytes} {c : Bytes}
  {I : Disk UInt8 → Prop} (hI : ∀ b', I (staged M request d b'))

include hI

theorem always_stopped (b : Option Bytes) :
    Always (Effect M) I (fun isStopped d' => d' = staged M request d b ∧
      (isStopped = true → request.signal = true))
      (stopped request) (staged M request d b) := by
  unfold stopped
  split
  · rename_i hsignal
    refine ⟨hI _, ?_⟩
    rintro _ isStopped rfl
    exact ⟨hI _, rfl, fun _ => hsignal⟩
  · exact ⟨hI _, rfl, fun h => nomatch h⟩

theorem always_aborted (b : Option Bytes) (bytesCopied : ℕ) :
    Always (Effect M) I (fun r d' => (r.outcome = .PAUSED ∨ r.outcome = .CANCELLED) ∧
      ∃ b', d' = staged M request d b')
      (aborted (partialOf request.destination) bytesCopied) (staged M request d b) := by
  refine always_ask_bind.mpr ⟨hI _, ?_⟩
  rintro _ isCancel rfl
  split
  · refine always_ask_bind.mpr ⟨hI _, fun d' r h => ?_⟩
    rcases unlink_staged h with rfl | rfl
    · exact ⟨hI _, .inr rfl, _, rfl⟩
    · exact ⟨hI _, .inr rfl, _, rfl⟩
  · exact ⟨hI _, .inl rfl, _, rfl⟩

theorem always_resumeOffset (hc : (staged M request d b).read M request.source = some c) :
    Always (Effect M) I (fun offset d' => ∃ b', d' = staged M request d b' ∧
      d'.read M request.source = some c ∧ Resumed b c offset b')
      (resumeOffset (partialOf request.destination) c.length) (staged M request d b) := by
  refine always_ask_bind.mpr ⟨hI _, fun d' r h => ?_⟩
  rcases r with code | size
  · obtain rfl := h
    simp only [caught, gt_iff_lt, Nat.not_lt_zero, if_false]
    exact ⟨hI _, b, rfl, hc, .inl ⟨rfl, .inl rfl⟩⟩
  · obtain ⟨rfl, y, hy, rfl⟩ := h
    rw [read_staged] at hy
    subst hy
    dsimp only [caught]
    by_cases hlt : y.length > c.length
    · rw [if_pos hlt]
      refine always_ask_bind.mpr ⟨hI _, fun d' r h => ?_⟩
      rcases unlink_staged h with rfl | rfl
      · exact ⟨hI _, some y, rfl, hc, .inl ⟨rfl, .inl rfl⟩⟩
      · refine ⟨hI _, none, rfl, ?_, .inr ⟨rfl, rfl, y, rfl, hlt⟩⟩
        -- The source is no link to a file that is longer than it.
        have hne : y ≠ c := fun heq => by simp [heq] at hlt
        rw [← staged_staged (some y) none]
        exact Disk.read_set hc (by simp) (by simp [hne])
    · rw [if_neg hlt]
      exact ⟨hI _, some y, rfl, hc, .inl ⟨rfl, .inr ⟨y, rfl, rfl⟩⟩⟩

/-- The loop appends the buffers in order, and all of them unless it stops. -/
theorem always_copyLoop (failure : Option Errno) (buffers : List Bytes) (y : Bytes)
    (bytesCopied : ℕ) :
    Always (Effect M) I (fun copied d' => ∃ y', d' = staged M request d (some y') ∧
      (copied.aborted = true → request.signal = true) ∧
      (copied.failure = none → copied.aborted = false →
        failure = none ∧ y' = y ++ buffers.flatten))
      (copyLoop request (partialOf request.destination) failure buffers bytesCopied)
      (staged M request d (some y)) := by
  induction buffers generalizing y bytesCopied with
  | nil => exact ⟨hI _, y, rfl, fun h => (nomatch h), fun h _ => ⟨h, by simp⟩⟩
  | cons chunk chunks ih =>
    refine (always_stopped hI _).bind ?_
    rintro isStopped _ ⟨rfl, hsignal⟩
    split
    · rename_i hstopped
      exact ⟨hI _, y, rfl, fun _ => hsignal hstopped, fun _ h => nomatch h⟩
    · refine always_ask_bind.mpr ⟨hI _, fun d' r h => ?_⟩
      obtain ⟨y', rfl, hy'⟩ := write_staged h
      rcases r with code | _
      · exact ⟨hI _, y', rfl, fun h => (nomatch h), fun h => nomatch h⟩
      · refine (ih y' _).mono (fun _ h => h) fun copied d' _ h => ?_
        obtain ⟨y'', rfl, haborted, hy''⟩ := h
        refine ⟨y'', rfl, haborted, fun hf ha => ⟨(hy'' hf ha).1, ?_⟩⟩
        rw [(hy'' hf ha).2, hy' rfl, List.flatten_cons, List.append_assoc]

theorem always_copyBuffers (read : ReadStream) :
    Always (Effect M) I (fun copied d' => ∃ b', d' = staged M request d b' ∧
      (copied.aborted = true → request.signal = true) ∧
      (copied.failure = none → copied.aborted = false →
        read.failure = none ∧ b' = some (b.getD [] ++ read.buffers.flatten)))
      (copyBuffers request (partialOf request.destination) read) (staged M request d b) := by
  refine always_ask_bind.mpr ⟨hI _, fun d' r h => ?_⟩
  rcases r with code | _
  · obtain rfl := h
    exact ⟨hI _, b, rfl, fun h => (nomatch h), fun h => nomatch h⟩
  · obtain ⟨place, hplace, rfl⟩ := h
    rw [lookup_staged, Option.some.injEq] at hplace
    subst hplace
    rw [read_staged]
    have heq : (staged M request d b).set (M.locate (partialOf request.destination))
        (some (.file (b.getD []))) = staged M request d (some (b.getD [])) :=
      staged_staged _ (some _)
    rw [heq]
    refine (always_copyLoop hI _ _ _ _).mono (fun _ h => h) fun copied d' _ h => ?_
    obtain ⟨y', rfl, haborted, hy'⟩ := h
    exact ⟨some y', rfl, haborted, fun hf ha => ⟨(hy' hf ha).1, congrArg some (hy' hf ha).2⟩⟩

theorem always_copy {offset total : ℕ}
    (hc : (staged M request d b).read M request.source = some c) :
    Always (Effect M) I (fun r d' => ∃ b', d' = staged M request d b' ∧
      (∀ n, r = .ok (true, n) → request.signal = true) ∧
      ∀ n, r = .ok (false, n) → b' = some (b.getD [] ++ c.drop offset))
      (copy request (partialOf request.destination) offset total) (staged M request d b) := by
  refine always_ask_bind.mpr ⟨hI _, ?_⟩
  rintro _ read ⟨rfl, -, hread⟩
  rw [hc] at hread
  refine (always_copyBuffers hI read).bind ?_
  rintro copied _ ⟨b', rfl, haborted, hb'⟩
  refine always_ask_bind.mpr ⟨hI _, ?_⟩
  rintro _ ended rfl
  cases hfailure : copied.failure with
  | some code => exact ⟨hI _, b', rfl, fun _ h => (nomatch h), fun _ h => nomatch h⟩
  | none =>
    rcases ended with code | _
    · exact ⟨hI _, b', rfl, fun _ h => (nomatch h), fun _ h => nomatch h⟩
    · refine ⟨hI _, b', rfl, fun n h => ?_, fun n h => ?_⟩
      · injection h with h
        exact haborted (congrArg Prod.fst h)
      injection h with h
      obtain ⟨hended, rfl⟩ := hb' hfailure (congrArg Prod.fst h)
      rw [hread.2 hended]

theorem always_refuseIfItCannotFit (required : ℕ) :
    Always (Effect M) I (fun _ d' => d' = staged M request d b)
      (refuseIfItCannotFit request required) (staged M request d b) := by
  refine Always.bind (R := fun _ d' => d' = staged M request d b) ?_ ?_
  · refine always_ask_bind.mpr ⟨hI _, ?_⟩
    rintro _ r rfl
    split
    · exact ⟨hI _, rfl⟩
    · exact ⟨hI _, rfl⟩
  · rintro free _ rfl
    split
    · exact ⟨hI _, rfl⟩
    · exact ⟨hI _, rfl⟩

end Copy

/-! ### After the rename -/

theorem temporary_ne_source : M.locate (temporaryOf request.source) ≠ M.locate request.source := by
  intro h
  have := congrArg (fun p => p.name.length) h
  simp [temporaryOf, withSuffix, LINK_SUFFIX] at this

section Settle

variable {M request} {d : Disk UInt8} {I : Disk UInt8 → Prop}
  (hI : ∀ d', Settled M request d d' → I d')

include hI

/-- The note is written somewhere, in part perhaps, or not at all. -/
theorem always_witness (hkeep : request.keepSource = true) (hlink : request.linkSource = true)
    (habsent : d (M.locate (temporaryOf request.source)) = none) :
    Always (Effect M) I (fun _ d' => Settled M request d d')
      (witness request.destination request.source)
      (d.set (M.locate request.source) (some (.link (linkTargetOf request)))) := by
  have hlinked := Settled.linked hkeep hlink habsent
  refine always_ask_bind.mpr ⟨hI _ hlinked, fun d' r h => ?_⟩
  obtain rfl : d' = d.set (M.locate request.source) (some (.link (linkTargetOf request))) := by
    rcases r with code | text
    · exact h
    · exact h.1
  dsimp only
  split
  · exact ⟨hI _ hlinked, hlinked⟩
  · refine always_ask_bind.mpr ⟨hI _ hlinked, fun d' r h => ?_⟩
    have hsettled : Settled M request d d' := by
      rcases r with code | _
      · rcases h with rfl | ⟨w, hw, note, -, rfl⟩
        · exact hlinked
        · exact .noted hkeep hlink habsent rfl hw
      · obtain ⟨w, hw, rfl⟩ := h
        exact .noted hkeep hlink habsent rfl hw
    exact ⟨hI _ hsettled, hsettled⟩

theorem always_sweep {d' : Disk UInt8} (hd' : Settled M request d d')
    (hswept : Settled M request d (d'.set (M.locate (temporaryOf request.source)) none)) :
    Always (Effect M) I (fun _ d'' => Settled M request d d'') (sweep request) d' := by
  refine always_ask_bind.mpr ⟨hI _ hd', fun d'' r h => ?_⟩
  rcases r with code | _
  · obtain rfl := h
    exact ⟨hI _ hd', hd'⟩
  · obtain ⟨-, rfl⟩ := h
    exact ⟨hI _ hswept, hswept⟩

theorem always_link (hkeep : request.keepSource = true) (hlink : request.linkSource = true) :
    Always (Effect M) I (fun _ d' => Settled M request d d') (link request) d := by
  refine always_ask_bind.mpr ⟨hI _ .here, fun d' r h => ?_⟩
  rcases r with code | isSymbolicLink
  · obtain rfl := h
    exact always_sweep hI .here (.swept hkeep hlink)
  obtain ⟨rfl, -⟩ := h
  dsimp only
  split
  · exact ⟨hI _ .here, .here⟩
  refine always_ask_bind.mpr ⟨hI _ .here, fun d'' r h => ?_⟩
  rcases r with code | _
  · obtain rfl := h
    exact always_sweep hI .here (.swept hkeep hlink)
  obtain ⟨habsent, rfl⟩ := h
  have hbuilt := Settled.built (M := M) hkeep hlink habsent
  refine always_ask_bind.mpr ⟨hI _ hbuilt, fun d'' r h => ?_⟩
  rcases r with code | _
  · obtain ⟨rfl, -⟩ := h
    refine always_sweep hI hbuilt ?_
    rw [Disk.set_set]
    exact .swept hkeep hlink
  · obtain ⟨-, entry, hentry, rfl⟩ := h
    rw [Disk.set_here, Option.some.injEq] at hentry
    subst hentry
    -- The temporary was absent, and is absent again.
    have hback : (d'.set (M.locate (temporaryOf request.source))
        (some (.link (linkTargetOf request)))).set (M.locate (temporaryOf request.source)) none
          = d' := by
      rw [Disk.set_set, Disk.set_eq_self habsent]
    rw [hback]
    exact always_witness hI hkeep hlink habsent

theorem always_settle :
    Always (Effect M) I (fun _ d' => Settled M request d d') (settle request) d := by
  rw [settle]
  split
  · rename_i hkeep
    refine always_ask_bind.mpr ⟨hI _ .here, fun d' r h => ?_⟩
    rcases r with code | _
    · obtain rfl := h
      exact ⟨hI _ .here, .here⟩
    · obtain ⟨-, rfl⟩ := h
      exact ⟨hI _ (.unlinked hkeep), .unlinked hkeep⟩
  · rename_i hkeep
    split
    · rename_i hlink
      exact always_link hI (by simpa using hkeep) hlink
    · exact ⟨hI _ .here, .here⟩

end Settle

/-! ### The move -/

section Move

variable {M request} {d : Disk UInt8} {b : Option Bytes} {c : Bytes}

theorem always_commit (hcopy : request.keepSource = true ∨ ¬ SameDevice M request)
    {b' : Option Bytes} (hb' : ∀ y, b' = some y → y.length = c.length → y = assembled b c)
    (bytesCopied : ℕ) :
    Always (Effect M) (Left M request d b c) (Ended M request d b c)
      (commit request (partialOf request.destination) c.length bytesCopied)
      (staged M request d b') := by
  refine always_ask_bind.mpr ⟨.staged b', fun d' r h => ?_⟩
  obtain rfl : d' = staged M request d b' := by
    rcases r with code | size
    · exact h
    · exact h.1
  split
  · rename_i hr
    rw [hr] at h
    obtain ⟨-, y, hy, hlen⟩ := h
    rw [read_staged] at hy
    subst hy
    obtain rfl := hb' y rfl hlen.symm
    refine always_ask_bind.mpr ⟨.staged _, fun d' r h => ?_⟩
    rcases r with code | _
    · obtain ⟨rfl, -⟩ := h
      exact ⟨.staged _, trivial⟩
    · obtain ⟨-, entry, hentry, rfl⟩ := h
      rw [staged_here] at hentry
      obtain rfl := Option.some.inj hentry
      have hcommitted : ((staged M request d (some (assembled b c))).set
          (M.locate (partialOf request.destination)) none).set (M.locate request.destination)
            (some (.file (assembled b c))) = committed M request d (assembled b c) := by
        rw [committed, staged, Disk.set_set]
      rw [hcommitted]
      refine (always_settle fun d' h => Left.committed ⟨hcopy, h⟩).bind ?_
      exact fun _ d' h => ⟨.committed ⟨hcopy, h⟩, hcopy, h⟩
  · dsimp only
    split
    · refine always_ask_bind.mpr ⟨.staged _, fun d' r h => ?_⟩
      rcases unlink_staged h with rfl | rfl
      · exact ⟨.staged _, trivial⟩
      · exact ⟨.staged _, trivial⟩
    · exact ⟨.staged _, trivial⟩

theorem left_self (hb : d (M.locate (partialOf request.destination)) = b.map .file) :
    Left M request d b c d := by
  have h : Left M request d b c (staged M request d b) := .staged b
  rwa [staged_self hb] at h

theorem ended_aborted {r : FileMoveResult} (h : r.outcome = .PAUSED ∨ r.outcome = .CANCELLED)
    (hsignal : request.signal = true) (d' : Disk UInt8) : Ended M request d b c (.ok r) d' := by
  obtain ⟨outcome, bytesCopied, partialPath⟩ := r
  rcases h with rfl | rfl
  · exact hsignal
  · exact hsignal

theorem always_stream (hb : d (M.locate (partialOf request.destination)) = b.map .file)
    (hc : ∀ x, d.read M request.source = some x → x = c)
    (hcopy : request.keepSource = true ∨ ¬ SameDevice M request) :
    Always (Effect M) (Left M request d b c) (Ended M request d b c)
      (stream request (partialOf request.destination)) d := by
  have hI (b' : Option Bytes) : Left M request d b c (staged M request d b') := .staged b'
  have hself := staged_self hb
  have hhere := left_self hb (c := c)
  refine always_ask_bind.mpr ⟨hhere, fun d' r h => ?_⟩
  rcases r with code | total
  · obtain rfl := h
    exact ⟨hhere, trivial⟩
  obtain ⟨rfl, content, hcontent, rfl⟩ := h
  obtain rfl := hc content hcontent
  dsimp only
  refine Always.bind (s := d') (R := fun offset d'' => ∃ b', d'' = staged M request d' b' ∧
    d''.read M request.source = some content ∧ Resumed b content offset b') ?_ ?_
  · have := always_resumeOffset hI (b := b) (by rwa [hself])
    rwa [hself] at this
  rintro offset _ ⟨b', rfl, hc', hresumed⟩
  split
  · -- The partial is whole already: it is committed without a copy.
    rename_i hwhole
    refine always_commit hcopy (fun y hy hlen => ?_) 0
    subst hy
    have hdrop : content.drop offset = [] := List.drop_eq_nil_of_le hwhole.1
    have := hresumed.eq_assembled (by simpa [hdrop] using hlen)
    simpa [hdrop] using this
  refine (always_refuseIfItCannotFit hI _).bind ?_
  rintro r _ rfl
  rcases r with failure | _
  · exact ⟨hI _, trivial⟩
  refine (always_copy hI hc').bind ?_
  rintro r _ ⟨b'', rfl, hsignal, hb''⟩
  rcases r with failure | ⟨isAborted, n⟩
  · exact ⟨hI _, trivial⟩
  · cases isAborted with
    | true =>
      refine (always_aborted hI _ _).bind ?_
      rintro r _ ⟨hr, b₃, rfl⟩
      exact ⟨hI _, ended_aborted hr (hsignal n rfl) _⟩
    | false =>
      obtain rfl := hb'' n rfl
      refine always_commit hcopy (fun y hy hlen => ?_) n
      obtain rfl := Option.some.inj hy
      exact hresumed.eq_assembled hlen

theorem always_place (hb : d (M.locate (partialOf request.destination)) = b.map .file)
    (hc : ∀ x, d.read M request.source = some x → x = c) :
    Always (Effect M) (Left M request d b c) (Ended M request d b c) (place request) d := by
  have hhere := left_self hb (c := c)
  refine always_ask_bind.mpr ⟨hhere, ?_⟩
  rintro d r rfl
  rcases r with code | _
  · exact ⟨hhere, trivial⟩
  dsimp only
  split
  · rename_i hkeep
    exact always_stream hb hc (.inl hkeep)
  · rename_i hkeep
    refine always_ask_bind.mpr ⟨hhere, fun d' r h => ?_⟩
    rcases r with code | _
    · obtain ⟨rfl, hdevice⟩ := h
      cases code with
      | EXDEV => exact always_stream hb hc (.inr (hdevice rfl))
      | _ => exact ⟨hhere, trivial⟩
    · have hrenamed : Renamed M request d d' := ⟨by simpa using hkeep, h⟩
      exact ⟨.renamed hrenamed, hrenamed⟩

/-- **What a move leaves behind** where it is cut, and where it ends: `b` is the partial it found,
`c` what its source reads as, when it can be read. -/
theorem always_move (hb : d (M.locate (partialOf request.destination)) = b.map .file)
    (hc : ∀ x, d.read M request.source = some x → x = c) (placingHoldMs : ℕ) :
    Always (Effect M) (Left M request d b c) (Ended M request d b c)
      (move placingHoldMs request) d := by
  have hI (b' : Option Bytes) : Left M request d b c (staged M request d b') := .staged b'
  have hself := staged_self hb
  -- The signal is asked once or twice before anything is touched.
  have hasked (p : Script (Except Failure FileMoveResult))
      (hp : Always (Effect M) (Left M request d b c) (Ended M request d b c) p d) :
      Always (Effect M) (Left M request d b c) (Ended M request d b c)
        (do if ← stopped request then
              return .ok (← aborted (partialOf request.destination) 0)
            else p) d := by
    have hstopped := always_stopped hI b
    rw [hself] at hstopped
    refine hstopped.bind ?_
    rintro isStopped _ ⟨rfl, hsignal⟩
    split
    · rename_i hyes
      have hanswer := always_aborted hI b 0
      rw [hself] at hanswer
      refine hanswer.bind ?_
      rintro r _ ⟨hr, b', rfl⟩
      exact ⟨hI _, ended_aborted hr (hsignal hyes) _⟩
    · exact hp
  refine hasked _ ?_
  split
  · exact hasked _ (always_place hb hc)
  · exact always_place hb hc

end Move

end MediaCenterSync.FileMove
