import MediaCenterSync.FileMove.Correct.Service

/-!
# Histories of calls to one destination

A partial is found again by the name of the destination alone, and its length is all that is
compared before it is appended to and committed.  A call therefore delivers its own source when
the partial it finds is absent, a beginning of that source or longer than it, and otherwise
commits the bytes of whatever left the partial there: `delivers_iff`, for each call of any
history.

A history is a sequence of completed calls to one destination, with anything between them: other
programs, calls that were cut, changes of the sources.
-/

namespace MediaCenterSync.FileMove

open Program (Exec)

/-- One completed call: the disk it found, what it was asked, what it answered, what it left. -/
structure Call where
  before : Disk UInt8
  request : FileMoveRequest
  result : Except Failure FileMoveResult
  after : Disk UInt8

inductive History (M : Mounts) (placingHoldMs : ℕ) (destination : FilePath) :
    Disk UInt8 → List Call → Disk UInt8 → Prop
  | done (d : Disk UInt8) : History M placingHoldMs destination d [] d
  | call {d d' d'' : Disk UInt8} {request : FileMoveRequest}
      {result : Except Failure FileMoveResult} {calls : List Call} :
      request.destination = destination →
      Exec (Effect M) d (move placingHoldMs request) d' result →
      History M placingHoldMs destination d' calls d'' →
      History M placingHoldMs destination d (⟨d, request, result, d'⟩ :: calls) d''
  | other {d d' d'' : Disk UInt8} {calls : List Call} :
      History M placingHoldMs destination d' calls d'' →
      History M placingHoldMs destination d calls d''

namespace Call

variable (M : Mounts) (call : Call)

/-- The call returned `COPIED` or `RENAMED`. -/
def Returned : Prop :=
  ∃ r, call.result = .ok r ∧ (r.outcome = .COPIED ∨ r.outcome = .RENAMED)

def Renames : Prop := call.request.keepSource = false ∧ SameDevice M call.request

/-- The partial the call finds is absent, a beginning of `content`, or longer than it. -/
def OwnPartial (content : Bytes) : Prop :=
  ∀ y, call.before (M.locate (partialOf call.request.destination)) = some (.file y) →
    y <+: content ∨ content.length < y.length

/-- The paths of the call do not get in each other's way: the partial is no link, nor a source
that is renamed; and where the source is to become a link, it is not the destination itself, and
the note beside the destination leads to neither of them. -/
structure Apart : Prop where
  partial_file : ∀ t, call.before (M.locate (partialOf call.request.destination)) ≠ some (.link t)
  source_file : call.Renames M → ∀ t, call.before (M.locate call.request.source) ≠ some (.link t)
  linked : call.request.keepSource = true → call.request.linkSource = true →
    M.locate call.request.source ≠ M.locate call.request.destination ∧
    M.locate (temporaryOf call.request.source) ≠ M.locate call.request.destination ∧
    ∀ q ∈ call.before.trail M (maxLinks + 1) (M.locate (witnessOf call.request.destination)),
      q ≠ M.locate call.request.source ∧ q ≠ M.locate call.request.destination

end Call

/-! ### One call -/

section

variable {M : Mounts} {request : FileMoveRequest} {d d' : Disk UInt8} {x : Bytes}

theorem partial_ne_destination :
    M.locate (partialOf request.destination) ≠ M.locate request.destination := by
  intro h
  have := congrArg (fun p => p.name.length) h
  simp [partialOf, withSuffix, PARTIAL_SUFFIX] at this

theorem ne_of_not_sameDevice (h : ¬ SameDevice M request) :
    M.locate request.source ≠ M.locate request.destination :=
  fun heq => h (congrArg M.device (congrArg FilePath.dir heq))

@[simp]
theorem committed_destination :
    committed M request d x (M.locate request.destination) = some (.file x) :=
  Disk.set_here ..

theorem committed_away {q : FilePath} (hP : q ≠ M.locate (partialOf request.destination))
    (hD : q ≠ M.locate request.destination) : committed M request d x q = d q := by
  rw [committed, Disk.set_away hD, Disk.set_away hP]

/-- The note goes where it went before the call, which is no end of the move. -/
theorem lookup_witness (hplain : ∀ t, d (M.locate (partialOf request.destination)) ≠ some (.link t))
    (htrail : ∀ q ∈ d.trail M (maxLinks + 1) (M.locate (witnessOf request.destination)),
      q ≠ M.locate request.source ∧ q ≠ M.locate request.destination)
    {e : Option (Entry UInt8)} {w : FilePath}
    (h : ((committed M request d x).set (M.locate request.source) e).lookup M
      (witnessOf request.destination) = some w) :
    w ≠ M.locate request.source ∧ w ≠ M.locate request.destination := by
  have hsame : d.lookup M (witnessOf request.destination) = some w := by
    rw [← h]
    refine (Disk.final_congr fun q hq t => ?_).symm
    obtain ⟨hS, hD⟩ := htrail q hq
    rw [Disk.set_away hS]
    by_cases hP : q = M.locate (partialOf request.destination)
    · subst hP
      rw [committed, Disk.set_away hD, Disk.set_here]
      exact ⟨fun h => by simp at h, fun h => absurd h (hplain t)⟩
    · rw [committed_away hP hD]
  exact htrail w (Disk.mem_trail_of_final hsame)

/-- **What follows a commit leaves the destination alone.** -/
theorem Settled.destination (h : Settled M request (committed M request d x) d')
    (hdevice : request.keepSource = false → ¬ SameDevice M request)
    (hplain : ∀ t, d (M.locate (partialOf request.destination)) ≠ some (.link t))
    (hlinked : request.keepSource = true → request.linkSource = true →
      M.locate request.source ≠ M.locate request.destination ∧
      M.locate (temporaryOf request.source) ≠ M.locate request.destination ∧
      ∀ q ∈ d.trail M (maxLinks + 1) (M.locate (witnessOf request.destination)),
        q ≠ M.locate request.source ∧ q ≠ M.locate request.destination) :
    d' (M.locate request.destination) = some (.file x) := by
  cases h with
  | here => exact committed_destination
  | unlinked hkeep =>
    rw [Disk.set_away (ne_of_not_sameDevice (hdevice hkeep)).symm, committed_destination]
  | swept hkeep hlink =>
    rw [Disk.set_away (hlinked hkeep hlink).2.1.symm, committed_destination]
  | built hkeep hlink =>
    rw [Disk.set_away (hlinked hkeep hlink).2.1.symm, committed_destination]
  | linked hkeep hlink =>
    rw [Disk.set_away (hlinked hkeep hlink).1.symm, committed_destination]
  | noted hkeep hlink _ heq hw =>
    subst heq
    obtain ⟨hne, -, htrail⟩ := hlinked hkeep hlink
    rw [Disk.set_away (lookup_witness hplain htrail hw).2.symm, Disk.set_away hne.symm,
      committed_destination]

theorem exists_content {e : Option (Entry UInt8)} (h : ∀ t, e ≠ some (.link t)) :
    ∃ b : Option Bytes, e = b.map .file := by
  cases e with
  | none => exact ⟨none, rfl⟩
  | some entry =>
    cases entry with
    | file y => exact ⟨some y, rfl⟩
    | link t => exact absurd rfl (h t)

end

/-- **One call delivers its source** exactly when it renames it, or finds no partial of another
source. -/
theorem delivers_of_exec {M : Mounts} {placingHoldMs : ℕ} {call : Call}
    (h : Exec (Effect M) call.before (move placingHoldMs call.request) call.after call.result)
    (hapart : call.Apart M) (hreturned : call.Returned) {content : Bytes}
    (hcontent : call.before.read M call.request.source = some content) :
    call.after.read M call.request.destination = some content ↔
      call.Renames M ∨ call.OwnPartial M content := by
  obtain ⟨⟨outcome, n, p⟩, hresult, houtcome⟩ := hreturned
  obtain ⟨b, hb⟩ := exists_content hapart.partial_file
  have hended :=
    (always_move hb (fun x hx => by simpa [hcontent] using hx.symm) placingHoldMs).exec h
  rw [hresult] at hended
  rcases houtcome with rfl | rfl
  · obtain ⟨hcopy, hsettled⟩ := hended
    have hnot : ¬ call.Renames M := by
      rintro ⟨hkeep, hdevice⟩
      rcases hcopy with hk | hd
      · simp [hkeep] at hk
      · exact hd hdevice
    have hdestination := hsettled.destination
      (fun hk hd => hnot ⟨hk, hd⟩) hapart.partial_file hapart.linked
    rw [Disk.read_of_file hdestination, Option.some.injEq, assembled_eq_iff, or_iff_right hnot]
    refine forall_congr' fun y => imp_congr_left ?_
    rw [hb]
    cases b <;> simp
  · obtain ⟨hkeep, hdevice, entry, hentry, hafter⟩ := hended
    refine iff_of_true ?_ (.inl ⟨hkeep, hdevice⟩)
    cases entry with
    | link t => exact absurd hentry (hapart.source_file ⟨hkeep, hdevice⟩ t)
    | file x =>
      obtain rfl : content = x := by
        simpa [Disk.read_of_file hentry] using hcontent.symm
      rw [hafter]
      exact Disk.read_of_file (Disk.set_here ..)

/-! ### All calls -/

theorem History.exec {M : Mounts} {placingHoldMs : ℕ} {destination : FilePath} {d d' : Disk UInt8}
    {calls : List Call} (h : History M placingHoldMs destination d calls d') :
    ∀ call ∈ calls, call.request.destination = destination ∧
      Exec (Effect M) call.before (move placingHoldMs call.request) call.after call.result := by
  induction h with
  | done d => exact fun _ h => nomatch h
  | call hdestination hexec _ ih =>
    intro call hcall
    rcases List.mem_cons.mp hcall with rfl | hcall
    · exact ⟨hdestination, hexec⟩
    · exact ih call hcall
  | other _ ih => exact ih

/-- **What a history of calls delivers.**  Whatever happened before it, a call that returns
`COPIED` or `RENAMED` leaves its own source at the destination if and only if it renames, or the
partial it found is absent, a beginning of its source, or longer than it. -/
theorem delivers_iff {M : Mounts} {placingHoldMs : ℕ} {destination : FilePath} {d d' : Disk UInt8}
    {calls : List Call} (h : History M placingHoldMs destination d calls d') :
    ∀ call ∈ calls, call.Apart M → call.Returned → ∀ content,
      call.before.read M call.request.source = some content →
      (call.after.read M destination = some content ↔
        call.Renames M ∨ call.OwnPartial M content) := by
  intro call hcall hapart hreturned content hcontent
  obtain ⟨rfl, hexec⟩ := h.exec call hcall
  exact delivers_of_exec hexec hapart hreturned hcontent

/-! ### Two sources, one destination -/

def oneDevice : Mounts := ⟨id, fun _ => 0⟩

def twoSources : Disk UInt8 := fun p =>
  if p = ⟨["inbox"], "a"⟩ then some (.file [1, 1])
  else if p = ⟨["inbox"], "b"⟩ then some (.file [2, 2]) else none

/-- A copy of one of them to one destination, a relative link in its place. -/
def copyOf (name : String) : FileMoveRequest :=
  { source := ⟨["inbox"], name⟩, destination := ⟨["library"], "film"⟩, signal := true,
    keepSource := true, linkSource := true, absoluteLink := false }

/-- The copy of `a`, paused after its first byte. -/
def pausedCall : Call where
  before := twoSources
  request := copyOf "a"
  result := .ok ⟨.PAUSED, 1, some (partialOf ⟨["library"], "film"⟩)⟩
  after := staged oneDevice (copyOf "a") twoSources (some [1])

/-- The copy of `b` after that; its link fails. -/
def resumedCall : Call where
  before := pausedCall.after
  request := copyOf "b"
  result := .ok ⟨.COPIED, 1, none⟩
  after := committed oneDevice (copyOf "b") pausedCall.after [1, 2]

theorem pausedCall_exec : Exec (Effect oneDevice) pausedCall.before (move 0 pausedCall.request)
    pausedCall.after pausedCall.result := by
  let d := staged oneDevice (copyOf "a") twoSources
  refine .perform twoSources false rfl ?_
  refine .perform twoSources (.ok ()) rfl ?_
  refine .perform twoSources (.ok 2) ⟨rfl, [1, 1], rfl, rfl⟩ ?_
  refine .perform twoSources (.error .ENOENT) rfl ?_
  refine .perform twoSources (.error .ENOENT) rfl ?_
  refine .perform twoSources ⟨[[1], [1]], none⟩ ⟨rfl, by decide, ⟨[], rfl⟩, fun _ => rfl⟩ ?_
  refine .perform (d (some [])) (.ok ()) ⟨_, rfl, rfl⟩ ?_
  refine .perform (d (some [])) false rfl ?_
  refine .perform (d (some [1])) (.ok ()) ⟨_, _, rfl, rfl, (Disk.set_set ..).symm⟩ ?_
  refine .perform (d (some [1])) true rfl ?_
  refine .perform (d (some [1])) (.ok ()) rfl ?_
  refine .perform (d (some [1])) false rfl ?_
  exact .pure _ _

theorem resumedCall_exec : Exec (Effect oneDevice) resumedCall.before
    (move 0 resumedCall.request) resumedCall.after resumedCall.result := by
  let d := staged oneDevice (copyOf "a") twoSources
  refine .perform (d (some [1])) false rfl ?_
  refine .perform (d (some [1])) (.ok ()) rfl ?_
  refine .perform (d (some [1])) (.ok 2) ⟨rfl, [2, 2], rfl, rfl⟩ ?_
  refine .perform (d (some [1])) (.ok 1) ⟨rfl, [1], rfl, rfl⟩ ?_
  refine .perform (d (some [1])) (.error .ENOENT) rfl ?_
  refine .perform (d (some [1])) ⟨[[2]], none⟩ ⟨rfl, by decide, ⟨[], rfl⟩, fun _ => rfl⟩ ?_
  refine .perform (d (some [1])) (.ok ()) ⟨_, rfl, (Disk.set_eq_self rfl).symm⟩ ?_
  refine .perform (d (some [1])) false rfl ?_
  refine .perform (d (some [1, 2])) (.ok ()) ⟨_, _, rfl, rfl, (Disk.set_set ..).symm⟩ ?_
  refine .perform (d (some [1, 2])) (.ok ()) rfl ?_
  refine .perform (d (some [1, 2])) (.ok 2) ⟨rfl, [1, 2], rfl, rfl⟩ ?_
  refine .perform resumedCall.after (.ok ()) ⟨rfl, .file [1, 2], rfl, ?_⟩ ?_
  · exact congrArg (fun e => Disk.set e _ _) ((Disk.set_set ..).trans (Disk.set_set ..).symm)
  refine .perform resumedCall.after (.error .ENOENT) rfl ?_
  refine .perform resumedCall.after (.error .ENOENT) rfl ?_
  exact .pure _ _

theorem twoCalls : History oneDevice 0 ⟨["library"], "film"⟩ twoSources [pausedCall, resumedCall]
    resumedCall.after :=
  .call rfl pausedCall_exec (.call rfl resumedCall_exec (.done _))

theorem delivers_iff_resumedCall :
    resumedCall.after.read oneDevice ⟨["library"], "film"⟩ = some [2, 2] ↔
      resumedCall.Renames oneDevice ∨ resumedCall.OwnPartial oneDevice [2, 2] := by
  refine delivers_iff twoCalls resumedCall (by simp) ⟨?_, ?_, ?_⟩ ⟨_, rfl, .inl rfl⟩ _ rfl
  · exact fun t h => nomatch h
  · exact fun h => nomatch h.1
  · exact fun _ _ => ⟨by decide, by decide, by decide⟩

/-- The second call resumes from the bytes of the first one's source. -/
theorem delivers_fails : ¬ ∀ (M : Mounts) (placingHoldMs : ℕ) (destination : FilePath)
    (d d' : Disk UInt8) (calls : List Call), History M placingHoldMs destination d calls d' →
    ∀ call ∈ calls, call.Returned → ∀ content,
      call.before.read M call.request.source = some content →
      call.after.read M destination = some content := by
  intro h
  have hread := h _ _ _ _ _ _ twoCalls resumedCall (by simp) ⟨_, rfl, .inl rfl⟩ [2, 2] rfl
  have hmixed : resumedCall.after.read oneDevice ⟨["library"], "film"⟩ = some [1, 2] := rfl
  rw [hmixed] at hread
  exact absurd hread (by decide)

end MediaCenterSync.FileMove
