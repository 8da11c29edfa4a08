import MediaCenterSync.FileMove.Correct.History

/-!
# A move that is cut

Wherever a move stops, because an operation failed or the process ended, the content of its source
is readable at the source or at the destination, the destination holds no part of it, and a source
that was to be kept reads as before (`Recoverable`).  For a move that leaves no link behind this
needs nothing but the disk the move starts from (`Fresh`).

A link in the source's place keeps the content readable when it leads to the destination, which
an absolute link always does, and a relative one wherever no directory is reached through a link
(`follow_relative`); and when the note beside the destination is not written through a link to
either end (`LinkSafe`).  No link is made where the path it is built at is taken.
-/

namespace MediaCenterSync.FileMove

open Program (Visits)

section

variable (M : Mounts) (request : FileMoveRequest) (content : Bytes)

/-- What a cut move has to leave behind. -/
structure Recoverable (d : Disk UInt8) : Prop where
  readable : d.read M request.source = some content ∨ d.read M request.destination = some content
  whole : ∀ y, d.read M request.destination = some y → ¬ (y <+: content ∧ y ≠ content)
  kept : request.keepSource = true → d.read M request.source = some content

/-- The disk a move starts from: the source is a file, the destination is absent, and the partial
is absent or a beginning of the source that an earlier call left. -/
structure Fresh (d : Disk UInt8) : Prop where
  source_file : d (M.locate request.source) = some (.file content)
  destination_absent : d (M.locate request.destination) = none
  partial_apart : M.locate (partialOf request.destination) ≠ M.locate request.source
  partial_own : ∀ entry, d (M.locate (partialOf request.destination)) = some entry →
    ∃ y, entry = .file y ∧ y <+: content

/-- The link that replaces a kept source leads to the destination, and the note beside the
destination is not written through a link to either. -/
def LinkSafe (d : Disk UInt8) : Prop :=
  request.keepSource = true → request.linkSource = true →
    d (M.locate (temporaryOf request.source)) = none →
    (request.absoluteLink = true ∨
      M.follow (M.locate request.source) (relative request.source.dir request.destination) =
        M.locate request.destination) ∧
    ∀ q ∈ d.trail M (maxLinks + 1) (M.locate (witnessOf request.destination)),
      q ≠ M.locate request.source ∧ q ≠ M.locate request.destination

end

variable {M : Mounts} {request : FileMoveRequest} {content : Bytes} {d d' : Disk UInt8}

/-! ### Links -/

theorem commonLength_le : ∀ start dir : List String, commonLength start dir ≤ start.length
  | [], _ => by simp [commonLength]
  | a :: as, [] => by simp [commonLength]
  | a :: as, b :: bs => by
    rw [commonLength]
    split
    · have := commonLength_le as bs
      simpa using this
    · simp

theorem take_commonLength : ∀ start dir : List String,
    start.take (commonLength start dir) = dir.take (commonLength start dir)
  | [], _ => by simp [commonLength]
  | a :: as, [] => by simp [commonLength]
  | a :: as, b :: bs => by
    rw [commonLength]
    split
    · rename_i h
      rw [h, List.take_succ_cons, List.take_succ_cons, take_commonLength as bs]
    · rfl

/-- **A relative link leads to its path** where no directory is reached through a link. -/
theorem follow_relative (hM : M.Plain) {source path : FilePath} (hup : ".." ∉ path.dir) :
    M.follow (M.locate source) (relative source.dir path) = M.locate path := by
  have hle := commonLength_le source.dir path.dir
  have hwalk : M.walk source.dir (List.replicate (source.dir.length -
      commonLength source.dir path.dir) ".." ++ path.dir.drop (commonLength source.dir path.dir))
        = path.dir := by
    rw [M.walk_append, M.walk_up, hM.walk_down _ _ (fun h => hup (List.mem_of_mem_drop h)),
      Nat.sub_sub_self hle, take_commonLength, List.take_append_drop]
  simp only [relative, Mounts.follow, Mounts.locate, hM _, hwalk]

theorem LinkSafe.follow (h : LinkSafe M request d) (hkeep : request.keepSource = true)
    (hlink : request.linkSource = true)
    (habsent : d (M.locate (temporaryOf request.source)) = none) :
    M.follow (M.locate request.source) (linkTargetOf request) = M.locate request.destination := by
  rw [linkTargetOf]
  split
  · rfl
  · rename_i habsolute
    exact (h hkeep hlink habsent).1.resolve_left habsolute

theorem temporary_ne_partialOf :
    M.locate (temporaryOf request.source) ≠ M.locate (partialOf request.destination) := by
  intro h
  have hname : request.source.name ++ LINK_SUFFIX = request.destination.name ++ PARTIAL_SUFFIX :=
    congrArg FilePath.name h
  have hchars : request.source.name.toList ++ LINK_SUFFIX.toList =
      request.destination.name.toList ++ PARTIAL_SUFFIX.toList := by
    rw [← String.toList_append, hname, String.toList_append]
  exact absurd (List.append_inj_right' hchars (by decide)) (by decide)

/-- A commit does not free the path a link is built at. -/
theorem temporary_absent
    (h : committed M request d content (M.locate (temporaryOf request.source)) = none) :
    d (M.locate (temporaryOf request.source)) = none := by
  have hne : M.locate (temporaryOf request.source) ≠ M.locate request.destination := by
    intro heq
    rw [heq, committed_destination] at h
    cases h
  rwa [committed_away temporary_ne_partialOf hne] at h

/-! ### The disks a move leaves behind -/

theorem recoverable_of_destination
    (hdestination : d' (M.locate request.destination) = some (.file content))
    (hkept : request.keepSource = true → d'.read M request.source = some content) :
    Recoverable M request content d' := by
  have hread := Disk.read_of_file hdestination
  refine ⟨.inr hread, fun y hy hpart => hpart.2 ?_, hkept⟩
  simpa [hread] using hy.symm

namespace Fresh

variable (h : Fresh M request content d)

include h

theorem source_ne_destination : M.locate request.source ≠ M.locate request.destination := by
  intro heq
  have := h.source_file
  rw [heq, h.destination_absent] at this
  cases this

theorem exists_assembled : ∃ b : Option Bytes,
    d (M.locate (partialOf request.destination)) = b.map .file ∧ assembled b content = content := by
  cases hentry : d (M.locate (partialOf request.destination)) with
  | none => exact ⟨none, rfl, rfl⟩
  | some entry =>
    obtain ⟨y, rfl, hy⟩ := h.partial_own entry hentry
    refine ⟨some y, rfl, assembled_eq_iff.mpr ?_⟩
    rintro _ ⟨⟩
    exact .inl hy

theorem recoverable_staged (b : Option Bytes) :
    Recoverable M request content (staged M request d b) := by
  have hsource : (staged M request d b).read M request.source = some content :=
    Disk.read_of_file (by rw [staged, Disk.set_away h.partial_apart.symm, h.source_file])
  have hdestination : (staged M request d b).read M request.destination = none :=
    Disk.read_of_absent (by
      rw [staged, Disk.set_away partial_ne_destination.symm, h.destination_absent])
  exact ⟨.inl hsource, fun y hy => by simp [hdestination] at hy, fun _ => hsource⟩

theorem recoverable_renamed (hrenamed : Renamed M request d d') :
    Recoverable M request content d' := by
  obtain ⟨hkeep, -, entry, hentry, rfl⟩ := hrenamed
  obtain rfl : entry = .file content := by simpa [h.source_file] using hentry.symm
  exact recoverable_of_destination (Disk.set_here ..) fun hk => by simp [hkeep] at hk

theorem committed_source :
    committed M request d content (M.locate request.source) = some (.file content) := by
  rw [committed_away h.partial_apart.symm h.source_ne_destination, h.source_file]

/-- After the commit: the source is there, or gone because it was not to be kept, or a link. -/
theorem recoverable_settled (hsafe : LinkSafe M request d)
    (hsettled : Settled M request (committed M request d content) d') :
    Recoverable M request content d' := by
  have hne := h.source_ne_destination
  have hsource := h.committed_source
  cases hsettled with
  | here => exact recoverable_of_destination committed_destination fun _ =>
      Disk.read_of_file hsource
  | unlinked hkeep =>
    refine recoverable_of_destination ?_ fun hk => by simp [hkeep] at hk
    rw [Disk.set_away hne.symm, committed_destination]
  | swept =>
    -- The temporary may be the destination itself: it goes, and the source stays.
    have hread : ((committed M request d content).set (M.locate (temporaryOf request.source))
        none).read M request.source = some content :=
      Disk.read_of_file (by rw [Disk.set_away (temporary_ne_source M request).symm, hsource])
    refine ⟨.inl hread, fun y hy hpart => hpart.2 ?_, fun _ => hread⟩
    by_cases htemp : M.locate request.destination = M.locate (temporaryOf request.source)
    · rw [Disk.read_of_absent (by rw [htemp, Disk.set_here])] at hy
      cases hy
    · rw [Disk.read_of_file (by rw [Disk.set_away htemp, committed_destination])] at hy
      exact (Option.some.inj hy).symm
  | built _ _ habsent =>
    have htemp : M.locate request.destination ≠ M.locate (temporaryOf request.source) := by
      intro heq
      rw [← heq, committed_destination] at habsent
      cases habsent
    refine recoverable_of_destination ?_ fun _ => Disk.read_of_file ?_
    · rw [Disk.set_away htemp, committed_destination]
    · rw [Disk.set_away (temporary_ne_source M request).symm, hsource]
  | linked hkeep hlink habsent =>
    have hdestination : (committed M request d content).set (M.locate request.source)
        (some (.link (linkTargetOf request))) (M.locate request.destination) =
          some (.file content) := by
      rw [Disk.set_away hne.symm, committed_destination]
    refine recoverable_of_destination hdestination fun _ => ?_
    exact Disk.read_of_link (Disk.set_here ..)
      (by rw [hsafe.follow hkeep hlink (temporary_absent habsent), hdestination])
  | @noted _ w note hkeep hlink habsent heq hw =>
    subst heq
    have hplain (t : LinkTarget) :
        d (M.locate (partialOf request.destination)) ≠ some (.link t) := by
      intro ht
      obtain ⟨y, hy, -⟩ := h.partial_own _ ht
      cases hy
    obtain ⟨hwS, hwD⟩ := lookup_witness hplain
      (hsafe hkeep hlink (temporary_absent habsent)).2 hw
    have haway {q : FilePath} (hq : q ≠ w) : ((committed M request d content).set
        (M.locate request.source) (some (.link (linkTargetOf request)))).set w
          (some (.file note)) q = (committed M request d content).set (M.locate request.source)
            (some (.link (linkTargetOf request))) q := Disk.set_away hq _
    have hdestination := (haway hwD.symm).trans ((Disk.set_away hne.symm _).trans
      committed_destination)
    refine recoverable_of_destination hdestination fun _ => ?_
    have hlinked := (haway hwS.symm).trans (Disk.set_here ..)
    exact Disk.read_of_link hlinked
      (by rw [hsafe.follow hkeep hlink (temporary_absent habsent), hdestination])

end Fresh

/-- **Crash safety**: whichever operation of a move fails or is the last one, what the move has
left behind is recoverable. -/
theorem recoverable_of_linkSafe {placingHoldMs : ℕ} (h : Fresh M request content d)
    (hsafe : LinkSafe M request d)
    (hcut : Visits (Effect M) d (move placingHoldMs request) d') :
    Recoverable M request content d' := by
  obtain ⟨b, hb, hassembled⟩ := h.exists_assembled
  have hread := Disk.read_of_file h.source_file
  have hleft := (always_move hb (fun x hx => by simpa [hread] using hx.symm)
    placingHoldMs).visits hcut
  cases hleft with
  | staged b' => exact h.recoverable_staged b'
  | renamed hrenamed => exact h.recoverable_renamed hrenamed
  | committed hcommitted =>
    rw [Committed, hassembled] at hcommitted
    exact h.recoverable_settled hsafe hcommitted.2

theorem recoverable_of_linkSafe_pausedCall :
    Recoverable oneDevice (copyOf "a") [1, 1] pausedCall.after := by
  refine recoverable_of_linkSafe (d := twoSources) ⟨rfl, rfl, by decide, fun _ h => nomatch h⟩ ?_
    pausedCall_exec.visits
  exact fun _ _ _ => ⟨.inr (follow_relative (fun _ => rfl) (by decide)), by decide⟩

/-! ### A source behind a linked directory -/

def linkedInbox : Mounts :=
  ⟨fun dir => if dir = ["inbox"] then ["srv", "data", "inbox"] else dir, fun _ => 0⟩

def oneSource : Disk UInt8 := fun p =>
  if p = ⟨["srv", "data", "inbox"], "a"⟩ then some (.file [1]) else none

/-- Its library copy, and the link in its place. -/
def misled : Disk UInt8 :=
  (committed linkedInbox (copyOf "a") oneSource [1]).set (linkedInbox.locate (copyOf "a").source)
    (some (.link (.relative ["..", "library"] "film")))

theorem misled_visited :
    Visits (Effect linkedInbox) oneSource (move 0 (copyOf "a")) misled := by
  let d := staged linkedInbox (copyOf "a") oneSource
  let d' := committed linkedInbox (copyOf "a") oneSource [1]
  let d'' := d'.set ⟨["srv", "data", "inbox"], "a.mcs-link"⟩
    (some (.link (.relative ["..", "library"] "film")))
  refine .later oneSource false rfl ?_
  refine .later oneSource (.ok ()) rfl ?_
  refine .later oneSource (.ok 1) ⟨rfl, [1], rfl, rfl⟩ ?_
  refine .later oneSource (.error .ENOENT) rfl ?_
  refine .later oneSource (.error .ENOENT) rfl ?_
  refine .later oneSource ⟨[[1]], none⟩ ⟨rfl, by decide, ⟨[], rfl⟩, fun _ => rfl⟩ ?_
  refine .later (d (some [])) (.ok ()) ⟨_, rfl, rfl⟩ ?_
  refine .later (d (some [])) false rfl ?_
  refine .later (d (some [1])) (.ok ()) ⟨_, _, rfl, rfl, (Disk.set_set ..).symm⟩ ?_
  refine .later (d (some [1])) (.ok ()) rfl ?_
  refine .later (d (some [1])) (.ok 1) ⟨rfl, [1], rfl, rfl⟩ ?_
  refine .later d' (.ok ()) ⟨rfl, .file [1], rfl, ?_⟩ ?_
  · exact congrArg (fun e => Disk.set e _ _) (Disk.set_set ..).symm
  refine .later d' (.ok false) ⟨rfl, .file [1], rfl, rfl⟩ ?_
  refine .later d'' (.ok ()) ⟨rfl, rfl⟩ ?_
  refine .later misled (.ok ()) ⟨rfl, .link (.relative ["..", "library"] "film"), rfl, ?_⟩ ?_
  · refine congrArg (fun e => Disk.set e _ _) ?_
    exact ((Disk.set_set ..).trans (Disk.set_eq_self rfl)).symm
  exact .here _ _

/-- The relative link is walked from where the inbox is kept, and leads nowhere. -/
theorem recoverable_fails : ¬ ∀ (M : Mounts) (placingHoldMs : ℕ) (request : FileMoveRequest)
    (content : Bytes) (d d' : Disk UInt8), Fresh M request content d →
    Visits (Effect M) d (move placingHoldMs request) d' → Recoverable M request content d' := by
  intro h
  have hfresh : Fresh linkedInbox (copyOf "a") [1] oneSource :=
    ⟨rfl, rfl, by decide, fun _ h => nomatch h⟩
  have hkept := (h _ _ _ _ _ _ hfresh misled_visited).kept rfl
  exact absurd hkept (by decide)

end MediaCenterSync.FileMove
