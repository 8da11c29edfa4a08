import MediaCenterSync.FileMove.Correct.Crash
import MediaCenterSync.TransferManager.Destination

/-!
# Redirecting a run

When `changeJobDestination` succeeds, every file that was placed should be at its row's new path,
no other file should be gone, and the rows should name distinct paths (`NoFileLost`).  The new
paths are probed against the disk, and not against each other: `noFileLost_iff` says that the
property holds exactly when the computed paths are pairwise distinct.

A move touches its two ends, and its partial when it copies (`Footprint`).  The run lemma
`sendAll_spec` needs the footprints to be disjoint, and then every move finds its places as the
plan found them.  For distinct computed paths they are: a source holds a file, where a probed path
holds none.  The rest is `Orderly`: the files are where the rows say, no directory is reached by
two of the paths, and the partials are not mistaken for anything else.
-/

namespace MediaCenterSync.TransferManager

open FileMove TransferEngine
open Program (Always Exec always_ask_bind exec_bind)

variable {M : Mounts} {d d' : Disk UInt8}

/-! ### One move -/

theorem renamed_of_exec {request : FileMoveRequest} {placingHoldMs : ℕ} {r : FileMoveResult}
    (h : Exec (Effect M) d (move placingHoldMs request) d' (.ok r))
    (hsignal : request.signal = false)
    (hkeep : request.keepSource = false) (hdevice : SameDevice M request) :
    Renamed M request d d' := by
  have hplace : Always (Effect M) (fun _ => True)
      (fun r d' => ∀ result, r = .ok result → Renamed M request d d') (place request) d := by
    refine always_ask_bind.mpr ⟨trivial, ?_⟩
    rintro d r rfl
    rcases r with code | _
    · exact ⟨trivial, fun _ h => nomatch h⟩
    dsimp only
    rw [if_neg (by simp [hkeep])]
    refine always_ask_bind.mpr ⟨trivial, fun d' r h => ?_⟩
    rcases r with code | _
    · cases code with
      | EXDEV => exact absurd hdevice (h.2 rfl)
      | _ => exact ⟨trivial, fun _ h => nomatch h⟩
    · exact ⟨trivial, fun _ _ => ⟨hkeep, h⟩⟩
  have hmove : Always (Effect M) (fun _ => True)
      (fun r d' => ∀ result, r = .ok result → Renamed M request d d')
      (move placingHoldMs request) d := by
    unfold move stopped
    simp only [hsignal]
    by_cases hhold : placingHoldMs > 0
    · rw [if_pos hhold]
      exact hplace
    · rw [if_neg hhold]
      exact hplace
  exact hmove.exec h r rfl

/-- What a finished move leaves of the disk it found, and where its file is. -/
theorem moved_of_exec {request : FileMoveRequest} {placingHoldMs : ℕ} {r : FileMoveResult}
    (h : Exec (Effect M) d (move placingHoldMs request) d' (.ok r))
    (hsignal : request.signal = false)
    (hkeep : request.keepSource = false) {content : Bytes}
    (hsource : d (M.locate request.source) = some (.file content))
    (hne : M.locate request.source ≠ M.locate request.destination)
    (hplain : ¬ SameDevice M request →
      ∀ t, d (M.locate (partialOf request.destination)) ≠ some (.link t))
    (hown : ¬ SameDevice M request →
      ∀ y, d (M.locate (partialOf request.destination)) = some (.file y) →
        y <+: content ∨ content.length < y.length) :
    d' (M.locate request.destination) = some (.file content) ∧
      ∀ q, q ≠ M.locate request.source → q ≠ M.locate request.destination →
        (¬ SameDevice M request → q ≠ M.locate (partialOf request.destination)) → d' q = d q := by
  by_cases hdevice : SameDevice M request
  · obtain ⟨-, -, entry, hentry, rfl⟩ := renamed_of_exec h hsignal hkeep hdevice
    obtain rfl : entry = .file content := by simpa [hsource] using hentry.symm
    refine ⟨Disk.set_here .., fun q hS hD _ => ?_⟩
    rw [Disk.set_away hD, Disk.set_away hS]
  · obtain ⟨b, hb⟩ := exists_content (hplain hdevice)
    have hread := Disk.read_of_file hsource
    have hended :=
      (always_move hb (fun x hx => by simpa [hread] using hx.symm) placingHoldMs).exec h
    have hcommitted : Committed M request d b content d' := by
      obtain ⟨outcome, n, p⟩ := r
      cases outcome with
      | RENAMED => exact absurd hended.2.1 hdevice
      | COPIED => exact hended
      | PAUSED => exact absurd (hsignal.symm.trans hended) Bool.false_ne_true
      | CANCELLED => exact absurd (hsignal.symm.trans hended) Bool.false_ne_true
    have hassembled : assembled b content = content :=
      assembled_eq_iff.mpr fun y hy => hown hdevice y (by rw [hb, hy]; rfl)
    obtain ⟨-, hsettled⟩ := hcommitted
    rw [hassembled] at hsettled
    cases hsettled with
    | here =>
      exact ⟨committed_destination, fun q _ hD hP => committed_away (hP hdevice) hD⟩
    | unlinked =>
      refine ⟨by rw [Disk.set_away hne.symm, committed_destination], fun q hS hD hP => ?_⟩
      rw [Disk.set_away hS, committed_away (hP hdevice) hD]
    | swept hk => simp [hkeep] at hk
    | built hk => simp [hkeep] at hk
    | linked hk => simp [hkeep] at hk
    | noted hk => simp [hkeep] at hk

/-! ### Footprints -/

variable (M) (gateway : Gateway) (library : Library) (folder : Option Dir)

/-- A transfer whose file is copied to `path`, through a partial. -/
def Copies (transfer : Transfer) (path : FilePath) : Prop :=
  ¬ SameDevice M (moveRequest gateway transfer path)

/-- The places that belong to one transfer of a plan, when it is done: where its file is, and those
its move touches. -/
def Footprint (one : Transfer × Option FilePath) (q : FilePath) : Prop :=
  one.1.state = .DONE ∧ (q = M.locate one.1.targetPath ∨
    ∃ path, one.2 = some path ∧ (q = M.locate path ∨
      Copies M gateway one.1 path ∧ q = M.locate (partialOf path)))

def endOf (one : Transfer × Option FilePath) : FilePath := one.2.getD one.1.targetPath

/-- A done transfer is ready to be moved: its file is in its place, the path it is sent to is
another place, and the partial a copy would find is its own. -/
structure Ready (one : Transfer × Option FilePath) (d : Disk UInt8) : Prop where
  placed : ∃ content, d (M.locate one.1.targetPath) = some (.file content) ∧
    ∀ path, one.2 = some path → Copies M gateway one.1 path →
      (∀ t, d (M.locate (partialOf path)) ≠ some (.link t)) ∧
      ∀ y, d (M.locate (partialOf path)) = some (.file y) →
        y <+: content ∨ content.length < y.length
  away : ∀ path, one.2 = some path → M.locate one.1.targetPath ≠ M.locate path

variable {M gateway library}

theorem Ready.congr {one : Transfer × Option FilePath} (h : Ready M gateway one d)
    (hsame : ∀ q, Footprint M gateway one q → d' q = d q) (hdone : one.1.state = .DONE) :
    Ready M gateway one d' := by
  obtain ⟨⟨content, hsource, hpartials⟩, haway⟩ := h
  refine ⟨⟨content, ?_, fun path hpath hcopies => ?_⟩, haway⟩
  · rw [hsame _ ⟨hdone, .inl rfl⟩, hsource]
  · rw [hsame _ ⟨hdone, .inr ⟨path, hpath, .inr ⟨hcopies, rfl⟩⟩⟩]
    exact hpartials path hpath hcopies

def sentRow (library : Library) (one : Transfer × Option FilePath) : Transfer :=
  match one.2 with
  | none => one.1
  | some path => retarget library path one.1

theorem sendTo_inv {transfer row : Transfer} {path : FilePath}
    (h : Exec (Effect M) d (sendTo gateway library transfer path) d' (.ok row)) :
    row = retarget library path transfer ∧ (transfer.state ≠ .DONE → d' = d) ∧
      (transfer.state = .DONE → ∃ r, Exec (Effect M) d
        (move gateway.placingHoldMs (moveRequest gateway transfer path)) d' (.ok r)) := by
  unfold sendTo at h
  by_cases hdone : transfer.state = .DONE
  · rw [if_pos hdone] at h
    obtain ⟨e, r, hmove, hend⟩ := exec_bind.mp h
    rcases r with failure | r
    · cases hend
    · cases hend
      exact ⟨rfl, fun h => absurd hdone h, fun _ => ⟨r, hmove⟩⟩
  · rw [if_neg hdone] at h
    cases h
    exact ⟨rfl, fun _ => rfl, fun h => absurd h hdone⟩

theorem sendAll_cons {one : Transfer × Option FilePath}
    {planned : List (Transfer × Option FilePath)}
    {rows : List Transfer}
    (h : Exec (Effect M) d (sendAll gateway library (one :: planned)) d' (.ok rows)) :
    ∃ e rows', rows = sentRow library one :: rows' ∧
      Exec (Effect M) e (sendAll gateway library planned) d' (.ok rows') ∧
      (one.2 = none ∧ e = d ∨ ∃ path row, one.2 = some path ∧
        Exec (Effect M) d (sendTo gateway library one.1 path) e (.ok row)) := by
  obtain ⟨transfer, target⟩ := one
  cases target with
  | none =>
    obtain ⟨e, r, hplanned, hend⟩ := exec_bind.mp h
    rcases r with refusal | rows'
    · cases hend
    · cases hend
      exact ⟨d, rows', rfl, hplanned, .inl ⟨rfl, rfl⟩⟩
  | some path =>
    obtain ⟨e, r, hsend, hthen⟩ := exec_bind.mp h
    rcases r with refusal | row
    · cases hthen
    obtain ⟨e', r, hplanned, hend⟩ := exec_bind.mp hthen
    rcases r with refusal | rows'
    · cases hend
    · cases hend
      obtain ⟨rfl, -, -⟩ := sendTo_inv hsend
      exact ⟨e, rows', rfl, hplanned, .inr ⟨path, _, rfl, hsend⟩⟩

theorem sendAll_rows {planned : List (Transfer × Option FilePath)} {rows : List Transfer}
    (h : Exec (Effect M) d (sendAll gateway library planned) d' (.ok rows)) :
    rows = planned.map (sentRow library) := by
  induction planned generalizing d rows with
  | nil =>
    cases h
    rfl
  | cons one planned ih =>
    obtain ⟨e, rows', rfl, hexec, -⟩ := sendAll_cons h
    rw [ih hexec, List.map_cons]

/-- **Sending one transfer** leaves its file at its new path, and everything outside its footprint
alone. -/
theorem sendTo_spec {transfer row : Transfer} {path : FilePath}
    (h : Exec (Effect M) d (sendTo gateway library transfer path) d' (.ok row))
    (hready : transfer.state = .DONE → Ready M gateway (transfer, some path) d) :
    (transfer.state = .DONE → ∀ content, d (M.locate transfer.targetPath) = some (.file content) →
      d' (M.locate path) = some (.file content)) ∧
      ∀ q, ¬ Footprint M gateway (transfer, some path) q → d' q = d q := by
  obtain ⟨-, hsame, hmoved⟩ := sendTo_inv h
  by_cases hdone : transfer.state = .DONE
  · obtain ⟨r, hmove⟩ := hmoved hdone
    obtain ⟨⟨content, hsource, hpartials⟩, haway⟩ := hready hdone
    obtain ⟨hfile, hframe⟩ := moved_of_exec hmove rfl rfl hsource (haway path rfl)
      (fun hc => (hpartials path rfl hc).1) (fun hc => (hpartials path rfl hc).2)
    refine ⟨fun _ content' hcontent' => ?_, fun q hq => ?_⟩
    · obtain rfl : content = content' := by simpa [hsource] using hcontent'
      exact hfile
    · apply hframe q
      · exact fun hS => hq ⟨hdone, .inl hS⟩
      · exact fun hD => hq ⟨hdone, .inr ⟨path, rfl, .inl hD⟩⟩
      · exact fun hc hP => hq ⟨hdone, .inr ⟨path, rfl, .inr ⟨hc, hP⟩⟩⟩
  · obtain rfl := hsame hdone
    exact ⟨fun h => absurd h hdone, fun _ _ => rfl⟩

/-- **Sending a plan** with disjoint footprints: every file ends where its row says, and nothing
outside the footprints changes. -/
theorem sendAll_spec {planned : List (Transfer × Option FilePath)} {rows : List Transfer}
    (h : Exec (Effect M) d (sendAll gateway library planned) d' (.ok rows))
    (hready : ∀ one ∈ planned, one.1.state = .DONE → Ready M gateway one d)
    (hdisjoint : planned.Pairwise fun one other =>
      ∀ q, Footprint M gateway one q → ¬ Footprint M gateway other q) :
    (∀ one ∈ planned, one.1.state = .DONE → ∀ content,
      d (M.locate one.1.targetPath) = some (.file content) →
        d' (M.locate (endOf one)) = some (.file content)) ∧
      ∀ q, (∀ one ∈ planned, ¬ Footprint M gateway one q) → d' q = d q := by
  induction planned generalizing d rows with
  | nil =>
    cases h
    exact ⟨fun _ h => (nomatch h), fun _ _ => rfl⟩
  | cons one planned ih =>
    obtain ⟨hone, hrest⟩ := List.pairwise_cons.mp hdisjoint
    obtain ⟨e, rows', -, hexec, hfirst⟩ := sendAll_cons h
    -- The first transfer, sent or not: where its file is, and what is left alone.
    obtain ⟨hfile, hframe⟩ : (one.1.state = .DONE → ∀ content,
        d (M.locate one.1.targetPath) = some (.file content) →
          e (M.locate (endOf one)) = some (.file content)) ∧
        ∀ q, ¬ Footprint M gateway one q → e q = d q := by
      obtain ⟨transfer, target⟩ := one
      rcases hfirst with ⟨rfl, rfl⟩ | ⟨path, row, rfl, hsend⟩
      · exact ⟨fun _ content hc => hc, fun _ _ => rfl⟩
      · exact sendTo_spec hsend (hready _ List.mem_cons_self)
    have hend (hdone : one.1.state = .DONE) : Footprint M gateway one (M.locate (endOf one)) := by
      obtain ⟨transfer, target⟩ := one
      cases target with
      | none => exact ⟨hdone, .inl rfl⟩
      | some path => exact ⟨hdone, .inr ⟨path, rfl, .inl rfl⟩⟩
    -- The others are still ready.
    have hready' : ∀ other ∈ planned, other.1.state = .DONE → Ready M gateway other e := by
      intro other hother hdone
      refine (hready other (List.mem_cons_of_mem _ hother) hdone).congr (fun q hq => ?_) hdone
      exact hframe q fun hq' => hone other hother q hq' hq
    obtain ⟨hfiles, hframe'⟩ := ih hexec hready' hrest
    refine ⟨fun other hother hdone content hc => ?_, fun q hq => ?_⟩
    · rcases List.mem_cons.mp hother with rfl | hother
      · rw [hframe' _ fun later hlater => hone later hlater _ (hend hdone)]
        exact hfile hdone content hc
      · apply hfiles other hother hdone content
        rw [hframe _ fun hq => hone other hother _ hq ⟨hdone, .inl rfl⟩, hc]
    · rw [hframe' q fun other hother => hq other (List.mem_cons_of_mem _ hother),
        hframe q (hq one List.mem_cons_self)]

/-! ### The plan -/

/-- A transfer is already where it is being sent. -/
abbrev Stays (gateway : Gateway) (library : Library) (folder : Option Dir)
    (transfer : Transfer) : Prop :=
  destinationPath gateway library folder transfer = transfer.targetPath ∧
    transfer.targetLibraryId = some library.id

def plannedFor (gateway : Gateway) (library : Library) (folder : Option Dir) (transfer : Transfer) :
    Transfer × Option FilePath :=
  (transfer, if Stays gateway library folder transfer then none
    else some (destinationPath gateway library folder transfer))

variable {folder}

theorem endOf_plannedFor (transfer : Transfer) :
    endOf (plannedFor gateway library folder transfer) =
      destinationPath gateway library folder transfer := by
  unfold endOf plannedFor
  split
  · rename_i hstays
    exact hstays.1.symm
  · rfl

/-- Planning one transfer touches nothing, and found nothing at the path it sends to. -/
theorem planOne_spec {transfer : Transfer} {one : Transfer × Option FilePath}
    (h : Exec (Effect M) d (planOne gateway library folder transfer) d' (.ok one)) :
    d' = d ∧ one = plannedFor gateway library folder transfer ∧
      (¬ Stays gateway library folder transfer →
        d.read M (destinationPath gateway library folder transfer) = none) := by
  unfold planOne at h
  dsimp only at h
  unfold plannedFor
  by_cases hstays : Stays gateway library folder transfer
  · rw [if_pos hstays] at h ⊢
    cases h
    exact ⟨rfl, rfl, fun hmoves => absurd hstays hmoves⟩
  · rw [if_neg hstays] at h ⊢
    split at h
    · cases h
    cases h with
    | perform e found hw hend =>
      obtain ⟨rfl, rfl⟩ := hw
      cases hread : e.read M (destinationPath gateway library folder transfer) with
      | some content =>
        rw [hread] at hend
        cases hend
      | none =>
        rw [hread] at hend
        cases hend
        exact ⟨rfl, rfl, fun _ => rfl⟩

/-- A plan that is made touches nothing, and found nothing at the paths it sends to. -/
theorem planAll_spec {transfers : List Transfer} {planned : List (Transfer × Option FilePath)}
    (h : Exec (Effect M) d (planAll gateway library folder transfers) d' (.ok planned)) :
    d' = d ∧ planned = transfers.map (plannedFor gateway library folder) ∧
      ∀ t ∈ transfers, ¬ Stays gateway library folder t →
        d.read M (destinationPath gateway library folder t) = none := by
  induction transfers generalizing d planned with
  | nil =>
    cases h
    exact ⟨rfl, rfl, fun t ht => nomatch ht⟩
  | cons transfer transfers ih =>
    obtain ⟨e, r, hone, hrest⟩ := exec_bind.mp h
    rcases r with refusal | one
    · cases hrest
    obtain ⟨e', r, hothers, hend⟩ := exec_bind.mp hrest
    rcases r with refusal | others
    · cases hend
    cases hend
    obtain ⟨rfl, rfl, hfree⟩ := planOne_spec hone
    obtain ⟨rfl, rfl, hfree'⟩ := ih hothers
    refine ⟨rfl, rfl, fun t ht => ?_⟩
    rcases List.mem_cons.mp ht with rfl | ht
    · exact hfree
    · exact hfree' t ht

/-! ### Runs -/

section Run

variable (M gateway library folder)

/-- **No file is lost.**  Every placed file is at its own row's path, every other file is where it
was (a leftover of the mover apart), and the rows name distinct paths. -/
structure NoFileLost (transfers rows : List Transfer) (d d' : Disk UInt8) : Prop where
  kept : ∀ t ∈ transfers, t.state = .DONE → ∀ content,
    d (M.locate t.targetPath) = some (.file content) →
      ∃ row ∈ rows, row.id = t.id ∧ d' (M.locate row.targetPath) = some (.file content)
  others : ∀ q content, d q = some (.file content) →
    (∀ t ∈ transfers, t.state = .DONE → q ≠ M.locate t.targetPath) →
    (∀ row ∈ rows, q ≠ M.locate (partialOf row.targetPath)) → d' q = some (.file content)
  distinct : (rows.map (·.targetPath)).Nodup

/-- The disk is as the rows say, and no name on it is ambiguous: the placed files are in their
places, no two of the paths of the run are one place, and the partial of a file that is copied is
absent or its own, and no path of the run. -/
structure Orderly (transfers : List Transfer) (d : Disk UInt8) : Prop where
  placed : ∀ t ∈ transfers, t.state = .DONE → ∃ content,
    d (M.locate t.targetPath) = some (.file content) ∧
    (Copies M gateway t (destinationPath gateway library folder t) →
      (∀ link, d (M.locate (partialOf (destinationPath gateway library folder t))) ≠
        some (.link link)) ∧
      ∀ y, d (M.locate (partialOf (destinationPath gateway library folder t))) = some (.file y) →
        y <+: content ∨ content.length < y.length)
  targets_apart : ∀ t ∈ transfers, ∀ u ∈ transfers,
    M.locate t.targetPath = M.locate u.targetPath → t.targetPath = u.targetPath
  paths_apart : ∀ t ∈ transfers, ∀ u ∈ transfers,
    M.locate (destinationPath gateway library folder t) =
      M.locate (destinationPath gateway library folder u) →
    destinationPath gateway library folder t = destinationPath gateway library folder u
  partials_apart : ∀ t ∈ transfers, t.state = .DONE →
    Copies M gateway t (destinationPath gateway library folder t) → ∀ u ∈ transfers,
      M.locate (partialOf (destinationPath gateway library folder t)) ≠
        M.locate (destinationPath gateway library folder u) ∧
      M.locate (partialOf (destinationPath gateway library folder t)) ≠ M.locate u.targetPath

end Run

theorem locate_partialOf {p q : FilePath} (h : M.locate (partialOf p) = M.locate (partialOf q)) :
    M.locate p = M.locate q := by
  have hdir : M.real p.dir = M.real q.dir := congrArg FilePath.dir h
  have hname : p.name ++ PARTIAL_SUFFIX = q.name ++ PARTIAL_SUFFIX := congrArg FilePath.name h
  have hsame : p.name = q.name := by
    apply String.toList_injective
    have hchars := congrArg String.toList hname
    rw [String.toList_append, String.toList_append] at hchars
    exact List.append_cancel_right hchars
  rw [Mounts.locate, Mounts.locate, hdir, hsame]

section Run

variable {transfers : List Transfer} (horderly : Orderly M gateway library folder transfers d)
  (hfree : ∀ t ∈ transfers, ¬ Stays gateway library folder t →
    d.read M (destinationPath gateway library folder t) = none)

include horderly hfree

/-- A path that was probed is no place of a placed file. -/
theorem source_ne_path {t u : Transfer} (ht : t ∈ transfers) (hdone : t.state = .DONE)
    (hu : u ∈ transfers) (hmoves : ¬ Stays gateway library folder u) :
    M.locate t.targetPath ≠ M.locate (destinationPath gateway library folder u) := by
  intro heq
  obtain ⟨content, hcontent, -⟩ := horderly.placed t ht hdone
  rw [heq] at hcontent
  have := Disk.read_of_file hcontent
  rw [hfree u hu hmoves] at this
  cases this

theorem ready_plannedFor {t : Transfer} (ht : t ∈ transfers) (hdone : t.state = .DONE) :
    Ready M gateway (plannedFor gateway library folder t) d := by
  obtain ⟨content, hcontent, hpartial'⟩ := horderly.placed t ht hdone
  refine ⟨⟨content, hcontent, fun path hpath hcopies => ?_⟩, fun path hpath => ?_⟩
  · unfold plannedFor at hpath
    split at hpath
    · cases hpath
    · cases hpath
      exact hpartial' hcopies
  · unfold plannedFor at hpath
    split at hpath
    · cases hpath
    · rename_i hmoves
      cases hpath
      exact source_ne_path horderly hfree ht hdone ht hmoves

omit horderly hfree in
theorem footprint_plannedFor {t : Transfer} {q : FilePath}
    (h : Footprint M gateway (plannedFor gateway library folder t) q) : t.state = .DONE ∧
      (q = M.locate t.targetPath ∨ ¬ Stays gateway library folder t ∧
        (q = M.locate (destinationPath gateway library folder t) ∨
          Copies M gateway t (destinationPath gateway library folder t) ∧
            q = M.locate (partialOf (destinationPath gateway library folder t)))) := by
  obtain ⟨hdone, hq⟩ := h
  refine ⟨hdone, hq.imp_right ?_⟩
  rintro ⟨path, hpath, hq⟩
  unfold plannedFor at hpath
  split at hpath
  · cases hpath
  · rename_i hmoves
    cases hpath
    exact ⟨hmoves, hq⟩

theorem footprint_disjoint {t u : Transfer} (ht : t ∈ transfers) (hu : u ∈ transfers)
    (htarget : t.targetPath ≠ u.targetPath)
    (hpath : destinationPath gateway library folder t ≠ destinationPath gateway library folder u)
    {q : FilePath} (hq : Footprint M gateway (plannedFor gateway library folder t) q) :
    ¬ Footprint M gateway (plannedFor gateway library folder u) q := by
  intro hq'
  obtain ⟨hdone, hq⟩ := footprint_plannedFor hq
  obtain ⟨hdone', hq'⟩ := footprint_plannedFor hq'
  have hpaths : M.locate (destinationPath gateway library folder t) ≠
      M.locate (destinationPath gateway library folder u) := fun h =>
    hpath (horderly.paths_apart t ht u hu h)
  rcases hq with rfl | ⟨hmoves, rfl | ⟨hcopies, rfl⟩⟩
  · rcases hq' with h | ⟨hmoves', h | ⟨hcopies', h⟩⟩
    · exact htarget (horderly.targets_apart t ht u hu h)
    · exact source_ne_path horderly hfree ht hdone hu hmoves' h
    · exact (horderly.partials_apart u hu hdone' hcopies' t ht).2 h.symm
  · rcases hq' with h | ⟨-, h | ⟨hcopies', h⟩⟩
    · exact source_ne_path horderly hfree hu hdone' ht hmoves h.symm
    · exact hpaths h
    · exact (horderly.partials_apart u hu hdone' hcopies' t ht).1 h.symm
  · rcases hq' with h | ⟨-, h | ⟨-, h⟩⟩
    · exact (horderly.partials_apart t ht hdone hcopies u hu).2 h
    · exact (horderly.partials_apart t ht hdone hcopies u hu).1 h
    · exact hpaths (locate_partialOf h)

end Run

theorem sentRow_plannedFor (transfer : Transfer) :
    (sentRow library (plannedFor gateway library folder transfer)).targetPath =
        destinationPath gateway library folder transfer ∧
      (sentRow library (plannedFor gateway library folder transfer)).id = transfer.id := by
  unfold sentRow plannedFor
  by_cases hstays : Stays gateway library folder transfer
  · rw [if_pos hstays]
    exact ⟨hstays.1.symm, rfl⟩
  · rw [if_neg hstays]
    exact ⟨rfl, rfl⟩

/-- A run that is sent plans all its transfers, on the disk as it is, and then sends the plan. -/
theorem changeJobDestination_spec {transfers rows : List Transfer}
    (h : Exec (Effect M) d (changeJobDestination gateway transfers library folder) d' (.ok rows)) :
    (∀ t ∈ transfers, ¬ Stays gateway library folder t →
      d.read M (destinationPath gateway library folder t) = none) ∧
    Exec (Effect M) d (sendAll gateway library (transfers.map (plannedFor gateway library folder)))
      d' (.ok rows) := by
  unfold changeJobDestination at h
  split at h
  · cases h
  unfold requireFolder at h
  have hplan (folder : Option Dir)
      {next : Except Refusal (List (Transfer × Option FilePath)) →
        Script (Except Refusal (List Transfer))}
      (hrefuses : ∀ refusal, next (.error refusal) = pure (.error refusal))
      (hsends : ∀ planned, next (.ok planned) = sendAll gateway library planned)
      (h : Exec (Effect M) d (planAll gateway library folder transfers >>= next) d' (.ok rows)) :
      (∀ t ∈ transfers, ¬ Stays gateway library folder t →
        d.read M (destinationPath gateway library folder t) = none) ∧
      Exec (Effect M) d (sendAll gateway library
        (transfers.map (plannedFor gateway library folder))) d' (.ok rows) := by
    obtain ⟨e, r, hplanned, hsend⟩ := exec_bind.mp h
    rcases r with refusal | planned
    · rw [hrefuses] at hsend
      cases hsend
    · obtain ⟨rfl, rfl, hfree⟩ := planAll_spec hplanned
      rw [hsends] at hsend
      exact ⟨hfree, hsend⟩
  cases folder with
  | none => exact hplan none (fun _ => rfl) (fun _ => rfl) h
  | some chosen =>
    dsimp only at h
    by_cases hinside : (localRootsOf library).any (isInside chosen) = true
    · rw [if_pos hinside] at h
      exact hplan (some chosen) (fun _ => rfl) (fun _ => rfl) h
    · rw [if_neg hinside] at h
      cases h

/-- **Redirecting a run loses no file exactly when the paths it computes are pairwise distinct.** -/
theorem noFileLost_iff {transfers rows : List Transfer}
    (h : Exec (Effect M) d (changeJobDestination gateway transfers library folder) d' (.ok rows))
    (hdistinct : (transfers.map (·.targetPath)).Nodup)
    (horderly : Orderly M gateway library folder transfers d) :
    NoFileLost M transfers rows d d' ↔
      (transfers.map (destinationPath gateway library folder)).Nodup := by
  obtain ⟨hfree, hsend⟩ := changeJobDestination_spec h
  -- The rows name the computed paths, whatever became of the files.
  have hrows := sendAll_rows hsend
  rw [List.map_map] at hrows
  have hpaths : rows.map (·.targetPath) =
      transfers.map (destinationPath gateway library folder) := by
    rw [hrows, List.map_map]
    exact List.map_congr_left fun t _ => (sentRow_plannedFor t).1
  constructor
  · intro hlost
    rw [← hpaths]
    exact hlost.distinct
  · intro hnodup
    have hready : ∀ one ∈ transfers.map (plannedFor gateway library folder),
        one.1.state = .DONE → Ready M gateway one d := by
      intro one hone hdone
      obtain ⟨t, ht, rfl⟩ := List.mem_map.mp hone
      exact ready_plannedFor horderly hfree ht hdone
    have hdisjoint : (transfers.map (plannedFor gateway library folder)).Pairwise
        fun one other => ∀ q, Footprint M gateway one q → ¬ Footprint M gateway other q := by
      rw [List.pairwise_map]
      have htargets := List.pairwise_map.mp hdistinct
      have hcomputed := List.pairwise_map.mp hnodup
      refine (htargets.and hcomputed).imp_of_mem ?_
      rintro t u ht hu ⟨htarget, hpath⟩ q hq
      exact footprint_disjoint horderly hfree ht hu htarget hpath hq
    obtain ⟨hfiles, hframe⟩ := sendAll_spec hsend hready hdisjoint
    refine ⟨fun t ht hdone content hcontent => ?_, fun q content hq hsources hpartials => ?_, ?_⟩
    · refine ⟨sentRow library (plannedFor gateway library folder t), ?_,
        (sentRow_plannedFor t).2, ?_⟩
      · rw [hrows]
        exact List.mem_map_of_mem ht
      · rw [(sentRow_plannedFor t).1, ← endOf_plannedFor]
        exact hfiles _ (List.mem_map_of_mem ht) hdone content hcontent
    · rw [hframe q fun one hone hfoot => ?_, hq]
      -- Another file is no source, no partial, and at no path that was probed.
      obtain ⟨t, ht, rfl⟩ := List.mem_map.mp hone
      obtain ⟨hdone, rfl | ⟨hmoves, rfl | ⟨-, rfl⟩⟩⟩ := footprint_plannedFor hfoot
      · exact hsources t ht hdone rfl
      · have hread := hfree t ht hmoves
        rw [Disk.read_of_file hq] at hread
        cases hread
      · refine hpartials _ (hrows ▸ List.mem_map_of_mem ht) ?_
        rw [Function.comp_apply, (sentRow_plannedFor t).1]
    · rw [hpaths]
      exact hnodup

/-! ### Two files of one name -/

/-- Three libraries of one directory each, and a fourth to send things to. -/
def threeLibraries : Gateway where
  libraries := [⟨"a", ["a"], []⟩, ⟨"b", ["b"], []⟩, ⟨"c", ["c"], []⟩]
  defaultTargetPath := none
  diskReserveBytes := 0
  placingHoldMs := 0

def libraryC : Library := ⟨"c", ["c"], []⟩

def placedIn (library name : String) : Transfer :=
  ⟨library ++ name, .DONE, ⟨[library], name⟩, some library, .CATEGORY⟩

def threeFiles : Disk UInt8 := fun p =>
  if p = ⟨["a"], "film"⟩ then some (.file [1])
  else if p = ⟨["b"], "film"⟩ then some (.file [2])
  else if p = ⟨["b"], "other"⟩ then some (.file [3]) else none

/-- A disk after one of the files was renamed into the third library. -/
def sentFrom (d : Disk UInt8) (library name : String) : Disk UInt8 :=
  (d.set ⟨[library], name⟩ none).set ⟨["c"], name⟩ (threeFiles ⟨[library], name⟩)

theorem sent_apart : Exec (Effect oneDevice) threeFiles
    (changeJobDestination threeLibraries [placedIn "a" "film", placedIn "b" "other"] libraryC none)
    (sentFrom (sentFrom threeFiles "a" "film") "b" "other")
    (.ok [retarget libraryC ⟨["c"], "film"⟩ (placedIn "a" "film"),
      retarget libraryC ⟨["c"], "other"⟩ (placedIn "b" "other")]) := by
  refine .perform threeFiles false ⟨rfl, rfl⟩ ?_
  refine .perform threeFiles false ⟨rfl, rfl⟩ ?_
  refine .perform threeFiles (.ok ()) rfl ?_
  refine .perform (sentFrom threeFiles "a" "film") (.ok ()) ⟨rfl, .file [1], rfl, rfl⟩ ?_
  refine .perform (sentFrom threeFiles "a" "film") (.ok ()) rfl ?_
  refine .perform _ (.ok ()) ⟨rfl, .file [3], rfl, rfl⟩ ?_
  exact .pure _ _

theorem sent_together : Exec (Effect oneDevice) threeFiles
    (changeJobDestination threeLibraries [placedIn "a" "film", placedIn "b" "film"] libraryC none)
    (sentFrom (sentFrom threeFiles "a" "film") "b" "film")
    (.ok [retarget libraryC ⟨["c"], "film"⟩ (placedIn "a" "film"),
      retarget libraryC ⟨["c"], "film"⟩ (placedIn "b" "film")]) := by
  refine .perform threeFiles false ⟨rfl, rfl⟩ ?_
  refine .perform threeFiles false ⟨rfl, rfl⟩ ?_
  refine .perform threeFiles (.ok ()) rfl ?_
  refine .perform (sentFrom threeFiles "a" "film") (.ok ()) ⟨rfl, .file [1], rfl, rfl⟩ ?_
  refine .perform (sentFrom threeFiles "a" "film") (.ok ()) rfl ?_
  refine .perform _ (.ok ()) ⟨rfl, .file [2], rfl, rfl⟩ ?_
  exact .pure _ _

theorem noFileLost_iff_apart :
    NoFileLost oneDevice [placedIn "a" "film", placedIn "b" "other"]
        [retarget libraryC ⟨["c"], "film"⟩ (placedIn "a" "film"),
          retarget libraryC ⟨["c"], "other"⟩ (placedIn "b" "other")]
        threeFiles (sentFrom (sentFrom threeFiles "a" "film") "b" "other") ↔
      ([placedIn "a" "film", placedIn "b" "other"].map
        (destinationPath threeLibraries libraryC none)).Nodup := by
  refine noFileLost_iff sent_apart (by decide) ⟨?_, ?_, ?_, ?_⟩
  · intro t ht _
    rcases List.mem_pair.mp ht with rfl | rfl
    · exact ⟨[1], rfl, fun hcopies => absurd rfl hcopies⟩
    · exact ⟨[3], rfl, fun hcopies => absurd rfl hcopies⟩
  · exact fun t _ u _ h => h
  · exact fun t _ u _ h => h
  · exact fun t _ _ hcopies => absurd rfl hcopies

/-- The second file replaces the first. -/
theorem noFileLost_fails : ¬ ∀ (M : Mounts) (gateway : Gateway) (library : Library)
    (folder : Option Dir) (transfers rows : List Transfer) (d d' : Disk UInt8),
    (transfers.map (·.targetPath)).Nodup →
    Exec (Effect M) d (changeJobDestination gateway transfers library folder) d' (.ok rows) →
    NoFileLost M transfers rows d d' := by
  intro h
  have hlost := h _ _ _ _ _ _ _ _ (by decide) sent_together
  exact absurd hlost.distinct (by decide)

end MediaCenterSync.TransferManager
