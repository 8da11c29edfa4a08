import MediaCenterSync.Releases.Correct.Neutral
import MediaCenterSync.Releases.Recovery

/-!
# What a finished download comes to

Whatever fails and wherever the process stops, what has landed is a first part of the download's
files, each with its own bytes (`Tidy`).  But the path of a copy of ours is not free for ours either:
once a file has landed and the row is not `PLACED`, every later attempt is refused at that file.  One
whose media is gone is filed without asking for a free path, and so a second time.  So a retry files
the download to the end exactly when nothing of it has landed yet, or each of its files has once
(`recovers_iff`).
-/

namespace MediaCenterSync.Releases

open Function (update)
open Program (Always Only)
open Planning (join)
open TransferManager (Dir)

/-! ### Rows of one download -/

/-- What the files of a placement depend on. -/
def GrabPlacement.named (one : GrabPlacement) : Option String × String :=
  (one.fileName, one.itemId)

/-- The same download, and the same names on its placements. -/
structure SameNames (row row' : ReleaseGrab) : Prop where
  id : row'.id = row.id
  itemId : row'.itemId = row.itemId
  clientId : row'.clientId = row.clientId
  targetFolder : row'.targetFolder = row.targetFolder
  targetLibraryId : row'.targetLibraryId = row.targetLibraryId
  plannedPath : row'.plannedPath = row.plannedPath
  named : row'.placements.map GrabPlacement.named = row.placements.map GrabPlacement.named

section

variable {W : Setting} {row row' : ReleaseGrab}

theorem requestFor_congr (hfolder : row'.targetFolder = row.targetFolder)
    (hlibrary : row'.targetLibraryId = row.targetLibraryId) :
    W.requestFor row' = W.requestFor row := by
  funext item kind source
  simp only [Setting.requestFor, hfolder, hlibrary]

theorem pathFor_congr (hfolder : row'.targetFolder = row.targetFolder)
    (hlibrary : row'.targetLibraryId = row.targetLibraryId) :
    W.pathFor row' = W.pathFor row := by
  funext item kind source
  rw [Setting.pathFor, Setting.pathFor, requestFor_congr hfolder hlibrary]

theorem filable_congr {one one' : GrabPlacement} (h : one'.named = one.named) (sourcePath : Dir) :
    filable one' sourcePath = filable one sourcePath := by
  obtain ⟨hname, hitem⟩ := Prod.mk.inj h
  rw [filable, filable, hname, hitem]

theorem filterMap_fileFor_congr (hfolder : row'.targetFolder = row.targetFolder)
    (hlibrary : row'.targetLibraryId = row.targetLibraryId) {placements placements' : List GrabPlacement}
    (h : placements'.map GrabPlacement.named = placements.map GrabPlacement.named) :
    placements'.filterMap (W.fileFor row') = placements.filterMap (W.fileFor row) := by
  have hfor : ∀ one one' : GrabPlacement, one'.named = one.named →
      W.fileFor row' one' = W.fileFor row one := fun one one' hnamed => by
    rw [Setting.fileFor, Setting.fileFor, filable_congr hnamed, pathFor_congr hfolder hlibrary]
  induction placements generalizing placements' with
  | nil =>
    rw [List.map_eq_nil_iff.mp h]
    rfl
  | cons one rest ih =>
    obtain ⟨one', rest', rfl, hone, hrest⟩ := List.map_eq_cons_iff.mp h
    rw [List.filterMap_cons, List.filterMap_cons, hfor one one' hone, ih hrest]

theorem SameNames.any (h : SameNames row row') :
    row'.placements.any (·.fileName.isSome) = row.placements.any (·.fileName.isSome) := by
  have hany : ∀ placements : List GrabPlacement, placements.any (·.fileName.isSome) =
      (placements.map GrabPlacement.named).any (·.1.isSome) := fun placements => by
    rw [List.any_map]
    rfl
  rw [hany, hany, h.named]

theorem SameNames.filesOf (h : SameNames row row') : W.filesOf row' = W.filesOf row := by
  have hlargest : W.largest row' = W.largest row := by rw [Setting.largest, Setting.largest, h.id]
  have hfiles : ∀ placements : List GrabPlacement, placements.filterMap (W.fileFor row') =
      placements.filterMap (W.fileFor row) := fun placements =>
    filterMap_fileFor_congr h.targetFolder h.targetLibraryId rfl
  rw [Setting.filesOf, Setting.filesOf, h.itemId, h.plannedPath, hlargest, h.any, h.id,
    filterMap_fileFor_congr h.targetFolder h.targetLibraryId h.named]
  simp only [hfiles, pathFor_congr h.targetFolder h.targetLibraryId]

theorem SameNames.refl (row : ReleaseGrab) : SameNames row row :=
  ⟨rfl, rfl, rfl, rfl, rfl, rfl, rfl⟩

theorem SameNames.trans {row'' : ReleaseGrab} (h : SameNames row row') (h' : SameNames row' row'') :
    SameNames row row'' where
  id := h'.id.trans h.id
  itemId := h'.itemId.trans h.itemId
  clientId := h'.clientId.trans h.clientId
  targetFolder := h'.targetFolder.trans h.targetFolder
  targetLibraryId := h'.targetLibraryId.trans h.targetLibraryId
  plannedPath := h'.plannedPath.trans h.plannedPath
  named := h'.named.trans h.named

/-- The row of a download at some time: as it was when it was sent, or with the names its own files
gave it. -/
structure SameDownload (W : Setting) (grab row : ReleaseGrab) : Prop where
  id : row.id = grab.id
  itemId : row.itemId = grab.itemId
  clientId : row.clientId = grab.clientId
  targetFolder : row.targetFolder = grab.targetFolder
  targetLibraryId : row.targetLibraryId = grab.targetLibraryId
  plannedPath : row.plannedPath = grab.plannedPath
  files : W.filesOf row = W.filesOf grab

theorem SameDownload.change {grab : ReleaseGrab} (h : SameDownload W grab row)
    (hsame : SameNames row row') : SameDownload W grab row' where
  id := hsame.id.trans h.id
  itemId := hsame.itemId.trans h.itemId
  clientId := hsame.clientId.trans h.clientId
  targetFolder := hsame.targetFolder.trans h.targetFolder
  targetLibraryId := hsame.targetLibraryId.trans h.targetLibraryId
  plannedPath := hsame.plannedPath.trans h.plannedPath
  files := hsame.filesOf.trans h.files

end

/-! ### What has landed -/

def Landing.file (landing : Landing) : Wanted :=
  ⟨landing.source, landing.path⟩

/-- The paths of the files are different ones. -/
def Apart (W : Setting) (grab : ReleaseGrab) : Prop :=
  ((W.filesOf grab).map Wanted.path).Nodup

/-- What holds over the life of a download.  A `stuck` one has landed in part and is not `PLACED`, or
was filed twice. -/
structure Tidy (W : Setting) (grab : ReleaseGrab) (stuck : Bool) (s : Shelf) : Prop where
  row : SameDownload W grab s.row
  unsent : s.row.state = .SENT → awaitsChoice s.row = false
  mem : ∀ landing ∈ s.landed, landing.file ∈ W.filesOf grab
  once : W.orphaned grab = false →
    s.landed.map Landing.file <+: W.filesOf grab ∧ (s.landed.map Landing.path).Nodup
  own : Apart W grab → ∀ landing ∈ s.landed, landing.own = true
  begun : Apart W grab → ∀ file ∈ W.filesOf grab,
    s.begun file.path = none ∨ s.begun file.path = some file.source
  placed : s.row.state = .PLACED → (W.filesOf grab).length ≤ s.landed.length
  stuck : stuck = true → s.landed ≠ [] ∧
    (s.row.state = .PLACED → (W.filesOf grab).length < s.landed.length)

/-- What is known of a finished download, before anything of it was filed. -/
structure Finished (W : Setting) (grab : ReleaseGrab) : Prop where
  clientId : grab.clientId = some W.status.clientId
  complete : W.status.complete = true
  failed : W.status.failed = false
  unplaced : grab.state ≠ .PLACED
  chosen : grab.state = .SENT → awaitsChoice grab = false
  files : W.filesOf grab ≠ []
  free : ∀ file ∈ W.filesOf grab, W.held file.path = false

section

variable {W : Setting} {grab row : ReleaseGrab} {stuck flaky : Bool} {s : Shelf}

theorem occupied_eq_false (hfinished : Finished W grab) {file : Wanted}
    (hfile : file ∈ W.filesOf grab) (hfree : file.path ∉ s.landed.map Landing.path) :
    s.occupied W file.path = false := by
  rw [Shelf.occupied, hfinished.free file hfile, Bool.false_or, List.any_eq_false]
  intro landing hin
  simpa using fun heq => hfree (List.mem_map.mpr ⟨landing, hin, heq⟩)

theorem occupied_eq_true {path : Dir} (h : path ∈ s.landed.map Landing.path) :
    s.occupied W path = true := by
  obtain ⟨landing, hin, rfl⟩ := List.mem_map.mp h
  rw [Shelf.occupied, Bool.or_eq_true]
  exact .inr (List.any_eq_true.mpr ⟨landing, hin, decide_eq_true rfl⟩)

theorem not_mem_landed {file : Wanted} (hapart : Apart W grab)
    (hnext : s.landed.map Landing.file ++ [file] <+: W.filesOf grab) :
    file.path ∉ s.landed.map Landing.path := by
  have hnodup := hapart.sublist (hnext.sublist.map Wanted.path)
  rw [List.map_append, List.map_map] at hnodup
  exact fun hin => List.disjoint_of_nodup_append hnodup hin List.mem_cons_self

theorem begun_land {source path : Dir} {file : Wanted}
    (h : s.begun file.path = none ∨ s.begun file.path = some file.source) :
    (s.land source path).begun file.path = none ∨
      (s.land source path).begun file.path = some file.source := by
  have hbegun : (s.land source path).begun = update s.begun path none := rfl
  rw [hbegun]
  by_cases hpath : file.path = path
  · exact .inl (by rw [hpath, Function.update_self])
  · rwa [Function.update_of_ne hpath]

theorem files_land (source path : Dir) :
    (s.land source path).landed.map Landing.file = s.landed.map Landing.file ++ [⟨source, path⟩] := by
  rw [Shelf.land, List.map_append]
  rfl

theorem tidy_land {file : Wanted} (h : Tidy W grab stuck s) (hstate : s.row.state ≠ .PLACED)
    (hfile : file ∈ W.filesOf grab)
    (hnext : W.orphaned grab = false → s.landed.map Landing.file ++ [file] <+: W.filesOf grab ∧
      file.path ∉ s.landed.map Landing.path) :
    Tidy W grab stuck (s.land file.source file.path) where
  row := h.row
  unsent := h.unsent
  mem landing hin := by
    rcases List.mem_append.mp hin with hold | hnew
    · exact h.mem landing hold
    · rw [List.mem_singleton.mp hnew]
      exact hfile
  once horphaned := by
    obtain ⟨hmore, hfree⟩ := hnext horphaned
    refine ⟨by rwa [files_land], ?_⟩
    rw [Shelf.land, List.map_append, List.map_singleton]
    refine List.nodup_append.mpr ⟨(h.once horphaned).2, List.nodup_singleton _, ?_⟩
    rintro path hpath _ hlast rfl
    rw [List.mem_singleton.mp hlast] at hpath
    exact hfree hpath
  own hapart landing hin := by
    rcases List.mem_append.mp hin with hold | hnew
    · exact h.own hapart landing hold
    · rw [List.mem_singleton.mp hnew]
      exact decide_eq_true (h.begun hapart file hfile)
  begun hapart other hother := begun_land (h.begun hapart other hother)
  placed hplaced := absurd hplaced hstate
  stuck hstuck := ⟨List.append_ne_nil_of_left_ne_nil (h.stuck hstuck).1 _,
    fun hplaced => absurd hplaced hstate⟩

/-- A copy that fails leaves a part of its own file. -/
theorem tidy_begin {file : Wanted} (h : Tidy W grab stuck s) (hfile : file ∈ W.filesOf grab) :
    Tidy W grab stuck { s with
      begun := update s.begun file.path (some ((s.begun file.path).getD file.source)) } where
  row := h.row
  unsent := h.unsent
  mem := h.mem
  once := h.once
  own := h.own
  placed := h.placed
  stuck := h.stuck
  begun hapart other hother := by
    dsimp only
    by_cases hpath : other.path = file.path
    · obtain rfl : other = file := List.inj_on_of_nodup_map hapart hother hfile hpath
      rw [Function.update_self]
      rcases h.begun hapart other hother with hnone | hsome
      · rw [hnone]
        exact .inr rfl
      · rw [hsome]
        exact .inr rfl
    · rw [Function.update_of_ne hpath]
      exact h.begun hapart other hother

theorem tidy_save (h : Tidy W grab stuck s) (hrow : SameDownload W grab row)
    (hunsent : row.state = .SENT → awaitsChoice row = false) (hstate : row.state ≠ .PLACED) :
    Tidy W grab stuck { s with row := row } :=
  { h with
    row := hrow
    unsent := hunsent
    placed := fun hplaced => absurd hplaced hstate
    stuck := fun hstuck => ⟨(h.stuck hstuck).1, fun hplaced => absurd hplaced hstate⟩ }

theorem tidy_place (h : Tidy W grab stuck s) (hrow : SameDownload W grab row)
    (hstate : row.state = .PLACED) (hplaced : (W.filesOf grab).length ≤ s.landed.length)
    (hstuck : stuck = true → (W.filesOf grab).length < s.landed.length) :
    Tidy W grab stuck { s with row := row } :=
  { h with
    row := hrow
    unsent := fun hsent => by rw [hstate] at hsent; cases hsent
    placed := fun _ => hplaced
    stuck := fun his => ⟨(h.stuck his).1, fun _ => hstuck his⟩ }

end

/-! ### One operation -/

section Steps

variable {α β : Type} {W : Setting} {grab row : ReleaseGrab} {stuck flaky : Bool} {s : Shelf}

/-- The shelf stays tidy wherever the program is, and `Q` holds at its end. -/
abbrev Stays (W : Setting) (grab : ReleaseGrab) (stuck flaky : Bool) (Q : α → Shelf → Prop)
    (p : Script α) (s : Shelf) : Prop :=
  Always (W.World flaky) (Tidy W grab stuck) Q p s

theorem stays_ask_bind {Q : α → Shelf → Prop} {op : Op} {f : op.Answer → Script α}
    (htidy : Tidy W grab stuck s)
    (h : ∀ r, s.Answers W flaky op r → Stays W grab stuck flaky Q (f r) (s.after op r)) :
    Stays W grab stuck flaky Q (Program.ask op >>= f) s := by
  refine Program.always_ask_bind.mpr ⟨htidy, ?_⟩
  rintro s' r ⟨hanswer, rfl⟩
  exact h r hanswer

theorem Stays.bind {R : α → Shelf → Prop} {Q : β → Shelf → Prop} {p : Script α} {f : α → Script β}
    (hp : Stays W grab stuck flaky R p s)
    (hf : ∀ a s', Tidy W grab stuck s' → R a s' → Stays W grab stuck flaky Q (f a) s') :
    Stays W grab stuck flaky Q (p >>= f) s :=
  Program.always_bind.mpr (hp.mono (fun _ h => h) hf)

theorem stays_look {p : Script α} (h : Only Neutral p) (htidy : Tidy W grab stuck s) :
    Stays W grab stuck flaky (fun a s' => s' = s ∧ a = W.sees p) p s := by
  refine h.always (fun op s s' r hop hw => ?_) htidy
  obtain ⟨hanswer, rfl⟩ := hw
  cases op <;> first | exact ⟨rfl, hanswer⟩ | exact hop.elim

theorem stays_filing_ask_bind {Q : ReleaseGrab × Except String β → Shelf → Prop} {p : Script α}
    {f : α → Filing β} (h : Only Neutral p) (htidy : Tidy W grab stuck s)
    (hf : Stays W grab stuck flaky Q (f (W.sees p) row) s) :
    Stays W grab stuck flaky Q ((Filing.ask p >>= f) row) s := by
  have hask : Stays W grab stuck flaky (fun left s' => s' = s ∧ left = (row, .ok (W.sees p)))
      (Filing.ask p row) s := by
    refine Stays.bind (stays_look h htidy) fun a s' htidy' hs' => ?_
    obtain ⟨rfl, rfl⟩ := hs'
    exact ⟨htidy', rfl, rfl⟩
  refine Stays.bind hask fun left s' _ hleft => ?_
  obtain ⟨rfl, rfl⟩ := hleft
  exact hf

/-- Where a file is to go is answered, or it is refused: in a flaky world, or because something is
there. -/
theorem stays_targetFor (item : MediaItem) (kind : Nameable → Matching.MediaKind) (source : Dir)
    (htidy : Tidy W grab stuck s) :
    Stays W grab stuck flaky
      (fun left s' => s' = s ∧ left.1 = row ∧
        ((∃ reason, left.2 = .error reason) ∧
            (flaky = true ∨ s.occupied W (W.pathFor row item kind source) = true) ∨
          ∃ target, left.2 = .ok target ∧ target.path = W.pathFor row item kind source ∧
            s.occupied W target.path = false))
      (targetFor item kind source row) s := by
  refine stays_filing_ask_bind (Program.only_ask trivial) htidy ?_
  -- Once the folder is known, what is left is asking for the path and preparing it.
  have hrest : ∀ request : FilingRequest, request = W.requestFor row item kind source →
      Stays W grab stuck flaky
        (fun left s' => s' = s ∧ left.1 = row ∧
          ((∃ reason, left.2 = .error reason) ∧
              (flaky = true ∨ s.occupied W (W.pathFor row item kind source) = true) ∨
            ∃ target, left.2 = .ok target ∧ target.path = W.pathFor row item kind source ∧
              s.occupied W target.path = false))
        ((do
          let target ← Filing.attempt (Ask.resolve row.id request)
          Filing.attempt (Ask.prepare target)
          return target : Filing FilingTarget) row) s := by
    rintro _ rfl
    refine ⟨htidy, ?_⟩
    rintro s' answer ⟨hanswer, rfl⟩
    rcases hanswer with rfl | ⟨hflaky, reason, rfl⟩
    · unfold Shelf.placed
      dsimp only
      split_ifs with hoccupied
      · exact ⟨htidy, rfl, rfl, .inl ⟨⟨_, rfl⟩, .inr hoccupied⟩⟩
      · refine ⟨htidy, ?_⟩
        rintro s' prepared ⟨hprepared, rfl⟩
        rcases hprepared with rfl | ⟨hflaky, reason, rfl⟩
        · exact ⟨htidy, rfl, rfl, .inr ⟨_, rfl, rfl, by simpa using hoccupied⟩⟩
        · exact ⟨htidy, rfl, rfl, .inl ⟨⟨reason, rfl⟩, .inl hflaky⟩⟩
    · exact ⟨htidy, rfl, rfl, .inl ⟨⟨reason, rfl⟩, .inl hflaky⟩⟩
  rcases hfolder : row.targetFolder with _ | folder
  · simp only [Filing.next, Bind.bind, Filing.current, Pure.pure, Program.bind, hfolder]
    refine ⟨htidy, ?_⟩
    rintro s' folder ⟨rfl, rfl⟩
    refine hrest _ ?_
    rw [Setting.requestFor, hfolder]
    rfl
  · simp only [Filing.next, Bind.bind, Filing.current, Pure.pure, Program.bind, hfolder]
    refine hrest _ ?_
    rw [Setting.requestFor, hfolder]
    rfl

end Steps

/-! ### Filing -/

structure BeingFiled (W : Setting) (grab row : ReleaseGrab) (s : Shelf) : Prop where
  download : SameDownload W grab row
  state : row.state = .FETCHED
  saved : s.row.state ≠ .PLACED

section Filing

variable {α β : Type} {W : Setting} {grab row : ReleaseGrab} {stuck flaky : Bool} {s : Shelf}

theorem current_bind (f : ReleaseGrab → Filing β) : (Filing.current >>= f) row = f row row :=
  rfl

theorem change_bind (g : ReleaseGrab → ReleaseGrab) (f : Unit → Filing β) :
    (Filing.change g >>= f) row = f () (g row) :=
  rfl

theorem stays_filing_bind {R : ReleaseGrab × Except String α → Shelf → Prop}
    {Q : ReleaseGrab × Except String β → Shelf → Prop} {x : Filing α} {f : α → Filing β}
    (hx : Stays W grab stuck flaky R (x row) s)
    (herror : ∀ row' reason s', Tidy W grab stuck s' → R (row', .error reason) s' →
      Q (row', .error reason) s')
    (hok : ∀ row' a s', Tidy W grab stuck s' → R (row', .ok a) s' →
      Stays W grab stuck flaky Q (f a row') s') :
    Stays W grab stuck flaky Q ((x >>= f) row) s := by
  refine Stays.bind hx ?_
  rintro ⟨row', answer⟩ s' htidy hR
  cases answer with
  | error reason => exact ⟨htidy, herror row' reason s' htidy hR⟩
  | ok a => exact hok row' a s' htidy hR

theorem stays_filing_save_bind {Q : ReleaseGrab × Except String β → Shelf → Prop}
    {f : Unit → Filing β} (htidy : Tidy W grab stuck s)
    (hf : Stays W grab stuck flaky Q (f () row) { s with row := row }) :
    Stays W grab stuck flaky Q ((Filing.save >>= f) row) s := by
  refine ⟨htidy, ?_⟩
  rintro s' r ⟨-, rfl⟩
  exact hf

theorem BeingFiled.change (h : BeingFiled W grab row s) {row' : ReleaseGrab} (hsame : SameNames row row')
    (hstate : row'.state = row.state) : BeingFiled W grab row' s :=
  ⟨h.download.change hsame, hstate.trans h.state, h.saved⟩

theorem BeingFiled.tidy_save (h : BeingFiled W grab row s) (htidy : Tidy W grab stuck s) :
    Tidy W grab stuck { s with row := row } :=
  Releases.tidy_save htidy h.download (fun hsent => by rw [h.state] at hsent; cases hsent)
    (fun hplaced => by rw [h.state] at hplaced; cases hplaced)

theorem BeingFiled.save (h : BeingFiled W grab row s) : BeingFiled W grab row { s with row := row } :=
  ⟨h.download, h.state, fun hplaced => by
    have hstate := h.state.symm.trans hplaced
    cases hstate⟩

theorem sameNames_progressed (row : ReleaseGrab) (moved : Moved) (base total : ℕ) :
    SameNames row (row.progressed moved base total) ∧
      (row.progressed moved base total).state = row.state := by
  unfold ReleaseGrab.progressed
  split
  · exact ⟨SameNames.refl row, rfl⟩
  · exact ⟨⟨rfl, rfl, rfl, rfl, rfl, rfl, rfl⟩, rfl⟩

theorem sameNames_withPlaced (row : ReleaseGrab) (index : ℕ) (path : Dir) :
    SameNames row (row.withPlaced index path) := by
  refine ⟨rfl, rfl, rfl, rfl, rfl, rfl, List.ext_getElem? fun i => ?_⟩
  simp only [ReleaseGrab.withPlaced, List.getElem?_map, List.getElem?_modify]
  split_ifs
  · rcases row.placements[i]? with _ | one <;> rfl
  · rcases row.placements[i]? with _ | one <;> rfl

/-- What a copy of a file leaves. -/
def Copied (W : Setting) (grab row : ReleaseGrab) (flaky : Bool) (landed : List Wanted)
    (left : ReleaseGrab × Except String Unit) (s' : Shelf) : Prop :=
  BeingFiled W grab left.1 s' ∧ SameNames row left.1 ∧
    (left.2 = .ok () ∧ s'.landed.map Landing.file = landed ∨
      (∃ reason, left.2 = .error reason) ∧ flaky = true)

theorem stays_copy {file : Wanted} (htidy : Tidy W grab stuck s) (hrow : BeingFiled W grab row s)
    (hfile : file ∈ W.filesOf grab) (hland : Tidy W grab stuck (s.land file.source file.path))
    (base total : ℕ) :
    Stays W grab stuck flaky (Copied W grab row flaky (s.landed.map Landing.file ++ [file]))
      (copy file.source file.path base total row) s := by
  refine stays_ask_bind htidy fun moved hmoved => ?_
  obtain ⟨hsame, hstate⟩ := sameNames_progressed row moved base total
  rcases hmoved with hok | ⟨hflaky, reason, herror⟩
  · have hafter : s.after (.move row.id file.source file.path) moved =
        s.land file.source file.path := by rw [Shelf.after, hok]
    rw [hafter]
    have hsaved : BeingFiled W grab row (s.land file.source file.path) :=
      ⟨hrow.download, hrow.state, hrow.saved⟩
    exact ⟨hland, hsaved.change hsame hstate, hsame, .inl ⟨hok, files_land _ _⟩⟩
  · have hafter : s.after (.move row.id file.source file.path) moved = { s with
        begun := update s.begun file.path (some ((s.begun file.path).getD file.source)) } := by
      rw [Shelf.after, herror]
    rw [hafter]
    have hsaved := (hrow.change hsame hstate).saved
    exact ⟨tidy_begin htidy hfile, ⟨hrow.download.change hsame, hstate.trans hrow.state, hsaved⟩,
      hsame, .inr ⟨⟨reason, herror⟩, hflaky⟩⟩

theorem stays_targetFor_next (hfinished : Finished W grab) {item : MediaItem}
    {kind : Nameable → Matching.MediaKind} {source path : Dir}
    (hpath : W.pathFor row item kind source = path) (htidy : Tidy W grab stuck s)
    (hnext : s.landed.map Landing.file ++ [⟨source, path⟩] <+: W.filesOf grab) :
    Stays W grab stuck flaky
      (fun left s' => s' = s ∧ left.1 = row ∧
        ((∃ reason, left.2 = .error reason) ∧ (flaky = true ∨ ¬ Apart W grab) ∨
          ∃ target, left.2 = .ok target ∧ target.path = path ∧
            path ∉ s.landed.map Landing.path))
      (targetFor item kind source row) s := by
  refine (stays_targetFor item kind source htidy).mono (fun _ h => h) ?_
  rintro left _ - ⟨rfl, hleft, ⟨herror, hcause⟩ | ⟨target, hok, htarget, hfree⟩⟩
  · refine ⟨rfl, hleft, .inl ⟨herror, hcause.imp_right fun hoccupied hapart => ?_⟩⟩
    have hfree := occupied_eq_false hfinished
      (hnext.subset (List.mem_append_right _ List.mem_cons_self)) (not_mem_landed hapart hnext)
    rw [hpath] at hoccupied
    cases hfree.symm.trans hoccupied
  · rw [hpath] at htarget
    subst htarget
    refine ⟨rfl, hleft, .inr ⟨target, hok, rfl, fun hin => ?_⟩⟩
    cases hfree.symm.trans (occupied_eq_true hin)

/-- A file whose path a copy of ours holds is refused. -/
theorem stays_targetFor_blocked {item : MediaItem} {kind : Nameable → Matching.MediaKind}
    {source : Dir} (htidy : Tidy W grab stuck s)
    (hblocked : W.pathFor row item kind source ∈ s.landed.map Landing.path) :
    Stays W grab stuck flaky
      (fun left s' => s' = s ∧ left.1 = row ∧ ∃ reason, left.2 = .error reason)
      (targetFor item kind source row) s := by
  refine (stays_targetFor item kind source htidy).mono (fun _ h => h) ?_
  rintro left _ - ⟨rfl, hleft, ⟨herror, -⟩ | ⟨target, hok, htarget, hfree⟩⟩
  · exact ⟨rfl, hleft, herror⟩
  · rw [htarget] at hfree
    cases hfree.symm.trans (occupied_eq_true hblocked)

theorem stays_placeFrom_blocked (total index : ℕ) {placements : List GrabPlacement} (filed : Filed)
    (htidy : Tidy W grab stuck s) {file : Wanted} {rest : List Wanted}
    (hfiles : placements.filterMap (W.fileFor row) = file :: rest)
    (hblocked : file.path ∈ s.landed.map Landing.path) :
    Stays W grab stuck flaky
      (fun left s' => s' = s ∧ left.1 = row ∧ ∃ reason, left.2 = .error reason)
      (placeFrom W.located total index placements filed row) s := by
  induction placements generalizing index filed with
  | nil => cases hfiles
  | cons placement placements ih =>
    refine stays_filing_ask_bind (only_filable placement W.located) htidy ?_
    rcases hfound : W.sees (filable placement W.located) with _ | ⟨source, episode⟩
    · refine ih _ _ ?_
      rwa [List.filterMap_cons_none (by rw [Setting.fileFor, hfound, Option.map_none])] at hfiles
    · have hfor : W.fileFor row placement =
          some ⟨source, W.pathFor row episode (fun _ => episode.kind) source⟩ := by
        rw [Setting.fileFor, hfound, Option.map_some]
      rw [List.filterMap_cons_some hfor] at hfiles
      obtain ⟨rfl, -⟩ := List.cons.inj hfiles
      refine stays_filing_bind (stays_targetFor_blocked htidy hblocked) ?_ ?_
      · rintro row' reason s' _ ⟨rfl, rfl, -⟩
        exact ⟨rfl, rfl, reason, rfl⟩
      · rintro row' target s' _ ⟨-, -, _, herror⟩
        cases herror

/-- What the loop leaves: all the files landed, or it was stopped. -/
def Looped (W : Setting) (grab : ReleaseGrab) (flaky : Bool) (placed : ℕ)
    (left : ReleaseGrab × Except String Filed) (s' : Shelf) : Prop :=
  BeingFiled W grab left.1 s' ∧
    ((∃ filed, left.2 = .ok filed ∧ filed.placed = placed ∧
        s'.landed.map Landing.file = W.filesOf grab) ∨
      (∃ reason, left.2 = .error reason) ∧ (flaky = true ∨ ¬ Apart W grab))

theorem stays_placeFrom (hfinished : Finished W grab) (total index : ℕ)
    {placements : List GrabPlacement} (filed : Filed) (htidy : Tidy W grab stuck s)
    (hrow : BeingFiled W grab row s)
    (hleft : s.landed.map Landing.file ++ placements.filterMap (W.fileFor row) = W.filesOf grab) :
    Stays W grab stuck flaky
      (Looped W grab flaky (filed.placed + (placements.filterMap (W.fileFor row)).length))
      (placeFrom W.located total index placements filed row) s := by
  induction placements generalizing index filed row s with
  | nil => exact ⟨htidy, hrow, .inl ⟨filed, rfl, rfl, by simpa using hleft⟩⟩
  | cons placement placements ih =>
    refine stays_filing_ask_bind (only_filable placement W.located) htidy ?_
    rcases hfound : W.sees (filable placement W.located) with _ | ⟨source, episode⟩
    · have hnone : W.fileFor row placement = none := by
        rw [Setting.fileFor, hfound, Option.map_none]
      rw [List.filterMap_cons_none hnone] at hleft ⊢
      exact ih (index + 1) { filed with missing := filed.missing ++ [placement.title] } htidy hrow
        hleft
    · have hfor : W.fileFor row placement =
          some ⟨source, W.pathFor row episode (fun _ => episode.kind) source⟩ := by
        rw [Setting.fileFor, hfound, Option.map_some]
      rw [List.filterMap_cons_some hfor] at hleft ⊢
      generalize hpath : W.pathFor row episode (fun _ => episode.kind) source = path at hleft
      have hnext : s.landed.map Landing.file ++ [⟨source, path⟩] <+: W.filesOf grab :=
        ⟨placements.filterMap (W.fileFor row), by rw [← hleft, List.append_assoc]; rfl⟩
      have hfile : (⟨source, path⟩ : Wanted) ∈ W.filesOf grab :=
        hnext.subset (List.mem_append_right _ List.mem_cons_self)
      refine stays_filing_bind (stays_targetFor_next hfinished hpath htidy hnext) ?_ ?_
      · rintro row' reason s' _ ⟨rfl, rfl, ⟨-, hcause⟩ | ⟨_, hok, -⟩⟩
        · exact ⟨hrow, .inr ⟨⟨reason, rfl⟩, hcause⟩⟩
        · cases hok
      rintro row' target s' _ ⟨rfl, rfl, ⟨⟨_, herror⟩, -⟩ | ⟨target', hok, rfl, hfree⟩⟩
      · cases herror
      obtain rfl : target = target' := Except.ok.inj hok
      have hland := tidy_land htidy hrow.saved hfile fun _ => ⟨hnext, hfree⟩
      refine stays_filing_bind (stays_copy htidy hrow hfile hland filed.base total) ?_ ?_
      · rintro row'' reason s'' _ ⟨hrow', -, ⟨hok, -⟩ | ⟨-, hflaky⟩⟩
        · cases hok
        · exact ⟨hrow', .inr ⟨⟨reason, rfl⟩, .inl hflaky⟩⟩
      rintro row'' _ s'' htidy' ⟨hrow', hsame, ⟨-, hlanded⟩ | ⟨⟨_, herror⟩, -⟩⟩
      · -- the row is written, and the loop goes on with the placements that are left
        have hplaced := sameNames_withPlaced row'' index target.path
        have hrow'' := hrow'.change hplaced rfl
        refine stays_filing_save_bind htidy' ?_
        have hrest : placements.filterMap (W.fileFor (row''.withPlaced index target.path)) =
            placements.filterMap (W.fileFor row') := by
          have hsame' := hsame.trans hplaced
          exact filterMap_fileFor_congr hsame'.targetFolder hsame'.targetLibraryId rfl
        have hdone := ih (index + 1)
          { filed with
            placed := filed.placed + 1
            base := (row''.withPlaced index target.path).bytesDone }
          (hrow''.tidy_save htidy') hrow''.save
          (by rw [hrest, hlanded, ← hleft, List.append_assoc]; rfl)
        rw [hrest] at hdone
        rwa [List.length_cons, Nat.add_comm _ 1, ← Nat.add_assoc]
      · cases herror

end Filing

/-! ### A whole download -/

section Whole

variable {W : Setting} {grab row : ReleaseGrab} {stuck flaky : Bool} {s : Shelf}

/-- What an attempt leaves that found the shelf `s₀`: a `PLACED` row, or the reason it failed with. -/
def Ended (W : Setting) (grab : ReleaseGrab) (flaky : Bool) (s₀ : Shelf)
    (left : ReleaseGrab × Except String Unit) (s' : Shelf) : Prop :=
  (left.2 = .ok () ∧ s'.row.state = .PLACED ∧
      (s₀.landed = [] → s'.landed.map Landing.file = W.filesOf grab)) ∨
    (∃ reason, left.2 = .error reason) ∧ BeingFiled W grab left.1 s' ∧
      (flaky = true ∨ s₀.landed ≠ [] ∨ ¬ Apart W grab)

theorem stays_placed (s₀ : Shelf) (f : ReleaseGrab → ReleaseGrab) (htidy : Tidy W grab stuck s)
    (hrow : BeingFiled W grab row s) (hsame : SameNames row (f row))
    (hstate : (f row).state = .PLACED)
    (hlanded : s.landed.map Landing.file = s₀.landed.map Landing.file ++ W.filesOf grab)
    (hstuck : stuck = true → s₀.landed ≠ []) :
    Stays W grab stuck flaky (Ended W grab flaky s₀)
      ((do Filing.change f; Filing.save : Filing Unit) row) s := by
  have hlength := congrArg List.length hlanded
  simp only [List.length_map, List.length_append] at hlength
  refine ⟨htidy, ?_⟩
  rintro s' r ⟨-, rfl⟩
  refine ⟨tidy_place htidy (hrow.download.change hsame) hstate (by omega) fun his => ?_,
    .inl ⟨rfl, hstate, fun hnil => hlanded.trans (by rw [hnil]; rfl)⟩⟩
  have hpos := List.length_pos_of_ne_nil (hstuck his)
  omega

/-- What landed of a download whose media is there is its first file, at least. -/
theorem Tidy.first (htidy : Tidy W grab stuck s) (horphaned : W.orphaned grab = false)
    {file : Wanted} {rest : List Wanted} (hfiles : W.filesOf grab = file :: rest)
    (hlanded : s.landed ≠ []) : file.path ∈ s.landed.map Landing.path := by
  have hpart := (htidy.once horphaned).1
  obtain ⟨landing, more, hcons⟩ := List.exists_cons_of_ne_nil hlanded
  rw [hfiles, hcons, List.map_cons] at hpart
  obtain ⟨rfl, -⟩ := List.cons_prefix_cons.mp hpart
  rw [hcons]
  exact List.mem_cons_self

theorem stays_placeEach (hfinished : Finished W grab) (horphaned : W.orphaned grab = false)
    (htidy : Tidy W grab stuck s) (hrow : BeingFiled W grab row s)
    (hfiles : row.placements.filterMap (W.fileFor row) = W.filesOf grab) :
    Stays W grab stuck flaky (Ended W grab flaky s) (placeEach W.located row) s := by
  let total := (row.placements.map fun one =>
    if one.fileName = none then 0 else one.bytes.getD 0).sum
  let begun : ReleaseGrab := { row with bytesDone := 0, bytesTotal := total }
  have hsame : SameNames row begun := ⟨rfl, rfl, rfl, rfl, rfl, rfl, rfl⟩
  have hbegun : BeingFiled W grab begun s := hrow.change hsame rfl
  have hfiles' : row.placements.filterMap (W.fileFor begun) = W.filesOf grab := by
    rw [← hfiles]
    exact filterMap_fileFor_congr rfl rfl rfl
  rw [placeEach, current_bind, change_bind]
  by_cases hlanded : s.landed = []
  · refine stays_filing_bind (stays_placeFrom hfinished total 0 ⟨0, 0, []⟩ htidy hbegun
      (by rw [hlanded, hfiles']; rfl)) ?_ ?_
    · rintro row' reason s' _ ⟨hrow', ⟨_, hok, -⟩ | ⟨-, hcause⟩⟩
      · cases hok
      · exact .inr ⟨⟨reason, rfl⟩, hrow', hcause.imp_right .inr⟩
    · rintro row' filed s' htidy' ⟨hrow', ⟨_, hok, hplaced, hall⟩ | ⟨⟨_, herror⟩, -⟩⟩
      · cases hok
        have hsome : filed.placed ≠ 0 := by
          rw [hplaced, hfiles']
          have hpos := List.length_pos_of_ne_nil hfinished.files
          omega
        rw [if_neg hsome]
        refine stays_placed s (·.placedBy filed) htidy' hrow' ⟨rfl, rfl, rfl, rfl, rfl, rfl, rfl⟩ rfl
          (by rw [hall, hlanded]; rfl) fun his => absurd hlanded (htidy.stuck his).1
      · cases herror
  · obtain ⟨file, rest, hcons⟩ := List.exists_cons_of_ne_nil hfinished.files
    refine stays_filing_bind (stays_placeFrom_blocked total 0 ⟨0, 0, []⟩ htidy
      (hfiles'.trans hcons) (htidy.first horphaned hcons hlanded)) ?_ ?_
    · rintro row' reason s' _ ⟨rfl, rfl, -⟩
      exact .inr ⟨⟨reason, rfl⟩, hbegun, .inr (.inl hlanded)⟩
    · rintro row' filed s' _ ⟨-, -, _, herror⟩
      cases herror

/-- The largest file of a download is the one its files were read off with. -/
theorem stays_largestUnder {file : DiskFile} (htidy : Tidy W grab stuck s)
    (hlargest : W.largest row = some file) :
    Stays W grab stuck flaky (fun left s' => s' = s ∧ left = (row, .ok file))
      (largestUnder W.located row) s := by
  obtain ⟨hreadable, hfile⟩ := Option.ite_none_right_eq_some.mp hlargest
  have hsees : W.sees (Ask.readable W.located) = true := hreadable
  have hunder : largestFile (W.sees (Ask.filesUnder row.id W.located)) = some file := hfile
  refine stays_filing_ask_bind (Program.only_ask trivial) htidy ?_
  rw [hsees, if_pos rfl]
  refine stays_filing_ask_bind (Program.only_ask trivial) htidy ?_
  rw [hunder]
  exact ⟨htidy, rfl, rfl⟩

/-- The only file of a download is copied, and its row becomes `PLACED`. -/
theorem stays_copyOnly {file : Wanted} {f : ReleaseGrab → ReleaseGrab}
    (hf : ∀ row, SameNames row (f row) ∧ (f row).state = .PLACED)
    (hfiles : W.filesOf grab = [file]) (htidy : Tidy W grab stuck s) (hrow : BeingFiled W grab row s)
    (hland : Tidy W grab stuck (s.land file.source file.path)) :
    Stays W grab stuck flaky (Ended W grab flaky s)
      ((do
        Filing.change (·.copying file.path)
        copy file.source file.path 0 0
        Filing.change f
        Filing.save : Filing Unit) row) s := by
  have hfile : file ∈ W.filesOf grab := hfiles ▸ List.mem_singleton_self file
  have hcopying : SameNames row (row.copying file.path) := ⟨rfl, rfl, rfl, rfl, rfl, rfl, rfl⟩
  rw [change_bind]
  refine stays_filing_bind (stays_copy htidy (hrow.change hcopying rfl) hfile hland 0 0) ?_ ?_
  · rintro row' reason s' _ ⟨hrow', -, ⟨hok, -⟩ | ⟨-, hflaky⟩⟩
    · cases hok
    · exact .inr ⟨⟨reason, rfl⟩, hrow', .inl hflaky⟩
  · rintro row' _ s' htidy' ⟨hrow', -, ⟨-, hlanded⟩ | ⟨⟨_, herror⟩, -⟩⟩
    · exact stays_placed s f htidy' hrow' (hf row').1 (hf row').2 (by rw [hlanded, hfiles])
        fun his => (htidy.stuck his).1
    · cases herror

theorem stays_placeLargest (hfinished : Finished W grab) (horphaned : W.orphaned grab = false)
    (htidy : Tidy W grab stuck s) (hrow : BeingFiled W grab row s) {item : MediaItem}
    {file : DiskFile} (hlargest : W.largest row = some file)
    (hfiles : W.filesOf grab = [⟨file.path, W.pathFor row item (·.kind) file.path⟩]) :
    Stays W grab stuck flaky (Ended W grab flaky s) (placeLargest W.located item row) s := by
  refine stays_filing_bind (stays_largestUnder htidy hlargest) ?_ ?_
  · rintro row' reason s' _ ⟨-, h⟩
    cases h
  rintro _ _ s' _ ⟨rfl, ⟨⟩⟩
  generalize hpath : W.pathFor row item (·.kind) file.path = path at hfiles
  by_cases hlanded : s'.landed = []
  · have hnext : s'.landed.map Landing.file ++ [⟨file.path, path⟩] <+: W.filesOf grab := by
      rw [hlanded, hfiles]
      exact List.prefix_refl _
    refine stays_filing_bind (stays_targetFor_next hfinished hpath htidy hnext) ?_ ?_
    · rintro row' reason s'' _ ⟨rfl, rfl, ⟨-, hcause⟩ | ⟨_, hok, -⟩⟩
      · exact .inr ⟨⟨reason, rfl⟩, hrow, hcause.imp_right .inr⟩
      · cases hok
    rintro row' target s'' _ ⟨rfl, rfl, ⟨⟨_, herror⟩, -⟩ | ⟨target', hok, rfl, hfree⟩⟩
    · cases herror
    obtain rfl : target = target' := Except.ok.inj hok
    have hland := tidy_land htidy hrow.saved (hfiles ▸ List.mem_singleton_self _)
      fun _ => ⟨hnext, hfree⟩
    refine stays_copyOnly ?_ hfiles htidy hrow hland
    exact fun row => ⟨⟨rfl, rfl, rfl, rfl, rfl, rfl, rfl⟩, rfl⟩
  · have hblocked := htidy.first horphaned hfiles hlanded
    refine stays_filing_bind (stays_targetFor_blocked htidy (hpath ▸ hblocked)) ?_ ?_
    · rintro row' reason s'' _ ⟨rfl, rfl, -⟩
      exact .inr ⟨⟨reason, rfl⟩, hrow, .inr (.inl hlanded)⟩
    · rintro row' target s'' _ ⟨-, -, _, herror⟩
      cases herror

/-- A download whose media is gone is filed, also where it was filed before. -/
theorem stays_placeOrphan (horphaned : W.orphaned grab = true) (htidy : Tidy W grab stuck s)
    (hrow : BeingFiled W grab row s) {plannedPath : Dir} {file : DiskFile}
    (hlargest : W.largest row = some file)
    (hfiles : W.filesOf grab = [⟨file.path, join plannedPath [nameOf file.path]⟩]) :
    Stays W grab stuck flaky (Ended W grab flaky s) (placeOrphan W.located plannedPath row) s := by
  refine stays_filing_bind (stays_largestUnder htidy hlargest) ?_ ?_
  · rintro row' reason s' _ ⟨-, h⟩
    cases h
  rintro _ _ s' _ ⟨rfl, ⟨⟩⟩
  have hland := tidy_land htidy hrow.saved (hfiles ▸ List.mem_singleton_self _) fun hthere =>
    Bool.noConfusion (hthere.symm.trans horphaned)
  refine stays_copyOnly ?_ hfiles htidy hrow hland
  exact fun row => ⟨⟨rfl, rfl, rfl, rfl, rfl, rfl, rfl⟩, rfl⟩

theorem fileName_of_mem_spread {grabId : String} {sourcePath : Dir} {item : MediaItem}
    {one : GrabPlacement} (h : one ∈ W.sees (spreadOf grabId sourcePath item)) :
    one.fileName.isSome = true := by
  rw [Setting.sees, spreadOf, Program.eval_bind] at h
  split_ifs at h
  · cases h
  · rw [Program.eval_bind] at h
    obtain ⟨found, -, rfl⟩ := List.mem_map.mp h
    rfl

theorem sameDownload_spread (hrow : SameDownload W grab row) {item : MediaItem}
    (hitem : W.look (.findItem row.itemId) = some item)
    (hnamed : row.placements.any (·.fileName.isSome) = false) {spread : List GrabPlacement}
    (hspread : W.sees (spreadOf row.id W.located item) = spread) (hmany : 1 < spread.length) :
    SameDownload W grab { row with placements := spread } ∧
      spread.filterMap (W.fileFor row) = W.filesOf grab := by
  have hfiles : W.filesOf row = spread.filterMap (W.fileFor row) := by
    subst hspread
    rw [Setting.filesOf, hitem, hnamed]
    exact if_pos hmany
  have hnamed' : spread.any (·.fileName.isSome) = true := by
    obtain ⟨one, hone⟩ := List.exists_mem_of_length_pos (by omega : 0 < spread.length)
    exact List.any_eq_true.mpr ⟨one, hone, fileName_of_mem_spread (hspread ▸ hone)⟩
  refine ⟨{ hrow with files := ?_ }, hfiles.symm.trans hrow.files⟩
  rw [← hrow.files, hfiles, Setting.filesOf, hitem]
  refine (if_pos hnamed').trans ?_
  exact filterMap_fileFor_congr rfl rfl rfl

theorem stays_placeItem (hfinished : Finished W grab) (horphaned : W.orphaned grab = false)
    (htidy : Tidy W grab stuck s) (hrow : BeingFiled W grab row s) {item : MediaItem}
    (hitem : W.look (.findItem row.itemId) = some item) :
    Stays W grab stuck flaky (Ended W grab flaky s) (placeItem W.located item row) s := by
  have hfiles := hrow.download.files
  rw [placeItem, current_bind]
  rcases hnamed : row.placements.any (·.fileName.isSome) with _ | _
  · rw [if_neg Bool.false_ne_true]
    refine stays_filing_ask_bind (only_spreadOf row.id W.located item) htidy ?_
    by_cases hmany : 1 < (W.sees (spreadOf row.id W.located item)).length
    · -- the placements its own names give are written before anything is filed
      obtain ⟨hspread, hall⟩ := sameDownload_spread hrow.download hitem hnamed rfl hmany
      rw [if_pos hmany, change_bind]
      have hrow' : BeingFiled W grab
          { row with placements := W.sees (spreadOf row.id W.located item) } s :=
        ⟨hspread, hrow.state, hrow.saved⟩
      refine stays_filing_save_bind htidy ?_
      refine stays_placeEach hfinished horphaned (hrow'.tidy_save htidy) hrow'.save ?_
      rw [← hall]
      exact filterMap_fileFor_congr rfl rfl rfl
    · rw [if_neg hmany]
      have hone : W.filesOf row = (W.largest row).toList.map fun file =>
          ⟨file.path, W.pathFor row item (·.kind) file.path⟩ := by
        rw [Setting.filesOf, hitem, hnamed]
        exact if_neg hmany
      rcases hlargest : W.largest row with _ | file
      · rw [hlargest] at hone
        exact absurd (hfiles.symm.trans hone) hfinished.files
      · rw [hlargest] at hone
        exact stays_placeLargest hfinished horphaned htidy hrow hlargest (hfiles.symm.trans hone)
  · rw [if_pos rfl]
    refine stays_placeEach hfinished horphaned htidy hrow ?_
    rw [← hfiles, Setting.filesOf, hitem, hnamed]
    rfl

theorem stays_locate (htidy : Tidy W grab stuck s) (hrow : BeingFiled W grab row s)
    (hsource : row.sourcePath = some (localise W.status W.client)) :
    Stays W grab stuck flaky
      (fun left s' => left.2 = .ok W.located ∧ BeingFiled W grab left.1 s' ∧
        SameNames row left.1 ∧ s'.landed = s.landed)
      (locate W.client row) s := by
  rw [locate, current_bind, hsource]
  refine stays_filing_ask_bind (only_reachable _ _) htidy ?_
  rcases hreachable : W.sees (reachable (localise W.status W.client) W.client) with _ | path
  · have hlocated : W.located = localise W.status W.client := by
      rw [Setting.located, hreachable, Option.getD_none]
    exact ⟨htidy, by rw [hlocated], hrow, SameNames.refl row, rfl⟩
  · have hlocated : W.located = path := by
      rw [Setting.located, hreachable, Option.getD_some]
    dsimp only
    split_ifs with hsame
    · exact ⟨htidy, by rw [hlocated, hsame], hrow, SameNames.refl row, rfl⟩
    · have hfound : SameNames row { row with sourcePath := some path } :=
        ⟨rfl, rfl, rfl, rfl, rfl, rfl, rfl⟩
      have hrow' := hrow.change hfound rfl
      rw [change_bind]
      refine stays_filing_save_bind htidy ?_
      exact ⟨hrow'.tidy_save htidy, by rw [hlocated], hrow'.save, hfound, rfl⟩

theorem stays_placeGrab (hfinished : Finished W grab) (htidy : Tidy W grab stuck s)
    (hrow : BeingFiled W grab row s)
    (hsource : row.sourcePath = some (localise W.status W.client)) :
    Stays W grab stuck flaky (Ended W grab flaky s) (placeGrab W.client row) s := by
  rw [placeGrab, current_bind]
  refine stays_filing_ask_bind (Program.only_ask trivial) htidy ?_
  refine stays_filing_bind (stays_locate htidy hrow hsource) ?_ ?_
  · rintro row' reason s' _ ⟨hok, -⟩
    cases hok
  rintro row' sourcePath s' htidy' ⟨hok, hrow', hsame, hlanded⟩
  cases hok
  have hended : Ended W grab flaky s = Ended W grab flaky s' := by
    unfold Ended
    rw [hlanded]
  have hlook : W.sees (Ask.findItem row.itemId) = W.look (.findItem row.itemId) := rfl
  rw [hended, hlook]
  rcases hitem : W.look (.findItem row.itemId) with _ | item
  · have horphaned : W.orphaned grab = true := by
      rw [Setting.orphaned, ← hrow.download.itemId, hitem]
      rfl
    have hfiles := hrow'.download.files
    rw [Setting.filesOf, hsame.itemId, hsame.plannedPath, hitem] at hfiles
    rcases hplanned : row.plannedPath with _ | plannedPath
    · rw [hplanned] at hfiles
      exact absurd hfiles.symm hfinished.files
    · rcases hlargest : W.largest row' with _ | file
      · rw [hplanned, hlargest] at hfiles
        exact absurd hfiles.symm hfinished.files
      · rw [hplanned, hlargest] at hfiles
        exact stays_placeOrphan horphaned htidy' hrow' hlargest hfiles.symm
  · have horphaned : W.orphaned grab = false := by
      rw [Setting.orphaned, ← hrow.download.itemId, hitem]
      rfl
    exact stays_placeItem hfinished horphaned htidy' hrow' (by rw [hsame.itemId, hitem])

/-- What a pass leaves that found the shelf `s₀` with a live row. -/
def Passed (W : Setting) (grab : ReleaseGrab) (flaky : Bool) (s₀ s' : Shelf) : Prop :=
  (s'.row.state = .PLACED ∧ (s₀.landed = [] → s'.landed.map Landing.file = W.filesOf grab)) ∨
    flaky = true ∨ s₀.landed ≠ [] ∨ ¬ Apart W grab

theorem stays_place (hfinished : Finished W grab) (htidy : Tidy W grab stuck s)
    (hrow : BeingFiled W grab row s)
    (hsource : row.sourcePath = some (localise W.status W.client)) :
    Stays W grab stuck flaky (fun _ s' => Passed W grab flaky s s') (place W.client row) s := by
  refine Stays.bind (stays_placeGrab hfinished htidy hrow hsource) ?_
  rintro ⟨row', answer⟩ s' htidy' (⟨hok, hplaced⟩ | ⟨⟨reason, herror⟩, hrow', hcause⟩)
  · obtain rfl : answer = .ok () := hok
    exact ⟨htidy', .inl hplaced⟩
  · obtain rfl : answer = .error reason := herror
    refine ⟨htidy', ?_⟩
    rintro s'' r ⟨-, rfl⟩
    have hfailed : SameNames row' { row' with state := .FAILED, error := some reason } :=
      ⟨rfl, rfl, rfl, rfl, rfl, rfl, rfl⟩
    exact ⟨tidy_save htidy' (hrow'.download.change hfailed) (fun hsent => by cases hsent)
      (fun hplaced => by cases hplaced), .inr hcause⟩

theorem stays_follow (hfinished : Finished W grab) (htidy : Tidy W grab stuck s)
    (hstate : s.row.state ≠ .PLACED) (clientId : String) :
    Stays W grab stuck flaky (fun result s' => result = .ok () ∧ Passed W grab flaky s s')
      (follow W.client s.row clientId W.status) s := by
  have hchosen : ¬ (s.row.state = .SENT ∧ awaitsChoice s.row = true) := by
    rintro ⟨hsent, hawaits⟩
    cases hawaits.symm.trans (htidy.unsent hsent)
  have hcomplete : ¬ (!W.status.complete) = true := by simp [hfinished.complete]
  have hfailed : ¬ W.status.failed = true := by simp [hfinished.failed]
  rw [follow, if_neg hchosen, if_neg hfailed, if_neg hcomplete]
  have hsame : SameNames s.row (s.row.fetched W.status W.client) :=
    ⟨rfl, rfl, rfl, rfl, rfl, rfl, rfl⟩
  have hrow : BeingFiled W grab (s.row.fetched W.status W.client) s :=
    ⟨htidy.row.change hsame, rfl, hstate⟩
  refine stays_ask_bind htidy fun _ _ => ?_
  refine Stays.bind (stays_place hfinished (hrow.tidy_save htidy) hrow.save rfl) ?_
  exact fun _ s' htidy' hpassed => ⟨htidy', rfl, hpassed⟩

theorem stays_pass (hfinished : Finished W grab) (htidy : Tidy W grab stuck s) :
    Stays W grab stuck flaky
      (fun _ s' => (s.row.state ∈ LIVE_STATES → Passed W grab flaky s s') ∧
        (s.row.state ∉ LIVE_STATES → s' = s))
      pass s := by
  refine stays_ask_bind htidy fun live hlive => ?_
  obtain rfl : live = [s.row].filter (·.state ∈ LIVE_STATES) := hlive
  by_cases hstate : s.row.state ∈ LIVE_STATES
  · have hlive : [s.row].filter (·.state ∈ LIVE_STATES) = [s.row] :=
      List.filter_eq_self.mpr fun row hrow => by
        rw [List.mem_singleton.mp hrow]
        exact decide_eq_true hstate
    have hplaced : s.row.state ≠ .PLACED := fun hplaced => by
      rw [hplaced] at hstate
      exact absurd hstate (by decide)
    have hclient : s.row.clientId = some W.status.clientId :=
      htidy.row.clientId.trans hfinished.clientId
    have htracked : [s.row].filterMap (·.clientId) = [W.status.clientId] :=
      List.filterMap_cons_some hclient
    have hstatus : statusOf [W.status] W.status.clientId = some W.status := by simp [statusOf]
    rw [hlive, if_neg (List.cons_ne_nil _ _)]
    refine stays_ask_bind htidy fun client hanswer => ?_
    obtain rfl : client = some W.client := hanswer
    dsimp only
    rw [htracked, if_neg (List.cons_ne_nil _ _)]
    refine stays_ask_bind htidy fun statuses hanswer => ?_
    rcases hanswer with rfl | ⟨hflaky, reason, rfl⟩
    · refine Stays.bind (R := fun result s' => result = .ok () ∧ Passed W grab flaky s s') ?_ ?_
      · rw [turn, hclient]
        dsimp only
        rw [hstatus]
        exact stays_follow hfinished htidy hplaced W.status.clientId
      · rintro _ s' htidy' ⟨rfl, hpassed⟩
        exact ⟨htidy', fun _ => hpassed, fun hnot => absurd hstate hnot⟩
    · exact ⟨htidy, fun _ => .inr (.inl hflaky), fun hnot => absurd hstate hnot⟩
  · have hlive : [s.row].filter (·.state ∈ LIVE_STATES) = [] :=
      List.filter_eq_nil_iff.mpr fun row hrow => by
        rw [List.mem_singleton.mp hrow]
        simpa using hstate
    rw [hlive, if_pos rfl]
    exact ⟨htidy, fun hlive => absurd hlive hstate, fun _ => rfl⟩

theorem mem_LIVE_STATES {state : GrabState} (h : state ≠ .FAILED ∧ state ≠ .CANCELLED)
    (hplaced : state ≠ .PLACED) : state ∈ LIVE_STATES := by
  cases state <;> simp_all [LIVE_STATES]

/-- A retry makes a row that failed, or was given up, a live one. -/
theorem stays_retry (hfinished : Finished W grab) (htidy : Tidy W grab stuck s) (id : String) :
    Stays W grab stuck flaky
      (fun _ s' => s'.landed = s.landed ∧ (s.row.state = .PLACED → s' = s) ∧
        (id = s.row.id → s.row.state ≠ .PLACED → s'.row.state ∈ LIVE_STATES))
      (retry id) s := by
  refine stays_ask_bind htidy fun found hfound => ?_
  obtain rfl : found = [s.row].find? (·.id = id) := hfound
  by_cases hid : s.row.id = id
  · have hfound : [s.row].find? (·.id = id) = some s.row :=
      List.find?_cons_of_pos (decide_eq_true hid)
    have hclient : s.row.clientId ≠ none := by
      rw [htidy.row.clientId, hfinished.clientId]
      exact Option.some_ne_none _
    rw [hfound]
    dsimp only
    split_ifs with hstate
    · exact ⟨htidy, rfl, fun _ => rfl, fun _ hplaced => mem_LIVE_STATES hstate hplaced⟩
    · have hsame : SameNames s.row { s.row with state := .DOWNLOADING, error := none } :=
        ⟨rfl, rfl, rfl, rfl, rfl, rfl, rfl⟩
      refine stays_ask_bind htidy fun _ _ => ?_
      refine ⟨tidy_save htidy (htidy.row.change hsame) (fun hsent => by cases hsent)
        (fun hplaced => by cases hplaced), rfl, fun hplaced => ?_, fun _ _ => by
          exact List.mem_cons_of_mem _ List.mem_cons_self⟩
      exact absurd ⟨by rw [hplaced]; decide, by rw [hplaced]; decide⟩ hstate
  · have hfound : [s.row].find? (·.id = id) = none :=
      List.find?_eq_none.mpr fun row hrow => by
        rw [List.mem_singleton.mp hrow]
        simpa using hid
    rw [hfound]
    exact ⟨htidy, rfl, fun _ => rfl, fun heq => absurd heq.symm hid⟩

end Whole

/-! ### Its life -/

section Life

variable {W : Setting} {grab : ReleaseGrab} {stuck flaky : Bool} {s s' : Shelf}

theorem stays_attempt (hfinished : Finished W grab) (htidy : Tidy W grab stuck s)
    (attempt : Attempt) : Stays W grab stuck flaky (fun _ _ => True) attempt.script s := by
  cases attempt with
  | poll => exact (stays_pass hfinished htidy).bind fun _ s' htidy' _ => ⟨htidy', trivial⟩
  | retry id => exact (stays_retry hfinished htidy id).bind fun _ s' htidy' _ => ⟨htidy', trivial⟩

/-- **What a life keeps**, wherever it was cut. -/
theorem Life.tidy (hfinished : Finished W grab) (hlife : Life W s s')
    (htidy : Tidy W grab stuck s) : Tidy W grab stuck s' := by
  induction hlife with
  | nil => exact htidy
  | snoc attempt _ hvisits ih => exact (stays_attempt hfinished ih attempt).visits hvisits

theorem tidy_start (hfinished : Finished W grab) : Tidy W grab false (.start grab) where
  row := ⟨rfl, rfl, rfl, rfl, rfl, rfl, rfl⟩
  unsent := hfinished.chosen
  mem landing hin := by cases hin
  once _ := ⟨List.nil_prefix, List.nodup_nil⟩
  own _ landing hin := by cases hin
  begun _ _ _ := .inl rfl
  placed hplaced := absurd hplaced hfinished.unplaced
  stuck hstuck := by cases hstuck

theorem stays_retried (hfinished : Finished W grab) (htidy : Tidy W grab stuck s) :
    Stays W grab stuck flaky
      (fun _ s' => (s.row.state = .PLACED → s' = s) ∧
        (s.row.state ≠ .PLACED → Passed W grab flaky s s'))
      (retried s.row.id) s := by
  refine Stays.bind (stays_retry hfinished htidy s.row.id) ?_
  rintro _ s₁ htidy₁ ⟨hlanded, hsame, hlive⟩
  refine Stays.bind (stays_pass hfinished htidy₁) ?_
  rintro _ s₂ htidy₂ ⟨hpassed, hidle⟩
  refine ⟨htidy₂, fun hplaced => ?_, fun hplaced => ?_⟩
  · obtain rfl := hsame hplaced
    exact hidle (by rw [hplaced]; decide)
  · have hdone := hpassed (hlive rfl hplaced)
    unfold Passed at hdone ⊢
    rwa [hlanded] at hdone

/-- A download whose media is gone is filed as one file. -/
theorem length_filesOf_of_orphaned (horphaned : W.orphaned grab = true) :
    (W.filesOf grab).length ≤ 1 := by
  have hitem : W.look (.findItem grab.itemId) = none := Option.isNone_iff_eq_none.mp horphaned
  rw [Setting.filesOf, hitem]
  dsimp only
  split <;> simp

theorem apart_of_orphaned (horphaned : W.orphaned grab = true) : Apart W grab := by
  have hone := length_filesOf_of_orphaned horphaned
  rw [Apart]
  generalize W.filesOf grab = files at hone ⊢
  rcases files with _ | ⟨file, _ | ⟨file', rest⟩⟩
  · exact List.nodup_nil
  · exact List.nodup_singleton _
  · simp at hone

theorem Tidy.files (htidy : Tidy W grab stuck s)
    (hlength : s.landed.length = (W.filesOf grab).length) :
    s.landed.map Landing.file = W.filesOf grab ∧ Apart W grab := by
  rcases horphaned : W.orphaned grab with _ | _
  · obtain ⟨hpart, hnodup⟩ := htidy.once horphaned
    have hall := hpart.eq_of_length (by rw [List.length_map, hlength])
    refine ⟨hall, ?_⟩
    rw [Apart, ← hall, List.map_map]
    exact hnodup
  · refine ⟨?_, apart_of_orphaned horphaned⟩
    have hone := length_filesOf_of_orphaned horphaned
    have hmem := htidy.mem
    generalize W.filesOf grab = files at hlength hone hmem
    rcases hlanded : s.landed with _ | ⟨landing, _ | ⟨landing', rest⟩⟩
    · rw [hlanded, List.length_nil] at hlength
      rw [List.eq_nil_of_length_eq_zero hlength.symm, List.map_nil]
    · rw [hlanded, List.length_singleton] at hlength
      obtain ⟨file, rfl⟩ := List.length_eq_one_iff.mp hlength.symm
      have hfile := hmem landing (by rw [hlanded]; exact List.mem_singleton_self _)
      rw [List.map_singleton, List.mem_singleton.mp hfile]
    · rw [hlanded] at hlength
      simp only [List.length_cons] at hlength
      omega

/-- Its row is `PLACED`, and its files are in the library with their own bytes. -/
theorem Tidy.done (htidy : Tidy W grab stuck s) (hplaced : s.row.state = .PLACED)
    (hlanded : s.landed.map Landing.file = W.filesOf grab) (hapart : Apart W grab) :
    s.Done (W.filesOf grab) := by
  refine ⟨hplaced, ?_⟩
  rw [← hlanded, List.map_map]
  refine (List.map_id s.landed).symm.trans (List.map_congr_left fun landing hin => ?_)
  have hown := htidy.own hapart landing hin
  obtain ⟨source, path, own⟩ := landing
  obtain rfl : own = true := hown
  rfl

theorem Shelf.Done.length {files : List Wanted} (h : s.Done files) :
    s.landed.length = files.length := by
  rw [h.2, List.length_map]

theorem exists_answer (s : Shelf) (op : Op) : ∃ s' r, W.World false s op s' r := by
  cases op with
  | findLive | findOne | downloadClient => exact ⟨_, _, rfl, rfl⟩
  | findItem | findChildren | readable | filesUnder | nameableOf | pinnedFolder =>
    exact ⟨_, _, rfl, rfl⟩
  | save | delete => exact ⟨_, (), trivial, rfl⟩
  | files => exact ⟨_, .ok [], trivial, rfl⟩
  | selectFiles | start | pause => exact ⟨_, .ok (), trivial, rfl⟩
  | statuses | resolve | prepare => exact ⟨_, _, .inl rfl, rfl⟩
  | move => exact ⟨_, ⟨none, .ok ()⟩, .inl rfl, rfl⟩

/-- A download that landed in part stays stuck: it is not `PLACED`, or a file of it lands again. -/
theorem not_recovers_of_landed (hfinished : Finished W grab) (htidy : Tidy W grab false s)
    (hopen : s.row.state ≠ .PLACED) (hlanded : s.landed ≠ []) :
    ¬ Recovers W s (W.filesOf grab) := by
  rintro ⟨⟨s', a, hexec⟩, hall⟩
  have hdone := hall s' a hexec
  have hstuck : Tidy W grab true s :=
    { htidy with stuck := fun _ => ⟨hlanded, fun hplaced => absurd hplaced hopen⟩ }
  have htidy' := (stays_retried hfinished hstuck).visits hexec.visits
  have hmore := (htidy'.stuck rfl).2 hdone.1
  rw [hdone.length] at hmore
  exact Nat.lt_irrefl _ hmore

/-- **When a retry files a download to the end.**  At any point of its life, a retry once the cause is
gone leaves the row `PLACED` and every file landed once with its own bytes exactly when nothing has
landed yet and the paths of its files are different ones, or the row is `PLACED` already and each
file landed once. -/
theorem recovers_iff (hfinished : Finished W grab) (hlife : Life W (.start grab) s) :
    Recovers W s (W.filesOf grab) ↔
      s.row.state = .PLACED ∧ s.landed.length = (W.filesOf grab).length ∨
        s.landed = [] ∧ Apart W grab := by
  have htidy := hlife.tidy hfinished (tidy_start hfinished)
  constructor
  · intro hrecovers
    obtain ⟨s', a, hexec⟩ := hrecovers.1
    have hdone := hrecovers.2 s' a hexec
    by_cases hplaced : s.row.state = .PLACED
    · obtain rfl := ((stays_retried hfinished htidy).exec hexec).1 hplaced
      exact .inl ⟨hplaced, hdone.length⟩
    · by_cases hlanded : s.landed = []
      · have htidy' := (stays_retried hfinished htidy).visits hexec.visits
        exact .inr ⟨hlanded, (htidy'.files hdone.length).2⟩
      · exact absurd hrecovers (not_recovers_of_landed hfinished htidy hplaced hlanded)
  · intro h
    refine ⟨Program.exists_exec exists_answer _ s, fun s' a hexec => ?_⟩
    rcases h with ⟨hplaced, hlength⟩ | ⟨hlanded, hapart⟩
    · obtain rfl := ((stays_retried hfinished htidy).exec hexec).1 hplaced
      obtain ⟨hfiles, hapart⟩ := htidy.files hlength
      exact htidy.done hplaced hfiles hapart
    · have hopen : s.row.state ≠ .PLACED := fun hplaced => by
        have hmany := htidy.placed hplaced
        rw [hlanded] at hmany
        exact hfinished.files (List.eq_nil_of_length_eq_zero (Nat.le_zero.mp hmany))
      have htidy' := (stays_retried hfinished htidy).visits hexec.visits
      rcases ((stays_retried hfinished htidy).exec hexec).2 hopen with
        ⟨hplaced, hfiles⟩ | hflaky | hsome | hsame
      · exact htidy'.done hplaced (hfiles hlanded) hapart
      · cases hflaky
      · exact absurd hlanded hsome
      · exact absurd hapart hsame

end Life

/-! ### A copy that fails -/

/-- A download of two episodes, whose files are named and go under `lib` by their names. -/
def twoEpisodes : Setting where
  client := ⟨none, []⟩
  status := ⟨"t", "S02", 11, 11, true, false, "seeding", false, none, none, some ["data", "S02"]⟩
  look
    | .findItem id => some ⟨id, .EPISODE, id, some 2, none⟩
    | .readable _ => true
    | .nameableOf _ name => ⟨.EPISODE, some 2, none, name, none⟩
    | .findLive | .findChildren _ | .filesUnder _ _ => []
    | .findOne _ | .downloadClient | .pinnedFolder _ _ => none
    | .save _ | .delete _ => ()
    | .statuses _ => .ok []
    | .files _ => .ok []
    | .selectFiles _ _ | .start _ | .pause _ | .prepare _ => .ok ()
    | .resolve _ _ => .error "out of reach"
    | .move _ _ _ => ⟨none, .ok ()⟩
  wanted request := ⟨"lib", ["lib"], ["lib", nameOf request.source]⟩
  held _ := false

def episodesGrab (names : List String) : ReleaseGrab where
  id := "g"
  itemId := "show"
  state := .FETCHED
  clientId := some "t"
  bytesDone := 11
  bytesTotal := 11
  sourcePath := some ["data", "S02"]
  targetPath := none
  targetLibraryId := none
  targetFolder := none
  plannedPath := none
  isPartial := false
  error := none
  placements := names.map fun name => ⟨name, some 2, none, name, some name, some 5, none⟩

theorem finished_twoEpisodes {names : List String}
    (hfiles : twoEpisodes.filesOf (episodesGrab names) ≠ []) :
    Finished twoEpisodes (episodesGrab names) where
  clientId := rfl
  complete := rfl
  failed := rfl
  unplaced hplaced := by cases hplaced
  chosen hsent := by cases hsent
  files := hfiles
  free _ _ := rfl

/-- Every operation succeeds but the copy of `E02`. -/
def withoutSecond (s : Shelf) : (op : Op) → op.Answer
  | .findLive => [s.row].filter (·.state ∈ LIVE_STATES)
  | .findOne id => [s.row].find? (·.id = id)
  | .downloadClient => some twoEpisodes.client
  | .statuses _ => .ok [twoEpisodes.status]
  | .resolve _ request => s.placed twoEpisodes request
  | .move _ source _ => ⟨none, if nameOf source = "E02" then .error "ENOSPC" else .ok ()⟩
  | op => twoEpisodes.look op

theorem world_withoutSecond (s : Shelf) (op : Op) :
    twoEpisodes.World true s op (s.after op (withoutSecond s op)) (withoutSecond s op) := by
  refine ⟨?_, rfl⟩
  cases op with
  | findLive | findOne | downloadClient => rfl
  | findItem | findChildren | readable | filesUnder | nameableOf | pinnedFolder => rfl
  | save | delete | files | selectFiles | start | pause => trivial
  | statuses | resolve | prepare => exact .inl rfl
  | move grabId source destination =>
    by_cases hsource : nameOf source = "E02"
    · exact .inr ⟨rfl, "ENOSPC", if_pos hsource⟩
    · exact .inl (if_neg hsource)

/-- So many operations of a pass. -/
def polled (names : List String) (count : ℕ) : Option Shelf :=
  Program.follow withoutSecond Shelf.after (fun _ _ => true) count Attempt.poll.script
    (.start (episodesGrab names))

theorem life_of_polled {names : List String} {count : ℕ} {s : Shelf}
    (h : polled names count = some s) : Life twoEpisodes (.start (episodesGrab names)) s :=
  .snoc .poll (.nil _) (Program.visits_follow (fun s op _ => world_withoutSecond s op) h)

/-- The second alone: its copy fails, and a retry files it. -/
theorem recovers_secondAlone : ∃ s, polled ["E02"] 14 = some s ∧ s.row.state = .FAILED ∧
    Recovers twoEpisodes s (twoEpisodes.filesOf (episodesGrab ["E02"])) := by
  have hends : (polled ["E02"] 14).map (fun s => (s.row.state, s.landed)) = some (.FAILED, []) := by
    decide +kernel
  obtain ⟨s, hs, hend⟩ := Option.map_eq_some_iff.mp hends
  obtain ⟨hstate, hlanded⟩ := Prod.mk.inj hend
  have hapart : Apart twoEpisodes (episodesGrab ["E02"]) := by
    unfold Apart
    decide +kernel
  exact ⟨s, hs, hstate, (recovers_iff (finished_twoEpisodes (by decide +kernel))
    (life_of_polled hs)).mpr (.inr ⟨hlanded, hapart⟩)⟩

/-- Both: the first lands, the copy of the second fails, and no retry files them to the end. -/
theorem not_recovers_both : ∃ s, polled ["E01", "E02"] 22 = some s ∧
    Life twoEpisodes (.start (episodesGrab ["E01", "E02"])) s ∧
    Apart twoEpisodes (episodesGrab ["E01", "E02"]) ∧ s.row.state = .FAILED ∧
    s.landed = [⟨["data", "E01"], ["lib", "E01"], true⟩] ∧
    ¬ Recovers twoEpisodes s (twoEpisodes.filesOf (episodesGrab ["E01", "E02"])) := by
  have hends : (polled ["E01", "E02"] 22).map (fun s => (s.row.state, s.landed)) =
      some (.FAILED, [⟨["data", "E01"], ["lib", "E01"], true⟩]) := by decide +kernel
  obtain ⟨s, hs, hend⟩ := Option.map_eq_some_iff.mp hends
  obtain ⟨hstate, hlanded⟩ := Prod.mk.inj hend
  have hapart : Apart twoEpisodes (episodesGrab ["E01", "E02"]) := by
    unfold Apart
    decide +kernel
  have hfinished : Finished twoEpisodes (episodesGrab ["E01", "E02"]) :=
    finished_twoEpisodes (by decide +kernel)
  have htidy := (life_of_polled hs).tidy hfinished (tidy_start hfinished)
  refine ⟨s, hs, life_of_polled hs, hapart, hstate, hlanded,
    not_recovers_of_landed hfinished htidy ?_ ?_⟩
  · rw [hstate]
    decide
  · rw [hlanded]
    exact List.cons_ne_nil _ _

end MediaCenterSync.Releases
