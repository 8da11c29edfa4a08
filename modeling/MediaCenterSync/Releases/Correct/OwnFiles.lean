import MediaCenterSync.Releases.Correct.Neutral

/-!
# A grab files its own download

Where a file of a download is, is read off the client's name for it, tried under the folder all
downloads share and then under the download itself (`fileNamed`).  Both are only checked against the
shared folder, so the file of another download may be found first.  `filesOwn_iff` says for which
names that never happens, over every run of `placeEach`.
-/

namespace MediaCenterSync.Releases

open Placement (Folder)
open Program (Always Visits always_bind)
open TransferManager (Dir isInside)

/-! ### The world around a download -/

/-- What can be read on the disk, and what of it is a file. -/
structure Tree where
  readable : Dir → Bool
  isFile : Dir → Bool

def Op.sources : Op → List Dir
  | .move _ source _ => [source]
  | _ => []

namespace Tree

variable (tree : Tree)

/-- The disk answers by the tree, and the rest of the world as it likes. -/
def Answers : (op : Op) → op.Answer → Prop
  | .readable path, r => r = tree.readable path
  | _, _ => True

/-- The worlds around the tree, with what was copied so far. -/
def World (copied : List Dir) (op : Op) (copied' : List Dir) (r : op.Answer) : Prop :=
  tree.Answers op r ∧ copied' = copied ++ op.sources

def found (root path : Dir) : Bool :=
  isInside path root && tree.readable path

def located (contentPath : Dir) (name : String) : Option Dir :=
  [resolvePath contentPath.dropLast name, resolvePath contentPath name].find?
    (tree.found contentPath.dropLast)

def source (contentPath : Dir) (placement : GrabPlacement) : Option Dir :=
  placement.fileName.bind (tree.located contentPath)

/-- A file of the download. -/
def Own (contentPath path : Dir) : Prop :=
  isInside path contentPath = true ∧ tree.readable path = true ∧ tree.isFile path = true

/-- A name denotes a file of the download under one of its two spellings. -/
def Denotes (contentPath : Dir) (name : String) : Prop :=
  tree.Own contentPath (resolvePath contentPath.dropLast name) ∨
    tree.Own contentPath (resolvePath contentPath name)

end Tree

/-- The loop of `placeEach` may copy a file in its turn for a placement, wherever it has come to. -/
def CopiesFor (tree : Tree) (contentPath : Dir) (placement : GrabPlacement) (path : Dir) : Prop :=
  ∃ total index filed row copied, path ∈ copied ∧
    Visits tree.World [] (placeFrom contentPath total index [placement] filed row) copied

/-- A grab files nothing but its own download: whatever is copied lies in it, and for a name that
denotes a file of it one such file is copied, and no other. -/
structure FilesOwn (tree : Tree) (contentPath : Dir) (grab : ReleaseGrab) : Prop where
  inside : ∀ copied, Visits tree.World [] (placeEach contentPath grab) copied →
    ∀ source ∈ copied, isInside source contentPath = true
  own : ∀ placement ∈ grab.placements, ∀ name, placement.fileName = some name →
    tree.Denotes contentPath name → ∃ source, tree.Own contentPath source ∧
      ∀ path, CopiesFor tree contentPath placement path ↔ path = source

/-- Nothing that is tried under a name leads out of the download, and no folder stands in for a file
of it. -/
structure Harmless (tree : Tree) (contentPath : Dir) (name : String) : Prop where
  shared : tree.found contentPath.dropLast (resolvePath contentPath.dropLast name) = true →
    isInside (resolvePath contentPath.dropLast name) contentPath = true ∧
      (tree.Own contentPath (resolvePath contentPath name) →
        tree.isFile (resolvePath contentPath.dropLast name) = true)
  relative : tree.found contentPath.dropLast (resolvePath contentPath.dropLast name) = false →
    tree.found contentPath.dropLast (resolvePath contentPath name) = true →
      isInside (resolvePath contentPath name) contentPath = true

/-! ### What runs may copy -/

section

variable {α β : Type} {tree : Tree} {contentPath : Dir} {I : List Dir → Prop}
  {row : ReleaseGrab} {copied : List Dir}

theorem always_ask_bind {op : Op} {f : op.Answer → Script α} {Q : α → List Dir → Prop} :
    Always tree.World I Q (Program.ask op >>= f) copied ↔
      I copied ∧ ∀ r, tree.Answers op r → Always tree.World I Q (f r) (copied ++ op.sources) := by
  refine Program.always_ask_bind.trans (and_congr_right fun _ => ⟨fun h r hr => ?_, ?_⟩)
  · exact h _ r ⟨hr, rfl⟩
  · rintro h _ r ⟨hr, rfl⟩
    exact h r hr

theorem always_readable_bind {path : Dir} {f : Bool → Script α} {Q : α → List Dir → Prop} :
    Always tree.World I Q (Ask.readable path >>= f) copied ↔
      I copied ∧ Always tree.World I Q (f (tree.readable path)) copied := by
  refine always_ask_bind.trans (and_congr_right fun _ => ?_)
  change (∀ r, r = tree.readable path → Always tree.World I Q (f r) (copied ++ [])) ↔ _
  rw [List.append_nil]
  constructor
  · exact fun h => h _ rfl
  · rintro h _ rfl
    exact h

theorem always_firstReadable {Q : Option Dir → List Dir → Prop} {root : Dir}
    {candidates : List Dir} : Always tree.World I Q (firstReadable root candidates) copied ↔
      I copied ∧ Q (candidates.find? (tree.found root)) copied := by
  induction candidates with
  | nil => exact Program.always_pure
  | cons candidate rest ih =>
    unfold firstReadable
    rw [List.find?_cons, Tree.found]
    by_cases hinside : isInside candidate root = true
    · rw [if_pos hinside, hinside, Bool.true_and]
      refine always_readable_bind.trans ?_
      cases tree.readable candidate with
      | true => exact and_congr_right fun hI => Program.always_pure.trans (and_iff_right hI)
      | false =>
        refine (and_congr_right fun _ => ih).trans ?_
        rw [← and_assoc, and_self]
    · rw [if_neg hinside, ih, Bool.eq_false_iff.mpr hinside, Bool.false_and]

theorem always_filable {Q : Option (Dir × MediaItem) → List Dir → Prop}
    {placement : GrabPlacement} :
    Always tree.World I Q (filable placement contentPath) copied ↔
      I copied ∧ (tree.source contentPath placement).elim (Q none copied) fun source =>
        ∀ episode : Option MediaItem, Q (episode.map (source, ·)) copied := by
  unfold filable Tree.source
  cases placement.fileName with
  | none => exact Program.always_pure
  | some name =>
    rw [Option.bind_some, always_bind, fileNamed, always_firstReadable]
    have hlocated : List.find? (tree.found contentPath.dropLast)
        [resolvePath contentPath.dropLast name, resolvePath contentPath name] =
          tree.located contentPath name := rfl
    rw [hlocated]
    cases tree.located contentPath name with
    | none =>
      rw [Option.elim_none]
      exact and_congr_right fun hI => Program.always_pure.trans (and_iff_right hI)
    | some source =>
      dsimp only
      rw [Option.elim_some]
      refine and_congr_right fun hI => (always_ask_bind.trans (and_iff_right hI)).trans ?_
      simp only [Tree.Answers, Op.sources, List.append_nil, forall_const]
      refine forall_congr' fun episode => ?_
      cases episode <;> exact Program.always_pure.trans (and_iff_right hI)

/-! ### Filing -/

theorem always_next {x : Filing α} {f : α → Filing β}
    {Q : ReleaseGrab × Except String β → List Dir → Prop} :
    Always tree.World I Q ((x >>= f) row) copied ↔
      Always tree.World I (fun left => Always tree.World I Q (Filing.next f left)) (x row) copied :=
  always_bind

theorem always_asking {script : Script α}
    {Q : ReleaseGrab × Except String α → List Dir → Prop} :
    Always tree.World I Q (Filing.ask script row) copied ↔
      Always tree.World I (fun a copied' => I copied' ∧ Q (row, .ok a) copied') script copied :=
  always_bind

theorem always_current_bind {f : ReleaseGrab → Filing β}
    {Q : ReleaseGrab × Except String β → List Dir → Prop} :
    Always tree.World I Q ((Filing.current >>= f) row) copied ↔
      Always tree.World I Q (f row row) copied :=
  Iff.rfl

theorem always_change_bind {g : ReleaseGrab → ReleaseGrab} {f : Unit → Filing β}
    {Q : ReleaseGrab × Except String β → List Dir → Prop} :
    Always tree.World I Q ((Filing.change g >>= f) row) copied ↔
      Always tree.World I Q (f () (g row)) copied :=
  Iff.rfl

theorem always_copy {source destination : Dir} {base total : ℕ}
    {Q : ReleaseGrab × Except String Unit → List Dir → Prop} :
    Always tree.World I Q (copy source destination base total row) copied ↔
      I copied ∧ ∀ moved : Moved, I (copied ++ [source]) ∧
        Q (row.progressed moved base total, moved.outcome) (copied ++ [source]) := by
  refine always_ask_bind.trans (and_congr_right fun _ => ?_)
  exact ⟨fun h moved => h moved trivial, fun h moved _ => h moved⟩

/-- Anything may come of a script, and nothing is copied. -/
def Vacant (tree : Tree) (script : Script α) : Prop :=
  ∀ (I : List Dir → Prop) (Q : α → List Dir → Prop) (copied : List Dir),
    Always tree.World I Q script copied ↔ I copied ∧ ∀ a, Q a copied

theorem free_ask {op : Op} (hop : op.sources = []) (hanswers : ∀ r, tree.Answers op r) :
    Vacant tree (Program.ask op) := by
  intro I Q copied
  constructor
  · intro h
    refine ⟨h.1, fun r => ?_⟩
    have hdone := (h.2 (copied ++ op.sources) r ⟨hanswers r, rfl⟩).2
    rwa [hop, List.append_nil] at hdone
  · rintro ⟨hI, h⟩
    refine ⟨hI, ?_⟩
    rintro _ r ⟨_, rfl⟩
    rw [hop, List.append_nil]
    exact ⟨hI, h r⟩

theorem always_free_ask {script : Script α} (h : Vacant tree script) {f : α → Filing β}
    {Q : ReleaseGrab × Except String β → List Dir → Prop} :
    Always tree.World I Q ((Filing.ask script >>= f) row) copied ↔
      I copied ∧ ∀ a, Always tree.World I Q (f a row) copied := by
  refine always_next.trans (always_asking.trans ((h _ _ _).trans ?_))
  exact and_congr_right fun hI => forall_congr' fun a => and_iff_right hI

theorem always_free_attempt {script : Script (Except String α)} (h : Vacant tree script)
    {f : α → Filing β} {Q : ReleaseGrab × Except String β → List Dir → Prop} :
    Always tree.World I Q ((Filing.attempt script >>= f) row) copied ↔
      I copied ∧ ∀ a, Always tree.World I Q (Filing.next f (row, a)) copied := by
  refine always_next.trans (always_bind.trans ((h _ _ _).trans ?_))
  exact and_congr_right fun hI => forall_congr' fun a => Program.always_pure.trans (and_iff_right hI)

theorem free_resolve (grabId : String) (request : FilingRequest) :
    Vacant tree (Ask.resolve grabId request) :=
  free_ask rfl fun _ => trivial

theorem free_prepare (target : FilingTarget) : Vacant tree (Ask.prepare target) :=
  free_ask rfl fun _ => trivial

theorem free_nameableOf (item : MediaItem) (fileName : String) :
    Vacant tree (Ask.nameableOf item fileName) :=
  free_ask rfl fun _ => trivial

theorem free_pinnedFolder (item : MediaItem) (seasonNumber : Option ℕ) :
    Vacant tree (Ask.pinnedFolder item seasonNumber) :=
  free_ask rfl fun _ => trivial

theorem free_save (grab : ReleaseGrab) : Vacant tree (Ask.save grab) :=
  free_ask rfl fun _ => trivial

theorem always_resolved {request : FilingRequest}
    {Q : ReleaseGrab × Except String FilingTarget → List Dir → Prop} :
    Always tree.World I Q ((do
      let target ← Filing.attempt (Ask.resolve row.id request)
      Filing.attempt (Ask.prepare target)
      return target : Filing FilingTarget) row) copied ↔
        I copied ∧ ∀ answer, Q (row, answer) copied := by
  refine (always_free_attempt (free_resolve _ _)).trans (and_congr_right fun hI => ?_)
  constructor
  · intro h answer
    cases answer with
    | error reason => exact (h (.error reason)).2
    | ok target => exact (((always_free_attempt (free_prepare _)).mp (h (.ok target))).2 (.ok ())).2
  · intro h answer
    cases answer with
    | error reason => exact ⟨hI, h (.error reason)⟩
    | ok target =>
      refine (always_free_attempt (free_prepare target)).mpr ⟨hI, fun prepared => ?_⟩
      cases prepared with
      | error reason => exact ⟨hI, h (.error reason)⟩
      | ok _ => exact ⟨hI, h (.ok target)⟩

theorem always_folder {item : MediaItem} {seasonNumber : Option ℕ} {f : Option Folder → Filing β}
    {folder : Option Folder} {R : Prop} {Q : ReleaseGrab × Except String β → List Dir → Prop}
    (hI : I copied) (hf : ∀ folder, Always tree.World I Q (f folder row) copied ↔ R) :
    Always tree.World I Q ((match folder with
      | some folder => pure (some folder) >>= f
      | none => Filing.ask (Ask.pinnedFolder item seasonNumber) >>= f) row) copied ↔ R := by
  cases folder with
  | some folder => exact hf (some folder)
  | none =>
    refine (always_free_ask (free_pinnedFolder item seasonNumber)).trans ((and_iff_right hI).trans ?_)
    exact ⟨fun h => (hf none).mp (h none), fun h folder => (hf folder).mpr h⟩

theorem always_targetFor {item : MediaItem} {kind : Nameable → Matching.MediaKind} {source : Dir}
    {Q : ReleaseGrab × Except String FilingTarget → List Dir → Prop} :
    Always tree.World I Q (targetFor item kind source row) copied ↔
      I copied ∧ ∀ answer, Q (row, answer) copied := by
  refine (always_free_ask (free_nameableOf _ _)).trans (and_congr_right fun hI => ?_)
  constructor
  · intro h
    have hone := h ⟨.EPISODE, none, none, "", none⟩
    exact (always_folder hI fun folder => always_resolved.trans (and_iff_right hI)).mp hone
  · intro h nameable
    exact (always_folder hI fun folder => always_resolved.trans (and_iff_right hI)).mpr h

theorem always_save_bind {f : Unit → Filing β}
    {Q : ReleaseGrab × Except String β → List Dir → Prop} :
    Always tree.World I Q ((Filing.save >>= f) row) copied ↔
      I copied ∧ Always tree.World I Q (f () row) copied := by
  refine always_next.trans (always_bind.trans ((free_save row _ _ _).trans ?_))
  refine and_congr_right fun hI => ⟨fun h => (h ()).2, fun h _ => ⟨hI, h⟩⟩

/-! ### What a grab copies -/

/-- Everything that was copied is as it should be. -/
def Each (P : Dir → Prop) (copied : List Dir) : Prop := ∀ source ∈ copied, P source

theorem each_concat {P : Dir → Prop} {source : Dir} :
    Each P (copied ++ [source]) ↔ Each P copied ∧ P source := by
  simp [Each, or_imp, forall_and]

theorem always_placeFrom {P : Dir → Prop} {Q : ReleaseGrab × Except String Filed → List Dir → Prop}
    (hQ : ∀ left copied, Each P copied → Q left copied) {total index : ℕ}
    {placements : List GrabPlacement} {filed : Filed} :
    Always tree.World (Each P) Q (placeFrom contentPath total index placements filed row) copied ↔
      Each P copied ∧ ∀ placement ∈ placements, ∀ source,
        tree.source contentPath placement = some source → P source := by
  induction placements generalizing index filed row copied with
  | nil =>
    refine Program.always_pure.trans (and_congr_right fun hI => ?_)
    exact iff_of_true (hQ _ _ hI) (List.forall_mem_nil _)
  | cons placement rest ih =>
    rw [List.forall_mem_cons]
    refine always_next.trans (always_asking.trans (always_filable.trans
      (and_congr_right fun hI => ?_)))
    cases hsource : tree.source contentPath placement with
    | none =>
      rw [Option.elim_none]
      refine (and_iff_right hI).trans (ih.trans ?_)
      simp [hI]
    | some source =>
      rw [Option.elim_some]
      constructor
      · intro h
        -- A world in which every step up to the copy succeeds shows what is copied.
        have htarget := always_targetFor.mp (always_next.mp (h (some ⟨"", .EPISODE, "", none, none⟩)).2)
        have hcopy := always_copy.mp (always_next.mp (htarget.2 (.ok ⟨"", [], []⟩)))
        obtain ⟨hinside, hcopied⟩ := hcopy.2 ⟨none, .ok ()⟩
        have hrest := ih.mp (always_save_bind.mp (always_change_bind.mp hcopied)).2
        refine ⟨?_, hrest.2⟩
        intro other hother
        cases hother
        exact (each_concat.mp hinside).2
      · rintro ⟨hsource, hrest⟩ episode
        refine ⟨hI, ?_⟩
        cases episode with
        | none => exact ih.mpr ⟨hI, hrest⟩
        | some episode =>
          refine always_next.mpr (always_targetFor.mpr ⟨hI, fun answer => ?_⟩)
          cases answer with
          | error reason => exact ⟨hI, hQ _ _ hI⟩
          | ok target =>
            have hinside := each_concat.mpr ⟨hI, hsource source rfl⟩
            refine always_next.mpr (always_copy.mpr ⟨hI, fun moved => ⟨hinside, ?_⟩⟩)
            cases moved.outcome with
            | error reason => exact ⟨hinside, hQ _ _ hinside⟩
            | ok _ =>
              exact always_change_bind.mpr
                (always_save_bind.mpr ⟨hinside, ih.mpr ⟨hinside, hrest⟩⟩)

theorem always_placeEach {P : Dir → Prop} :
    Always tree.World (Each P) (fun _ _ => True) (placeEach contentPath row) [] ↔
      ∀ placement ∈ row.placements, ∀ source,
        tree.source contentPath placement = some source → P source := by
  have hnil : Each P [] := List.forall_mem_nil _
  refine always_current_bind.trans (always_change_bind.trans (always_next.trans
    ((always_placeFrom fun left copied hI => ?_).trans (and_iff_right hnil))))
  obtain ⟨row', answer⟩ := left
  cases answer with
  | error reason => exact ⟨hI, trivial⟩
  | ok filed =>
    simp only [Filing.next]
    split
    · exact ⟨hI, trivial⟩
    · exact always_change_bind.mpr (always_bind.mpr
        ((free_save _ _ _ _).mpr ⟨hI, fun _ => ⟨hI, trivial⟩⟩))

end

/-! ### What a name leads to -/

section

variable {tree : Tree} {contentPath : Dir} {name : String} {path : Dir}

theorem found_of_own (h : tree.Own contentPath path) :
    tree.found contentPath.dropLast path = true := by
  obtain ⟨hinside, hreadable, _⟩ := h
  have hprefix : contentPath.dropLast <+: path :=
    (List.dropLast_prefix contentPath).trans (List.isPrefixOf_iff_prefix.mp hinside)
  exact Bool.and_eq_true_iff.mpr ⟨List.isPrefixOf_iff_prefix.mpr hprefix, hreadable⟩

/-- A name leads to what is found under the shared folder, or else under the download. -/
theorem located_cases (tree : Tree) (contentPath : Dir) (name : String) :
    tree.found contentPath.dropLast (resolvePath contentPath.dropLast name) = true ∧
        tree.located contentPath name = some (resolvePath contentPath.dropLast name) ∨
      tree.found contentPath.dropLast (resolvePath contentPath.dropLast name) = false ∧
        (tree.found contentPath.dropLast (resolvePath contentPath name) = true ∧
            tree.located contentPath name = some (resolvePath contentPath name) ∨
          tree.found contentPath.dropLast (resolvePath contentPath name) = false ∧
            tree.located contentPath name = none) := by
  unfold Tree.located
  cases hshared : tree.found contentPath.dropLast (resolvePath contentPath.dropLast name) with
  | true => exact .inl ⟨rfl, List.find?_cons_of_pos hshared⟩
  | false =>
    refine .inr ⟨rfl, ?_⟩
    rw [List.find?_cons_of_neg (by simp [hshared])]
    cases hrelative : tree.found contentPath.dropLast (resolvePath contentPath name) with
    | true => exact .inl ⟨rfl, List.find?_cons_of_pos hrelative⟩
    | false => exact .inr ⟨rfl, List.find?_cons_of_neg (by simp [hrelative])⟩

/-- What a name leads to lies in the download, and is a file of it where the name denotes one, if and
only if the name is harmless. -/
theorem harmless_iff : Harmless tree contentPath name ↔
    (∀ source, tree.located contentPath name = some source →
        isInside source contentPath = true) ∧
      (tree.Denotes contentPath name →
        ∃ source, tree.located contentPath name = some source ∧ tree.Own contentPath source) := by
  rcases located_cases tree contentPath name with
    ⟨hshared, hlocated⟩ | ⟨hshared, ⟨hrelative, hlocated⟩ | ⟨hrelative, hlocated⟩⟩
  · have hreadable : tree.readable (resolvePath contentPath.dropLast name) = true :=
      (Bool.and_eq_true_iff.mp hshared).2
    rw [hlocated]
    constructor
    · intro h
      obtain ⟨hinside, hfile⟩ := h.shared hshared
      refine ⟨fun source hsource => Option.some.inj hsource ▸ hinside, fun hdenotes => ?_⟩
      refine ⟨_, rfl, ?_⟩
      rcases hdenotes with hown | hown
      · exact hown
      · exact ⟨hinside, hreadable, hfile hown⟩
    · rintro ⟨hinside, hdenotes⟩
      refine ⟨fun _ => ⟨hinside _ rfl, fun hown => ?_⟩, fun hnot => ?_⟩
      · obtain ⟨source, hsource, _, _, hfile⟩ := hdenotes (.inr hown)
        exact Option.some.inj hsource ▸ hfile
      · exact absurd (hshared.symm.trans hnot) (by decide)
  · rw [hlocated]
    constructor
    · intro h
      refine ⟨fun source hsource => Option.some.inj hsource ▸ h.relative hshared hrelative, ?_⟩
      rintro (hown | hown)
      · exact absurd (hshared.symm.trans (found_of_own hown)) (by decide)
      · exact ⟨_, rfl, hown⟩
    · rintro ⟨hinside, _⟩
      exact ⟨fun hfound => absurd (hshared.symm.trans hfound) (by decide),
        fun _ _ => hinside _ rfl⟩
  · rw [hlocated]
    refine iff_of_true ⟨fun hfound => absurd (hshared.symm.trans hfound) (by decide),
      fun _ hfound => absurd (hrelative.symm.trans hfound) (by decide)⟩ ⟨nofun, ?_⟩
    rintro (hown | hown)
    · exact absurd (hshared.symm.trans (found_of_own hown)) (by decide)
    · exact absurd (hrelative.symm.trans (found_of_own hown)) (by decide)

end

/-- What is copied for a placement is what its name leads to. -/
theorem copiesFor_iff {tree : Tree} {contentPath : Dir} (row : ReleaseGrab) {placement : GrabPlacement}
    {path : Dir} : CopiesFor tree contentPath placement path ↔
      tree.source contentPath placement = some path := by
  constructor
  · rintro ⟨total, index, filed, row, copied, hcopied, hvisits⟩
    have halways : Always tree.World (Each fun source => tree.source contentPath placement = some source)
        (fun _ _ => True) (placeFrom contentPath total index [placement] filed row) [] :=
      (always_placeFrom fun _ _ _ => trivial).mpr ⟨List.forall_mem_nil _, by simp⟩
    exact (Program.always_iff.mp halways).1 copied hvisits path hcopied
  · intro hsource
    by_contra hnever
    -- if it is never copied, every turn of the loop keeps off it
    have halways : Always tree.World (Each (· ≠ path)) (fun _ _ => True)
        (placeFrom contentPath 0 0 [placement] ⟨0, 0, []⟩ row) [] := by
      refine Program.always_iff.mpr ⟨fun copied hvisits source hcopied heq => ?_, fun _ _ _ => trivial⟩
      exact hnever ⟨0, 0, _, row, copied, heq ▸ hcopied, hvisits⟩
    exact ((always_placeFrom fun _ _ _ => trivial).mp halways).2 placement
      (List.mem_singleton_self _) path hsource rfl

/-- **A grab files nothing but its own download if and only if the names of its files are harmless**:
nothing that is tried under them leads out of the download, nor stands in for a file of it. -/
theorem filesOwn_iff (tree : Tree) (contentPath : Dir) (grab : ReleaseGrab) :
    FilesOwn tree contentPath grab ↔ ∀ placement ∈ grab.placements, ∀ name,
      placement.fileName = some name → Harmless tree contentPath name := by
  have hinside : (∀ copied, Visits tree.World [] (placeEach contentPath grab) copied →
      ∀ source ∈ copied, isInside source contentPath = true) ↔
        ∀ placement ∈ grab.placements, ∀ source, tree.source contentPath placement = some source →
          isInside source contentPath = true := by
    rw [← always_placeEach, Program.always_iff]
    exact (and_iff_left fun _ _ _ => trivial).symm
  constructor
  · intro h placement hplacement name hname
    refine harmless_iff.mpr ⟨fun source hsource => ?_, fun hdenotes => ?_⟩
    · refine hinside.mp h.inside placement hplacement source ?_
      rw [Tree.source, hname, Option.bind_some, hsource]
    · obtain ⟨source, hown, hcopies⟩ := h.own placement hplacement name hname hdenotes
      have hsource := (copiesFor_iff grab).mp ((hcopies source).mpr rfl)
      rw [Tree.source, hname, Option.bind_some] at hsource
      exact ⟨source, hsource, hown⟩
  · intro h
    refine ⟨hinside.mpr fun placement hplacement source hsource => ?_,
      fun placement hplacement name hname hdenotes => ?_⟩
    · obtain ⟨name, hname, hlocated⟩ := Option.bind_eq_some_iff.mp hsource
      exact (harmless_iff.mp (h placement hplacement name hname)).1 source hlocated
    · obtain ⟨source, hlocated, hown⟩ :=
        (harmless_iff.mp (h placement hplacement name hname)).2 hdenotes
      refine ⟨source, hown, fun path => (copiesFor_iff grab).trans ?_⟩
      rw [Tree.source, hname, Option.bind_some, hlocated, Option.some_inj, eq_comm]

/-- A season and, beside it, another download of one file of the same name as one of the season. -/
def neighbours : Tree where
  readable := [["data"], ["data", "S02"], ["data", "S02", "S02E03.mkv"],
    ["data", "S02E03.mkv"]].contains
  isFile := [["data", "S02", "S02E03.mkv"], ["data", "S02E03.mkv"]].contains

/-- A grab of one episode of the season, whose file is spelt as under the season's folder. -/
def episodeGrab : ReleaseGrab where
  id := "g"
  itemId := "show"
  state := .FETCHED
  clientId := some "t"
  bytesDone := 0
  bytesTotal := 0
  sourcePath := some ["data", "S02"]
  targetPath := none
  targetLibraryId := none
  targetFolder := none
  plannedPath := none
  isPartial := true
  error := none
  placements := [⟨"e3", some 2, some 3, "Three", some "S02E03.mkv", some 5, none⟩]

/-- The other download's file is the one that is found. -/
theorem not_filesOwn_neighbours :
    ¬∀ (tree : Tree) (contentPath : Dir) (grab : ReleaseGrab), FilesOwn tree contentPath grab := by
  intro h
  have hown := (h neighbours ["data", "S02"] episodeGrab).own _ List.mem_cons_self "S02E03.mkv" rfl
    (.inr ⟨by decide +kernel, by decide +kernel, by decide +kernel⟩)
  obtain ⟨source, ⟨hinside, _⟩, hcopies⟩ := hown
  have hsource := (copiesFor_iff episodeGrab).mp ((hcopies source).mpr rfl)
  have hother : neighbours.located ["data", "S02"] "S02E03.mkv" = some ["data", "S02E03.mkv"] := by
    decide +kernel
  obtain rfl : ["data", "S02E03.mkv"] = source := Option.some.inj (hother.symm.trans hsource)
  exact absurd hinside (by decide)

end MediaCenterSync.Releases
