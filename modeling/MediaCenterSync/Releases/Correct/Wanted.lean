import MediaCenterSync.Lib.Lists
import MediaCenterSync.Releases.Correct.Neutral

/-!
# A partial grab fetches what was wanted

A grab for part of a release is added stopped; a pass chooses its files while the row is `SENT`, and
then lets the torrent run.  As long as nobody starts it before (`Heeds`), the client is never told to
start it without having been told which files, and only files that claim wanted episodes are filed:
`fetchesOnlyWanted`.
-/

namespace MediaCenterSync.Releases

open Program (Always Only)
open TransferManager (Dir)

/-! ### The name a file is filed under -/

/-- A name of a file, and no step of a path. -/
def Plain (name : String) : Prop :=
  name ≠ "" ∧ name ≠ "." ∧ name ≠ ".."

instance (name : String) : Decidable (Plain name) :=
  inferInstanceAs (Decidable (_ ∧ _ ∧ _))

theorem head_foldl_join {parts : List (List Char)} {last : List Char}
    (h : (parts.filter (· ≠ [])).getLast? = some last) (hplain : Plain (String.ofList last))
    (base : Dir) :
    ((base ++ parts.map String.ofList).foldl (fun kept part =>
      if part = "" ∨ part = "." then kept
      else if part = ".." then kept.tail
      else part :: kept) []).head? = some (String.ofList last) := by
  induction parts using List.reverseRecOn with
  | nil => simp at h
  | append_singleton parts part ih =>
    rw [List.map_append, ← List.append_assoc, List.foldl_append, List.map_singleton]
    rcases part with _ | ⟨c, rest⟩
    · rw [List.foldl_cons, List.foldl_nil, if_pos (.inl rfl)]
      exact ih (by simpa using h)
    · have hlast : c :: rest = last := by simpa using h
      rw [hlast, List.foldl_cons, List.foldl_nil, if_neg, if_neg hplain.2.2, List.head?_cons]
      rintro (hempty | hdot)
      · exact hplain.1 hempty
      · exact hplain.2.1 hdot

theorem nameOf_resolvePath {name : String} (h : Plain (basename name)) (base : Dir) :
    nameOf (resolvePath base name) = basename name := by
  unfold basename at h ⊢
  rcases hlast : ((name.toList.splitOn '/').filter (· ≠ [])).getLast? with _ | last
  · rw [hlast] at h
    exact absurd rfl h.1
  · rw [hlast] at h
    have hhead := head_foldl_join hlast h (if name.toList.head? = some '/' then [] else base)
    rw [nameOf, resolvePath, Planning.join, List.getLastD_eq_getLast?, List.getLast?_reverse, hhead]
    rfl

/-! ### What is claimed -/

/-- The client was told to fetch the files that are for the wanted episodes. -/
def Chosen (grab : ReleaseGrab) (torrent : String) (told : List Told) : Prop :=
  ∃ files, .listed torrent files ∈ told ∧
    .selected torrent (filesFor grab.placements files) ∈ told

/-- Nothing but what the grab was taken for is fetched and filed. -/
structure FetchesOnlyWanted (grab : ReleaseGrab) (torrent : String) (told : List Told) : Prop where
  /-- The torrent is only started once its files were chosen. -/
  started : ∀ before after, told = before ++ .started torrent :: after →
    Chosen grab torrent before
  /-- A file filed for the grab claims only wanted episodes. -/
  filed : ∀ source, .filed grab.id source ∈ told → OnlyClaims grab.placements (nameOf source)

/-- The condition on a request, at each operation it performs: it reads the rows as they are at that
moment and what the world answers.
- The torrent is not resumed while its files are not chosen.
- No pass finds it complete while its files are not chosen, but where the pass is to choose them.
- A file of its list whose first episode is wanted claims only wanted ones.
- When its media is gone, the files under it claim only wanted episodes. -/
def Heeds (grab : ReleaseGrab) (torrent : String) (request : Request) (q : Queue) :
    (op : Op) → op.Answer → Prop
  | .start other, _ => ∀ id, request = .resume id → other = torrent →
      ∀ row ∈ q.rows, row.id = grab.id → awaitsChoice row = false
  | .statuses _, .ok statuses => ∀ row ∈ q.rows, row.id = grab.id → row.state ∈ LIVE_STATES →
      row.state ≠ .SENT → awaitsChoice row = true → ∀ status,
        statusOf statuses torrent = some status → status.complete = true → status.failed = true
  | .files other, .ok files => other = torrent → ∀ file ∈ files,
      grab.placements.any (·.isFor file.coverage) →
        Plain (basename file.name) ∧ OnlyClaims grab.placements (basename file.name)
  | .filesUnder id _, (files : List DiskFile) => id = grab.id → ∀ file ∈ files,
      OnlyClaims grab.placements (nameOf file.path)
  | _, _ => True

/-! ### What holds of the rows -/

def GrabPlacement.coordinate (one : GrabPlacement) : Option ℕ × Option ℕ :=
  (one.seasonNumber, one.episodeNumber)

/-- A file was named for a placement, and it claims only wanted episodes. -/
def GrabPlacement.Innocent (wanted : List GrabPlacement) (one : GrabPlacement) : Prop :=
  ∀ name, one.fileName = some name → Plain (basename name) ∧ OnlyClaims wanted (basename name)

/-- The row of the grab: as it was sent until its files are chosen, and with chosen files after. -/
structure Mine (grab : ReleaseGrab) (torrent : String) (told : List Told) (row : ReleaseGrab) :
    Prop where
  isPartial : row.isPartial = true
  clientId : row.clientId = some torrent
  awaiting : awaitsChoice row = true → row.placements = grab.placements
  chosen : awaitsChoice row = false → Chosen grab torrent told ∧
    ∀ one ∈ row.placements, one.Innocent grab.placements

/-- A row of the table: the grab's own, or one that does not choose the files of its torrent. -/
structure Fits (grab : ReleaseGrab) (torrent : String) (told : List Told) (row : ReleaseGrab) :
    Prop where
  mine : row.id = grab.id → Mine grab torrent told row
  other : row.id ≠ grab.id → row.isPartial = true → row.clientId ≠ some torrent

structure Queue.Good (grab : ReleaseGrab) (torrent : String) (q : Queue) : Prop where
  nodup : (q.rows.map (·.id)).Nodup
  present : ∃ row ∈ q.rows, row.id = grab.id
  fits : ∀ row ∈ q.rows, Fits grab torrent q.told row
  wanted : FetchesOnlyWanted grab torrent q.told

section

variable {grab : ReleaseGrab} {torrent : String} {told events : List Told} {row row' : ReleaseGrab}

theorem Chosen.append (h : Chosen grab torrent told) (events : List Told) :
    Chosen grab torrent (told ++ events) := by
  obtain ⟨files, hlisted, hselected⟩ := h
  exact ⟨files, List.mem_append_left _ hlisted, List.mem_append_left _ hselected⟩

theorem Fits.grow {told' : List Told} (h : Fits grab torrent told row) (hgrow : told <+: told') :
    Fits grab torrent told' row where
  mine hid := by
    obtain ⟨events, rfl⟩ := hgrow
    obtain ⟨hpart, hclient, hawaiting, hchosen⟩ := h.mine hid
    exact ⟨hpart, hclient, hawaiting, fun hnot => ⟨(hchosen hnot).1.append events,
      (hchosen hnot).2⟩⟩
  other := h.other

/-- What was told since is of no matter to the grab, or has its reason. -/
theorem FetchesOnlyWanted.append (h : FetchesOnlyWanted grab torrent told)
    (hstarted : ∀ before after, events = before ++ .started torrent :: after →
      Chosen grab torrent (told ++ before))
    (hfiled : ∀ source, .filed grab.id source ∈ events →
      OnlyClaims grab.placements (nameOf source)) :
    FetchesOnlyWanted grab torrent (told ++ events) where
  started before after htold := by
    rcases History.append_eq_append_cons htold with ⟨after', hold, -⟩ | ⟨before', rfl, hnew⟩
    · exact h.started before after' hold
    · exact hstarted before' after hnew
  filed source hin := (List.mem_append.mp hin).elim (h.filed source) (hfiled source)

/-- A row that says the same of its torrent and its files. -/
structure SameFiles (row row' : ReleaseGrab) : Prop where
  id : row'.id = row.id
  isPartial : row'.isPartial = row.isPartial
  clientId : row'.clientId = row.clientId
  placements : row'.placements = row.placements

theorem SameFiles.awaits (h : SameFiles row row') : awaitsChoice row' = awaitsChoice row := by
  rw [awaitsChoice, awaitsChoice, h.isPartial, h.placements]

theorem Fits.same (h : Fits grab torrent told row) (hsame : SameFiles row row') :
    Fits grab torrent told row' where
  mine hid := by
    have hmine := h.mine (hsame.id ▸ hid)
    refine ⟨hsame.isPartial.trans hmine.isPartial, hsame.clientId.trans hmine.clientId, ?_, ?_⟩
    · rw [hsame.awaits, hsame.placements]
      exact hmine.awaiting
    · rw [hsame.awaits, hsame.placements]
      exact hmine.chosen
  other hid := by
    rw [hsame.isPartial, hsame.clientId]
    exact h.other (hsame.id ▸ hid)

end

/-! ### One operation -/

section Steps

variable {α β : Type} {grab : ReleaseGrab} {torrent : String} {request : Request} {q : Queue}
  {row : ReleaseGrab}

/-- Whatever the world answers within the condition, the queue stays good, and `Q` at the end. -/
abbrev Runs (grab : ReleaseGrab) (torrent : String) (request : Request) (Q : α → Queue → Prop)
    (p : Script α) (q : Queue) : Prop :=
  Always (World (Heeds grab torrent request)) (Queue.Good grab torrent) Q p q

/-- More was told. -/
abbrev Grows (q : Queue) (_ : α) (q' : Queue) : Prop := q.told <+: q'.told

theorem runs_ask_bind {Q : α → Queue → Prop} {op : Op} {f : op.Answer → Script α}
    (hgood : q.Good grab torrent)
    (h : ∀ world, Heeds grab torrent request q op (q.answer op world) →
      Runs grab torrent request Q (f (q.answer op world)) (q.after op (q.answer op world))) :
    Runs grab torrent request Q (Program.ask op >>= f) q := by
  refine Program.always_ask_bind.mpr ⟨hgood, ?_⟩
  rintro q' r ⟨⟨world, rfl⟩, rfl, hheeds⟩
  exact h world hheeds

theorem Runs.bind {R : α → Queue → Prop} {Q : β → Queue → Prop} {p : Script α} {f : α → Script β}
    (hp : Runs grab torrent request R p q)
    (hf : ∀ a q', q'.Good grab torrent → R a q' → Runs grab torrent request Q (f a) q') :
    Runs grab torrent request Q (p >>= f) q :=
  Program.always_bind.mpr (hp.mono (fun _ h => h) hf)

/-- Neither writes a row nor tells the client or the library anything. -/
def Inert : Op → Prop
  | .save _ | .delete _ | .files _ | .selectFiles _ _ | .start _ | .move _ _ _ => False
  | _ => True

theorem inert_of_neutral {op : Op} (h : Neutral op) : Inert op := by
  cases op <;> first | exact trivial | exact h.elim

theorem after_of_inert {op : Op} (h : Inert op) (q : Queue) (r : op.Answer) : q.after op r = q := by
  cases op <;> first | exact h.elim | exact congrArg (Queue.mk q.rows) (List.append_nil q.told)

theorem runs_look_bind {Q : α → Queue → Prop} {op : Op} {f : op.Answer → Script α} (hop : Inert op)
    (hgood : q.Good grab torrent)
    (h : ∀ world, Heeds grab torrent request q op (q.answer op world) →
      Runs grab torrent request Q (f (q.answer op world)) q) :
    Runs grab torrent request Q (Program.ask op >>= f) q := by
  refine runs_ask_bind hgood fun world hheeds => ?_
  rw [after_of_inert hop]
  exact h world hheeds

/-- A program that looks, and what may come of it. -/
abbrev Looks (P : α → Prop) (p : Script α) : Prop :=
  Program.Tracks (fun _ _ => True) (fun (_ : Unit) op => Inert op) (fun t _ _ => t)
    (fun a _ => P a) p ()

theorem looks_of_only {p : Script α} (h : Only Inert p) : Looks (fun _ => True) p :=
  h.tracks (fun _ hop => hop) (fun _ _ _ => rfl) fun _ => trivial

theorem looks_of_neutral {p : Script α} (h : Only Neutral p) : Looks (fun _ => True) p :=
  looks_of_only (h.mono fun _ => inert_of_neutral)

theorem Looks.runs {P : α → Prop} {p : Script α} (h : Looks P p) (hgood : q.Good grab torrent) :
    Runs grab torrent request (fun a q' => q' = q ∧ P a) p q := by
  induction p with
  | pure a => exact ⟨hgood, rfl, h⟩
  | perform op next ih =>
    exact runs_look_bind h.1 hgood fun world _ => ih _ (h.2 _ trivial)

theorem good_save (hgood : q.Good grab torrent) (hfits : Fits grab torrent q.told row)
    (r : (Op.save row).Answer) : (q.after (.save row) r).Good grab torrent := by
  have hafter : q.after (.save row) r = ⟨Table.save (·.id) q.rows row, q.told⟩ :=
    congrArg (Queue.mk _) (List.append_nil q.told)
  rw [hafter]
  refine ⟨Table.nodup_save hgood.nodup, ?_, ?_, hgood.wanted⟩
  · obtain ⟨own, hown, hid⟩ := hgood.present
    by_cases hrow : row.id = grab.id
    · exact ⟨row, Table.mem_of_find Table.find_save_self, hrow⟩
    · have hne : own.id ≠ row.id := fun heq => hrow (heq ▸ hid)
      have hfind : Table.find (·.id) (Table.save (·.id) q.rows row) own.id = some own := by
        rw [Table.find_save_of_ne hne]
        exact Table.find_of_mem hgood.nodup hown
      exact ⟨own, Table.mem_of_find hfind, hid⟩
  · intro one hone
    rcases Table.mem_save hone with rfl | hold
    · exact hfits
    · exact hgood.fits one hold

theorem runs_save_bind {Q : α → Queue → Prop} {f : Unit → Script α} (hgood : q.Good grab torrent)
    (hfits : Fits grab torrent q.told row)
    (h : ∀ q', q'.Good grab torrent → q'.told = q.told → Runs grab torrent request Q (f ()) q') :
    Runs grab torrent request Q (Ask.save row >>= f) q :=
  runs_ask_bind hgood fun r _ => h _ (good_save hgood hfits r) (List.append_nil q.told)

theorem good_tell {op : Op} {r : op.Answer} (hgood : q.Good grab torrent)
    (hrows : q.rowsAfter op = q.rows)
    (hstarted : ∀ before after, tellOf op r = before ++ .started torrent :: after →
      Chosen grab torrent (q.told ++ before))
    (hfiled : ∀ source, .filed grab.id source ∈ tellOf op r →
      OnlyClaims grab.placements (nameOf source)) : (q.after op r).Good grab torrent := by
  have hafter : (q.after op r).rows = q.rows := hrows
  refine ⟨?_, ?_, ?_, hgood.wanted.append hstarted hfiled⟩
  · rw [hafter]
    exact hgood.nodup
  · rw [hafter]
    exact hgood.present
  · rw [hafter]
    exact fun one hone => (hgood.fits one hone).grow (List.prefix_append _ _)

end Steps

/-! ### Filing -/

section Filing

variable {α β : Type} {grab : ReleaseGrab} {torrent id : String} {q : Queue}
  {row : ReleaseGrab}

/-- A row whose files are filed: if it is the grab's, they were chosen. -/
structure InHand (grab : ReleaseGrab) (torrent id : String) (q : Queue) (row : ReleaseGrab) :
    Prop where
  isOf : row.id = id
  fits : Fits grab torrent q.told row
  chosen : id = grab.id → awaitsChoice row = false

/-- Work on a row in hand. -/
def Files (grab : ReleaseGrab) (torrent id : String) (R : α → Prop) (x : Filing α) : Prop :=
  ∀ row q, q.Good grab torrent → InHand grab torrent id q row →
    Runs grab torrent .poll
      (fun left q' => q.told <+: q'.told ∧ InHand grab torrent id q' left.1 ∧
        ∀ a, left.2 = .ok a → R a)
      (x row) q

/-- Nothing of interest is answered. -/
abbrev Any (_ : α) : Prop := True

theorem InHand.grow (h : InHand grab torrent id q row) {q' : Queue} (hgrow : q.told <+: q'.told) :
    InHand grab torrent id q' row :=
  ⟨h.isOf, h.fits.grow hgrow, h.chosen⟩

theorem files_pure {R : α → Prop} {a : α} (h : R a) :
    Files grab torrent id R (pure a : Filing α) := by
  intro row q hgood hrow
  refine ⟨hgood, List.prefix_rfl, hrow, fun b hb => ?_⟩
  cases hb
  exact h

theorem files_throw {R : α → Prop} (reason : String) :
    Files grab torrent id R (Filing.throw reason) :=
  fun _ _ hgood hrow => ⟨hgood, List.prefix_rfl, hrow, fun _ hb => by cases hb⟩

theorem Files.bind {R : α → Prop} {S : β → Prop} {x : Filing α} {f : α → Filing β}
    (hx : Files grab torrent id R x) (hf : ∀ a, R a → Files grab torrent id S (f a)) :
    Files grab torrent id S (x >>= f) := by
  intro row q hgood hrow
  refine Runs.bind (hx row q hgood hrow) ?_
  rintro ⟨row', answer⟩ q' hgood' ⟨hgrow, hrow', hanswer⟩
  cases answer with
  | error reason => exact ⟨hgood', hgrow, hrow', fun _ hb => by cases hb⟩
  | ok a =>
    refine (hf a (hanswer a rfl) row' q' hgood' hrow').mono (fun _ h => h) ?_
    rintro left q'' - ⟨hgrow', hrow'', hanswer'⟩
    exact ⟨hgrow.trans hgrow', hrow'', hanswer'⟩

theorem files_current_bind {S : β → Prop} {f : ReleaseGrab → Filing β}
    (hf : ∀ row, row.id = id →
      (id = grab.id → row.isPartial = true ∧ awaitsChoice row = false ∧
        ∀ one ∈ row.placements, one.Innocent grab.placements) →
      Files grab torrent id S (f row)) :
    Files grab torrent id S (Filing.current >>= f) := by
  intro row q hgood hrow
  refine hf row hrow.isOf (fun hid => ?_) row q hgood hrow
  have hmine := hrow.fits.mine (hrow.isOf.trans hid)
  exact ⟨hmine.isPartial, hrow.chosen hid, (hmine.chosen (hrow.chosen hid)).2⟩

theorem files_ask {P : α → Prop} {script : Script α} (h : Looks P script) :
    Files grab torrent id P (Filing.ask script) := by
  intro row q hgood hrow
  refine Runs.bind (h.runs hgood) fun a q' _ hq' => ?_
  obtain ⟨rfl, ha⟩ := hq'
  refine ⟨hgood, List.prefix_rfl, hrow, fun b hb => ?_⟩
  cases hb
  exact ha

theorem files_attempt {script : Script (Except String α)} (h : Only Inert script) :
    Files grab torrent id Any (Filing.attempt script) := by
  intro row q hgood hrow
  refine Runs.bind ((looks_of_only h).runs hgood) fun a q' _ hq' => ?_
  obtain ⟨rfl, -⟩ := hq'
  exact ⟨hgood, List.prefix_rfl, hrow, fun _ _ => trivial⟩

theorem files_ask_bind {P : α → Prop} {S : β → Prop} {script : Script α} {f : α → Filing β}
    (h : Looks P script) (hf : ∀ a, P a → Files grab torrent id S (f a)) :
    Files grab torrent id S (Filing.ask script >>= f) :=
  (files_ask h).bind hf

theorem files_attempt_bind {S : β → Prop} {script : Script (Except String α)} {f : α → Filing β}
    (h : Only Inert script) (hf : ∀ a, Files grab torrent id S (f a)) :
    Files grab torrent id S (Filing.attempt script >>= f) :=
  (files_attempt h).bind fun a _ => hf a

/-- The same torrent, and for the grab the same files by name. -/
structure KeepsNames (grab row row' : ReleaseGrab) : Prop where
  id : row'.id = row.id
  isPartial : row'.isPartial = row.isPartial
  clientId : row'.clientId = row.clientId
  names : row.id = grab.id → row'.placements.map (·.fileName) = row.placements.map (·.fileName)

theorem InHand.change (h : InHand grab torrent id q row) {row' : ReleaseGrab}
    (hkeeps : KeepsNames grab row row') : InHand grab torrent id q row' := by
  have hawaits : row.id = grab.id → awaitsChoice row' = awaitsChoice row := by
    intro hid
    have hall : ∀ placements : List GrabPlacement, placements.all (·.fileName.isNone) =
        (placements.map (·.fileName)).all Option.isNone := fun placements => by
      rw [List.all_map]
      rfl
    rw [awaitsChoice, awaitsChoice, hkeeps.isPartial, hall, hall, hkeeps.names hid]
  refine ⟨hkeeps.id.trans h.isOf, ⟨fun hid => ?_, ?_⟩, fun hid => ?_⟩
  · have hid : row.id = grab.id := hkeeps.id ▸ hid
    have hmine := h.fits.mine hid
    have hnot := h.chosen (h.isOf.symm.trans hid)
    refine ⟨hkeeps.isPartial.trans hmine.isPartial, hkeeps.clientId.trans hmine.clientId, ?_, ?_⟩
    · rw [hawaits hid, hnot]
      exact fun habsurd => absurd habsurd (by decide)
    · refine fun _ => ⟨(hmine.chosen hnot).1, fun one hone name hname => ?_⟩
      have hin : one.fileName ∈ row.placements.map (·.fileName) := by
        rw [← hkeeps.names hid]
        exact List.mem_map_of_mem hone
      obtain ⟨old, hold, hsame⟩ := List.mem_map.mp hin
      exact (hmine.chosen hnot).2 old hold name (hsame.trans hname)
  · rw [hkeeps.id, hkeeps.isPartial, hkeeps.clientId]
    exact h.fits.other
  · rw [hawaits (h.isOf.trans hid)]
    exact h.chosen hid

theorem files_change {f : ReleaseGrab → ReleaseGrab}
    (h : ∀ row, row.id = id → KeepsNames grab row (f row)) :
    Files grab torrent id Any (Filing.change f) :=
  fun row _ hgood hrow =>
    ⟨hgood, List.prefix_rfl, hrow.change (h row hrow.isOf), fun _ _ => trivial⟩

theorem files_change_bind {S : β → Prop} {f : ReleaseGrab → ReleaseGrab} {g : Unit → Filing β}
    (h : ∀ row, row.id = id → KeepsNames grab row (f row))
    (hg : Files grab torrent id S (g ())) : Files grab torrent id S (Filing.change f >>= g) :=
  (files_change h).bind fun _ _ => hg

theorem files_save : Files grab torrent id Any Filing.save := by
  intro row q hgood hrow
  refine runs_save_bind hgood hrow.fits fun q' hgood' htold => ?_
  have hgrow : q.told <+: q'.told := htold ▸ List.prefix_rfl
  exact ⟨hgood', hgrow, hrow.grow hgrow, fun _ _ => trivial⟩

theorem keepsNames_of_same {row' : ReleaseGrab} (h : SameFiles row row') :
    KeepsNames grab row row' :=
  ⟨h.id, h.isPartial, h.clientId, fun _ => congrArg _ h.placements⟩

theorem files_copy {source : Dir}
    (hsource : id = grab.id → OnlyClaims grab.placements (nameOf source)) (destination : Dir) (base total : ℕ) :
    Files grab torrent id Any (Releases.copy source destination base total) := by
  intro row q hgood hrow
  refine runs_ask_bind hgood fun moved _ => ?_
  have hgood' : (q.after (.move row.id source destination) moved).Good grab torrent := by
    refine good_tell hgood rfl (fun before after htold => ?_) fun found hin => ?_
    · rcases before with _ | ⟨_, before⟩ <;> simp [tellOf] at htold
    · obtain ⟨hid, rfl⟩ : grab.id = row.id ∧ found = source := by simpa [tellOf] using hin
      exact hsource (hrow.isOf.symm.trans hid.symm)
  have hgrow : q.told <+: (q.after (.move row.id source destination) moved).told :=
    List.prefix_append _ _
  refine ⟨hgood', hgrow, (hrow.grow hgrow).change (keepsNames_of_same ?_), fun _ _ => trivial⟩
  unfold ReleaseGrab.progressed Queue.answer
  split
  · exact ⟨rfl, rfl, rfl, rfl⟩
  · exact ⟨rfl, rfl, rfl, rfl⟩

theorem files_targetFor (item : MediaItem) (kind : Nameable → Matching.MediaKind) (source : Dir) :
    Files grab torrent id Any (targetFor item kind source) := by
  refine files_ask_bind (looks_of_only (Program.only_ask trivial)) fun nameable _ => ?_
  refine files_current_bind fun row _ _ => ?_
  have hrest : ∀ folder, Files grab torrent id Any (do
      let target ← Filing.attempt <| Ask.resolve row.id
        { kind := kind nameable
          item := item
          nameable := nameable
          source := source
          pinnedPath := folder
          preferredLibraryId := row.targetLibraryId }
      Filing.attempt (Ask.prepare target)
      return target : Filing FilingTarget) := fun folder =>
    files_attempt_bind (Program.only_ask trivial) fun target =>
      files_attempt_bind (Program.only_ask trivial) fun _ => files_pure trivial
  rcases row.targetFolder with _ | folder
  · exact files_ask_bind (looks_of_only (Program.only_ask trivial)) fun folder _ => hrest folder
  · exact hrest (some folder)

theorem looks_filable (placement : GrabPlacement) (sourcePath : Dir) :
    Looks (fun found => ∀ source episode, found = some (source, episode) →
      ∃ name base, placement.fileName = some name ∧ source = resolvePath base name)
      (filable placement sourcePath) := by
  unfold filable
  rcases hname : placement.fileName with _ | name
  · exact fun _ _ hfound => by cases hfound
  have hnamed : Looks (fun found => ∀ source, found = some source →
      ∃ base, source = resolvePath base name)
      (fileNamed name sourcePath sourcePath.dropLast) := by
    have hfirst : ∀ root candidates, (∀ path ∈ candidates, ∃ base, path = resolvePath base name) →
        Looks (fun found => ∀ source, found = some source → ∃ base, source = resolvePath base name)
          (firstReadable root candidates) := by
      intro root candidates hall
      induction candidates with
      | nil => exact fun _ hfound => by cases hfound
      | cons path rest ih =>
        have hrest := ih fun other hother => hall other (List.mem_cons_of_mem _ hother)
        unfold firstReadable
        split_ifs
        · refine Program.tracks_ask_bind.mpr ⟨trivial, fun readable _ => ?_⟩
          split_ifs
          · intro source hfound
            cases hfound
            exact hall path List.mem_cons_self
          · exact hrest
        · exact hrest
    refine hfirst _ _ fun path hpath => ?_
    rcases List.mem_cons.mp hpath with rfl | hpath
    · exact ⟨_, rfl⟩
    · exact ⟨_, List.mem_singleton.mp hpath⟩
  refine hnamed.bind fun found _ hfound => ?_
  rcases found with _ | source
  · exact fun _ _ hnone => by cases hnone
  refine Program.tracks_ask_bind.mpr ⟨trivial, fun episode _ => ?_⟩
  rcases episode with _ | episode
  · exact fun _ _ hnone => by cases hnone
  · intro source' episode' hsome
    obtain ⟨base, rfl⟩ := hfound source rfl
    cases hsome
    exact ⟨name, base, rfl, rfl⟩

theorem keepsNames_withPlaced (row : ReleaseGrab) (index : ℕ) (path : Dir) :
    KeepsNames grab row (row.withPlaced index path) := by
  refine ⟨rfl, rfl, rfl, fun _ => List.ext_getElem? fun i => ?_⟩
  simp only [ReleaseGrab.withPlaced, List.getElem?_map, List.getElem?_modify]
  split_ifs
  · rcases row.placements[i]? with _ | one <;> rfl
  · rcases row.placements[i]? with _ | one <;> rfl

theorem files_placeFrom (sourcePath : Dir) (total index : ℕ) {placements : List GrabPlacement}
    (h : id = grab.id → ∀ one ∈ placements, one.Innocent grab.placements) (filed : Filed) :
    Files grab torrent id Any (placeFrom sourcePath total index placements filed) := by
  induction placements generalizing index filed with
  | nil => exact files_pure trivial
  | cons placement rest ih =>
    have ih := fun index filed => ih index (fun hid one hone =>
      h hid one (List.mem_cons_of_mem _ hone)) filed
    refine (files_ask (looks_filable placement sourcePath)).bind fun found hfound => ?_
    rcases found with _ | ⟨source, episode⟩
    · exact ih _ _
    · have hsource : id = grab.id → OnlyClaims grab.placements (nameOf source) := by
        intro hid
        obtain ⟨name, base, hname, rfl⟩ := hfound source episode rfl
        obtain ⟨hplain, hclaims⟩ := h hid placement List.mem_cons_self name hname
        rwa [nameOf_resolvePath hplain]
      refine (files_targetFor episode _ source).bind fun target _ => ?_
      refine (files_copy hsource target.path _ total).bind fun _ _ => ?_
      refine files_change_bind (fun row _ => keepsNames_withPlaced row _ _) ?_
      exact files_save.bind fun _ _ => files_current_bind fun row _ _ => ih _ _

theorem files_placeEach (sourcePath : Dir) :
    Files grab torrent id Any (placeEach sourcePath) := by
  refine files_current_bind fun row _ hmine => ?_
  extract_lets total
  refine files_change_bind (fun row _ => keepsNames_of_same ⟨rfl, rfl, rfl, rfl⟩) ?_
  have hinnocent := fun hid => (hmine hid).2.2
  refine (files_placeFrom sourcePath _ 0 hinnocent ⟨0, 0, []⟩).bind fun filed _ => ?_
  split_ifs
  · exact files_throw _
  · exact files_change_bind (fun row _ => keepsNames_of_same ⟨rfl, rfl, rfl, rfl⟩) files_save

theorem mem_of_largestFile {files : List DiskFile} {file : DiskFile}
    (h : largestFile files = some file) : file ∈ files := by
  induction files using List.reverseRecOn with
  | nil => cases h
  | append_singleton files last ih =>
    rw [largestFile, List.foldl_append, List.foldl_cons, List.foldl_nil] at h
    split_ifs at h
    · exact List.mem_append_left _ (ih h)
    · rw [← Option.some.inj h]
      exact List.mem_append_right _ List.mem_cons_self

theorem files_largestUnder (sourcePath : Dir) :
    Files grab torrent id
      (fun file => id = grab.id → OnlyClaims grab.placements (nameOf file.path))
      (largestUnder sourcePath) := by
  refine files_current_bind fun own hown _ => ?_
  have hthrow : Files grab torrent id
      (fun file => id = grab.id → OnlyClaims grab.placements (nameOf file.path)) (do
      Filing.throw (← Filing.ask (unreadable sourcePath)) : Filing DiskFile) :=
    files_ask_bind (looks_of_neutral (only_unreadable sourcePath)) fun reason _ =>
      files_throw reason
  refine files_ask_bind (looks_of_only (Program.only_ask trivial)) fun found _ => ?_
  split_ifs
  · intro row q hgood hrow
    refine runs_look_bind trivial hgood fun files hfiles => ?_
    dsimp only [Filing.next]
    rcases hlargest : largestFile (q.answer (.filesUnder own.id sourcePath) files) with _ | file
    · exact hthrow row q hgood hrow
    · refine ⟨hgood, List.prefix_rfl, hrow, fun file' hfile' hid => ?_⟩
      cases hfile'
      exact hfiles (hown.trans hid) _ (mem_of_largestFile hlargest)
  · exact hthrow

theorem files_placeLargest (sourcePath : Dir) (item : MediaItem) :
    Files grab torrent id Any (placeLargest sourcePath item) := by
  refine (files_largestUnder sourcePath).bind fun file hfile => ?_
  refine (files_targetFor item _ file.path).bind fun target _ => ?_
  refine files_change_bind (fun row _ => keepsNames_of_same ⟨rfl, rfl, rfl, rfl⟩) ?_
  refine (files_copy hfile target.path 0 0).bind fun _ _ => ?_
  exact files_change_bind (fun row _ => keepsNames_of_same ⟨rfl, rfl, rfl, rfl⟩) files_save

theorem files_placeOrphan (sourcePath plannedPath : Dir) :
    Files grab torrent id Any (placeOrphan sourcePath plannedPath) := by
  refine (files_largestUnder sourcePath).bind fun file hfile => ?_
  extract_lets destination
  refine files_change_bind (fun row _ => keepsNames_of_same ⟨rfl, rfl, rfl, rfl⟩) ?_
  refine (files_copy hfile _ 0 0).bind fun _ _ => ?_
  exact files_change_bind (fun row _ => keepsNames_of_same ⟨rfl, rfl, rfl, rfl⟩) files_save

theorem files_placeItem (sourcePath : Dir) (item : MediaItem) :
    Files grab torrent id Any (placeItem sourcePath item) := by
  refine files_current_bind fun own hown hmine => ?_
  split_ifs with hnamed
  · exact files_placeEach sourcePath
  · -- The files of the grab itself were chosen, so nobody looks for others.
    have hother : id ≠ grab.id := by
      intro hid
      obtain ⟨hpart, hchosen, -⟩ := hmine hid
      rw [awaitsChoice, hpart, Bool.true_and] at hchosen
      simp only [List.all_eq_false, List.any_eq_true] at hchosen hnamed
      obtain ⟨one, hone, hname⟩ := hchosen
      refine hnamed ⟨one, hone, ?_⟩
      simpa [Option.isNone_iff_eq_none, Option.isSome_iff_ne_none] using hname
    have hspread := looks_of_neutral (only_spreadOf own.id sourcePath item)
    refine files_ask_bind hspread fun spread _ => ?_
    split_ifs
    · refine files_change_bind (fun row hrow => ?_) ?_
      · exact ⟨rfl, rfl, rfl, fun hid => absurd (hrow.symm.trans hid) hother⟩
      · exact files_save.bind fun _ _ => files_placeEach sourcePath
    · exact files_placeLargest sourcePath item

theorem files_locate (client : DownloadClientSettings) :
    Files grab torrent id Any (locate client) := by
  refine files_current_bind fun own _ _ => ?_
  rcases own.sourcePath with _ | sourcePath
  · exact files_throw _
  · refine files_ask_bind (looks_of_neutral (only_reachable sourcePath client)) fun found _ => ?_
    rcases found with _ | path
    · exact files_pure trivial
    · dsimp only
      split_ifs
      · exact files_pure trivial
      · refine files_change_bind (fun row _ => keepsNames_of_same ⟨rfl, rfl, rfl, rfl⟩) ?_
        exact files_save.bind fun _ _ => files_pure trivial

theorem files_placeGrab (client : DownloadClientSettings) :
    Files grab torrent id Any (placeGrab client) := by
  refine files_current_bind fun own _ _ => ?_
  refine files_ask_bind (looks_of_only (Program.only_ask trivial)) fun item _ => ?_
  refine (files_locate client).bind fun sourcePath _ => ?_
  rcases item with _ | item
  · rcases own.plannedPath with _ | plannedPath
    · exact files_throw _
    · exact files_placeOrphan sourcePath plannedPath
  · exact files_placeItem sourcePath item

theorem runs_place (client : DownloadClientSettings) (hgood : q.Good grab torrent)
    (hrow : InHand grab torrent id q row) :
    Runs grab torrent .poll (Grows q) (place client row) q := by
  refine Runs.bind (files_placeGrab client row q hgood hrow) ?_
  rintro ⟨row', answer⟩ q' hgood' ⟨hgrow, hrow', -⟩
  cases answer with
  | ok _ => exact ⟨hgood', hgrow⟩
  | error reason =>
    have hfits : Fits grab torrent q'.told { row' with state := .FAILED, error := some reason } :=
      hrow'.fits.same ⟨rfl, rfl, rfl, rfl⟩
    refine runs_ask_bind (f := .pure) hgood' fun r _ => ?_
    refine ⟨good_save hgood' hfits r, ?_⟩
    exact hgrow.trans (List.prefix_append _ _)

end Filing

/-! ### Choosing -/

section Choosing

variable {grab : ReleaseGrab} {torrent : String} {q : Queue} {row : ReleaseGrab}

/-- What is known of the placements while the files of a list are matched. -/
structure Matched (wanted : List GrabPlacement) (chosen : List GrabPlacement × List ℕ) : Prop where
  /-- A placement without a file is as it was. -/
  rest : ∀ one ∈ chosen.1, one.fileName = none → one ∈ wanted
  innocent : ∀ one ∈ chosen.1, one.Innocent wanted
  named : chosen.2 ≠ [] → ∃ one ∈ chosen.1, one.fileName ≠ none

theorem matched_chooseFile {wanted : List GrabPlacement} {chosen : List GrabPlacement × List ℕ}
    (h : Matched wanted chosen) {file : DownloadFile}
    (hfile : wanted.any (·.isFor file.coverage) = true →
      Plain (basename file.name) ∧ OnlyClaims wanted (basename file.name)) :
    Matched wanted (chooseFile chosen file) := by
  unfold chooseFile
  split
  · exact h
  case h_2 i hi =>
    obtain ⟨hlt, hfor, -⟩ := List.findIdx?_eq_some_iff_getElem.mp hi
    have hinnocent : Plain (basename file.name) ∧ OnlyClaims wanted (basename file.name) := by
      refine hfile (List.any_eq_true.mpr ⟨chosen.1[i], ?_, hfor⟩)
      refine h.rest _ (List.getElem_mem hlt) ?_
      rw [GrabPlacement.isFor, decide_eq_true_iff] at hfor
      exact hfor.1
    have hmem : ∀ one ∈ chosen.1.modify i fun one =>
        { one with fileName := some file.name, bytes := some file.size },
        one ∈ chosen.1 ∨ one.fileName = some file.name := by
      intro one hone
      obtain ⟨j, hj⟩ := List.getElem?_of_mem hone
      rw [List.getElem?_modify] at hj
      split_ifs at hj with hij
      · obtain ⟨old, -, rfl⟩ := Option.map_eq_some_iff.mp hj
        exact .inr rfl
      · rw [id_map'] at hj
        exact .inl (List.mem_of_getElem? hj)
    refine ⟨fun one hone hnone => ?_, fun one hone => ?_, fun _ => ?_⟩
    · rcases hmem one hone with hold | hnew
      · exact h.rest one hold hnone
      · rw [hnone] at hnew
        cases hnew
    · rcases hmem one hone with hold | hnew
      · exact h.innocent one hold
      · intro name hname
        obtain rfl := Option.some.inj (hnew.symm.trans hname)
        exact hinnocent
    · refine ⟨{ chosen.1[i] with fileName := some file.name, bytes := some file.size }, ?_, by simp⟩
      refine List.mem_of_getElem? (i := i) ?_
      rw [List.getElem?_modify, List.getElem?_eq_getElem hlt]
      simp

theorem matched_filesFor {wanted : List GrabPlacement} {files : List DownloadFile}
    (hunnamed : ∀ one ∈ wanted, one.fileName = none)
    (hfiles : ∀ file ∈ files, wanted.any (·.isFor file.coverage) = true →
      Plain (basename file.name) ∧ OnlyClaims wanted (basename file.name)) :
    Matched wanted (files.foldl chooseFile (wanted, [])) := by
  induction files using List.reverseRecOn with
  | nil =>
    refine ⟨fun one hone _ => hone, fun one hone name hname => ?_, fun hne => absurd rfl hne⟩
    rw [hunnamed one hone] at hname
    cases hname
  | append_singleton files last ih =>
    rw [List.foldl_append, List.foldl_cons, List.foldl_nil]
    refine matched_chooseFile (ih fun file hfile => hfiles file (List.mem_append_left _ hfile)) ?_
    exact hfiles last (List.mem_append_right _ List.mem_cons_self)

theorem grows_of_told {q' : Queue} (h : q'.told = q.told) : q.told <+: q'.told :=
  ⟨[], by rw [h, List.append_nil]⟩

theorem good_tell_of_quiet {op : Op} {r : op.Answer} (hgood : q.Good grab torrent)
    (hrows : q.rowsAfter op = q.rows) (hstarted : .started torrent ∉ tellOf op r)
    (hfiled : ∀ source, .filed grab.id source ∉ tellOf op r) : (q.after op r).Good grab torrent :=
  good_tell hgood hrows
    (fun _ _ htold =>
      absurd (htold ▸ List.mem_append_right _ List.mem_cons_self) hstarted)
    fun source hin => absurd hin (hfiled source)

theorem grows_after (q : Queue) (op : Op) (r : op.Answer) : q.told <+: (q.after op r).told :=
  List.prefix_append _ _

theorem runs_fetch (hgood : q.Good grab torrent) (hfits : Fits grab torrent q.told row)
    {clientId : String} {placements : List GrabPlacement} {wanted : List ℕ}
    (hselect : clientId = torrent → Chosen grab torrent (q.told ++ [.selected clientId wanted]))
    (hfetched : wanted ≠ [] → ∀ told, q.told ++ [.selected clientId wanted] <+: told →
      Fits grab torrent told { row with placements := placements, state := .DOWNLOADING }) :
    Runs grab torrent .poll (Grows q) (fetch row clientId placements wanted) q := by
  unfold fetch
  split_ifs with hwanted
  · refine runs_save_bind hgood (hfits.same ⟨rfl, rfl, rfl, rfl⟩) fun q' hgood' htold => ?_
    exact ⟨hgood', grows_of_told htold⟩
  refine runs_ask_bind hgood fun answer _ => ?_
  rcases answer with reason | _
  · exact ⟨good_tell_of_quiet hgood rfl List.not_mem_nil fun _ => List.not_mem_nil,
      grows_after q _ _⟩
  have hselected : (q.after (.selectFiles clientId wanted) (.ok ())).Good grab torrent :=
    good_tell_of_quiet hgood rfl (by simp [tellOf]) (by simp [tellOf])
  refine runs_ask_bind hselected fun answer _ => ?_
  have hstarted : ((q.after (.selectFiles clientId wanted) (.ok ())).after (.start clientId)
      answer).Good grab torrent := by
    refine good_tell hselected rfl (fun before after htold => ?_) fun source hin => ?_
    · rcases before with _ | ⟨_, before⟩
      · obtain ⟨heq, -⟩ := List.cons_eq_cons.mp htold
        rw [List.append_nil]
        exact hselect (Told.started.inj heq)
      · simp [tellOf] at htold
    · simp [tellOf] at hin
  rcases answer with reason | _
  · exact ⟨hstarted, (grows_after q _ _).trans (grows_after _ _ _)⟩
  have hfits' := hfetched hwanted _ (grows_after (q.after (.selectFiles clientId wanted) (.ok ()))
    (.start clientId) (.ok ()))
  refine runs_save_bind hstarted hfits' fun q' hsaved htold => ?_
  exact ⟨hsaved, ((grows_after q _ _).trans (grows_after _ _ _)).trans (grows_of_told htold)⟩

theorem runs_choose (hgood : q.Good grab torrent) (hfits : Fits grab torrent q.told row)
    (hawaits : awaitsChoice row = true) {clientId : String}
    (hclient : row.clientId = some clientId) :
    Runs grab torrent .poll (Grows q) (choose row clientId) q := by
  have hpart : row.isPartial = true ∧ row.placements.all (·.fileName.isNone) = true := by
    simpa [awaitsChoice] using hawaits
  refine runs_ask_bind hgood fun answer hheeds => ?_
  rcases answer with reason | files
  · exact ⟨good_tell_of_quiet hgood rfl List.not_mem_nil fun _ => List.not_mem_nil,
      grows_after q _ _⟩
  have hlisted : (q.after (.files clientId) (.ok files)).Good grab torrent :=
    good_tell_of_quiet hgood rfl (by simp [tellOf]) (by simp [tellOf])
  have hgrow := grows_after q (.files clientId) (.ok files)
  dsimp only [Queue.answer]
  split_ifs
  · exact ⟨hlisted, hgrow⟩
  refine (runs_fetch hlisted (hfits.grow hgrow) (fun hown => ?_) fun hwanted told htold => ?_).mono
    (fun _ h => h) fun _ _ _ h => hgrow.trans h
  · -- Two rows of one torrent that both choose would start it for each other.
    subst hown
    have hid : row.id = grab.id := by
      by_contra hne
      exact hfits.other hne hpart.1 hclient
    have hplacements := (hfits.mine hid).awaiting hawaits
    refine ⟨files, ?_, ?_⟩
    · exact List.mem_append_left _ (List.mem_append_right _ List.mem_cons_self)
    · rw [filesFor, ← hplacements]
      exact List.mem_append_right _ List.mem_cons_self
  · refine ⟨fun hid => ?_, fun hid => hfits.other hid⟩
    have hmine := hfits.mine hid
    obtain rfl : torrent = clientId := Option.some.inj (hmine.clientId.symm.trans hclient)
    have hplacements := hmine.awaiting hawaits
    have hmatched : Matched grab.placements (files.foldl chooseFile (row.placements, [])) := by
      rw [hplacements]
      refine matched_filesFor (fun one hone => ?_) (hheeds rfl)
      have hunnamed := List.all_eq_true.mp hpart.2 one (hplacements ▸ hone)
      exact Option.isNone_iff_eq_none.mp hunnamed
    have hnamed : awaitsChoice { row with
        placements := (files.foldl chooseFile (row.placements, [])).1, state := .DOWNLOADING } =
          false := by
      obtain ⟨one, hone, hname⟩ := hmatched.named hwanted
      rw [awaitsChoice, hpart.1, Bool.true_and, List.all_eq_false]
      exact ⟨one, hone, by simpa using hname⟩
    refine ⟨hmine.isPartial, hmine.clientId, fun habsurd => ?_, fun _ => ⟨?_, hmatched.innocent⟩⟩
    · rw [hnamed] at habsurd
      cases habsurd
    · obtain ⟨events, rfl⟩ := htold
      refine Chosen.append ⟨files, ?_, ?_⟩ events
      · exact List.mem_append_left _ (List.mem_append_right _ List.mem_cons_self)
      · rw [filesFor, ← hplacements]
        exact List.mem_append_right _ List.mem_cons_self

end Choosing


/-! ### A pass -/

section Pass

variable {grab : ReleaseGrab} {torrent : String} {q : Queue} {row : ReleaseGrab}

theorem runs_save {α : Type} {request : Request} {row' : ReleaseGrab} {answer : α}
    (hgood : q.Good grab torrent) (hfits : Fits grab torrent q.told row)
    (hsame : SameFiles row row') :
    Runs grab torrent request (Grows q) (Ask.save row' >>= fun _ => pure answer) q :=
  runs_save_bind hgood (hfits.same hsame) fun _ hgood' htold => ⟨hgood', grows_of_told htold⟩

/-- The client does not have all of the grab before its files are chosen. -/
def Unfinished (grab : ReleaseGrab) (torrent : String) (statuses : List DownloadStatus)
    (row : ReleaseGrab) : Prop :=
  row.id = grab.id → row.state ≠ .SENT → awaitsChoice row = true → ∀ status,
    statusOf statuses torrent = some status → status.complete = true → status.failed = true

theorem runs_follow (client : DownloadClientSettings) {statuses : List DownloadStatus}
    (hgood : q.Good grab torrent) (hfits : Fits grab torrent q.told row) {clientId : String}
    (hclient : row.clientId = some clientId) (hunfinished : Unfinished grab torrent statuses row)
    {status : DownloadStatus} (hstatus : statusOf statuses clientId = some status) :
    Runs grab torrent .poll (Grows q) (follow client row clientId status) q := by
  unfold follow
  split_ifs with hchoice hfailed hcomplete
  · exact runs_choose hgood hfits hchoice.2 hclient
  · exact runs_save hgood hfits ⟨rfl, rfl, rfl, rfl⟩
  · exact runs_save hgood hfits ⟨rfl, rfl, rfl, rfl⟩
  · have hfits' : Fits grab torrent q.told (row.fetched status client) :=
      hfits.same ⟨rfl, rfl, rfl, rfl⟩
    refine runs_save_bind hgood hfits' fun q' hgood' htold => ?_
    have hrow : InHand grab torrent row.id q' (row.fetched status client) := by
      refine ⟨rfl, by rwa [htold], fun hid => ?_⟩
      by_contra hawaits
      have hawaits : awaitsChoice row = true := eq_true_of_ne_false hawaits
      obtain rfl : torrent = clientId :=
        Option.some.inj ((hfits.mine hid).clientId.symm.trans hclient)
      have hcomplete : status.complete = true := by simpa using hcomplete
      have hsent : row.state ≠ .SENT := fun hsent => hchoice ⟨hsent, hawaits⟩
      exact hfailed (hunfinished hid hsent hawaits status hstatus hcomplete)
    refine Runs.bind (runs_place client hgood' hrow) fun _ q'' hgood'' hgrow => ?_
    exact ⟨hgood'', (grows_of_told htold).trans hgrow⟩

theorem runs_missed (hgood : q.Good grab torrent) (hfits : Fits grab torrent q.told row) :
    Runs grab torrent .poll (Grows q) (missed row) q := by
  unfold missed
  split_ifs
  · exact runs_save hgood hfits ⟨rfl, rfl, rfl, rfl⟩
  · exact ⟨hgood, List.prefix_rfl⟩

theorem runs_turn (client : DownloadClientSettings) {statuses : List DownloadStatus}
    (hgood : q.Good grab torrent) (hfits : Fits grab torrent q.told row)
    (hunfinished : Unfinished grab torrent statuses row) :
    Runs grab torrent .poll (Grows q) (turn client statuses row) q := by
  unfold turn
  split
  · exact runs_missed hgood hfits
  case h_2 clientId hclient =>
    split
    · exact runs_missed hgood hfits
    case h_2 status hstatus => exact runs_follow client hgood hfits hclient hunfinished hstatus

theorem runs_turns (client : DownloadClientSettings) {statuses : List DownloadStatus}
    {live : List ReleaseGrab} (hgood : q.Good grab torrent)
    (hfits : ∀ row ∈ live, Fits grab torrent q.told row)
    (hunfinished : ∀ row ∈ live, Unfinished grab torrent statuses row) :
    Runs grab torrent .poll (fun _ _ => True) (turns client statuses live) q := by
  induction live generalizing q with
  | nil => exact ⟨hgood, trivial⟩
  | cons row rest ih =>
    have hturn := runs_turn client hgood (hfits row List.mem_cons_self)
      (hunfinished row List.mem_cons_self)
    refine Runs.bind hturn fun answer q' hgood' hgrow => ?_
    rcases answer with reason | _
    · exact ⟨hgood', trivial⟩
    · exact ih hgood' (fun row hrow => (hfits row (List.mem_cons_of_mem _ hrow)).grow hgrow)
        fun row hrow => hunfinished row (List.mem_cons_of_mem _ hrow)

theorem runs_pass (hgood : q.Good grab torrent) :
    Runs grab torrent .poll (fun _ _ => True) pass q := by
  refine runs_look_bind trivial hgood fun live _ => ?_
  split
  · exact ⟨hgood, trivial⟩
  refine runs_look_bind trivial hgood fun settings _ => ?_
  rcases settings with _ | client
  · exact ⟨hgood, trivial⟩
  dsimp only [Queue.answer]
  split
  · exact ⟨hgood, trivial⟩
  refine runs_look_bind trivial hgood fun answer hheeds => ?_
  rcases answer with reason | statuses
  · exact ⟨hgood, trivial⟩
  refine runs_turns client hgood (fun row hrow => ?_) fun row hrow hid => ?_
  · exact hgood.fits row (List.mem_of_mem_filter hrow)
  · obtain ⟨hin, hlive⟩ := List.mem_filter.mp hrow
    exact hheeds row hin hid (by simpa using hlive)

end Pass

/-! ### What people do -/

section People

variable {grab : ReleaseGrab} {torrent : String} {request : Request} {q : Queue} {row : ReleaseGrab}

theorem runs_findOne_bind {α : Type} {Q : α → Queue → Prop} {id : String}
    {f : Option ReleaseGrab → Script α} (hgood : q.Good grab torrent)
    (hnone : Runs grab torrent request Q (f none) q)
    (hsome : ∀ row, Fits grab torrent q.told row → Runs grab torrent request Q (f (some row)) q) :
    Runs grab torrent request Q (Ask.findOne id >>= f) q := by
  refine runs_look_bind trivial hgood fun found _ => ?_
  have hfound : q.answer (.findOne id) found = Table.find (·.id) q.rows id := rfl
  rcases hrow : Table.find (·.id) q.rows id with _ | row
  · rw [hfound, hrow]
    exact hnone
  · rw [hfound, hrow]
    exact hsome row (hgood.fits row (Table.mem_of_find hrow))

theorem runs_save_done {α : Type} {row' : ReleaseGrab} {answer : α} (hgood : q.Good grab torrent)
    (hfits : Fits grab torrent q.told row) (hsame : SameFiles row row') :
    Runs grab torrent request (fun _ _ => True) (Ask.save row' >>= fun _ => pure answer) q :=
  (runs_save hgood hfits hsame).mono (fun _ h => h) fun _ _ _ _ => trivial

theorem runs_retry (id : String) (hgood : q.Good grab torrent) :
    Runs grab torrent request (fun _ _ => True) (Releases.retry id) q := by
  refine runs_findOne_bind hgood ⟨hgood, trivial⟩ fun row hfits => ?_
  dsimp only
  split_ifs
  · exact ⟨hgood, trivial⟩
  · exact ⟨hgood, trivial⟩
  · exact runs_save_done hgood hfits ⟨rfl, rfl, rfl, rfl⟩

theorem good_resume (hgood : q.Good grab torrent) {id clientId : String}
    (hrequest : request = .resume id) {r : (Op.start clientId).Answer}
    (hheeds : Heeds grab torrent request q (.start clientId) r) :
    (q.after (.start clientId) r).Good grab torrent := by
  refine good_tell hgood rfl (fun before after htold => ?_) fun source hin => ?_
  · rcases before with _ | ⟨_, before⟩
    · obtain ⟨heq, -⟩ := List.cons_eq_cons.mp htold
      obtain ⟨own, hown, hid⟩ := hgood.present
      have hchosen := hheeds id hrequest (Told.started.inj heq) own hown hid
      rw [List.append_nil]
      exact (((hgood.fits own hown).mine hid).chosen hchosen).1
    · simp [tellOf] at htold
  · simp [tellOf] at hin

theorem runs_suspend (id : String) (paused : Bool)
    (hrequest : paused = false → request = .resume id) (hgood : q.Good grab torrent) :
    Runs grab torrent request (fun _ _ => True) (suspend id paused) q := by
  refine runs_findOne_bind hgood ⟨hgood, trivial⟩ fun row hfits => ?_
  dsimp only
  split
  · exact ⟨hgood, trivial⟩
  split
  · exact ⟨hgood, trivial⟩
  refine runs_look_bind trivial hgood fun settings _ => ?_
  rcases settings with _ | client
  · exact ⟨hgood, trivial⟩
  cases paused with
  | true =>
    refine runs_look_bind trivial hgood fun answer _ => ?_
    rcases answer with reason | _
    · exact ⟨hgood, trivial⟩
    · exact runs_save_done hgood hfits ⟨rfl, rfl, rfl, rfl⟩
  | false =>
    refine runs_ask_bind hgood fun answer hheeds => ?_
    have hgood' := good_resume hgood (hrequest rfl) hheeds
    rcases answer with reason | _
    · exact ⟨hgood', trivial⟩
    · exact runs_save_done hgood' (hfits.grow (grows_after _ _ _)) ⟨rfl, rfl, rfl, rfl⟩

theorem runs_script (request : Request) (hgood : q.Good grab torrent) :
    Runs grab torrent request (fun _ _ => True) request.script q := by
  have hunit : ∀ {α : Type} {p : Script α},
      Runs grab torrent request (fun _ _ => True) p q →
        Runs grab torrent request (fun _ _ => True) (p >>= fun _ => pure ()) q :=
    fun h => h.bind fun _ _ hgood' _ => ⟨hgood', trivial⟩
  cases request with
  | poll => exact hunit (runs_pass hgood)
  | pause id => exact hunit (runs_suspend id true (fun h => by cases h) hgood)
  | resume id => exact hunit (runs_suspend id false (fun _ => rfl) hgood)
  | retry id => exact hunit (runs_retry id hgood)

end People

/-! ### The life of a grab -/

/-- **A partial grab fetches only what was wanted**, over any sequence of passes, pauses, resumes
and retries, each carried out or stopped on the way, whose operations heed the condition.  The grab
is as it was added, beside any other rows but a second partial grab of its torrent. -/
theorem fetchesOnlyWanted {rows : List ReleaseGrab} {grab : ReleaseGrab} {torrent : String}
    (hrows : (rows.map (·.id)).Nodup) (hin : grab ∈ rows) (hpart : awaitsChoice grab = true)
    (hclient : grab.clientId = some torrent)
    (hone : ∀ row ∈ rows, row.isPartial = true → row.clientId = some torrent → row.id = grab.id)
    {q : Queue} (h : Lives (Heeds grab torrent) ⟨rows, []⟩ q) :
    FetchesOnlyWanted grab torrent q.told := by
  have hstart : Queue.Good grab torrent ⟨rows, []⟩ := by
    refine ⟨hrows, ⟨grab, hin, rfl⟩, fun row hrow => ⟨fun hid => ?_, fun hne hpart hclient => ?_⟩,
      ⟨fun before after htold => ?_, fun source hfiled => by cases hfiled⟩⟩
    · obtain rfl : row = grab := by
        have hfind := Table.find_of_mem hrows hrow
        rw [hid] at hfind
        exact Option.some.inj (hfind.symm.trans (Table.find_of_mem hrows hin))
      have hown : row.isPartial = true := by
        rw [awaitsChoice, Bool.and_eq_true] at hpart
        exact hpart.1
      exact ⟨hown, hclient, fun _ => rfl, fun hnot => absurd hpart (by simp [hnot])⟩
    · exact hne (hone row hrow hpart hclient)
    · simp at htold
  have hgood : q.Good grab torrent := by
    induction h with
    | nil => exact hstart
    | snoc request _ hvisits ih => exact (runs_script request ih).visits hvisits
  exact hgood.wanted

/-! ### Two lives -/

/-- A grab of one episode out of a season, as it was added. -/
def partialGrab : ReleaseGrab where
  id := "g"
  itemId := "show"
  state := .SENT
  clientId := some "t"
  bytesDone := 0
  bytesTotal := 0
  sourcePath := none
  targetPath := none
  targetLibraryId := none
  targetFolder := none
  plannedPath := none
  isPartial := true
  error := none
  placements := [⟨"e3", some 2, some 3, "Three", none, none, none⟩]

def seasonFiles : List DownloadFile :=
  [⟨0, "S02/S02E03.mkv", 5⟩, ⟨1, "S02/S02E04.mkv", 6⟩]

def seasonStatus (complete : Bool) : DownloadStatus :=
  ⟨"t", "S02", 0, 11, complete, false, "downloading", false, none, none, some ["data", "S02"]⟩

def seasonWorld (complete : Bool) : (op : Op) → op.Answer
  | .findLive | .findChildren _ => []
  | .findOne _ | .pinnedFolder _ _ => none
  | .save _ | .delete _ => ()
  | .downloadClient => some ⟨none, []⟩
  | .statuses _ => .ok [seasonStatus complete]
  | .files _ => .ok seasonFiles
  | .selectFiles _ _ | .start _ | .pause _ | .prepare _ => .ok ()
  | .findItem id => some ⟨id, .EPISODE, id, some 2, none⟩
  | .readable _ => true
  | .filesUnder _ path => [⟨path ++ ["S02E03.mkv"], 5⟩, ⟨path ++ ["S02E04.mkv"], 6⟩]
  | .nameableOf _ _ => ⟨.EPISODE, some 2, none, "Show", none⟩
  | .resolve _ request => .ok ⟨"lib", ["lib"], ["lib", nameOf request.source]⟩
  | .move _ _ _ => ⟨none, .ok ()⟩

/-- So many operations of a request in that world. -/
def stepsOf (complete : Bool) (check : Queue → Op → Bool) (count : ℕ) (request : Request) :
    Queue → Option Queue :=
  Program.follow (fun q op => q.answer op (seasonWorld complete op)) Queue.after check count
    request.script

/-- The torrent is not there before its files are chosen, and nobody looks for other files. -/
def inOrder (complete : Bool) (q : Queue) : Op → Bool
  | .statuses _ => !complete || q.rows.all (!awaitsChoice ·)
  | .filesUnder _ _ => false
  | _ => true

theorem heeds_of_inOrder {complete : Bool} {q : Queue} {op : Op}
    (h : inOrder complete q op = true) :
    Heeds partialGrab "t" .poll q op (q.answer op (seasonWorld complete op)) := by
  cases op with
  | start _ => exact fun id habsurd => by cases habsurd
  | statuses tracked =>
    intro row hrow _ _ _ hawaits status hstatus hcomplete
    obtain rfl : seasonStatus complete = status := Option.some.inj hstatus
    rcases Bool.or_eq_true_iff.mp h with hnot | hall
    · rw [show complete = true from hcomplete] at hnot
      cases hnot
    · have hchosen := List.all_eq_true.mp hall row hrow
      rw [hawaits] at hchosen
      cases hchosen
  | files clientId =>
    have hfiles : ∀ file ∈ seasonFiles, partialGrab.placements.any (·.isFor file.coverage) = true →
        Plain (basename file.name) ∧ OnlyClaims partialGrab.placements (basename file.name) := by
      decide +kernel
    exact fun _ => hfiles
  | filesUnder _ _ => cases h
  | _ => trivial

/-- It is polled once its torrent is listed, and again once it is there. -/
def pollTwice : Option Queue :=
  (stepsOf false (inOrder false) 7 .poll ⟨[partialGrab], []⟩).bind
    (stepsOf true (inOrder true) 15 .poll)

theorem fetchesOnlyWanted_pollTwice : ∃ q, pollTwice = some q ∧
    .filed "g" ["data", "S02", "S02E03.mkv"] ∈ q.told ∧
      FetchesOnlyWanted partialGrab "t" q.told := by
  have htold : pollTwice.map Queue.told = some [.listed "t" seasonFiles, .selected "t" [0],
      .started "t", .filed "g" ["data", "S02", "S02E03.mkv"]] := by decide +kernel
  obtain ⟨q, hq, htold⟩ := Option.map_eq_some_iff.mp htold
  obtain ⟨q', hfirst, hsecond⟩ := Option.bind_eq_some_iff.mp hq
  have hlives : Lives (Heeds partialGrab "t") ⟨[partialGrab], []⟩ q :=
    .snoc .poll
      (.snoc .poll (.nil _) (Program.visits_follow
        (fun _ _ h => ⟨⟨_, rfl⟩, rfl, heeds_of_inOrder h⟩) hfirst))
      (Program.visits_follow (fun _ _ h => ⟨⟨_, rfl⟩, rfl, heeds_of_inOrder h⟩) hsecond)
  exact ⟨q, hq, by simp [htold],
    fetchesOnlyWanted (by simp) List.mem_cons_self rfl rfl (by simp) hlives⟩

def resumeThenPoll : Option Queue :=
  (stepsOf false (fun _ _ => true) 4 (.resume "g") ⟨[partialGrab], []⟩).bind
    (stepsOf true (fun _ _ => true) 25 .poll)

/-- All of the season is fetched, and filed. -/
theorem fetchesUnwanted_resumeThenPoll : ∃ q, resumeThenPoll = some q ∧
    Lives (fun _ _ _ _ => True) ⟨[partialGrab], []⟩ q ∧
    q.told = [.started "t", .filed "g" ["data", "S02", "S02E03.mkv"],
      .filed "g" ["data", "S02", "S02E04.mkv"]] ∧ ¬ FetchesOnlyWanted partialGrab "t" q.told := by
  have htold : resumeThenPoll.map Queue.told = some [.started "t",
      .filed "g" ["data", "S02", "S02E03.mkv"], .filed "g" ["data", "S02", "S02E04.mkv"]] := by
    decide +kernel
  obtain ⟨q, hq, htold⟩ := Option.map_eq_some_iff.mp htold
  obtain ⟨q', hfirst, hsecond⟩ := Option.bind_eq_some_iff.mp hq
  have hlives : Lives (fun _ _ _ _ => True) ⟨[partialGrab], []⟩ q :=
    .snoc .poll
      (.snoc (.resume "g") (.nil _) (Program.visits_follow
        (fun _ _ _ => ⟨⟨_, rfl⟩, rfl, trivial⟩) hfirst))
      (Program.visits_follow (fun _ _ _ => ⟨⟨_, rfl⟩, rfl, trivial⟩) hsecond)
  refine ⟨q, hq, hlives, htold, fun h => ?_⟩
  obtain ⟨files, hlisted, -⟩ := h.started [] _ htold
  cases hlisted

end MediaCenterSync.Releases
