import MediaCenterSync.Lib.Best
import MediaCenterSync.Releases.Correct.Wanted

/-!
# Choosing files out of a pack

A file is taken for the first placement that has none and is for its first episode (`chooseFile`), so
each placement ends up with the first file listed of those that name its episode first
(`foldl_chooseFile`).  That is not always the largest file that claims the episode, nor is there
always one: `choosesWell_iff` says when.
-/

namespace MediaCenterSync.Releases

/-! ### What a file says of itself -/

def DownloadFile.coordinate (file : DownloadFile) : Option ℕ × Option ℕ :=
  (file.coverage.seasonNumber, file.coverage.episodeNumbers.head?)

theorem keeps_episode : EPISODE.keeps = true ∧ EPISODE_X.keeps = true := by
  decide

theorem seasonNumber_ne_none {name : String} {hasSeason : Bool}
    (h : (parseReleaseName name hasSeason).coverage.episodeNumbers ≠ []) :
    (parseReleaseName name hasSeason).coverage.seasonNumber ≠ none := by
  dsimp only [parseReleaseName] at h ⊢
  cases hepisode : (Regex.exec EPISODE name.toList <|> Regex.exec EPISODE_X name.toList) with
  | none =>
    rw [hepisode] at h
    exact absurd rfl h
  | some found =>
    have hgroups : found.groups ≠ [] := by
      cases hfirst : Regex.exec EPISODE name.toList with
      | none =>
        rw [hfirst] at hepisode
        exact Regex.groups_ne_nil_of_exec keeps_episode.2 hepisode
      | some first =>
        rw [hfirst] at hepisode
        obtain rfl : first = found := Option.some.inj hepisode
        exact Regex.groups_ne_nil_of_exec keeps_episode.1 hfirst
    obtain ⟨season, rest, hseason⟩ := List.exists_cons_of_ne_nil hgroups
    simp [groupNumber, hseason]

def Claims (file : DownloadFile) (one : GrabPlacement) : Prop :=
  one.seasonNumber = file.coverage.seasonNumber ∧
    ∃ episode ∈ file.coverage.episodeNumbers, one.episodeNumber = some episode

theorem claims_of_coordinate {file : DownloadFile} {one : GrabPlacement}
    (h : file.coordinate = one.coordinate) (hnumber : one.episodeNumber ≠ none) :
    Claims file one := by
  obtain ⟨hseason, hepisode⟩ := Prod.ext_iff.mp h
  obtain ⟨episode, hone⟩ := Option.ne_none_iff_exists'.mp hnumber
  have hhead : file.coverage.episodeNumbers.head? = some episode := hepisode.trans hone
  exact ⟨hseason.symm, episode, List.mem_of_mem_head? hhead, hone⟩

theorem isFor_of_coordinate {file : DownloadFile} {one : GrabPlacement}
    (hunnamed : one.fileName = none) (h : file.coordinate = one.coordinate) :
    one.isFor file.coverage = true := by
  obtain ⟨hseason, hepisode⟩ := Prod.ext_iff.mp h
  exact decide_eq_true ⟨hunnamed, hepisode.symm, .inl hseason.symm⟩

theorem isFor_iff {file : DownloadFile} {one : GrabPlacement} (hunnamed : one.fileName = none)
    (hnumbered : one.isFor file.coverage = true → one.episodeNumber ≠ none) :
    one.isFor file.coverage = true ↔ file.coordinate = one.coordinate := by
  constructor
  · intro h
    have hnumber := hnumbered h
    obtain ⟨_, hepisode, hseason⟩ := of_decide_eq_true h
    have hspelt : file.coverage.seasonNumber ≠ none := by
      refine seasonNumber_ne_none fun hnil => hnumber (hepisode.trans ?_)
      rw [DownloadFile.coverage, hnil, List.head?_nil]
    exact Prod.ext_iff.mpr ⟨(hseason.resolve_right hspelt).symm, hepisode.symm⟩
  · exact isFor_of_coordinate hunnamed

/-! ### What is chosen -/

def GrabPlacement.withFile (one : GrabPlacement) (file : DownloadFile) : GrabPlacement :=
  { one with fileName := some file.name, bytes := some file.size }

def GrabPlacement.chosenFrom (one : GrabPlacement) (files : List DownloadFile) : GrabPlacement :=
  (files.find? (·.coordinate = one.coordinate)).elim one one.withFile

/-- Where at most one element is changed, it is changed wherever it is. -/
theorem modify_findIdx_eq_map {α : Type*} {P : α → Bool} (f : α → α) {l : List α}
    (h : l.Pairwise fun a b => ¬(P a = true ∧ P b = true)) :
    (l.findIdx? P).elim l (l.modify · f) = l.map fun a => if P a then f a else a := by
  induction l with
  | nil => rfl
  | cons a rest ih =>
    obtain ⟨hfirst, hrest⟩ := List.pairwise_cons.mp h
    rw [List.findIdx?_cons, List.map_cons]
    by_cases ha : P a = true
    · have hothers : rest.map (fun b => if P b then f b else b) = rest :=
        (List.map_congr_left fun b hb => if_neg fun hPb => hfirst b hb ⟨ha, hPb⟩).trans
          (List.map_id' rest)
      rw [if_pos ha, if_pos ha, hothers]
      rfl
    · rw [if_neg ha, if_neg ha, ← ih hrest]
      cases rest.findIdx? P <;> rfl

theorem chooseFile_fst (chosen : List GrabPlacement × List ℕ) (file : DownloadFile) :
    (chooseFile chosen file).1 = (chosen.1.findIdx? (·.isFor file.coverage)).elim chosen.1
      (chosen.1.modify · (·.withFile file)) := by
  unfold chooseFile
  split
  · next hnone => rw [hnone, Option.elim_none]
  · next i hsome =>
    rw [hsome, Option.elim_some]
    rfl

theorem chooseFile_snd (chosen : List GrabPlacement × List ℕ) (file : DownloadFile) :
    (chooseFile chosen file).2 =
      if chosen.1.any (·.isFor file.coverage) then chosen.2 ++ [file.index] else chosen.2 := by
  unfold chooseFile
  split
  · next hnone =>
    rw [if_neg]
    simpa using hnone
  · next i hsome =>
    rw [if_pos]
    obtain ⟨hi, hfor, _⟩ := List.findIdx?_eq_some_iff_getElem.mp hsome
    exact List.any_eq_true.mpr ⟨_, List.getElem_mem hi, hfor⟩

section

variable {wanted : List GrabPlacement} {files : List DownloadFile} {file : DownloadFile}
  {one other : GrabPlacement}

/-- The placements and the wanted indices once all files were looked at. -/
def chosen (wanted : List GrabPlacement) (files : List DownloadFile) :
    List GrabPlacement × List ℕ :=
  files.foldl chooseFile (wanted, [])

theorem chosen_concat (wanted : List GrabPlacement) (files : List DownloadFile)
    (file : DownloadFile) :
    chosen wanted (files ++ [file]) = chooseFile (chosen wanted files) file := by
  rw [chosen, List.foldl_append]
  rfl

/-- No file is taken for a placement without a number. -/
def Numbered (wanted : List GrabPlacement) (files : List DownloadFile) : Prop :=
  ∀ file ∈ files, ∀ one ∈ wanted, one.isFor file.coverage = true → one.episodeNumber ≠ none

theorem coordinate_chosenFrom (one : GrabPlacement) (files : List DownloadFile) :
    (one.chosenFrom files).coordinate = one.coordinate := by
  unfold GrabPlacement.chosenFrom
  cases files.find? (·.coordinate = one.coordinate) <;> rfl

theorem chosenFrom_of_find_none
    (h : files.find? (·.coordinate = one.coordinate) = none) : one.chosenFrom files = one := by
  rw [GrabPlacement.chosenFrom, h, Option.elim_none]

theorem chosenFrom_of_find_some
    (h : files.find? (·.coordinate = one.coordinate) = some file) :
    one.chosenFrom files = one.withFile file := by
  rw [GrabPlacement.chosenFrom, h, Option.elim_some]

theorem isFor_chosenFrom_iff (hunnamed : one.fileName = none)
    (hnumbered : one.isFor file.coverage = true → one.episodeNumber ≠ none) :
    (one.chosenFrom files).isFor file.coverage = true ↔
      files.find? (·.coordinate = one.coordinate) = none ∧ file.coordinate = one.coordinate := by
  cases hfind : files.find? (·.coordinate = one.coordinate) with
  | none =>
    rw [chosenFrom_of_find_none hfind, isFor_iff hunnamed hnumbered]
    exact (and_iff_right rfl).symm
  | some held =>
    rw [chosenFrom_of_find_some hfind]
    exact iff_of_false (fun h => nomatch (of_decide_eq_true h).1) fun h => nomatch h.1

theorem chosenFrom_concat (one : GrabPlacement) (hunnamed : one.fileName = none)
    (hnumbered : one.isFor file.coverage = true → one.episodeNumber ≠ none) :
    one.chosenFrom (files ++ [file]) =
      if (one.chosenFrom files).isFor file.coverage then (one.chosenFrom files).withFile file
      else one.chosenFrom files := by
  cases hfind : files.find? (·.coordinate = one.coordinate) with
  | some held =>
    have hsame : (files ++ [file]).find? (·.coordinate = one.coordinate) = some held := by
      rw [List.find?_append, hfind, Option.some_or]
    rw [if_neg, chosenFrom_of_find_some hsame, chosenFrom_of_find_some hfind]
    rw [isFor_chosenFrom_iff hunnamed hnumbered, hfind]
    exact fun h => nomatch h.1
  | none =>
    by_cases hcoordinate : file.coordinate = one.coordinate
    · have hnew : (files ++ [file]).find? (·.coordinate = one.coordinate) = some file := by
        rw [List.find?_append, hfind, Option.none_or, List.find?_singleton,
          if_pos (decide_eq_true hcoordinate)]
      rw [if_pos, chosenFrom_of_find_some hnew, chosenFrom_of_find_none hfind]
      exact (isFor_chosenFrom_iff hunnamed hnumbered).mpr ⟨hfind, hcoordinate⟩
    · have hnone : (files ++ [file]).find? (·.coordinate = one.coordinate) = none := by
        rw [List.find?_append, hfind, Option.none_or, List.find?_singleton,
          if_neg (by simpa using hcoordinate)]
      rw [if_neg, chosenFrom_of_find_none hnone, chosenFrom_of_find_none hfind]
      rw [isFor_chosenFrom_iff hunnamed hnumbered]
      exact fun h => hcoordinate h.2

theorem mem_chooseFile {chosen : List GrabPlacement × List ℕ} (h : one ∈ chosen.1) :
    one ∈ (chooseFile chosen file).1 ∨
      one.isFor file.coverage = true ∧ one.withFile file ∈ (chooseFile chosen file).1 := by
  rw [chooseFile_fst]
  cases hfind : chosen.1.findIdx? (·.isFor file.coverage) with
  | none => exact .inl h
  | some i =>
    obtain ⟨hi, hfor, _⟩ := List.findIdx?_eq_some_iff_getElem.mp hfind
    obtain ⟨j, hj, rfl⟩ := List.mem_iff_getElem.mp h
    have hlength : j < (chosen.1.modify i (·.withFile file)).length := by
      rwa [List.length_modify]
    have hmem := List.getElem_mem hlength
    rw [List.getElem_modify] at hmem
    split at hmem
    · next heq =>
      subst heq
      exact .inr ⟨hfor, hmem⟩
    · exact .inl hmem

theorem mem_chooseFile_of_named {chosen : List GrabPlacement × List ℕ} (h : one ∈ chosen.1)
    (hnamed : one.fileName ≠ none) : one ∈ (chooseFile chosen file).1 :=
  (mem_chooseFile h).resolve_right fun hfor => hnamed (of_decide_eq_true hfor.1).1

/-- A placement stays as it is until a file is taken for it. -/
theorem mem_chosen (files : List DownloadFile) (hone : one ∈ wanted) :
    one ∈ (chosen wanted files).1 ∨ ∃ named ∈ (chosen wanted files).1,
      named.episodeNumber = one.episodeNumber ∧ named.fileName ≠ none := by
  induction files using List.reverseRecOn with
  | nil => exact .inl hone
  | append_singleton files file ih =>
    rw [chosen_concat]
    rcases ih with ih | ⟨named, hnamed, hepisode, hname⟩
    · rcases mem_chooseFile ih with hsame | ⟨_, hnew⟩
      · exact .inl hsame
      · exact .inr ⟨_, hnew, rfl, Option.some_ne_none _⟩
    · exact .inr ⟨named, mem_chooseFile_of_named hnamed hname, hepisode, hname⟩

/-- A file that is for a placement without a number is taken for one, unless another was before. -/
theorem exists_unnumbered (hfile : file ∈ files) (hone : one ∈ wanted)
    (hfor : one.isFor file.coverage = true) (hnumber : one.episodeNumber = none) :
    ∃ named ∈ (chosen wanted files).1, named.episodeNumber = none ∧ named.fileName ≠ none := by
  induction files using List.reverseRecOn with
  | nil => exact nomatch hfile
  | append_singleton files last ih =>
    rw [chosen_concat]
    rcases List.mem_append.mp hfile with hfile | hfile
    · obtain ⟨named, hnamed, hepisode, hname⟩ := ih hfile
      exact ⟨named, mem_chooseFile_of_named hnamed hname, hepisode, hname⟩
    · obtain rfl := List.mem_singleton.mp hfile
      rcases mem_chosen files hone with hsame | ⟨named, hnamed, hepisode, hname⟩
      · rw [chooseFile_fst]
        cases hfind : (chosen wanted files).1.findIdx? (·.isFor file.coverage) with
        | none => exact absurd hfor (by simpa using List.findIdx?_eq_none_iff.mp hfind one hsame)
        | some i =>
          obtain ⟨hi, htaken, _⟩ := List.findIdx?_eq_some_iff_getElem.mp hfind
          have hlength : i < ((chosen wanted files).1.modify i (·.withFile file)).length := by
            rwa [List.length_modify]
          have hmem := List.getElem_mem hlength
          rw [List.getElem_modify, if_pos rfl] at hmem
          refine ⟨_, hmem, ?_, Option.some_ne_none _⟩
          -- the placement that is taken has the first episode of the file, which is none
          exact (of_decide_eq_true htaken).2.1.trans
            ((of_decide_eq_true hfor).2.1.symm.trans hnumber)
      · exact ⟨named, mem_chooseFile_of_named hnamed hname, hepisode.trans hnumber, hname⟩

variable (hunnamed : ∀ one ∈ wanted, one.fileName = none)
  (hdistinct : (wanted.map (·.coordinate)).Nodup)

include hunnamed hdistinct

/-- **Each placement ends up with the first file of its coordinate.** -/
theorem chosen_fst (hnumbered : Numbered wanted files) :
    (chosen wanted files).1 = wanted.map (·.chosenFrom files) := by
  induction files using List.reverseRecOn with
  | nil =>
    rw [chosen, List.foldl_nil]
    exact (List.map_id' wanted).symm
  | append_singleton files file ih =>
    have hearlier : Numbered wanted files := fun f hf => hnumbered f (List.mem_append_left _ hf)
    have hfile : ∀ one ∈ wanted, one.isFor file.coverage = true → one.episodeNumber ≠ none :=
      hnumbered file (List.mem_append_right _ List.mem_cons_self)
    rw [chosen_concat, chooseFile_fst, ih hearlier, modify_findIdx_eq_map, List.map_map]
    · refine List.map_congr_left fun one hone => ?_
      exact (chosenFrom_concat one (hunnamed one hone) (hfile one hone)).symm
    · -- two placements that it is for have its coordinate
      rw [List.pairwise_map]
      refine (List.pairwise_map.mp hdistinct).imp_of_mem fun {a b} ha hb hne hboth => hne ?_
      have hfirst := (isFor_chosenFrom_iff (hunnamed a ha) (hfile a ha)).mp hboth.1
      have hsecond := (isFor_chosenFrom_iff (hunnamed b hb) (hfile b hb)).mp hboth.2
      exact hfirst.2.symm.trans hsecond.2

theorem index_mem_chosen (hnumbered : Numbered wanted files) (hone : one ∈ wanted)
    (hfind : files.find? (·.coordinate = one.coordinate) = some file) :
    file.index ∈ (chosen wanted files).2 := by
  induction files using List.reverseRecOn with
  | nil => exact nomatch hfind
  | append_singleton files last ih =>
    have hearlier : Numbered wanted files := fun f hf => hnumbered f (List.mem_append_left _ hf)
    rw [chosen_concat, chooseFile_snd]
    rw [List.find?_append] at hfind
    cases hheld : files.find? (·.coordinate = one.coordinate) with
    | some held =>
      rw [hheld, Option.some_or] at hfind
      obtain rfl : held = file := Option.some.inj hfind
      have hold := ih hearlier hheld
      split
      · exact List.mem_append_left _ hold
      · exact hold
    | none =>
      rw [hheld, Option.none_or] at hfind
      have hlast := List.mem_of_find?_eq_some hfind
      obtain rfl : file = last := List.mem_singleton.mp hlast
      have hcoordinate : file.coordinate = one.coordinate := by
        simpa using List.find?_some hfind
      rw [if_pos]
      · exact List.mem_append_right _ List.mem_cons_self
      · rw [chosen_fst hunnamed hdistinct hearlier, List.any_eq_true]
        refine ⟨one.chosenFrom files, List.mem_map_of_mem hone, ?_⟩
        exact (isFor_chosenFrom_iff (hunnamed one hone) (hnumbered file (by simp) one hone)).mpr
          ⟨hheld, hcoordinate⟩

omit hunnamed hdistinct

/-! ### When the choice is right -/

/-- The client is told to fetch the file, and a placement names it. -/
structure Taken (wanted : List GrabPlacement) (files : List DownloadFile) (file : DownloadFile) :
    Prop where
  index : file.index ∈ (chosen wanted files).2
  named : ∃ one ∈ (chosen wanted files).1,
    one.fileName = some file.name ∧ one.bytes = some file.size

/-- The files that are chosen are a matching, of the largest that claim what is wanted. -/
structure ChoosesWell (wanted : List GrabPlacement) (files : List DownloadFile) : Prop where
  once : (chosen wanted files).1.Pairwise fun one other =>
    ∀ name, one.fileName = some name → other.fileName ≠ some name
  /-- A file that is named claims the episode, and no other season. -/
  claimed : ∀ one ∈ (chosen wanted files).1, ∀ name, one.fileName = some name →
    ∃ file ∈ files, file.name = name ∧ Taken wanted files file ∧ Claims file one
  /-- Of the files that claim a wanted episode, none is larger than all that are taken. -/
  largest : ∀ one ∈ wanted, ∀ file ∈ files, Claims file one →
    ∃ taken ∈ files, Taken wanted files taken ∧ Claims taken one ∧ file.size ≤ taken.size

/-- A file that is the first listed of those that name a wanted episode first. -/
structure Foremost (wanted : List GrabPlacement) (files : List DownloadFile)
    (file : DownloadFile) : Prop where
  first : ∃ before after, files = before ++ file :: after ∧
    ∀ other ∈ before, other.coordinate ≠ file.coordinate
  wanted : ∃ one ∈ wanted, one.coordinate = file.coordinate

/-- No file without an episode is for a placement, and of the files that claim a wanted episode none
is larger than all that are foremost. -/
structure Choosable (wanted : List GrabPlacement) (files : List DownloadFile) : Prop where
  numbered : Numbered wanted files
  foremost : ∀ one ∈ wanted, ∀ file ∈ files, Claims file one →
    ∃ other, Foremost wanted files other ∧ Claims other one ∧ file.size ≤ other.size

theorem claims_congr {file other : DownloadFile} (h : file.name = other.name) :
    Claims file one ↔ Claims other one := by
  rw [Claims, Claims, DownloadFile.coverage, DownloadFile.coverage, h]

theorem find_eq_some_iff : files.find? (·.coordinate = one.coordinate) = some file ↔
    file.coordinate = one.coordinate ∧ ∃ before after, files = before ++ file :: after ∧
      ∀ other ∈ before, other.coordinate ≠ file.coordinate := by
  rw [List.find?_eq_some_iff_append]
  constructor
  · rintro ⟨hcoordinate, before, after, heq, hbefore⟩
    have hcoordinate := of_decide_eq_true hcoordinate
    refine ⟨hcoordinate, before, after, heq, fun other hother => ?_⟩
    rw [hcoordinate]
    simpa using hbefore other hother
  · rintro ⟨hcoordinate, before, after, heq, hbefore⟩
    refine ⟨decide_eq_true hcoordinate, before, after, heq, fun other hother => ?_⟩
    have hne := hbefore other hother
    rw [hcoordinate] at hne
    simpa using hne

include hunnamed hdistinct

theorem Foremost.taken (h : Foremost wanted files file) (hnumbered : Numbered wanted files) :
    Taken wanted files file := by
  obtain ⟨one, hone, hcoordinate⟩ := h.wanted
  have hfind := find_eq_some_iff.mpr ⟨hcoordinate.symm, h.first⟩
  refine ⟨index_mem_chosen hunnamed hdistinct hnumbered hone hfind, one.withFile file, ?_, rfl, rfl⟩
  rw [chosen_fst hunnamed hdistinct hnumbered, ← chosenFrom_of_find_some hfind]
  exact List.mem_map_of_mem hone

theorem exists_foremost {name : String} (hnumbered : Numbered wanted files)
    (hone : one ∈ (chosen wanted files).1) (hname : one.fileName = some name) :
    ∃ file, Foremost wanted files file ∧ file.name = name ∧ one.bytes = some file.size ∧
      file.coordinate = one.coordinate := by
  rw [chosen_fst hunnamed hdistinct hnumbered] at hone
  obtain ⟨before, hbefore, rfl⟩ := List.mem_map.mp hone
  cases hfind : files.find? (·.coordinate = before.coordinate) with
  | none =>
    rw [chosenFrom_of_find_none hfind, hunnamed before hbefore] at hname
    exact nomatch hname
  | some file =>
    obtain ⟨hcoordinate, hfirst⟩ := find_eq_some_iff.mp hfind
    rw [coordinate_chosenFrom]
    rw [chosenFrom_of_find_some hfind] at hname ⊢
    exact ⟨file, ⟨hfirst, before, hbefore, hcoordinate.symm⟩, Option.some.inj hname, rfl,
      hcoordinate⟩

/-- **The choice is right if and only if the foremost files are the largest that claim what is
wanted**, and no file without an episode is for a placement. -/
theorem choosesWell_iff : ChoosesWell wanted files ↔ Choosable wanted files := by
  constructor
  · intro h
    have hnumbered : Numbered wanted files := by
      intro file hfile one hone hfor hnumber
      obtain ⟨named, hnamed, hepisode, hname⟩ := exists_unnumbered hfile hone hfor hnumber
      obtain ⟨name, hname⟩ := Option.ne_none_iff_exists'.mp hname
      obtain ⟨_, _, _, _, _, episode, _, hclaimed⟩ := h.claimed named hnamed name hname
      rw [hepisode] at hclaimed
      exact nomatch hclaimed
    refine ⟨hnumbered, fun one hone file hfile hclaims => ?_⟩
    obtain ⟨taken, _, htaken, hclaims, hsize⟩ := h.largest one hone file hfile hclaims
    obtain ⟨named, hnamed, hname, hbytes⟩ := htaken.named
    obtain ⟨other, hother, hsame, hsameBytes, _⟩ :=
      exists_foremost hunnamed hdistinct hnumbered hnamed hname
    have hsizes : taken.size = other.size := Option.some.inj (hbytes.symm.trans hsameBytes)
    exact ⟨other, hother, (claims_congr hsame).mpr hclaims, hsizes ▸ hsize⟩
  · intro h
    have hmem {file : DownloadFile} (hfile : Foremost wanted files file) : file ∈ files := by
      obtain ⟨before, after, rfl, _⟩ := hfile.first
      exact List.mem_append_right _ List.mem_cons_self
    refine ⟨?_, fun one hone name hname => ?_, fun one hone file hfile hclaims => ?_⟩
    · -- a file that two placements name has the coordinate of both
      have hpairs : (chosen wanted files).1.Pairwise
          fun one other => one.coordinate ≠ other.coordinate := by
        rw [chosen_fst hunnamed hdistinct h.numbered, List.pairwise_map]
        simp only [coordinate_chosenFrom]
        exact List.pairwise_map.mp hdistinct
      refine hpairs.imp_of_mem fun {one other} hone hother hne name hname hsame => hne ?_
      obtain ⟨file, _, hfile, _, hcoordinate⟩ :=
        exists_foremost hunnamed hdistinct h.numbered hone hname
      obtain ⟨file', _, hfile', _, hcoordinate'⟩ :=
        exists_foremost hunnamed hdistinct h.numbered hother hsame
      rw [← hcoordinate, ← hcoordinate', DownloadFile.coordinate, DownloadFile.coordinate,
        DownloadFile.coverage, DownloadFile.coverage, hfile, hfile']
    · obtain ⟨file, hforemost, hfile, _, hcoordinate⟩ :=
        exists_foremost hunnamed hdistinct h.numbered hone hname
      refine ⟨file, hmem hforemost, hfile, hforemost.taken hunnamed hdistinct h.numbered, ?_⟩
      refine claims_of_coordinate hcoordinate ?_
      obtain ⟨before, hbefore, hbeforeCoordinate⟩ := hforemost.wanted
      have hnumber := h.numbered file (hmem hforemost) before hbefore
        (isFor_of_coordinate (hunnamed before hbefore) hbeforeCoordinate.symm)
      have hsame : one.episodeNumber = before.episodeNumber :=
        (Prod.ext_iff.mp (hcoordinate.symm.trans hbeforeCoordinate.symm)).2
      rwa [hsame]
    · obtain ⟨other, hother, hclaims, hsize⟩ := h.foremost one hone file hfile hclaims
      exact ⟨other, hmem hother, hother.taken hunnamed hdistinct h.numbered, hclaims, hsize⟩

end

/-- A grab of one episode, and its file listed before a sample of it that is smaller. -/
def firstEpisode : GrabPlacement := ⟨"e1", some 1, some 1, "One", none, none, none⟩

def episodeFile : DownloadFile := ⟨1, "Show.S01E01.mkv", 1000⟩

def sampleFile : DownloadFile := ⟨0, "Sample/Show.S01E01.sample.mkv", 10⟩

theorem choosesWell_episodeFirst :
    ChoosesWell [firstEpisode] [episodeFile, sampleFile] ∧
      (chosen [firstEpisode] [episodeFile, sampleFile]).2 = [1] := by
  refine ⟨(choosesWell_iff (by simp [firstEpisode]) (by simp)).mpr ⟨?_, ?_⟩, by decide +kernel⟩
  · have hnumber : ∀ one ∈ [firstEpisode], one.episodeNumber ≠ none := by simp [firstEpisode]
    exact fun _ _ one hone _ => hnumber one hone
  · have hclaims : Claims episodeFile firstEpisode := by
      refine ⟨?_, 1, ?_, rfl⟩ <;> decide +kernel
    have hforemost : Foremost [firstEpisode] [episodeFile, sampleFile] episodeFile := by
      refine ⟨⟨[], [sampleFile], rfl, List.forall_mem_nil _⟩, firstEpisode, List.mem_cons_self, ?_⟩
      decide +kernel
    intro one hone file hfile _
    obtain rfl := List.mem_singleton.mp hone
    refine ⟨episodeFile, hforemost, hclaims, ?_⟩
    have hsizes : ∀ file ∈ [episodeFile, sampleFile], file.size ≤ episodeFile.size := by
      simp [episodeFile, sampleFile]
    exact hsizes file hfile

/-- A sample that is listed first is fetched, and the episode is not. -/
theorem not_choosesWell_sampleFirst : ¬∀ (wanted : List GrabPlacement) (files : List DownloadFile),
    (∀ one ∈ wanted, one.fileName = none) → (wanted.map (·.coordinate)).Nodup →
      ChoosesWell wanted files := by
  intro h
  have hwell := h [firstEpisode] [sampleFile, episodeFile] (by simp [firstEpisode]) (by simp)
  have hclaims : Claims episodeFile firstEpisode := by
    refine ⟨?_, 1, ?_, rfl⟩ <;> decide +kernel
  obtain ⟨taken, hin, htaken, _, hsize⟩ :=
    hwell.largest firstEpisode List.mem_cons_self episodeFile (by simp) hclaims
  have hindices : (chosen [firstEpisode] [sampleFile, episodeFile]).2 = [0] := by decide +kernel
  have hindex := htaken.index
  rw [hindices] at hindex
  rcases List.mem_cons.mp hin with rfl | hin
  · exact absurd hsize (by decide)
  · obtain rfl := List.mem_singleton.mp hin
    exact absurd hindex (by decide)

/-! ### The other reading of a pack -/

/-- The files of a pack that say a coordinate, under it. -/
def coordinated (files : List DiskFile) : List ((ℕ × ℕ) × DiskFile) :=
  files.filterMap fun file => (coordinateOf file).map (·, file)

theorem mem_coordinated {files : List DiskFile} {entry : (ℕ × ℕ) × DiskFile} :
    entry ∈ coordinated files ↔ entry.2 ∈ files ∧ coordinateOf entry.2 = some entry.1 := by
  obtain ⟨key, file⟩ := entry
  simp only [coordinated, List.mem_filterMap, Option.map_eq_some_iff, Prod.mk.injEq]
  constructor
  · rintro ⟨_, hfile, _, hkey, rfl, rfl⟩
    exact ⟨hfile, hkey⟩
  · rintro ⟨hfile, hkey⟩
    exact ⟨file, hfile, key, hkey, rfl, rfl⟩

theorem foldl_keepLargest (files : List DiskFile) : files.foldl keepLargest [] =
    Best.kept Prod.fst (fun found => OrderDual.toDual found.2.size) (coordinated files) := by
  induction files using List.reverseRecOn with
  | nil => rfl
  | append_singleton files file ih =>
    have hconcat : coordinated (files ++ [file]) =
        coordinated files ++ ((coordinateOf file).map (·, file)).toList := by
      rw [coordinated, coordinated, List.filterMap_append]
      cases hcoordinate : coordinateOf file <;> simp [hcoordinate]
    rw [List.foldl_append, ih, List.foldl_cons, List.foldl_nil, hconcat, keepLargest]
    cases coordinateOf file with
    | none => exact congrArg _ (List.append_nil _).symm
    | some key =>
      rw [Option.map_some, Option.toList_some, Best.kept_concat]
      rfl

/-- **A pack nobody chose from is spread by the largest files**: each coordinate that a file says is
kept once, with a file that says it and that no other is larger than, whatever the order. -/
theorem spreads_largest (files : List DiskFile) :
    ((files.foldl keepLargest []).map (·.1)).Nodup ∧
      (∀ file ∈ files, ∀ key, coordinateOf file = some key →
        ∃ held ∈ files.foldl keepLargest [], held.1 = key) ∧
      ∀ held ∈ files.foldl keepLargest [],
        held.2 ∈ files ∧ coordinateOf held.2 = some held.1 ∧
          ∀ other ∈ files, coordinateOf other = some held.1 → other.size ≤ held.2.size := by
  rw [foldl_keepLargest]
  refine ⟨Best.nodup_kept _, fun file hfile key hkey => ?_, fun held hheld => ?_⟩
  · have hmem : (key, file) ∈ coordinated files := mem_coordinated.mpr ⟨hfile, hkey⟩
    exact Best.exists_mem_kept hmem
  · have hleads := Best.mem_kept.mp hheld
    obtain ⟨hfile, hkey⟩ := mem_coordinated.mp hleads.mem
    refine ⟨hfile, hkey, fun other hother hsame => ?_⟩
    have hmem : (held.1, other) ∈ coordinated files := mem_coordinated.mpr ⟨hother, hsame⟩
    have hle := hleads.le hmem rfl
    exact OrderDual.toDual_le_toDual.mp hle

end MediaCenterSync.Releases
