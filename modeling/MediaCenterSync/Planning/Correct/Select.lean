import MediaCenterSync.Planning.Select

/-!
# When a plan keeps two works apart

Whether two rows are one work is the scorer's to say, and a plan groups rows by another key.  Two
candidates the scorer refuses to pair are each pulled in their own right, and no local copy of the
one makes the other held (`Separate`), exactly when their keys differ or nothing with their key is
remote, and the match table correlates no local copy of the one with a row that has the other's key
(`Unmixed`): `separate_iff`.
-/

namespace MediaCenterSync.Planning

open Matching (MatchOptions score)

/-! ### The groups -/

/-- The candidates that carry a file and have the key of an item. -/
def sharing (candidates : List MediaItem) (item : MediaItem) : List MediaItem :=
  candidates.filter fun member => member.file.isSome ∧ identity member = identity item

theorem mem_sharing {candidates : List MediaItem} {item member : MediaItem} :
    member ∈ sharing candidates item ↔
      member ∈ candidates ∧ member.file.isSome ∧ identity member = identity item := by
  simp [sharing]

theorem mem_groups {candidates : List MediaItem} {key : String} {members : List MediaItem} :
    (key, members) ∈ groups candidates ↔
      ∃ item ∈ candidates, item.file.isSome ∧ key = identity item ∧
        members = sharing candidates item := by
  have hfilter : ∀ key, (candidates.filter (·.file.isSome)).filter (identity · = key) =
      candidates.filter fun member => member.file.isSome ∧ identity member = key := fun key => by
    simp [List.filter_filter, Bool.and_comm]
  rw [groups, OrderedMap.mem_groupBy_append, hfilter]
  constructor
  · rintro ⟨hne, rfl⟩
    obtain ⟨item, hitem⟩ := List.exists_mem_of_ne_nil _ hne
    obtain ⟨hin, hitem⟩ := List.mem_filter.mp hitem
    obtain ⟨hfile, rfl⟩ := of_decide_eq_true hitem
    exact ⟨item, hin, hfile, rfl, rfl⟩
  · rintro ⟨item, hin, hfile, rfl, rfl⟩
    exact ⟨List.ne_nil_of_mem (mem_sharing.mpr ⟨hin, hfile, rfl⟩), rfl⟩

theorem mem_groups_of_mem {candidates : List MediaItem} {key : String} {members : List MediaItem}
    {item : MediaItem} (h : (key, members) ∈ groups candidates) (hitem : item ∈ members) :
    item.file.isSome ∧ members = sharing candidates item := by
  obtain ⟨first, -, -, -, rfl⟩ := mem_groups.mp h
  obtain ⟨-, hfile, hkey⟩ := mem_sharing.mp hitem
  exact ⟨hfile, by rw [sharing, sharing, hkey]⟩

section

variable (catalogue : Catalogue) (order : List String)

/-- A group has a source as soon as one of its rows is remote. -/
theorem isSome_sourceOf {members : List MediaItem} :
    (sourceOf catalogue order members).isSome ↔ ∃ member ∈ members, !catalogue.isLocal member := by
  rw [sourceOf, List.isSome_head?, ne_eq, ← List.length_eq_zero_iff, List.length_insertionSort,
    List.length_eq_zero_iff, List.filter_eq_nil_iff]
  push Not
  exact Iff.rfl

theorem isSome_transferOf {members : List MediaItem} :
    (transferOf catalogue order members).isSome ↔ (sourceOf catalogue order members).isSome := by
  simp [transferOf]

theorem mem_localCopies {members : List MediaItem} {source copy : MediaItem} :
    copy ∈ localCopies catalogue members source ↔
      catalogue.isLocal copy ∧ (copy ∈ members ∧ !isConflicting copy source ∨
        ∃ member ∈ members, copy ∈ catalogue.counterparts member) := by
  simp only [localCopies, List.mem_append, List.mem_filter, List.mem_flatMap,
    Bool.decide_and, Bool.decide_eq_true, Bool.and_eq_true]
  tauto

/-- Our own copies of an item: itself, on one of our services, and what it is correlated with. -/
def copiesOf (item : MediaItem) : List MediaItem :=
  (item :: catalogue.counterparts item).filter (catalogue.isLocal ·)

end

/-! ### Two works -/

section

variable (toLowerCase : String → String) (options : MatchOptions) (catalogue : Catalogue)
  (effective : EffectiveRequest) (candidates : List MediaItem) (wanted : List WantedItem)

/-- The scorer pairs the two in neither order. -/
def Refused (a b : MediaItem) : Prop :=
  score toLowerCase a.candidate b.candidate options = none ∧
    score toLowerCase b.candidate a.candidate options = none

/-- **The first of two candidates is not taken for the second.** -/
structure Separate (a b : MediaItem) : Prop where
  apart : ∀ key members, (key, members) ∈ groups candidates →
    (transferOf catalogue (catalogue.sourceOrder effective.sourceServiceIds) members).isSome →
    a ∈ members → b ∉ members
  /-- A remote row has a transfer of its own, and it is wanted if the filter lets it through. -/
  wanted : a.file.isSome → !catalogue.isLocal a → ∃ key members transfer,
    (key, members) ∈ groups candidates ∧ a ∈ members ∧ b ∉ members ∧
    transferOf catalogue (catalogue.sourceOrder effective.sourceServiceIds) members
      = some transfer ∧
    (keeps toLowerCase effective.filter transfer → transfer ∈ wanted)
  /-- No local copy of the second makes the first held. -/
  held : ∀ key members source, (key, members) ∈ groups candidates → a ∈ members →
    sourceOf catalogue (catalogue.sourceOrder effective.sourceServiceIds) members = some source →
    ∀ copy ∈ copiesOf catalogue b, copy ∉ localCopies catalogue members source

/-- What nobody said of the first of two rows is not what makes it the second. -/
structure Unmixed (a b : MediaItem) : Prop where
  /-- With one key, nothing with that key is remote. -/
  alone : a.file.isSome → b.file.isSome → identity a = identity b →
    ∀ member ∈ sharing candidates a, catalogue.isLocal member
  /-- No local copy of the second is correlated with a row that has the key of the first, and none
  has that key, unless it is another cut than the row that would be pulled. -/
  uncorrelated : a.file.isSome → ∀ source,
    sourceOf catalogue (catalogue.sourceOrder effective.sourceServiceIds) (sharing candidates a)
      = some source →
    ∀ copy ∈ copiesOf catalogue b,
      (∀ member ∈ sharing candidates a, copy ∉ catalogue.counterparts member) ∧
        (copy ∈ sharing candidates a → isConflicting copy source)

variable {toLowerCase catalogue effective candidates wanted} {a b : MediaItem}

theorem mem_groups_sharing (ha : a ∈ candidates) (hfile : a.file.isSome) :
    (identity a, sharing candidates a) ∈ groups candidates :=
  mem_groups.mpr ⟨a, ha, hfile, rfl, rfl⟩

theorem mem_sharing_self (ha : a ∈ candidates) (hfile : a.file.isSome) :
    a ∈ sharing candidates a := mem_sharing.mpr ⟨ha, hfile, rfl⟩

theorem Separate.unmixed (ha : a ∈ candidates) (hb : b ∈ candidates)
    (h : Separate toLowerCase catalogue effective candidates wanted a b) :
    Unmixed catalogue effective candidates a b where
  alone := by
    intro hfile hother hkey member hmember
    by_contra hremote
    have hsource : (transferOf catalogue (catalogue.sourceOrder effective.sourceServiceIds)
        (sharing candidates a)).isSome :=
      (isSome_transferOf ..).mpr ((isSome_sourceOf ..).mpr ⟨member, hmember, by simpa using hremote⟩)
    exact h.apart _ _ (mem_groups_sharing ha hfile) hsource (mem_sharing_self ha hfile)
      (mem_sharing.mpr ⟨hb, hother, hkey.symm⟩)
  uncorrelated := by
    intro hfile source hsource copy hcopy
    have hout := h.held _ _ source (mem_groups_sharing ha hfile) (mem_sharing_self ha hfile)
      hsource copy hcopy
    have hlocal : catalogue.isLocal copy := (List.mem_filter.mp hcopy).2
    rw [mem_localCopies] at hout
    constructor
    · intro member hmember hcorrelated
      exact hout ⟨hlocal, .inr ⟨member, hmember, hcorrelated⟩⟩
    · intro hmember
      by_contra hsame
      exact hout ⟨hlocal, .inl ⟨hmember, by simpa using hsame⟩⟩

theorem Unmixed.separate (hwanted : wantedOf toLowerCase catalogue effective candidates = wanted)
    (ha : a ∈ candidates) (h : Unmixed catalogue effective candidates a b) :
    Separate toLowerCase catalogue effective candidates wanted a b := by
  have hapart : ∀ key members, (key, members) ∈ groups candidates →
      (sourceOf catalogue (catalogue.sourceOrder effective.sourceServiceIds) members).isSome →
      a ∈ members → b ∉ members := by
    intro key members hgroup hsource hin hboth
    obtain ⟨hfile, rfl⟩ := mem_groups_of_mem hgroup hin
    obtain ⟨-, hother, hkey⟩ := mem_sharing.mp hboth
    obtain ⟨member, hmember, hremote⟩ := (isSome_sourceOf ..).mp hsource
    have hlocal := h.alone hfile hother hkey.symm member hmember
    rw [hlocal] at hremote
    cases hremote
  constructor
  case apart =>
    intro key members hgroup htransfer
    exact hapart key members hgroup ((isSome_transferOf ..).mp htransfer)
  case wanted =>
    intro hfile hremote
    have hgroup := mem_groups_sharing ha hfile
    have hin := mem_sharing_self ha hfile
    have hsource : (sourceOf catalogue (catalogue.sourceOrder effective.sourceServiceIds)
        (sharing candidates a)).isSome := (isSome_sourceOf ..).mpr ⟨a, hin, hremote⟩
    obtain ⟨transfer, htransfer⟩ := Option.isSome_iff_exists.mp ((isSome_transferOf ..).mpr hsource)
    refine ⟨_, _, transfer, hgroup, hin, hapart _ _ hgroup hsource hin, htransfer, ?_⟩
    intro hkeeps
    rw [← hwanted]
    exact List.mem_filterMap.mpr ⟨_, hgroup, by simp [htransfer, hkeeps]⟩
  case held =>
    intro key members source hgroup hin hsource copy hcopy hheld
    obtain ⟨hfile, rfl⟩ := mem_groups_of_mem hgroup hin
    obtain ⟨huncorrelated, hconflicting⟩ := h.uncorrelated hfile source hsource copy hcopy
    obtain ⟨-, ⟨hmember, hsame⟩ | ⟨member, hmember, hcorrelated⟩⟩ := (mem_localCopies ..).mp hheld
    · rw [hconflicting hmember] at hsame
      cases hsame
    · exact huncorrelated member hmember hcorrelated

/-- **Two works are kept apart** exactly when no key and no correlation takes the one for the
other. -/
theorem separate_iff (options : MatchOptions)
    (hcandidates : catalogue.candidates effective = .ok candidates) {estimate : SyncEstimate}
    (hselect : select toLowerCase catalogue effective = .ok (wanted, estimate))
    (ha : a ∈ candidates) (hb : b ∈ candidates) :
    (Refused toLowerCase options a b →
      Separate toLowerCase catalogue effective candidates wanted a b ∧
        Separate toLowerCase catalogue effective candidates wanted b a) ↔
    (Refused toLowerCase options a b →
      Unmixed catalogue effective candidates a b ∧ Unmixed catalogue effective candidates b a) := by
  have hwanted : wantedOf toLowerCase catalogue effective candidates = wanted := by
    rw [select, hcandidates] at hselect
    exact congrArg Prod.fst (Except.ok.inj hselect)
  apply forall_congr'
  intro _
  exact and_congr ⟨Separate.unmixed ha hb, Unmixed.separate hwanted ha⟩
    ⟨Separate.unmixed hb ha, Unmixed.separate hwanted hb⟩

end

/-! ### Two films of one title -/

/-- A film called Dune, of which its service reports an identifier and a version. -/
def dune (id serviceId imdb : String) (contentId : Option String) : MediaItem where
  id := id
  serviceId := serviceId
  libraryId := serviceId ++ "-films"
  peerId := none
  parentId := none
  kind := .MOVIE
  title := "Dune"
  normalizedTitle := "dune"
  year := none
  seasonNumber := none
  episodeNumber := none
  externalIds := { imdb := imdb }
  file := some
    { path := some ["films", "Dune.mkv"]
      size := 1000
      videoCodec := none
      width := none
      height := none
      durationMs := none
      bitrate := none
      contentId := contentId
      checksum := none
      edition := none }
  syncState := .UNKNOWN
  targetFolder := none

/-- The film of 1984 on our disk and that of 2021 on another server, as two rows. -/
def twoDunes (ours theirs : Option String) : Catalogue where
  items := [dune "ours" "home" "tt0087182" ours, dune "theirs" "away" "tt1160419" theirs]
  services := [⟨"home", "Home", none, true, []⟩, ⟨"away", "Away", none, false, []⟩]
  libraries := []
  categories := []
  matchRows := []
  nodup := show ["ours", "theirs"].Nodup by decide

def everything : EffectiveRequest where
  scope := ⟨[], [], [], []⟩
  sourceServiceIds := []
  preferredLibraryId := none
  preferredBy := .PLAN_PREFERENCE
  filter := ⟨[], false, false, false, none, none, none⟩
  ceilings := ⟨none, none⟩

/-- Where both copies are fingerprinted, the film of 2021 is pulled. -/
theorem separate_iff_twoVersions :
    let ours := dune "ours" "home" "tt0087182" (some "v1:a")
    let theirs := dune "theirs" "away" "tt1160419" (some "v1:b")
    Separate id (twoDunes (some "v1:a") (some "v1:b")) everything [ours, theirs]
        [⟨theirs, none, .MISSING⟩] ours theirs ∧
      Separate id (twoDunes (some "v1:a") (some "v1:b")) everything [ours, theirs]
        [⟨theirs, none, .MISSING⟩] theirs ours := by
  intro ours theirs
  have hselect : select id (twoDunes (some "v1:a") (some "v1:b")) everything
      = .ok ([⟨theirs, none, .MISSING⟩], ⟨1, 1000, true, false⟩) := rfl
  refine (separate_iff ⟨0, .exact, [], [], []⟩ rfl hselect (List.mem_cons_self ..)
    (List.mem_cons_of_mem _ (List.mem_singleton_self _))).mpr ?_ ⟨by decide, by decide⟩
  intro _
  refine ⟨⟨?_, ?_⟩, ⟨?_, ?_⟩⟩
  · exact fun _ _ hkey => absurd hkey (by decide)
  · intro _ source hsource
    cases hsource
  · exact fun _ _ hkey => absurd hkey (by decide)
  · intro _ source _ copy hcopy
    obtain rfl : copy = ours := List.mem_singleton.mp hcopy
    exact ⟨by decide, fun hin => absurd hin (by decide)⟩

/-- **Two works are taken for one**: nobody fingerprinted either copy, their titles are one, and the
film of 2021 counts as held. -/
theorem not_separate_twoDunes :
    let ours := dune "ours" "home" "tt0087182" none
    let theirs := dune "theirs" "away" "tt1160419" none
    (twoDunes none none).candidates everything = .ok [ours, theirs] ∧
      select id (twoDunes none none) everything = .ok ([], ⟨0, 0, true, false⟩) ∧
      Refused id ⟨0, .exact, [], [], []⟩ ours theirs ∧
      ¬ Separate id (twoDunes none none) everything [ours, theirs] [] ours theirs ∧
      ¬ Separate id (twoDunes none none) everything [ours, theirs] [] theirs ours := by
  intro ours theirs
  have hgroup : (identity ours, [ours, theirs]) ∈ groups [ours, theirs] := by decide
  have htransfer : (transferOf (twoDunes none none) ["home", "away"] [ours, theirs]).isSome := by
    decide
  refine ⟨rfl, rfl, ⟨by decide, by decide⟩, ?_, ?_⟩
  · intro h
    exact h.apart _ _ hgroup htransfer (by decide) (by decide)
  · intro h
    exact h.apart _ _ hgroup htransfer (by decide) (by decide)

end MediaCenterSync.Planning
