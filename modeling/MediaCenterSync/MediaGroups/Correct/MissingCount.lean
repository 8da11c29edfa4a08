import MediaCenterSync.Grouping.Correct.MatchGraph
import MediaCenterSync.Lib.Lists
import MediaCenterSync.MediaGroups.Manager

/-!
# One missing count

Both counts go over the first child of each child group: a card counts those of `cardGaps`, and the
filters those of `filterGaps`.
-/

namespace MediaCenterSync.MediaGroups

open Grouping (MatchGraph)

variable {catalogue : Catalogue} {context : GroupContext}

/-! ### Groups -/

theorem represents_graph (context : GroupContext) : context.graph.Represents context.pairs :=
  MatchGraph.represents_empty.absorb context.pairs

theorem mem_members {id x : String} : x ∈ context.members id ↔ context.root x = context.root id := by
  have hcurrent : context.graph.Current := MatchGraph.current_foldl_absorbPair context.pairs rfl
  have hmembers := (MatchGraph.members_spec (represents_graph context) hcurrent id).2 x
  have hjoined := (represents_graph context).joined id x
  exact hmembers.trans (hjoined.symm.trans eq_comm)

/-! ### Reads -/

theorem mem_chunks {ids : List String} {id : String} :
    (∃ chunk ∈ chunks ids, id ∈ chunk) ↔ id ∈ ids := by
  have hpos : 0 < ID_CHUNK := by decide
  constructor
  · rintro ⟨chunk, hchunk, hid⟩
    obtain ⟨n, -, rfl⟩ := List.mem_map.mp hchunk
    exact List.mem_eraseDups.mp (List.mem_of_mem_drop (List.mem_of_mem_take hid))
  · intro hid
    obtain ⟨i, hi, rfl⟩ := List.getElem_of_mem (List.mem_eraseDups.mpr hid)
    refine ⟨_, List.mem_map_of_mem (List.mem_range.mpr
      (Nat.lt_succ_of_le (Nat.div_le_div_right hi.le))), ?_⟩
    rw [List.mem_iff_getElem]
    have hdiv := Nat.div_add_mod' i ID_CHUNK
    have hmod := Nat.mod_lt i hpos
    have hlength : i % ID_CHUNK <
        ((ids.eraseDups.drop (i / ID_CHUNK * ID_CHUNK)).take ID_CHUNK).length := by
      rw [List.length_take, List.length_drop]
      omega
    refine ⟨i % ID_CHUNK, hlength, ?_⟩
    rw [List.getElem_take, List.getElem_drop]
    congr 1

theorem isUnder_iff {item : MediaItem} {ids : List String} :
    item.isUnder ids = true ↔ ∃ parent ∈ ids, item.parentId = some parent := by
  rw [MediaItem.isUnder, Option.any_eq_true]
  constructor
  · rintro ⟨parent, hparent, hin⟩
    exact ⟨parent, of_decide_eq_true hin, hparent⟩
  · rintro ⟨parent, hin, hparent⟩
    exact ⟨parent, hparent, decide_eq_true hin⟩

theorem mem_findChildDigests {ids : List String} {item : MediaItem} :
    item ∈ catalogue.findChildDigests ids ↔ item ∈ catalogue.rows ∧ item.isUnder ids = true := by
  simp only [Catalogue.findChildDigests, List.mem_flatMap, (catalogue.scan_perm _).mem_iff,
    List.mem_filter, isUnder_iff]
  constructor
  · rintro ⟨chunk, hchunk, hrow, parent, hparent, heq⟩
    exact ⟨hrow, parent, mem_chunks.mp ⟨chunk, hchunk, hparent⟩, heq⟩
  · rintro ⟨hrow, parent, hparent, heq⟩
    obtain ⟨chunk, hchunk, hin⟩ := mem_chunks.mpr hparent
    exact ⟨chunk, hchunk, hrow, parent, hin, heq⟩

theorem Catalogue.eq_of_id_eq {a b : MediaItem} (ha : a ∈ catalogue.rows) (hb : b ∈ catalogue.rows)
    (h : a.id = b.id) : a = b :=
  List.inj_on_of_nodup_map catalogue.ids_nodup ha hb h

theorem mem_filterMap_find {rows : List MediaItem} (hrows : rows ⊆ catalogue.rows)
    {ids : List String} {copy : MediaItem} :
    copy ∈ ids.filterMap (fun id => rows.find? (·.id = id)) ↔ copy ∈ rows ∧ copy.id ∈ ids := by
  rw [List.mem_filterMap]
  constructor
  · rintro ⟨id, hid, hfind⟩
    have heq : copy.id = id := by simpa using List.find?_some hfind
    exact ⟨List.mem_of_find?_eq_some hfind, heq ▸ hid⟩
  · rintro ⟨hcopy, hid⟩
    refine ⟨copy.id, hid, ?_⟩
    rcases hfind : rows.find? (·.id = copy.id) with _ | other
    · exact absurd (decide_eq_true rfl) (List.find?_eq_none.mp hfind copy hcopy)
    · have heq : other.id = copy.id := by simpa using List.find?_some hfind
      rw [hfind, catalogue.eq_of_id_eq (hrows (List.mem_of_find?_eq_some hfind)) (hrows hcopy) heq]

/-! ### What a card counts -/

/-- Ignored, or held. -/
def closes (context : GroupContext) (copy : MediaItem) : Bool :=
  copy.ignored || holds context copy

theorem children_subset (memberIds : List String) :
    (children catalogue context memberIds).copies ⊆ catalogue.rows := by
  intro copy hcopy
  rcases List.mem_append.mp hcopy with hchild | houtsider
  · exact (mem_findChildDigests.mp hchild).1
  · exact List.mem_of_mem_filter houtsider

theorem mem_copiesOf {memberIds : List String} {child copy : MediaItem}
    (hchild : child ∈ (children catalogue context memberIds).children) :
    copy ∈ (children catalogue context memberIds).copiesOf context child ↔
      copy ∈ catalogue.rows ∧ context.root copy.id = context.root child.id := by
  rw [← mem_members, ChildIndex.copiesOf]
  refine (mem_filterMap_find (children_subset memberIds)).trans (and_congr_left fun hmember => ?_)
  refine ⟨fun hcopy => children_subset memberIds hcopy, fun hrow => ?_⟩
  -- a copy that is no child of the page is an outsider
  by_cases hin : copy ∈ (children catalogue context memberIds).children
  · exact List.mem_append_left _ hin
  · refine List.mem_append_right _ (List.mem_filter.mpr ⟨hrow, decide_eq_true ?_⟩)
    refine List.mem_filter.mpr ⟨List.mem_flatMap.mpr ⟨child, hchild, hmember⟩, ?_⟩
    refine List.all_eq_true.mpr fun other hother => decide_eq_true fun heq => ?_
    rw [catalogue.eq_of_id_eq (mem_findChildDigests.mp hother).1 hrow heq] at hother
    exact hin hother

/-- The children of some copies, in the order they are looked at. -/
def kids (members : List MediaItem) (index : ChildIndex) : List MediaItem :=
  members.flatMap (index.byParent ·.id)

/-- What the loop of `_childGroups` finds. -/
theorem childGroups_eq {members : List MediaItem} {index : ChildIndex} {covered : List ℕ}
    (hcovered : covered = episodesCovered (index.copies.filter (holdsARange context))) :
    childGroups context members index =
      (((kids members index).filter fun child =>
          (index.copiesOf context child).all (!·.ignored)).firsts (context.root ·.id)).map
        fun child => (context.root child.id,
          (index.copiesOf context child).any (holds context) || insideARange child covered) := by
  subst hcovered
  let named : MediaItem → String × Bool := fun child =>
    (context.root child.id, (index.copiesOf context child).any (holds context) ||
      insideARange child (episodesCovered (index.copies.filter (holdsARange context))))
  -- an ignored child leaves the groups as they are
  have hskip : childGroups context members index =
      ((kids members index).filter fun child =>
        (index.copiesOf context child).all (!·.ignored)).foldl
          (addChild context index
            (episodesCovered (index.copies.filter (holdsARange context)))) [] := by
    rw [List.foldl_filter, childGroups]
    congr 1
    funext groups child
    split_ifs with hopen
    · rfl
    · have hignored : (index.copiesOf context child).any (·.ignored) = true := by
        simpa using hopen
      simp only [addChild, hignored, if_true, ite_self]
  have hseen : ∀ (groups : List (String × Bool)) (root : String), groups.any (·.1 = root) = true ↔
      root ∈ groups.map Prod.fst := by
    simp
  have hvisit : ∀ groups, ∀ child ∈ (kids members index).filter fun child =>
      (index.copiesOf context child).all (!·.ignored),
      context.root child.id ∉ groups.map Prod.fst →
        addChild context index (episodesCovered (index.copies.filter (holdsARange context))) groups
          child = groups ++ [named child] := by
    intro groups child hchild hnew
    have hopen : (index.copiesOf context child).any (·.ignored) = false := by
      simpa using (List.mem_filter.mp hchild).2
    rw [addChild, if_neg (mt (hseen groups _).mp hnew)]
    simp only [hopen]
    rfl
  have hfound : ∀ groups, ∀ child ∈ (kids members index).filter fun child =>
      (index.copiesOf context child).all (!·.ignored), context.root child.id ∈ groups.map Prod.fst →
        addChild context index (episodesCovered (index.copies.filter (holdsARange context))) groups
          child = groups :=
    fun groups child _ hin => if_pos ((hseen groups _).mpr hin)
  rw [hskip]
  exact List.foldl_entries (context.root ·.id) (fun child => (named child).2) hfound hvisit

/-- The copies of the children of a page. -/
abbrev indexOf (catalogue : Catalogue) (context : GroupContext) (page : List (List String)) :
    ChildIndex :=
  children catalogue context page.flatten

/-- The episodes inside a range that was read with a page. -/
def coveredOn (catalogue : Catalogue) (context : GroupContext) (page : List (List String)) : List ℕ :=
  episodesCovered ((indexOf catalogue context page).copies.filter (holdsARange context))

def cardKids (catalogue : Catalogue) (context : GroupContext) (page : List (List String))
    (memberIds : List String) : List MediaItem :=
  kids (rank context (rowsOf catalogue memberIds)) (indexOf catalogue context page)

def cardGaps (catalogue : Catalogue) (context : GroupContext) (page : List (List String))
    (memberIds : List String) : Finset String :=
  (((((cardKids catalogue context page memberIds).filter fun child =>
      ((indexOf catalogue context page).copiesOf context child).all (!·.ignored)).firsts
        (context.root ·.id)).filter fun child =>
          !(((indexOf catalogue context page).copiesOf context child).any (holds context) ||
            insideARange child (coveredOn catalogue context page))).map
              (context.root ·.id)).toFinset

theorem missingCount_eq_card {page : List (List String)} {memberIds : List String}
    {card : MediaGroup} (h : card ∈ readOne catalogue context page memberIds) :
    card.missingCount = (cardGaps catalogue context page memberIds).card := by
  have hcount : card.missingCount = ((childGroups context
      (rank context (rowsOf catalogue memberIds))
      (indexOf catalogue context page)).filter (!·.2)).length := by
    obtain ⟨representative, -, rfl⟩ := Option.map_eq_some_iff.mp h
    rfl
  rw [hcount, cardGaps, ← List.length_filter_firsts, childGroups_eq rfl, List.filter_map,
    List.length_map]
  rfl

theorem mem_rowsOf {memberIds : List String} {row : MediaItem} :
    row ∈ rowsOf catalogue memberIds ↔ row ∈ catalogue.rows ∧ row.id ∈ memberIds :=
  mem_filterMap_find (List.Subset.refl _)

theorem mem_cardKids {page : List (List String)} {memberIds : List String}
    (hpage : memberIds ∈ page) {child : MediaItem} :
    child ∈ cardKids catalogue context page memberIds ↔ child ∈ catalogue.rows ∧
      ∃ parent ∈ catalogue.rows, parent.id ∈ memberIds ∧ child.parentId = some parent.id := by
  simp only [cardKids, kids, List.mem_flatMap, rank, (List.perm_insertionSort _ _).mem_iff,
    mem_rowsOf, ChildIndex.byParent, List.mem_filter, decide_eq_true_eq]
  constructor
  · rintro ⟨parent, ⟨hparent, hid⟩, hchild, heq⟩
    exact ⟨(mem_findChildDigests.mp hchild).1, parent, hparent, hid, heq⟩
  · rintro ⟨hchild, parent, hparent, hid, heq⟩
    refine ⟨parent, ⟨hparent, hid⟩, mem_findChildDigests.mpr ⟨hchild, isUnder_iff.mpr ?_⟩, heq⟩
    exact ⟨parent.id, List.mem_flatten_of_mem hpage hid, heq⟩

theorem mem_children_of_cardKids {page : List (List String)} {memberIds : List String}
    (hpage : memberIds ∈ page) {child : MediaItem}
    (h : child ∈ cardKids catalogue context page memberIds) :
    child ∈ (indexOf catalogue context page).children := by
  obtain ⟨hrow, parent, -, hid, heq⟩ := (mem_cardKids hpage).mp h
  exact mem_findChildDigests.mpr
    ⟨hrow, isUnder_iff.mpr ⟨_, List.mem_flatten_of_mem hpage hid, heq⟩⟩

theorem mem_copies {memberIds : List String} {row : MediaItem} :
    row ∈ (children catalogue context memberIds).copies ↔ row ∈ catalogue.rows ∧
      ∃ child ∈ catalogue.rows, child.isUnder memberIds = true ∧
        context.root row.id = context.root child.id := by
  constructor
  · intro hrow
    refine ⟨children_subset memberIds hrow, ?_⟩
    rcases List.mem_append.mp hrow with hchild | houtsider
    · obtain ⟨hin, hunder⟩ := mem_findChildDigests.mp hchild
      exact ⟨row, hin, hunder, rfl⟩
    · have hid := (List.mem_filter.mp houtsider).2
      obtain ⟨child, hchild, hmember⟩ :=
        List.mem_flatMap.mp (List.mem_of_mem_filter (of_decide_eq_true hid))
      obtain ⟨hin, hunder⟩ := mem_findChildDigests.mp hchild
      exact ⟨child, hin, hunder, mem_members.mp hmember⟩
  · rintro ⟨hrow, child, hin, hunder, hroot⟩
    have hchild : child ∈ (children catalogue context memberIds).children :=
      mem_findChildDigests.mpr ⟨hin, hunder⟩
    have hcopy := (mem_copiesOf hchild).mpr ⟨hrow, hroot⟩
    obtain ⟨id, -, hfind⟩ := List.mem_filterMap.mp hcopy
    exact List.mem_of_find?_eq_some hfind

/-- No copy of the group is ignored or held. -/
def AllOpen (catalogue : Catalogue) (context : GroupContext) (root : String) : Prop :=
  ∀ copy ∈ catalogue.rows, context.root copy.id = root → closes context copy = false

/-- What a card counts is a child of which no copy is ignored or held, and that no range covers. -/
theorem exists_of_mem_cardGaps {page : List (List String)} {memberIds : List String}
    (hpage : memberIds ∈ page) {root : String}
    (h : root ∈ cardGaps catalogue context page memberIds) :
    AllOpen catalogue context root ∧ ∃ child ∈ cardKids catalogue context page memberIds,
      context.root child.id = root ∧
        insideARange child (coveredOn catalogue context page) = false := by
  obtain ⟨child, hchild, rfl⟩ := List.mem_map.mp (List.mem_toFinset.mp h)
  obtain ⟨hfirst, hgap⟩ := List.mem_filter.mp hchild
  obtain ⟨hkid, hopen⟩ := List.mem_filter.mp (List.mem_of_mem_firsts hfirst)
  rw [Bool.not_eq_true', Bool.or_eq_false_iff] at hgap
  refine ⟨fun copy hcopy hroot => ?_, child, hkid, rfl, hgap.2⟩
  have hread := (mem_copiesOf (mem_children_of_cardKids hpage hkid)).mpr ⟨hcopy, hroot⟩
  rw [closes, Bool.or_eq_false_iff]
  exact ⟨by simpa using List.all_eq_true.mp hopen copy hread,
    by simpa using List.any_eq_false.mp hgap.1 copy hread⟩

theorem mem_cardGaps {page : List (List String)} {memberIds : List String}
    (hpage : memberIds ∈ page) {child : MediaItem}
    (hchild : child ∈ cardKids catalogue context page memberIds)
    (hopen : AllOpen catalogue context (context.root child.id))
    (hout : ∀ kid ∈ cardKids catalogue context page memberIds,
      context.root kid.id = context.root child.id →
        insideARange kid (coveredOn catalogue context page) = false) :
    context.root child.id ∈ cardGaps catalogue context page memberIds := by
  have hcopies : ∀ kid ∈ cardKids catalogue context page memberIds,
      context.root kid.id = context.root child.id →
      ∀ copy ∈ (indexOf catalogue context page).copiesOf context kid,
        copy.ignored = false ∧ holds context copy = false := by
    intro kid hkid hroot copy hcopy
    obtain ⟨hrow, hcopyroot⟩ := (mem_copiesOf (mem_children_of_cardKids hpage hkid)).mp hcopy
    exact Bool.or_eq_false_iff.mp (hopen copy hrow (hcopyroot.trans hroot))
  have hseen : ((indexOf catalogue context page).copiesOf context child).all (!·.ignored) = true :=
    List.all_eq_true.mpr fun copy hcopy => by simp [(hcopies child hchild rfl copy hcopy).1]
  have hin : child ∈ (cardKids catalogue context page memberIds).filter fun child =>
      ((indexOf catalogue context page).copiesOf context child).all (!·.ignored) :=
    List.mem_filter.mpr ⟨hchild, hseen⟩
  obtain ⟨first, hfirst, hkey⟩ := List.exists_mem_firsts (context.root ·.id) hin
  have hkid := List.mem_of_mem_filter (List.mem_of_mem_firsts hfirst)
  refine List.mem_toFinset.mpr (List.mem_map.mpr ⟨first, List.mem_filter.mpr ⟨hfirst, ?_⟩, hkey⟩)
  rw [Bool.not_eq_true', Bool.or_eq_false_iff]
  refine ⟨List.any_eq_false.mpr fun copy hcopy => ?_, hout first hkid hkey⟩
  simp [(hcopies first hkid hkey copy hcopy).2]

/-! ### What a filter counts -/

/-- The group a child is filed under, and its own. -/
def gapKey (context : GroupContext) (child : MediaItem) : String × String :=
  (context.root (child.parentId.getD ""), context.root child.id)

/-- No copy of the child that was read is ignored or held, and no range under its parent covers
it. -/
def isGap (context : GroupContext) (children : List MediaItem) (child : MediaItem) : Bool :=
  ((context.members child.id).filterMap fun id => children.find? (·.id = id)).all
      (!closes context ·) &&
    !insideARange child (rangesUnder context children (gapKey context child).1)

/-- A child that was not seen before. -/
def visitChild (context : GroupContext) (children : List MediaItem) (state : Gaps)
    (child : MediaItem) : Gaps where
  counted := state.counted ++ [gapKey context child]
  gaps :=
    if isGap context children child then
      OrderedMap.modify state.gaps (gapKey context child).1 fun gaps => gaps.getD 0 + 1
    else state.gaps

theorem all_not_closes (copies : List MediaItem) :
    copies.all (!closes context ·) = !(copies.any (·.ignored) || copies.any (holds context)) := by
  induction copies with
  | nil => rfl
  | cons copy rest ih =>
    rw [List.all_cons, ih, List.any_cons, List.any_cons, closes]
    cases copy.ignored <;> cases holds context copy <;> simp

theorem countChild_of_mem {children : List MediaItem} {child : MediaItem} {parentId : String}
    (hparent : child.parentId = some parentId) {state : Gaps}
    (hseen : gapKey context child ∈ state.counted) :
    countChild context children state child = state := by
  rw [gapKey, hparent, Option.getD_some] at hseen
  rw [countChild, hparent]
  exact if_pos (List.contains_iff_mem.mpr hseen)

theorem countChild_of_notMem {children : List MediaItem} {child : MediaItem} {parentId : String}
    (hparent : child.parentId = some parentId) {state : Gaps}
    (hnew : gapKey context child ∉ state.counted) :
    countChild context children state child = visitChild context children state child := by
  have hkey : gapKey context child = (context.root parentId, context.root child.id) := by
    rw [gapKey, hparent, Option.getD_some]
  rw [hkey, ← List.contains_iff_mem] at hnew
  simp only [countChild, hparent, visitChild, isGap, all_not_closes, hkey, if_neg hnew]
  generalize ((context.members child.id).filterMap fun id => children.find? (·.id = id)) = copies
  generalize insideARange child (rangesUnder context children (context.root parentId)) = inside
  cases copies.any (·.ignored) <;> cases copies.any (holds context) <;> cases inside <;> simp

theorem get_foldl_visitChild (children l : List MediaItem) (root : String) (state : Gaps) :
    (OrderedMap.get (l.foldl (visitChild context children) state).gaps root).getD 0 =
      (OrderedMap.get state.gaps root).getD 0 +
        (l.filter fun child => (gapKey context child).1 = root ∧
          isGap context children child).length := by
  induction l generalizing state with
  | nil => rfl
  | cons child rest ih =>
    rw [List.foldl_cons, ih, List.filter_cons, visitChild]
    by_cases hgap : isGap context children child = true
    · rw [if_pos hgap]
      by_cases hroot : (gapKey context child).1 = root
      · rw [if_pos (decide_eq_true ⟨hroot, hgap⟩), List.length_cons, hroot,
          OrderedMap.get_modify_self, Option.getD_some]
        omega
      · rw [if_neg (by simp [hroot]), OrderedMap.get_modify_of_ne (Ne.symm hroot)]
    · rw [if_neg hgap, if_neg (by simp [hgap])]

def filterGaps (context : GroupContext) (children : List MediaItem) (root : String) :
    Finset String :=
  (((children.firsts (gapKey context)).filter fun child => (gapKey context child).1 = root ∧
    isGap context children child).map (context.root ·.id)).toFinset

theorem gapCounts_eq (memberIds : List String) (root : String) :
    (OrderedMap.get (gapCounts catalogue context memberIds) root).getD 0 =
      (filterGaps context (catalogue.findChildDigests memberIds) root).card := by
  rw [gapCounts]
  have hparents : ∀ child ∈ catalogue.findChildDigests memberIds, ∃ parentId,
      child.parentId = some parentId := fun child hchild => by
    obtain ⟨parent, -, hparent⟩ := isUnder_iff.mp (mem_findChildDigests.mp hchild).2
    exact ⟨parent, hparent⟩
  generalize catalogue.findChildDigests memberIds = children at hparents
  have hnodup : ((children.firsts (gapKey context)).filter (fun child =>
      (gapKey context child).1 = root ∧ isGap context children child) |>.map
        (context.root ·.id)).Nodup := by
    refine List.Nodup.of_map (Prod.mk root) ?_
    rw [List.map_map, List.map_congr_left (g := gapKey context) fun child hchild => ?_]
    · exact List.nodup_keys_firsts.sublist (List.filter_sublist.map _)
    · have hroot := (of_decide_eq_true (List.mem_filter.mp hchild).2).1
      exact congrArg (·, context.root child.id) hroot.symm
  rw [List.foldl_seen (gapKey context) Gaps.counted (visitChild context children)
    (fun state child hchild hin => ?_) (fun state child hchild hin => ?_) (fun _ _ => rfl),
    get_foldl_visitChild, filterGaps, List.toFinset_card_of_nodup hnodup, List.length_map]
  · simp [OrderedMap.get]
  · obtain ⟨parentId, hparent⟩ := hparents child hchild
    exact countChild_of_mem hparent hin
  · obtain ⟨parentId, hparent⟩ := hparents child hchild
    exact countChild_of_notMem hparent hin

/-! ### Listings -/

/-- Each group of a listing is there once, by the first of its rows. -/
theorem components_eq (seeds : List MediaItem) : components context seeds =
    (seeds.firsts (context.root ·.id)).map fun seed =>
      (context.root seed.id, context.members seed.id) := by
  have hseen : ∀ (byRoot : List (String × List String)) (root : String),
      byRoot.any (·.1 = root) = true ↔ root ∈ byRoot.map Prod.fst := by
    simp
  exact List.foldl_entries (fun seed : MediaItem => context.root seed.id)
    (fun seed => context.members seed.id)
    (fun byRoot seed _ hin => if_pos ((hseen byRoot _).mpr hin))
    fun byRoot seed _ hnew => if_neg (mt (hseen byRoot _).mp hnew)

/-- These are the items of the group of an item. -/
def IsGroupOf (context : GroupContext) (memberIds : List String) (id : String) : Prop :=
  ∀ x, x ∈ memberIds ↔ context.root x = context.root id

def groupsOf (context : GroupContext) (seeds : List MediaItem) : List (List String) :=
  (components context seeds).map Prod.snd

theorem isGroupOf_of_mem {seeds : List MediaItem} {memberIds : List String} {id : String}
    (h : memberIds ∈ groupsOf context seeds) (hid : id ∈ memberIds) :
    IsGroupOf context memberIds id := by
  rw [groupsOf, components_eq, List.map_map] at h
  obtain ⟨seed, -, rfl⟩ := List.mem_map.mp h
  intro x
  rw [mem_members.mp hid]
  exact mem_members

theorem exists_group (context : GroupContext) {seeds : List MediaItem} {seed : MediaItem}
    (h : seed ∈ seeds) :
    ∃ memberIds ∈ groupsOf context seeds, seed.id ∈ memberIds := by
  obtain ⟨first, hfirst, hroot⟩ := List.exists_mem_firsts (context.root ·.id) h
  refine ⟨context.members first.id, ?_, mem_members.mpr hroot.symm⟩
  rw [groupsOf, components_eq, List.map_map]
  exact List.mem_map.mpr ⟨first, hfirst, rfl⟩

theorem missingCount_of_skeleton {seeds : List MediaItem} {skeleton : GroupSkeleton}
    (h : skeleton ∈ skeletons catalogue context seeds true) {id : String}
    (hid : id ∈ skeleton.memberIds) :
    skeleton.memberIds ∈ groupsOf context seeds ∧ skeleton.missingCount =
      (filterGaps context (catalogue.findChildDigests (groupsOf context seeds).flatten)
        (context.root id)).card := by
  obtain ⟨⟨root, memberIds⟩, hin, rfl⟩ := List.mem_map.mp h
  refine ⟨List.mem_map.mpr ⟨_, hin, rfl⟩, ?_⟩
  have hroot : root = context.root id := by
    rw [components_eq] at hin
    obtain ⟨seed, -, heq⟩ := List.mem_map.mp hin
    obtain ⟨rfl, rfl⟩ := Prod.mk.inj heq
    exact (mem_members.mp hid).symm
  rw [← hroot, ← gapCounts_eq, groupsOf, List.flatMap_def]
  rfl

/-! ### When they agree -/

def Filed (catalogue : Catalogue) (context : GroupContext) (id : String) (child : MediaItem) :
    Prop :=
  child ∈ catalogue.rows ∧
    ∃ parent, child.parentId = some parent ∧ context.root parent = context.root id

def Listed (catalogue : Catalogue) (context : GroupContext) (row : MediaItem) : Prop :=
  ∃ copy ∈ catalogue.rows, context.root row.id = context.root copy.id ∧
    ∃ parent ∈ catalogue.rows, Filed catalogue context parent.id copy

/-- The second half of a file of several episodes that we hold, which is a row of this kind. -/
def Inside (catalogue : Catalogue) (context : GroupContext) (kind : MediaItem → Prop)
    (child : MediaItem) : Prop :=
  child.episodeNumberEnd = none ∧ ∃ number, child.episodeNumber = some number ∧
    ∃ row ∈ catalogue.rows, kind row ∧ holdsARange context row = true ∧ number ∈ row.span

/-- No copy of a child anywhere is ignored or held, no range anywhere covers it, and it is under a
row. -/
structure GapEverywhere (catalogue : Catalogue) (context : GroupContext) (id : String)
    (child : MediaItem) : Prop where
  allOpen : AllOpen catalogue context (context.root child.id)
  outside : ∀ copy, Filed catalogue context id copy → context.root copy.id = context.root child.id →
    ¬ Inside catalogue context (Listed catalogue context) copy
  shown : ∃ copy ∈ catalogue.rows, context.root copy.id = context.root child.id ∧
    ∃ parent ∈ catalogue.rows, context.root parent.id = context.root id ∧
      copy.parentId = some parent.id

/-- Every listing says the same of a child. -/
inductive SettledChild (catalogue : Catalogue) (context : GroupContext) (id : String)
    (child : MediaItem) : Prop
  /-- A copy that is filed here is ignored or held. -/
  | closed (copy : MediaItem) : Filed catalogue context id copy →
      context.root copy.id = context.root child.id → closes context copy = true →
      SettledChild catalogue context id child
  /-- It is inside a range that is filed here. -/
  | inside : (∀ copy, Filed catalogue context id copy →
      context.root copy.id = context.root child.id →
        Inside catalogue context (Filed catalogue context id) copy) →
      SettledChild catalogue context id child
  | gap : GapEverywhere catalogue context id child → SettledChild catalogue context id child

def Settled (catalogue : Catalogue) (context : GroupContext) (id : String) : Prop :=
  ∀ child, Filed catalogue context id child → SettledChild catalogue context id child

/-- The missing count of a group is one number: on its card, whatever is on the page beside it, and
in the filters. -/
def OneCount (catalogue : Catalogue) (context : GroupContext) (id : String) : Prop :=
  ∃ count : ℕ, ∀ seeds ⊆ catalogue.rows,
    (∀ memberIds ∈ groupsOf context seeds, id ∈ memberIds →
      ∀ card ∈ readOne catalogue context (groupsOf context seeds) memberIds,
        card.missingCount = count) ∧
    ∀ skeleton ∈ skeletons catalogue context seeds true, id ∈ skeleton.memberIds →
      skeleton.missingCount = count

/-- The filters go by what the card of the group shows when it is read alone. -/
def FiltersByCard (catalogue : Catalogue) (context : GroupContext) (id : String) : Prop :=
  ∀ seeds ⊆ catalogue.rows, ∀ skeleton ∈ skeletons catalogue context seeds true,
    id ∈ skeleton.memberIds → ∀ card ∈ groupById catalogue context id, ∀ among, skeleton ∈ among →
      (skeleton ∈ hideOwned among ↔ skeleton.held = false ∨ 0 < card.missingCount) ∧
      ∀ wanted absent better, skeleton ∈ actionable wanted absent better among ↔
        wanted.gaps = true ∧ (0 < card.missingCount ∨ absent skeleton = true) ∨
          wanted.upgrades = true ∧ better skeleton = true

/-- The copies of a child that are filed here carry the same numbers. -/
def SameNumbers (catalogue : Catalogue) (context : GroupContext) (id : String) : Prop :=
  ∀ child copy, Filed catalogue context id child → Filed catalogue context id copy →
    context.root copy.id = context.root child.id →
      copy.episodeNumber = child.episodeNumber ∧ copy.episodeNumberEnd = child.episodeNumberEnd

/-! ### What a listing sees -/

section

variable {id : String} {seeds : List MediaItem} {memberIds : List String} {child : MediaItem}

theorem insideARange_iff {covered : List ℕ} : insideARange child covered = true ↔
    child.episodeNumberEnd = none ∧
      ∃ number, child.episodeNumber = some number ∧ number ∈ covered := by
  rw [insideARange, Bool.and_eq_true, decide_eq_true_eq, Option.any_eq_true]
  simp only [decide_eq_true_eq]

theorem mem_episodesCovered {rows : List MediaItem} {number : ℕ} :
    number ∈ episodesCovered (rows.filter (holdsARange context)) ↔
      ∃ row ∈ rows, holdsARange context row = true ∧ number ∈ row.span := by
  simp only [episodesCovered, List.mem_flatMap, List.mem_filter, and_assoc]

theorem mem_children_iff (hgroup : memberIds ∈ groupsOf context seeds) (hid : id ∈ memberIds) :
    child ∈ catalogue.findChildDigests (groupsOf context seeds).flatten ∧
        (gapKey context child).1 = context.root id ↔ Filed catalogue context id child := by
  rw [mem_findChildDigests, isUnder_iff, gapKey]
  constructor
  · rintro ⟨⟨hrow, parent, -, hparent⟩, hroot⟩
    rw [hparent, Option.getD_some] at hroot
    exact ⟨hrow, parent, hparent, hroot⟩
  · rintro ⟨hrow, parent, hparent, hroot⟩
    refine ⟨⟨hrow, parent, ?_, hparent⟩, by rw [hparent]; exact hroot⟩
    exact List.mem_flatten_of_mem hgroup ((isGroupOf_of_mem hgroup hid parent).mpr hroot)

/-- What a card reads as covered is a range that some listing looks at. -/
theorem inside_of_coveredOn (hseeds : seeds ⊆ catalogue.rows)
    (h : insideARange child (coveredOn catalogue context (groupsOf context seeds)) = true) :
    Inside catalogue context (Listed catalogue context) child := by
  obtain ⟨hend, number, hnumber, hcovered⟩ := insideARange_iff.mp h
  obtain ⟨row, hread, hrange, hspan⟩ := mem_episodesCovered.mp hcovered
  obtain ⟨hrow, kid, hkid, hunder, hroot⟩ := mem_copies.mp hread
  obtain ⟨parent, hparent, heq⟩ := isUnder_iff.mp hunder
  obtain ⟨group, hgroup, hin⟩ := List.mem_flatten.mp hparent
  -- the group of the parent is there by a row
  rw [groupsOf, components_eq, List.map_map] at hgroup
  obtain ⟨seed, hseed, rfl⟩ := List.mem_map.mp hgroup
  refine ⟨hend, number, hnumber, row, hrow, ⟨kid, hkid, hroot, seed, ?_, hkid, parent, heq, ?_⟩,
    hrange, hspan⟩
  · exact hseeds (List.mem_of_mem_firsts hseed)
  · exact mem_members.mp hin

/-- A range that a listing looks at is read with its page. -/
theorem coveredOn_of_inside {kind : MediaItem → Prop}
    (hkind : ∀ row ∈ catalogue.rows, kind row →
      row ∈ (indexOf catalogue context (groupsOf context seeds)).copies)
    (h : Inside catalogue context kind child) :
    insideARange child (coveredOn catalogue context (groupsOf context seeds)) = true := by
  obtain ⟨hend, number, hnumber, row, hrow, hthis, hrange, hspan⟩ := h
  exact insideARange_iff.mpr ⟨hend, number, hnumber,
    mem_episodesCovered.mpr ⟨row, hkind row hrow hthis, hrange, hspan⟩⟩

theorem mem_copies_of_filed (hgroup : memberIds ∈ groupsOf context seeds) (hid : id ∈ memberIds)
    (h : Filed catalogue context id child) :
    child ∈ (indexOf catalogue context (groupsOf context seeds)).copies :=
  List.mem_append_left _ ((mem_children_iff hgroup hid).mpr h).1

theorem insideARange_rangesUnder (hgroup : memberIds ∈ groupsOf context seeds)
    (hid : id ∈ memberIds) :
    insideARange child (rangesUnder context
        (catalogue.findChildDigests (groupsOf context seeds).flatten) (context.root id)) = true ↔
      Inside catalogue context (Filed catalogue context id) child := by
  have hmem : ∀ number, number ∈ rangesUnder context
        (catalogue.findChildDigests (groupsOf context seeds).flatten) (context.root id) ↔
      ∃ row ∈ catalogue.rows, Filed catalogue context id row ∧ holdsARange context row = true ∧
        number ∈ row.span := by
    intro number
    simp only [rangesUnder, episodesCovered, List.mem_flatMap, List.mem_filter, Bool.and_eq_true,
      Option.any_eq_true, decide_eq_true_eq]
    constructor
    · rintro ⟨row, ⟨hrow, ⟨parent, hparent, hroot⟩, hrange⟩, hspan⟩
      have hin := (mem_findChildDigests.mp hrow).1
      exact ⟨row, hin, ⟨hin, parent, hparent, hroot⟩, hrange, hspan⟩
    · rintro ⟨row, -, hfiled, hrange, hspan⟩
      exact ⟨row, ⟨((mem_children_iff hgroup hid).mpr hfiled).1, hfiled.2, hrange⟩, hspan⟩
  rw [insideARange_iff, Inside]
  simp only [hmem]

theorem exists_of_mem_filterGaps (hgroup : memberIds ∈ groupsOf context seeds)
    (hid : id ∈ memberIds) {root : String}
    (h : root ∈ filterGaps context
      (catalogue.findChildDigests (groupsOf context seeds).flatten) (context.root id)) :
    ∃ child, Filed catalogue context id child ∧ context.root child.id = root ∧
      (∀ copy, Filed catalogue context id copy → context.root copy.id = root →
        closes context copy = false) ∧
      ¬ Inside catalogue context (Filed catalogue context id) child := by
  obtain ⟨child, hchild, rfl⟩ := List.mem_map.mp (List.mem_toFinset.mp h)
  obtain ⟨hfirst, hgap⟩ := List.mem_filter.mp hchild
  obtain ⟨hroot, hgap⟩ := of_decide_eq_true hgap
  rw [isGap, hroot, Bool.and_eq_true, Bool.not_eq_true'] at hgap
  refine ⟨child, (mem_children_iff hgroup hid).mp ⟨List.mem_of_mem_firsts hfirst, hroot⟩, rfl,
    fun copy hcopy hsame => ?_, fun hinside => ?_⟩
  · have hread := (mem_filterMap_find (fun row hrow => (mem_findChildDigests.mp hrow).1)).mpr
      ⟨((mem_children_iff hgroup hid).mpr hcopy).1, mem_members.mpr hsame⟩
    simpa using List.all_eq_true.mp hgap.1 copy hread
  · cases hgap.2.symm.trans ((insideARange_rangesUnder hgroup hid).mpr hinside)

/-- A child that is open everywhere and inside no range filed here is counted by every filter. -/
theorem mem_filterGaps (hgroup : memberIds ∈ groupsOf context seeds) (hid : id ∈ memberIds)
    (hchild : Filed catalogue context id child)
    (hopen : ∀ copy ∈ catalogue.findChildDigests (groupsOf context seeds).flatten,
      context.root copy.id = context.root child.id → closes context copy = false)
    (hout : ∀ copy, Filed catalogue context id copy →
      context.root copy.id = context.root child.id →
        ¬ Inside catalogue context (Filed catalogue context id) copy) :
    context.root child.id ∈ filterGaps context
      (catalogue.findChildDigests (groupsOf context seeds).flatten) (context.root id) := by
  obtain ⟨hin, hroot⟩ := (mem_children_iff hgroup hid).mpr hchild
  obtain ⟨first, hfirst, hkey⟩ := List.exists_mem_firsts (gapKey context) hin
  have hsame : context.root first.id = context.root child.id := congrArg Prod.snd hkey
  have hfirstroot : (gapKey context first).1 = context.root id :=
    (congrArg Prod.fst hkey).trans hroot
  have hfiled := (mem_children_iff hgroup hid).mp ⟨List.mem_of_mem_firsts hfirst, hfirstroot⟩
  refine List.mem_toFinset.mpr (List.mem_map.mpr ⟨first, List.mem_filter.mpr ⟨hfirst,
    decide_eq_true ⟨hfirstroot, ?_⟩⟩, hsame⟩)
  rw [isGap, hfirstroot, Bool.and_eq_true, Bool.not_eq_true']
  constructor
  · refine List.all_eq_true.mpr fun copy hcopy => ?_
    obtain ⟨hread, hmember⟩ := (mem_filterMap_find fun row hrow =>
      (mem_findChildDigests.mp hrow).1).mp hcopy
    rw [hopen copy hread ((mem_members.mp hmember).trans hsame)]
    rfl
  · rw [← Bool.not_eq_true]
    exact mt (insideARange_rangesUnder hgroup hid).mp (hout first hfiled hsame)

theorem filed_of_cardKids (hgroup : memberIds ∈ groupsOf context seeds) (hid : id ∈ memberIds)
    (h : child ∈ cardKids catalogue context (groupsOf context seeds) memberIds) :
    Filed catalogue context id child := by
  obtain ⟨hrow, parent, -, hin, heq⟩ := (mem_cardKids hgroup).mp h
  exact ⟨hrow, parent.id, heq, (isGroupOf_of_mem hgroup hid parent.id).mp hin⟩

end

/-! ### One count -/

section

variable {id : String}

theorem mem_cardGaps_iff (hsettled : Settled catalogue context id) {seeds : List MediaItem}
    (hseeds : seeds ⊆ catalogue.rows) {memberIds : List String}
    (hgroup : memberIds ∈ groupsOf context seeds) (hid : id ∈ memberIds) {root : String} :
    root ∈ cardGaps catalogue context (groupsOf context seeds) memberIds ↔
      ∃ child, Filed catalogue context id child ∧ context.root child.id = root ∧
        GapEverywhere catalogue context id child := by
  constructor
  · intro h
    obtain ⟨hopen, child, hkid, rfl, hout⟩ := exists_of_mem_cardGaps hgroup h
    have hchild := filed_of_cardKids hgroup hid hkid
    refine ⟨child, hchild, rfl, ?_⟩
    cases hsettled child hchild with
    | closed copy hcopy hsame hcloses => cases (hopen copy hcopy.1 hsame).symm.trans hcloses
    | inside hinside =>
      have hcovered := coveredOn_of_inside (fun row _ hrow => mem_copies_of_filed hgroup hid hrow)
        (hinside child hchild rfl)
      cases hout.symm.trans hcovered
    | gap hgap => exact hgap
  · rintro ⟨child, hchild, rfl, hgap⟩
    obtain ⟨copy, hcopy, hsame, parent, hparent, hroot, heq⟩ := hgap.shown
    have hkid : copy ∈ cardKids catalogue context (groupsOf context seeds) memberIds :=
      (mem_cardKids hgroup).mpr
        ⟨hcopy, parent, hparent, (isGroupOf_of_mem hgroup hid parent.id).mpr hroot, heq⟩
    rw [← hsame]
    refine mem_cardGaps hgroup hkid (hsame ▸ hgap.allOpen) fun kid hkid hkidsame => ?_
    rw [← Bool.not_eq_true]
    exact fun hinside => hgap.outside kid (filed_of_cardKids hgroup hid hkid)
      (hkidsame.trans hsame) (inside_of_coveredOn hseeds hinside)

theorem mem_filterGaps_iff (hsettled : Settled catalogue context id) {seeds : List MediaItem}
    (hseeds : seeds ⊆ catalogue.rows) {memberIds : List String}
    (hgroup : memberIds ∈ groupsOf context seeds) (hid : id ∈ memberIds) {root : String} :
    root ∈ filterGaps context
        (catalogue.findChildDigests (groupsOf context seeds).flatten) (context.root id) ↔
      ∃ child, Filed catalogue context id child ∧ context.root child.id = root ∧
        GapEverywhere catalogue context id child := by
  constructor
  · intro h
    obtain ⟨child, hchild, rfl, hopen, hout⟩ := exists_of_mem_filterGaps hgroup hid h
    refine ⟨child, hchild, rfl, ?_⟩
    cases hsettled child hchild with
    | closed copy hcopy hsame hcloses => cases (hopen copy hcopy hsame).symm.trans hcloses
    | inside hinside => exact absurd (hinside child hchild rfl) hout
    | gap hgap => exact hgap
  · rintro ⟨child, hchild, rfl, hgap⟩
    refine mem_filterGaps hgroup hid hchild
      (fun copy hcopy hsame => hgap.allOpen copy (mem_findChildDigests.mp hcopy).1 hsame)
      fun copy hcopy hsame hinside => hgap.outside copy hcopy hsame ?_
    exact inside_of_coveredOn hseeds
      (coveredOn_of_inside (fun row _ hrow => mem_copies_of_filed hgroup hid hrow) hinside)

open Classical in
noncomputable def gapRoots (catalogue : Catalogue) (context : GroupContext) (id : String) :
    Finset String :=
  ((catalogue.rows.filter fun child => Filed catalogue context id child ∧
    GapEverywhere catalogue context id child).map (context.root ·.id)).toFinset

theorem mem_gapRoots {root : String} : root ∈ gapRoots catalogue context id ↔
    ∃ child, Filed catalogue context id child ∧ context.root child.id = root ∧
      GapEverywhere catalogue context id child := by
  simp only [gapRoots, List.mem_toFinset, List.mem_map, List.mem_filter, decide_eq_true_eq]
  constructor
  · rintro ⟨child, ⟨-, hfiled, hgap⟩, hroot⟩
    exact ⟨child, hfiled, hroot, hgap⟩
  · rintro ⟨child, hfiled, hroot, hgap⟩
    exact ⟨child, ⟨hfiled.1, hfiled, hgap⟩, hroot⟩

theorem oneCount_of_settled (hsettled : Settled catalogue context id) :
    OneCount catalogue context id := by
  refine ⟨(gapRoots catalogue context id).card, fun seeds hseeds => ⟨?_, ?_⟩⟩
  · intro memberIds hgroup hid card hcard
    rw [missingCount_eq_card hcard]
    congr 1
    ext root
    exact (mem_cardGaps_iff hsettled hseeds hgroup hid).trans mem_gapRoots.symm
  · intro skeleton hskeleton hid
    obtain ⟨hgroup, hcount⟩ := missingCount_of_skeleton hskeleton hid
    rw [hcount]
    congr 1
    ext root
    exact (mem_filterGaps_iff hsettled hseeds hgroup hid).trans mem_gapRoots.symm

theorem cardGaps_subset (hsame : SameNumbers catalogue context id) {seeds seeds' : List MediaItem}
    {memberIds memberIds' : List String} (hgroup : memberIds ∈ groupsOf context seeds)
    (hid : id ∈ memberIds) (hgroup' : memberIds' ∈ groupsOf context seeds')
    (hid' : id ∈ memberIds') :
    cardGaps catalogue context (groupsOf context seeds) memberIds ⊆ filterGaps context
      (catalogue.findChildDigests (groupsOf context seeds').flatten) (context.root id) := by
  intro root h
  obtain ⟨hopen, child, hkid, rfl, hout⟩ := exists_of_mem_cardGaps hgroup h
  have hchild := filed_of_cardKids hgroup hid hkid
  refine mem_filterGaps hgroup' hid' hchild
    (fun copy hcopy => hopen copy (mem_findChildDigests.mp hcopy).1)
    fun copy hcopy hroot hinside => ?_
  obtain ⟨hnumber, hend⟩ := hsame child copy hchild hcopy hroot
  have hthis : Inside catalogue context (Filed catalogue context id) child := by
    rwa [Inside, ← hnumber, ← hend]
  cases hout.symm.trans
    (coveredOn_of_inside (fun row _ hrow => mem_copies_of_filed hgroup hid hrow) hthis)

theorem mem_filterGaps_alone (hsame : SameNumbers catalogue context id) {row child : MediaItem}
    (hrow : row.id = id) (hchild : Filed catalogue context id child)
    (hclosed : ∀ copy, Filed catalogue context id copy →
      context.root copy.id = context.root child.id → closes context copy = false)
    (hinside : ∃ copy, Filed catalogue context id copy ∧
      context.root copy.id = context.root child.id ∧
        ¬ Inside catalogue context (Filed catalogue context id) copy) :
    context.root child.id ∈ filterGaps context
      (catalogue.findChildDigests (groupsOf context [row]).flatten) (context.root id) := by
  obtain ⟨memberIds, hgroup, hid⟩ := exists_group context (List.mem_singleton_self row)
  rw [hrow] at hid
  have halone : ∀ copy ∈ catalogue.findChildDigests (groupsOf context [row]).flatten,
      Filed catalogue context id copy := by
    intro copy hcopy
    obtain ⟨hin, hunder⟩ := mem_findChildDigests.mp hcopy
    obtain ⟨parent, hparent, heq⟩ := isUnder_iff.mp hunder
    obtain ⟨group, hother, hmember⟩ := List.mem_flatten.mp hparent
    obtain rfl : group = context.members row.id := by simpa [groupsOf, components] using hother
    exact ⟨hin, parent, heq, hrow ▸ mem_members.mp hmember⟩
  refine mem_filterGaps hgroup hid hchild
    (fun copy hcopy => hclosed copy (halone copy hcopy)) fun copy hcopy hroot hthis => ?_
  obtain ⟨other, hother, hotherroot, hout⟩ := hinside
  obtain ⟨hnumber, hend⟩ := hsame copy other hcopy hother (hotherroot.trans hroot.symm)
  refine hout ?_
  rwa [Inside, hnumber, hend]

theorem exists_notMem_cardGaps (hsame : SameNumbers catalogue context id) {row child : MediaItem}
    (hin : row ∈ catalogue.rows) (hgap : ¬ GapEverywhere catalogue context id child) :
    ∃ seeds ⊆ catalogue.rows, row ∈ seeds ∧ ∀ memberIds ∈ groupsOf context seeds, id ∈ memberIds →
      context.root child.id ∉ cardGaps catalogue context (groupsOf context seeds) memberIds := by
  have hrows : [row] ⊆ catalogue.rows := by simpa using hin
  by_cases hopen : AllOpen catalogue context (context.root child.id)
  swap
  · exact ⟨[row], hrows, List.mem_singleton_self row, fun memberIds hgroup _ h =>
      hopen (exists_of_mem_cardGaps hgroup h).1⟩
  by_cases hout : ∀ copy, Filed catalogue context id copy →
      context.root copy.id = context.root child.id →
        ¬ Inside catalogue context (Listed catalogue context) copy
  · -- it has no copy under a row
    refine ⟨[row], hrows, List.mem_singleton_self row, fun memberIds hgroup hid h => hgap ?_⟩
    obtain ⟨-, kid, hkid, hroot, -⟩ := exists_of_mem_cardGaps hgroup h
    obtain ⟨hkidrow, parent, hparent, hmember, heq⟩ := (mem_cardKids hgroup).mp hkid
    exact ⟨hopen, hout, kid, hkidrow, hroot, parent, hparent,
      (isGroupOf_of_mem hgroup hid parent.id).mp hmember, heq⟩
  · -- a listing beside the parent of a range that covers it
    push Not at hout
    obtain ⟨copy, hcopy, hroot, hend, number, hnumber, range, hrange, hlisted, hholds, hspan⟩ := hout
    obtain ⟨kid, hkid, hkidroot, parent, hparent, hfiled⟩ := hlisted
    refine ⟨[row, parent], by simp [hin, hparent],
      List.mem_cons_self, fun memberIds hgroup hid h => ?_⟩
    obtain ⟨-, first, hfirst, hfirstroot, hfree⟩ := exists_of_mem_cardGaps hgroup h
    obtain ⟨group, hother, hmember⟩ := exists_group context
      (List.mem_cons_of_mem row (List.mem_singleton_self parent))
    have hread : range ∈ (indexOf catalogue context (groupsOf context [row, parent])).copies := by
      refine mem_copies.mpr ⟨hrange, kid, hkid, ?_, hkidroot⟩
      exact (mem_findChildDigests.mp ((mem_children_iff hother hmember).mpr hfiled).1).2
    obtain ⟨hsamenumber, hsameend⟩ := hsame first copy
      (filed_of_cardKids hgroup hid hfirst) hcopy (hroot.trans hfirstroot.symm)
    have hcovered : insideARange first
        (coveredOn catalogue context (groupsOf context [row, parent])) = true :=
      insideARange_iff.mpr ⟨hsameend ▸ hend, number, hsamenumber ▸ hnumber,
        mem_episodesCovered.mpr ⟨range, hread, hholds, hspan⟩⟩
    cases hfree.symm.trans hcovered

theorem exists_card (context : GroupContext) (seeds : List MediaItem) {memberIds : List String}
    {row : MediaItem} (hin : row ∈ catalogue.rows) (hid : row.id ∈ memberIds) :
    ∃ card, card ∈ readOne catalogue context (groupsOf context seeds) memberIds := by
  have hrow : row ∈ rowsOf catalogue memberIds := mem_rowsOf.mpr ⟨hin, hid⟩
  have hranked : row ∈ rank context (rowsOf catalogue memberIds) :=
    (List.perm_insertionSort _ _).mem_iff.mpr hrow
  obtain ⟨head, hhead⟩ : ∃ head, (rank context (rowsOf catalogue memberIds)).head? = some head :=
    Option.isSome_iff_exists.mp (List.isSome_head?.mpr (List.ne_nil_of_mem hranked))
  simp only [readOne, group, hhead, Option.map_some, Option.mem_def, Option.some.injEq,
    exists_eq']

theorem exists_skeleton (catalogue : Catalogue) {seeds : List MediaItem} {memberIds : List String}
    (h : memberIds ∈ groupsOf context seeds) :
    ∃ skeleton ∈ skeletons catalogue context seeds true, skeleton.memberIds = memberIds := by
  obtain ⟨component, hin, rfl⟩ := List.mem_map.mp h
  exact ⟨_, List.mem_map_of_mem hin, rfl⟩

theorem settled_of_oneCount (hsame : SameNumbers catalogue context id) {row : MediaItem}
    (hin : row ∈ catalogue.rows) (hrow : row.id = id) (h : OneCount catalogue context id) :
    Settled catalogue context id := by
  intro child hchild
  by_contra hopen
  have hclosed : ∀ copy, Filed catalogue context id copy →
      context.root copy.id = context.root child.id → closes context copy = false := by
    intro copy hcopy hroot
    rw [← Bool.not_eq_true]
    exact fun hcloses => hopen (.closed copy hcopy hroot hcloses)
  have hout : ∃ copy, Filed catalogue context id copy ∧
      context.root copy.id = context.root child.id ∧
        ¬ Inside catalogue context (Filed catalogue context id) copy := by
    by_contra hnone
    push Not at hnone
    exact hopen (.inside hnone)
  obtain ⟨seeds, hseeds, hseed, hleft⟩ :=
    exists_notMem_cardGaps hsame hin fun hgap => hopen (.gap hgap)
  obtain ⟨count, hcount⟩ := h
  -- the card of that page, and the filter over the group alone
  obtain ⟨memberIds, hgroup, hid⟩ := exists_group context hseed
  obtain ⟨memberIds', hgroup', hid'⟩ :=
    exists_group context (List.mem_singleton_self row)
  obtain ⟨card, hcard⟩ := exists_card context seeds hin hid
  obtain ⟨skeleton, hskeleton, rfl⟩ := exists_skeleton catalogue hgroup'
  rw [hrow] at hid hid'
  have hcards := (hcount seeds hseeds).1 memberIds hgroup hid card hcard
  have hfilter := (hcount [row] (by simpa using hin)).2 skeleton hskeleton hid'
  rw [missingCount_eq_card hcard] at hcards
  rw [(missingCount_of_skeleton hskeleton hid').2] at hfilter
  have hall := Finset.eq_of_subset_of_card_le (cardGaps_subset hsame hgroup hid hgroup' hid')
    (hfilter.trans hcards.symm).le
  exact hleft memberIds hgroup hid
    (hall ▸ mem_filterGaps_alone hsame hrow hchild hclosed hout)

end

theorem filtersByCard_of_oneCount {row : MediaItem} (hrow : row ∈ catalogue.rows)
    (h : OneCount catalogue context row.id) : FiltersByCard catalogue context row.id := by
  obtain ⟨count, hcount⟩ := h
  intro seeds hseeds skeleton hskeleton hid card hcard among hamong
  have hfilter : skeleton.missingCount = count := (hcount seeds hseeds).2 skeleton hskeleton hid
  -- alone, a group is the whole page
  have halone : groupsOf context [row] = [context.members row.id] := rfl
  have hread : card ∈ readOne catalogue context (groupsOf context [row]) (context.members row.id) := by
    unfold groupById at hcard
    split_ifs at hcard
    · rw [halone]
      cases hone : readOne catalogue context [context.members row.id] (context.members row.id) with
      | none => simp [read, hone] at hcard
      | some alone => simpa [read, hone] using hcard
    · cases hcard
  have hshown : card.missingCount = count :=
    (hcount [row] (by simpa using hrow)).1 (context.members row.id) (halone ▸ List.mem_singleton_self _)
      (mem_members.mpr rfl) card hread
  rw [hshown, ← hfilter]
  exact ⟨by simp [hideOwned, hamong], fun wanted absent better => by simp [actionable, hamong]⟩

/-- The missing count of a group is one number, and the filters go by it, where every listing says
the same of each child; and only there, when the copies of a child carry the same numbers (otherwise
a child that is counted by mistake can make up for one that is left out). -/
theorem oneCount_of_settled_iff {row : MediaItem} (hrow : row ∈ catalogue.rows) :
    (Settled catalogue context row.id →
        OneCount catalogue context row.id ∧ FiltersByCard catalogue context row.id) ∧
      (SameNumbers catalogue context row.id → OneCount catalogue context row.id →
        Settled catalogue context row.id) := by
  refine ⟨fun hsettled => ?_, fun hsame => settled_of_oneCount hsame hrow rfl⟩
  have hone := oneCount_of_settled hsettled
  exact ⟨hone, filtersByCard_of_oneCount hrow hone⟩

/-! ### Two seasons on one page -/

/-- An episode of ours, with its file or still to fetch. -/
private def ofSeason (id parent : String) (first : ℕ) (last : Option ℕ) (hasFile : Bool) :
    MediaItem :=
  ⟨id, "jellyfin", some parent, .EPISODE, id, none, some first, last,
    if hasFile then .LOCAL_ONLY else .MISSING, false, hasFile, none⟩

private def season (id : String) (number : ℕ) : MediaItem :=
  ⟨id, "jellyfin", none, .SEASON, id, some number, none, none, .LOCAL_ONLY, false, false, none⟩

/-- One file is the first two episodes of the first season; the second episode of the second season
is missing. -/
private def twoSeasons : Catalogue where
  rows := [season "s1" 1, season "s2" 2, ofSeason "e1" "s1" 1 (some 2) true,
    ofSeason "e2" "s2" 2 none false]
  ids_nodup := by decide
  scan parentIds := [season "s1" 1, season "s2" 2, ofSeason "e1" "s1" 1 (some 2) true,
    ofSeason "e2" "s2" 2 none false].filter (·.isUnder parentIds)
  scan_perm _ := .refl _

private def oneService : GroupContext := ⟨[], [⟨"jellyfin", 0, true⟩]⟩

/-- The first season is short of nothing, wherever it is read. -/
theorem oneCount_firstSeason : season "s1" 1 ∈ twoSeasons.rows ∧
    OneCount twoSeasons oneService "s1" ∧ FiltersByCard twoSeasons oneService "s1" := by
  refine ⟨by decide, (@oneCount_of_settled_iff twoSeasons oneService (season "s1" 1)
    (by decide)).1 ?_⟩
  rintro child ⟨hrow, parent, hparent, hroot⟩
  simp only [twoSeasons, List.mem_cons, List.not_mem_nil, or_false] at hrow
  rcases hrow with rfl | rfl | rfl | rfl
  · cases hparent
  · cases hparent
  · exact .closed _ ⟨by decide, parent, hparent, hroot⟩ rfl (by decide +kernel)
  · obtain rfl : "s2" = parent := Option.some.inj hparent
    exact absurd hroot (by decide +kernel)

/-- Beside the first season, the card of the second says that nothing is missing. -/
theorem not_oneCount_twoSeasons : ¬ ∀ (catalogue : Catalogue) (context : GroupContext),
    ∀ row ∈ catalogue.rows, OneCount catalogue context row.id := by
  intro h
  obtain ⟨count, hcount⟩ := h twoSeasons oneService (season "s2" 2) (by decide +kernel)
  have halone := (hcount [season "s2" 2] (by decide +kernel)).1 ["s2"] (by decide +kernel)
    (by decide +kernel)
  have hbeside := (hcount [season "s1" 1, season "s2" 2] (by decide +kernel)).1 ["s2"]
    (by decide +kernel) (by decide +kernel)
  have hone : (readOne twoSeasons oneService (groupsOf oneService [season "s2" 2]) ["s2"]).map
      (·.missingCount) = some 1 := by decide +kernel
  have hnone : (readOne twoSeasons oneService
      (groupsOf oneService [season "s1" 1, season "s2" 2]) ["s2"]).map (·.missingCount) = some 0 := by
    decide +kernel
  obtain ⟨card, hcard, hcardone⟩ := Option.map_eq_some_iff.mp hone
  obtain ⟨other, hother, hothernone⟩ := Option.map_eq_some_iff.mp hnone
  have := halone card hcard
  have := hbeside other hother
  omega

end MediaCenterSync.MediaGroups
