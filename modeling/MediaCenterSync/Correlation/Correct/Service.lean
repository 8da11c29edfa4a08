import MediaCenterSync.Correlation.Service

/-!
# What a pass does, step by step

A proposal for an item is a candidate the scoring vouched for, with a person's decision restored
onto it (`mem_proposals`).  One item's part of a pass writes its proposals and deletes the rows it
revokes, and nothing else (`correlateItem_induction`); a pass is that for each of its items
(`correlateService_induction`).
-/

namespace MediaCenterSync.Matching

variable {toLowerCase : String → String} {item : MatchCandidate} {options : MatchOptions}

theorem mem_keepBest {best : List MatchProposal} {proposal p : MatchProposal}
    (h : p ∈ keepBest best proposal) : p ∈ best ∨ p = proposal := by
  unfold keepBest at h
  split at h
  · obtain ⟨incumbent, hincumbent, rfl⟩ := List.mem_map.mp h
    split
    · exact .inr rfl
    · exact .inl hincumbent
  · exact (List.mem_append.mp h).imp_right List.mem_singleton.mp

theorem mem_foldl_keepBest {scored best : List MatchProposal} {p : MatchProposal}
    (h : p ∈ scored.foldl keepBest best) : p ∈ best ∨ p ∈ scored := by
  induction scored generalizing best with
  | nil => exact .inl h
  | cons proposal scored ih =>
    rcases ih h with hbest | hscored
    · rcases mem_keepBest hbest with hold | rfl
      · exact .inl hold
      · exact .inr List.mem_cons_self
    · exact .inr (List.mem_cons_of_mem _ hscored)

theorem mem_correlate {candidates : List MatchCandidate} {p : MatchProposal}
    (h : p ∈ correlate toLowerCase item candidates options) :
    ∃ other ∈ candidates, other.id ≠ item.id ∧ ∃ scored,
      score toLowerCase item other options = some scored ∧
        p = toProposal toLowerCase item other scored options := by
  have hbest := (List.mem_insertionSort _).mp h
  rcases mem_foldl_keepBest hbest with hnil | hscored
  · cases hnil
  · obtain ⟨other, hother, hp⟩ := List.mem_filterMap.mp hscored
    obtain ⟨hmem, hne⟩ := List.mem_filter.mp hother
    obtain ⟨scored, hscore, rfl⟩ := Option.map_eq_some_iff.mp hp
    exact ⟨other, hmem, by simpa using hne, scored, hscore, rfl⟩

/-! ### Each strategy answers for itself -/

theorem strategy_checksumMatch {left right : MatchCandidate} {s : Score}
    (h : checksumMatch left right = some s) : s.strategy = .CHECKSUM := by
  unfold checksumMatch at h
  grind

theorem strategy_externalIdMatch {left right : MatchCandidate} {providers : List Provider}
    {s : Score} (h : externalIdMatch left right providers options = some s) :
    s.strategy = .EXTERNAL_ID := by
  unfold externalIdMatch at h
  grind

theorem strategy_seasonEpisodeMatch {left right : MatchCandidate} {s : Score}
    (h : seasonEpisodeMatch left right options = some s) : s.strategy = .SEASON_EPISODE := by
  unfold seasonEpisodeMatch at h
  grind

theorem strategy_absoluteEpisodeMatch {left right : MatchCandidate} {s : Score}
    (h : absoluteEpisodeMatch left right options = some s) : s.strategy = .ABSOLUTE_EPISODE := by
  unfold absoluteEpisodeMatch at h
  grind

theorem strategy_titleMatch {left right : MatchCandidate} {s : Score}
    (h : titleMatch left right options = some s) : s.strategy = .NORMALIZED_TITLE := by
  unfold titleMatch at h
  grind

theorem strategy_pathMatch {left right : MatchCandidate} {s : Score}
    (h : pathMatch toLowerCase left right = some s) : s.strategy = .PATH := by
  unfold pathMatch at h
  obtain ⟨leftPath, -, h⟩ := Option.bind_eq_some_iff.mp h
  obtain ⟨rightPath, -, h⟩ := Option.bind_eq_some_iff.mp h
  grind

theorem score_cases {left right : MatchCandidate} {s : Score}
    (h : score toLowerCase left right options = some s) :
    checksumMatch left right = some s ∨
      (∃ providers, externalIdMatch left right providers options = some s) ∨
      seasonEpisodeMatch left right options = some s ∨
      absoluteEpisodeMatch left right options = some s ∨
      titleMatch left right options = some s ∨ pathMatch toLowerCase left right = some s := by
  unfold score at h
  split at h
  · cases h
  rcases Option.or_eq_some_iff.mp h with h | ⟨-, h⟩
  · exact .inl h
  rcases Option.or_eq_some_iff.mp h with h | ⟨-, h⟩
  · exact .inr (.inl ⟨_, h⟩)
  split at h
  · cases h
  rcases Option.or_eq_some_iff.mp h with h | ⟨-, h⟩
  · exact .inr (.inl ⟨_, h⟩)
  rcases Option.or_eq_some_iff.mp h with h | ⟨-, h⟩
  · exact .inr (.inr (.inl h))
  rcases Option.or_eq_some_iff.mp h with h | ⟨-, h⟩
  · exact .inr (.inr (.inr (.inl h)))
  rcases Option.or_eq_some_iff.mp h with h | ⟨-, h⟩
  · exact .inr (.inr (.inr (.inr (.inl h))))
  · exact .inr (.inr (.inr (.inr (.inr h))))

theorem strategy_ne_manual {left right : MatchCandidate} {s : Score}
    (h : score toLowerCase left right options = some s) : s.strategy ≠ .MANUAL := by
  rcases score_cases h with h | ⟨_, h⟩ | h | h | h | h
  · rw [strategy_checksumMatch h]
    decide
  · rw [strategy_externalIdMatch h]
    decide
  · rw [strategy_seasonEpisodeMatch h]
    decide
  · rw [strategy_absoluteEpisodeMatch h]
    decide
  · rw [strategy_titleMatch h]
    decide
  · rw [strategy_pathMatch h]
    decide

theorem seasonEpisodeMatch_of_score {left right : MatchCandidate} {s : Score}
    (h : score toLowerCase left right options = some s) (hstrategy : s.strategy = .SEASON_EPISODE) :
    seasonEpisodeMatch left right options = some s := by
  rcases score_cases h with h | ⟨_, h⟩ | h | h | h | h
  · exact nomatch (strategy_checksumMatch h).symm.trans hstrategy
  · exact nomatch (strategy_externalIdMatch h).symm.trans hstrategy
  · exact h
  · exact nomatch (strategy_absoluteEpisodeMatch h).symm.trans hstrategy
  · exact nomatch (strategy_titleMatch h).symm.trans hstrategy
  · exact nomatch (strategy_pathMatch h).symm.trans hstrategy

theorem seasonEpisodeMatch_eq_some {left right : MatchCandidate} {scored : Score}
    (h : seasonEpisodeMatch left right options = some scored) :
    ∃ a b, left.parentId = some a ∧ right.parentId = some b ∧ (a, b) ∈ options.parentMatches ∧
      ∀ options' : MatchOptions, (a, b) ∈ options'.parentMatches →
        (seasonEpisodeMatch left right options').isSome := by
  have hunder : underMatchedParents left right options := by
    unfold seasonEpisodeMatch at h
    grind
  have hparents := hunder
  unfold underMatchedParents at hparents
  split at hparents
  · next a b hleft hright =>
    simp only [Links.has, decide_eq_true_eq] at hparents
    obtain ⟨ha, hb, hlinked⟩ := hparents
    refine ⟨a, b, hleft, hright, hlinked, fun options' hlinked' => ?_⟩
    have hunder' : underMatchedParents left right options' := by
      unfold underMatchedParents
      rw [hleft, hright]
      simpa [Links.has] using ⟨ha, hb, hlinked'⟩
    unfold seasonEpisodeMatch at h ⊢
    grind
  · cases hparents

/-! ### One proposal for each candidate -/

theorem foldl_keepBest {scored best : List MatchProposal}
    (h : ((best ++ scored).map (·.remoteItemId)).Nodup) :
    scored.foldl keepBest best = best ++ scored := by
  induction scored generalizing best with
  | nil => exact (List.append_nil _).symm
  | cons proposal scored ih =>
    have hfresh : keepBest best proposal = best ++ [proposal] := by
      unfold keepBest
      rw [if_neg]
      simp only [List.any_eq_true, decide_eq_true_eq, not_exists, not_and]
      intro incumbent hincumbent hsame
      rw [List.map_append] at h
      exact (List.nodup_append.mp h).2.2 _ (List.mem_map_of_mem hincumbent) _
        (List.mem_map_of_mem List.mem_cons_self) hsame
    have hsplit : best ++ proposal :: scored = (best ++ [proposal]) ++ scored := by simp
    rw [List.foldl_cons, hfresh, hsplit]
    exact ih (hsplit ▸ h)

theorem scored_nodup {found : List MatchCandidate} (h : (found.map (·.id)).Nodup) :
    (found.filterMap fun candidate =>
      ((score toLowerCase item candidate options).map
        (toProposal toLowerCase item candidate · options)).map (·.remoteItemId)).Nodup := by
  have hids : ∀ candidate : MatchCandidate, ∀ id,
      ((score toLowerCase item candidate options).map
        (toProposal toLowerCase item candidate · options)).map (·.remoteItemId) = some id →
          id = candidate.id := by
    intro candidate id hid
    obtain ⟨p, hp, rfl⟩ := Option.map_eq_some_iff.mp hid
    obtain ⟨scored, -, rfl⟩ := Option.map_eq_some_iff.mp hp
    rfl
  induction found with
  | nil => exact List.nodup_nil
  | cons candidate found ih =>
    rw [List.map_cons, List.nodup_cons] at h
    rw [List.filterMap_cons]
    split
    · exact ih h.2
    · next id hid =>
      refine List.nodup_cons.mpr ⟨fun hmem => h.1 ?_, ih h.2⟩
      obtain ⟨other, hother, hotherId⟩ := List.mem_filterMap.mp hmem
      rw [← hids candidate id hid, hids other id hotherId]
      exact List.mem_map_of_mem hother

theorem perm_correlate {candidates : List MatchCandidate} (h : (candidates.map (·.id)).Nodup) :
    (correlate toLowerCase item candidates options).Perm
      ((candidates.filter (·.id ≠ item.id)).filterMap fun candidate =>
        (score toLowerCase item candidate options).map
          (toProposal toLowerCase item candidate · options)) := by
  unfold correlate
  dsimp only
  refine (List.perm_insertionSort _ _).trans (List.Perm.of_eq ?_)
  rw [foldl_keepBest, List.nil_append]
  rw [List.nil_append, List.map_filterMap]
  exact scored_nodup (h.sublist (List.filter_sublist.map _))

theorem mem_correlate_iff {candidates : List MatchCandidate} (h : (candidates.map (·.id)).Nodup)
    {p : MatchProposal} : p ∈ correlate toLowerCase item candidates options ↔
      ∃ other ∈ candidates, other.id ≠ item.id ∧ ∃ scored,
        score toLowerCase item other options = some scored ∧
          p = toProposal toLowerCase item other scored options := by
  refine ⟨mem_correlate, ?_⟩
  rintro ⟨other, hother, hne, scored, hscore, rfl⟩
  refine (perm_correlate h).mem_iff.mpr (List.mem_filterMap.mpr ⟨other, ?_, ?_⟩)
  · exact List.mem_filter.mpr ⟨hother, decide_eq_true hne⟩
  · rw [hscore]
    rfl

theorem nodup_correlate {candidates : List MatchCandidate} (h : (candidates.map (·.id)).Nodup) :
    ((correlate toLowerCase item candidates options).map (·.remoteItemId)).Nodup := by
  refine ((perm_correlate h).map _).nodup_iff.mpr ?_
  rw [List.map_filterMap]
  refine scored_nodup (h.sublist (List.filter_sublist.map _))

end MediaCenterSync.Matching

namespace MediaCenterSync.Correlation

open Matching

variable {toLowerCase : String → String}

theorem mem_onceById {items : List MediaItem} {item : MediaItem} (h : item ∈ onceById items) :
    item ∈ items := by
  induction items with
  | nil => cases h
  | cons first rest ih =>
    rcases List.mem_cons.mp h with rfl | hrest
    · exact List.mem_cons_self
    · exact List.mem_cons_of_mem _ (ih (List.mem_of_mem_filter hrest))

theorem nodup_onceById (items : List MediaItem) : ((onceById items).map (·.id)).Nodup := by
  induction items with
  | nil => exact List.nodup_nil
  | cons first rest ih =>
    refine List.nodup_cons.mpr ⟨fun hmem => ?_, ih.sublist (List.filter_sublist.map _)⟩
    obtain ⟨item, hitem, hid⟩ := List.mem_map.mp hmem
    exact of_decide_eq_true (List.mem_filter.mp hitem).2 hid

/-- A map by identifier loses nothing where an identifier names one row. -/
theorem mem_onceById_iff {items : List MediaItem} {item : MediaItem}
    (h : ∀ other ∈ items, other.id = item.id → other = item) :
    item ∈ onceById items ↔ item ∈ items := by
  refine ⟨mem_onceById, fun hitem => ?_⟩
  induction items with
  | nil => cases hitem
  | cons first rest ih =>
    by_cases hfirst : first = item
    · rw [hfirst]
      exact List.mem_cons_self
    · have hrest := (List.mem_cons.mp hitem).resolve_left (Ne.symm hfirst)
      refine List.mem_cons_of_mem _ (List.mem_filter.mpr ⟨ih (fun other hother =>
        h other (List.mem_cons_of_mem _ hother)) hrest, decide_eq_true fun hid => ?_⟩)
      exact hfirst (h first List.mem_cons_self hid.symm)

namespace Context

variable {ctx : Context} {w : Walk} {item : MediaItem}

theorem byId_isSome (hitem : item ∈ ctx.library.catalogue) : (ctx.byId item.id).isSome :=
  List.find?_isSome.mpr ⟨item, hitem, by simp⟩

theorem mem_childrenOf {catalogue : List MediaItem} {parents : List String} {child : MediaItem}
    (h : child ∈ childrenOf catalogue parents) : child ∈ catalogue := by
  obtain ⟨parent, -, hchild⟩ := List.mem_flatMap.mp h
  exact List.mem_of_mem_filter hchild

theorem mem_found {parentMatches : Links} {other : MediaItem}
    (h : other ∈ ctx.findCandidatesForMatch item ++ sameContentAs ctx.library.catalogue item ++
      sameWorkAs ctx.library.catalogue item ++ ctx.alignedWith item ++
      ctx.underMatchedParentOf item parentMatches) : other ∈ ctx.library.catalogue := by
  simp only [List.mem_append] at h
  rcases h with (((htitle | hcontent) | hwork) | haligned) | hunder
  · exact List.mem_of_mem_filter htitle
  · obtain ⟨key, -, hkey⟩ := List.mem_flatMap.mp hcontent
    exact List.mem_of_mem_filter hkey
  · obtain ⟨key, -, hkey⟩ := List.mem_flatMap.mp hwork
    exact List.mem_of_mem_filter hkey
  · obtain ⟨id, -, hid⟩ := List.mem_filterMap.mp haligned
    exact List.mem_of_find?_eq_some hid
  · unfold underMatchedParentOf at hunder
    split at hunder
    · cases hunder
    · exact mem_childrenOf (List.mem_of_mem_filter hunder)

theorem mem_candidatesFor_iff {parentMatches : Links} {other : MediaItem} :
    other ∈ ctx.candidatesFor item parentMatches ↔ other.id ≠ item.id ∧
      other ∈ ctx.findCandidatesForMatch item ++ sameContentAs ctx.library.catalogue item ++
        sameWorkAs ctx.library.catalogue item ++ ctx.alignedWith item ++
        ctx.underMatchedParentOf item parentMatches := by
  unfold candidatesFor candidatesAmong
  rw [← decide_eq_true_iff (p := other.id ≠ item.id), and_comm]
  refine Iff.trans ⟨mem_onceById, fun hmem => (mem_onceById_iff fun twin htwin hid => ?_).mpr hmem⟩
    List.mem_filter
  exact List.inj_on_of_nodup_map ctx.library.ids (mem_found (List.mem_of_mem_filter htwin))
    (mem_found (List.mem_of_mem_filter hmem)) hid

theorem mem_candidatesFor {parentMatches : Links} {other : MediaItem}
    (h : other ∈ ctx.candidatesFor item parentMatches) : other ∈ ctx.library.catalogue :=
  mem_found (mem_candidatesFor_iff.mp h).2

theorem mem_proposals {p : MatchProposal} (h : p ∈ ctx.proposals toLowerCase w item) :
    ∃ other ∈ ctx.candidatesFor item w.parentMatches, other.id ≠ item.id ∧ ∃ scored,
      score toLowerCase (ctx.candidate item) (ctx.candidate other) (ctx.options w.parentMatches) =
        some scored ∧
      p = ctx.respectHumanDecision item w.settled (ctx.overruleMislabelled item
        (toProposal toLowerCase (ctx.candidate item) (ctx.candidate other) scored
          (ctx.options w.parentMatches))) := by
  obtain ⟨overruled, hoverruled, rfl⟩ := List.mem_map.mp h
  obtain ⟨proposal, hproposal, rfl⟩ := List.mem_map.mp hoverruled
  obtain ⟨other, hother, hne, scored, hscore, rfl⟩ := mem_correlate hproposal
  obtain ⟨otherItem, hitem, rfl⟩ := List.mem_map.mp hother
  exact ⟨otherItem, hitem, hne, scored, hscore, rfl⟩

@[simp] theorem localItemId_overrule (p : MatchProposal) :
    (ctx.overruleMislabelled item p).localItemId = p.localItemId := by
  unfold overruleMislabelled
  split <;> rfl

@[simp] theorem remoteItemId_overrule (p : MatchProposal) :
    (ctx.overruleMislabelled item p).remoteItemId = p.remoteItemId := by
  unfold overruleMislabelled
  split <;> rfl

@[simp] theorem localItemId_respect (settled : List MediaMatch) (p : MatchProposal) :
    (ctx.respectHumanDecision item settled p).localItemId = p.localItemId := by
  unfold respectHumanDecision
  split
  · rfl
  · split <;> rfl

@[simp] theorem remoteItemId_respect (settled : List MediaMatch) (p : MatchProposal) :
    (ctx.respectHumanDecision item settled p).remoteItemId = p.remoteItemId := by
  unfold respectHumanDecision
  split
  · rfl
  · split <;> rfl

theorem localItemId_of_mem {p : MatchProposal} (h : p ∈ ctx.proposals toLowerCase w item) :
    p.localItemId = item.id := by
  obtain ⟨other, -, -, scored, -, rfl⟩ := mem_proposals h
  rw [localItemId_respect, localItemId_overrule]
  rfl

theorem respects_of_mem {p : MatchProposal} (h : p ∈ ctx.proposals toLowerCase w item)
    {row : MediaMatch} (hrow : recorded w.settled item.id p.remoteItemId = some row)
    (hdecided : row.decidedByHand) :
    p.strategy = row.strategy ∧ p.confidence = row.confidence := by
  obtain ⟨other, -, -, scored, -, rfl⟩ := mem_proposals h
  rw [remoteItemId_respect] at hrow
  unfold respectHumanDecision
  rw [hrow]
  dsimp only
  rw [if_pos hdecided]
  exact ⟨rfl, rfl⟩

theorem settled_foldl_propose (touch : Bool) (ps : List MatchProposal) (w : Walk) :
    (ps.foldl (propose touch) w).settled = w.settled := by
  induction ps generalizing w with
  | nil => rfl
  | cons p ps ih => exact ih _

/-- **One item's part of a pass**: what survives each proposal that is written and each row that is
revoked survives it. -/
theorem correlateItem_induction {P : Walk → Prop} {touch : Bool} (h : P w)
    (hpropose : ∀ w' p, P w' → p ∈ ctx.proposals toLowerCase w item → P (propose touch w' p))
    (hrevoke : ∀ w' row, P w' → row ∈ w.settled → row.touches item.id →
      ctx.revokes toLowerCase item row → P (revoke w' row))
    (hstate : ∀ w' states, P w' → P { w' with syncStates := states }) :
    P (ctx.correlateItem toLowerCase touch w item) := by
  have hproposed : P ((ctx.proposals toLowerCase w item).foldl (propose touch) w) :=
    List.foldlRecOn (motive := P) _ _ h fun w' hw' p hp => hpropose w' p hw' hp
  have hrevoked : P (ctx.revokeContradicted toLowerCase
      ((ctx.proposals toLowerCase w item).foldl (propose touch) w) item) := by
    refine List.foldlRecOn (motive := P) _ _ hproposed fun w' hw' row hrow => ?_
    obtain ⟨hrow, hrevokes⟩ := List.mem_filter.mp hrow
    obtain ⟨hmem, htouches⟩ := List.mem_filter.mp hrow
    rw [settled_foldl_propose] at hmem
    exact hrevoke w' row hw' hmem htouches hrevokes
  unfold correlateItem setSyncState
  dsimp only
  split
  · exact hrevoked
  · exact hstate _ _ hrevoked

end Context

/-- **A pass**: what holds before it and survives each item's part of it holds after it. -/
theorem correlateService_induction {P : Walk → Prop} {arithmetic : Arithmetic}
    {library : Library} {threshold : ℚ}
    {table : MatchTable} (serviceId : String)
    (hstart : P (start (context toLowerCase arithmetic library threshold) table))
    (hitem : ∀ touch w item, P w → item ∈ library.catalogue →
      P ((context toLowerCase arithmetic library threshold).correlateItem toLowerCase touch w
        item)) :
    P (correlateService toLowerCase arithmetic library serviceId threshold table).1 := by
  have hmine :
      P (walkMine toLowerCase (context toLowerCase arithmetic library threshold) serviceId
        table) := by
    refine List.foldlRecOn (motive := P) _ _ hstart fun w hw item hmem => hitem true w item hw ?_
    exact List.mem_of_mem_filter ((List.mem_insertionSort _).mp hmem)
  exact List.foldlRecOn (motive := P) _ _ hmine fun w hw item hmem =>
    hitem false w item hw (List.mem_of_mem_filter hmem)

end MediaCenterSync.Correlation
