import Mathlib.Data.List.ProdSigma
import MediaCenterSync.Correlation.Correct.Visit
import MediaCenterSync.Lib.LabelledRun

/-!
# What a pairing of two series lets through

A season or an episode may be matched on its number alone once its series is matched to the
other's.  The walk keeps which parents are matched (`parentMatches`) beside the table: it adds a
link for every proposal it applies, and takes none back when it deletes the row the link stands
for.  Where every visit leaves the linked pairs that have something to let through an applied row
(`Keeps`), each season and episode let through has parents that are still joined when the pass ends
(`joined_of_keeps`).  Where a visit revokes the row of a linked series, its seasons pass all the
same (`letThrough_byRevoked`).
-/

namespace MediaCenterSync.Correlation

open Matching LabelledRun

def MediaMatch.appliedAt (threshold : ℚ) (row : MediaMatch) : Bool :=
  (row.state ≠ .CONFLICT ∨ row.strategy ∈ MatchTable.VOUCHING_STRATEGIES) ∧
    (threshold ≤ row.confidence ∨ row.confirmedAt.isSome)

namespace MatchTable

variable {t : MatchTable} {threshold : ℚ} {a b : String} {gone : List ℕ}

/-- The two are joined by a row that is applied and is none of those in `gone`. -/
def JoinedBeside (t : MatchTable) (threshold : ℚ) (gone : List ℕ) (a b : String) : Prop :=
  ∃ row ∈ t.rows, row.joins a b ∧ row.appliedAt threshold ∧ row.id ∉ gone

instance : Decidable (t.JoinedBeside threshold gone a b) :=
  inferInstanceAs (Decidable (∃ row ∈ t.rows, _))

theorem mem_findAppliedPairs : (a, b) ∈ t.findAppliedPairs threshold ↔
    ∃ row ∈ t.rows, row.isFor a b ∧ row.appliedAt threshold := by
  unfold findAppliedPairs
  rw [List.mem_filterMap]
  refine exists_congr fun row => and_congr_right fun _ => ?_
  simp only [MediaMatch.isFor, MediaMatch.appliedAt, decide_eq_true_eq]
  cases hlocal : row.localItemId with
  | none => simp
  | some near =>
    simp only [Option.bind_eq_bind, Option.bind_some, Option.ite_none_right_eq_some,
      Option.some.injEq, Prod.mk.injEq]
    exact and_comm

theorem joined_iff_beside : t.Joined threshold a b ↔ t.JoinedBeside threshold [] a b := by
  simp only [Joined, JoinedBeside, mem_findAppliedPairs, MediaMatch.joins, decide_eq_true_eq,
    List.not_mem_nil, not_false_eq_true, and_true]
  constructor
  · rintro (⟨row, hrow, hfor, happlied⟩ | ⟨row, hrow, hfor, happlied⟩)
    · exact ⟨row, hrow, .inl hfor, happlied⟩
    · exact ⟨row, hrow, .inr hfor, happlied⟩
  · rintro ⟨row, hrow, hfor | hfor, happlied⟩
    · exact .inl ⟨row, hrow, hfor, happlied⟩
    · exact .inr ⟨row, hrow, hfor, happlied⟩

/-- Read off the rows of the pair, up to the identifiers given out since `bound`. -/
theorem beside_iff_view {bound : ℕ} (hgone : ∀ id ∈ gone, id < bound) :
    t.JoinedBeside threshold gone a b ↔
      (∃ row ∈ view bound t a b, row.appliedAt threshold ∧ row.id ∉ gone) ∨
        ∃ row ∈ view bound t b a, row.appliedAt threshold ∧ row.id ∉ gone := by
  have hid : ∀ row : MediaMatch, (settle bound row).id ∉ gone ↔ row.id ∉ gone := by
    intro row
    simp only [settle]
    rcases le_total row.id bound with hle | hle
    · rw [min_eq_left hle]
    · rw [min_eq_right hle]
      exact iff_of_true (fun h => (hgone _ h).false) fun h => (hgone _ h).not_ge hle
  have hview : ∀ near far,
      (∃ row ∈ view bound t near far, row.appliedAt threshold ∧ row.id ∉ gone) ↔
      ∃ row ∈ t.rows, row.isFor near far ∧ row.appliedAt threshold ∧ row.id ∉ gone := by
    intro near far
    simp only [view, Option.mem_def, Option.map_eq_some_iff, entry_eq_some]
    constructor
    · rintro ⟨_, ⟨row, ⟨hrow, hfor⟩, rfl⟩, happlied, hnot⟩
      exact ⟨row, hrow, hfor, happlied, (hid row).mp hnot⟩
    · rintro ⟨row, hrow, hfor, happlied, hnot⟩
      exact ⟨_, ⟨row, ⟨hrow, hfor⟩, rfl⟩, happlied, (hid row).mpr hnot⟩
  rw [hview, hview]
  simp only [JoinedBeside, MediaMatch.joins, decide_eq_true_eq]
  constructor
  · rintro ⟨row, hrow, hfor | hfor, hrest⟩
    · exact .inl ⟨row, hrow, hfor, hrest⟩
    · exact .inr ⟨row, hrow, hfor, hrest⟩
  · rintro (⟨row, hrow, hfor, hrest⟩ | ⟨row, hrow, hfor, hrest⟩)
    · exact ⟨row, hrow, .inl hfor, hrest⟩
    · exact ⟨row, hrow, .inr hfor, hrest⟩

/-- Whether the two end up joined depends on the claims about the two only. -/
theorem beside_foldl (claimed : List MatchProposal) (hgone : ∀ id ∈ gone, id < t.next) :
    (claimed.foldl upsertPair t).JoinedBeside threshold gone a b ↔
      ((claimed.filter fun p => claims a b p || claims b a p).foldl upsertPair t).JoinedBeside
        threshold gone a b := by
  have hfilter : ∀ near far, (∀ p, claims near far p → (claims a b p || claims b a p)) →
      view t.next (claimed.foldl upsertPair t) near far =
        view t.next ((claimed.filter fun p => claims a b p || claims b a p).foldl upsertPair t)
          near far := by
    intro near far himplies
    rw [view_foldl claimed le_rfl, view_foldl _ le_rfl, List.filter_filter]
    congr 2
    funext p
    by_cases hp : claims near far p
    · simp [hp, himplies p hp]
    · simp [hp]
  rw [beside_iff_view hgone, beside_iff_view hgone, hfilter a b (by simp +contextual),
    hfilter b a (by simp +contextual)]

end MatchTable

/-! ### One visit -/

namespace Context

section

variable (toLowerCase : String → String) (ctx : Context)

/-- The pairs of parents that have a season or an episode to let through. -/
def carried : List (String × String) :=
  (ctx.library.catalogue ×ˢ ctx.library.catalogue).filterMap fun (x, y) => do
    let a ← x.parentId
    let b ← y.parentId
    if (seasonEpisodeMatch (ctx.candidate x) (ctx.candidate y) (ctx.options [(a, b)])).isSome then
      some (a, b)
    else none

/-- A visit of the item leaves the two an applied row: of the rows the table has of them, with what
the visit claims of them written, one is applied and is not taken out. -/
def StaysJoined (w : Walk) (item : MediaItem) (a b : String) : Prop :=
  ((ctx.claimed toLowerCase w item a b).foldl MatchTable.upsertPair w.table).JoinedBeside
    ctx.threshold (ctx.revoked toLowerCase w item) a b

instance (w : Walk) (item : MediaItem) (a b : String) :
    Decidable (ctx.StaysJoined toLowerCase w item a b) :=
  inferInstanceAs (Decidable (MatchTable.JoinedBeside ..))

/-- A visit of the item leaves every linked pair it is of, and that has something to let through, an
applied row; and no person's decision is one of the strategy that asks for the parents. -/
def Keeps (w : Walk) (item : MediaItem) : Prop :=
  (∀ pair ∈ ctx.carried, (item.id = pair.1 ∨ item.id = pair.2) →
      ctx.Linked toLowerCase w item pair.1 pair.2 →
        ctx.StaysJoined toLowerCase w item pair.1 pair.2) ∧
    ∀ row ∈ w.settled, row.decidedByHand → row.strategy ≠ .SEASON_EPISODE

instance (w : Walk) (item : MediaItem) : Decidable (ctx.Keeps toLowerCase w item) :=
  inferInstanceAs (Decidable (_ ∧ _))

end

variable {toLowerCase : String → String} {ctx : Context} {w : Walk} {item : MediaItem}
  {a b : String}

theorem mem_carried : (a, b) ∈ ctx.carried ↔ ∃ x ∈ ctx.library.catalogue,
    ∃ y ∈ ctx.library.catalogue, x.parentId = some a ∧ y.parentId = some b ∧
      (seasonEpisodeMatch (ctx.candidate x) (ctx.candidate y) (ctx.options [(a, b)])).isSome := by
  unfold carried
  simp only [List.mem_filterMap, Prod.exists, List.mem_product, Option.bind_eq_bind,
    Option.bind_eq_some_iff, Option.ite_none_right_eq_some, Option.some.injEq, Prod.mk.injEq]
  constructor
  · rintro ⟨x, y, ⟨hx, hy⟩, a', ha, b', hb, hfits, rfl, rfl⟩
    exact ⟨x, hx, y, hy, ha, hb, hfits⟩
  · rintro ⟨x, hx, y, hy, ha, hb, hfits⟩
    exact ⟨x, y, ⟨hx, hy⟩, a, ha, b, hb, hfits, rfl, rfl⟩

/-- **What a visit leaves of a pair**, said of the walk it finds. -/
theorem joined_correlateItem (hbelow : ∀ row ∈ w.settled, row.id < w.table.next) :
    (ctx.correlateItem toLowerCase touch w item).table.Joined ctx.threshold a b ↔
      ctx.StaysJoined toLowerCase w item a b := by
  have hgone : ∀ id ∈ ctx.revoked toLowerCase w item, id < w.table.next := by
    intro id hid
    obtain ⟨row, hrow, rfl⟩ := List.mem_map.mp hid
    exact hbelow row (List.mem_of_mem_filter (List.mem_of_mem_filter hrow))
  obtain ⟨hrows, -, -⟩ := @correlateItem_spec toLowerCase ctx w item touch
  unfold StaysJoined claimed
  rw [MatchTable.joined_iff_beside, ← MatchTable.beside_foldl _ hgone]
  unfold MatchTable.JoinedBeside
  rw [hrows]
  constructor
  · rintro ⟨row, hrow, hjoins, happlied, -⟩
    obtain ⟨hmem, hid⟩ := List.mem_filter.mp hrow
    exact ⟨row, hmem, hjoins, happlied, of_decide_eq_true hid⟩
  · rintro ⟨row, hrow, hjoins, happlied, hid⟩
    exact ⟨row, List.mem_filter.mpr ⟨hrow, decide_eq_true hid⟩, hjoins, happlied,
      List.not_mem_nil⟩

theorem claimed_of_other (ha : item.id ≠ a) (hb : item.id ≠ b) :
    ctx.claimed toLowerCase w item a b = [] := by
  refine List.filter_eq_nil_iff.mpr fun p hp => ?_
  simp [claims, localItemId_of_mem hp, ha, hb]

theorem linked_of_other (ha : item.id ≠ a) (hb : item.id ≠ b) :
    ctx.Linked toLowerCase w item a b ↔ (a, b) ∈ w.parentMatches := by
  unfold Linked
  simp [claimed_of_other ha hb]

theorem staysJoined_of_other (h : Aligned w) (ha : item.id ≠ a) (hb : item.id ≠ b) :
    ctx.StaysJoined toLowerCase w item a b ↔ w.table.Joined ctx.threshold a b := by
  unfold StaysJoined
  rw [claimed_of_other ha hb, List.foldl_nil, MatchTable.joined_iff_beside]
  refine exists_congr fun row => and_congr_right fun hrow => and_congr_right fun hjoins =>
    and_congr_right fun _ => iff_of_true (fun hgone => ?_) List.not_mem_nil
  obtain ⟨taken, htaken, hid⟩ := List.mem_map.mp hgone
  obtain ⟨hmem, htouches⟩ := List.mem_filter.mp (List.mem_of_mem_filter htaken)
  obtain ⟨hlocal, hremote⟩ := Prod.mk.inj (h.pair taken hmem row hrow hid)
  simp only [MediaMatch.joins, MediaMatch.isFor, MediaMatch.touches, decide_eq_true_eq] at *
  rw [hlocal, hremote] at htouches
  rcases hjoins with ⟨h1, h2⟩ | ⟨h1, h2⟩ <;> rcases htouches with h3 | h3 <;> simp_all

end Context

/-! ### The visits of a pass -/

/-- A walk, and what has been proposed on it. -/
structure Progress where
  walk : Walk
  proposed : List (MediaItem × MatchProposal)

namespace Context

section

variable (toLowerCase : String → String) (ctx : Context)

def visit (s : Progress) (v : Bool × MediaItem) : Option Progress :=
  if v.2 ∈ ctx.library.catalogue then
    some
      { walk := ctx.correlateItem toLowerCase v.1 s.walk v.2
        proposed := s.proposed ++ (ctx.proposals toLowerCase s.walk v.2).map (v.2, ·) }
  else none

/-- The parents of the two media the proposal is about are joined by an applied pair. -/
def ParentsJoined (table : MatchTable) (item : MediaItem) (p : MatchProposal) : Prop :=
  ∃ other ∈ ctx.library.catalogue, other.id = p.remoteItemId ∧
    ∃ a ∈ item.parentId, ∃ b ∈ other.parentId, table.Joined ctx.threshold a b

instance (table : MatchTable) (item : MediaItem) (p : MatchProposal) :
    Decidable (ctx.ParentsJoined table item p) :=
  haveI : ∀ a b, Decidable (table.Joined ctx.threshold a b) :=
    fun _ _ => inferInstanceAs (Decidable (_ ∨ _))
  inferInstanceAs (Decidable (∃ other ∈ ctx.library.catalogue, _))

/-- What is let through is under a linked pair, and a linked pair that lets something through is
joined. -/
structure Backed (s : Progress) : Prop where
  aligned : Aligned s.walk
  joined : ∀ a b, (a, b) ∈ ctx.carried → (a, b) ∈ s.walk.parentMatches →
    s.walk.table.Joined ctx.threshold a b
  through : ∀ pr ∈ s.proposed, pr.2.strategy = .SEASON_EPISODE →
    ∃ other ∈ ctx.library.catalogue, other.id = pr.2.remoteItemId ∧
      ∃ a ∈ pr.1.parentId, ∃ b ∈ other.parentId, (a, b) ∈ ctx.carried ∧
        (a, b) ∈ s.walk.parentMatches

end

variable {toLowerCase : String → String} {ctx : Context} {w : Walk} {item : MediaItem}
  {s s' : Progress} {table : MatchTable}

theorem linked_of_proposals {p : MatchProposal} (hitem : item ∈ ctx.library.catalogue)
    (hmachine : ∀ row ∈ w.settled, row.decidedByHand → row.strategy ≠ .SEASON_EPISODE)
    (hp : p ∈ ctx.proposals toLowerCase w item) (hstrategy : p.strategy = .SEASON_EPISODE) :
    ∃ other ∈ ctx.library.catalogue, other.id = p.remoteItemId ∧
      ∃ a ∈ item.parentId, ∃ b ∈ other.parentId, (a, b) ∈ ctx.carried ∧
        (a, b) ∈ w.parentMatches := by
  have hundecided : ∀ row, recorded w.settled item.id p.remoteItemId = some row →
      row.decidedByHand = false := by
    intro row hrow
    by_contra hdecided
    have hdecided := eq_true_of_ne_false hdecided
    refine hmachine row (List.mem_of_find?_eq_some hrow) hdecided ?_
    rw [← (respects_of_mem hp hrow hdecided).1]
    exact hstrategy
  obtain ⟨other, hother, -, scored, hscore, rfl⟩ := mem_proposals hp
  rw [remoteItemId_respect, remoteItemId_overrule] at *
  have hscored : scored.strategy = .SEASON_EPISODE := by
    rw [← hstrategy]
    unfold respectHumanDecision
    rw [remoteItemId_overrule]
    have hoverruled :
        ∀ p : MatchProposal, (ctx.overruleMislabelled item p).strategy = p.strategy := by
      intro p
      unfold overruleMislabelled
      split <;> rfl
    split
    · rw [hoverruled]
      rfl
    · next row hrow =>
      rw [if_neg (by rw [hundecided row hrow]; exact Bool.false_ne_true), hoverruled]
      rfl
  obtain ⟨a, b, ha, hb, hlinked, hfits⟩ :=
    seasonEpisodeMatch_eq_some (seasonEpisodeMatch_of_score hscore hscored)
  refine ⟨other, mem_candidatesFor hother, rfl, a, ha, b, hb, ?_, hlinked⟩
  exact mem_carried.mpr ⟨item, hitem, other, mem_candidatesFor hother, ha, hb,
    hfits _ List.mem_cons_self⟩

theorem Backed.start : ctx.Backed ⟨start ctx table, []⟩ where
  aligned := .start table
  joined _ _ _ hlinked := mem_adjacency.mp hlinked
  through _ hpr := nomatch hpr

theorem visit_eq_some {v : Bool × MediaItem} (hs : ctx.visit toLowerCase s v = some s') :
    v.2 ∈ ctx.library.catalogue ∧ s'.walk = ctx.correlateItem toLowerCase v.1 s.walk v.2 ∧
      s'.proposed = s.proposed ++ (ctx.proposals toLowerCase s.walk v.2).map (v.2, ·) := by
  obtain ⟨walk, proposed⟩ := s'
  unfold visit at hs
  split at hs
  · next hitem =>
    obtain ⟨hwalk, hproposed⟩ := Progress.mk.inj (Option.some.inj hs)
    exact ⟨hitem, hwalk.symm, hproposed.symm⟩
  · cases hs

theorem Backed.visit {v : Bool × MediaItem} (h : ctx.Backed s)
    (hkeeps : ctx.Keeps toLowerCase s.walk v.2) (hs : ctx.visit toLowerCase s v = some s') :
    ctx.Backed s' := by
  obtain ⟨hitem, hwalk, hproposed⟩ := visit_eq_some hs
  refine ⟨?_, fun a b hcarried hlinked => ?_, fun pr hpr hstrategy => ?_⟩
  · rw [hwalk]
    exact h.aligned.correlateItem
  · rw [hwalk, mem_parentMatches_correlateItem] at hlinked
    rw [hwalk, joined_correlateItem h.aligned.below]
    by_cases hof : v.2.id = a ∨ v.2.id = b
    · exact hkeeps.1 (a, b) hcarried hof hlinked
    · -- the visit is of neither: it claims nothing of the two, and takes out nothing of theirs
      push Not at hof
      rw [linked_of_other hof.1 hof.2] at hlinked
      rw [staysJoined_of_other h.aligned hof.1 hof.2]
      exact h.joined a b hcarried hlinked
  · have hgrown : ∀ {a b}, (a, b) ∈ s.walk.parentMatches →
        (a, b) ∈ s'.walk.parentMatches := by
      intro a b hlinked
      rw [hwalk, mem_parentMatches_correlateItem]
      exact .inl hlinked
    rw [hproposed] at hpr
    rcases List.mem_append.mp hpr with hold | hnew
    · obtain ⟨other, hother, hid, a, ha, b, hb, hcarried, hlinked⟩ := h.through pr hold hstrategy
      exact ⟨other, hother, hid, a, ha, b, hb, hcarried, hgrown hlinked⟩
    · obtain ⟨p, hp, rfl⟩ := List.mem_map.mp hnew
      obtain ⟨other, hother, hid, a, ha, b, hb, hcarried, hlinked⟩ :=
        linked_of_proposals hitem hkeeps.2 hp hstrategy
      exact ⟨other, hother, hid, a, ha, b, hb, hcarried, hgrown hlinked⟩

/-- Whatever has been let through at any point of a run of visits has joined parents. -/
theorem parentsJoined_of_run {vs : List (Bool × MediaItem)}
    (h : Run (ctx.visit toLowerCase) (fun s v => ctx.Keeps toLowerCase s.walk v.2)
      ⟨start ctx table, []⟩ vs s) :
    ∀ pr ∈ s.proposed, pr.2.strategy = .SEASON_EPISODE →
      ctx.ParentsJoined s.walk.table pr.1 pr.2 := by
  intro pr hpr hstrategy
  have hbacked := h.invariant (fun _ _ _ hs hkeeps => hs.visit hkeeps) Backed.start
  obtain ⟨other, hother, hid, a, ha, b, hb, hcarried, hlinked⟩ := hbacked.through pr hpr hstrategy
  exact ⟨other, hother, hid, a, ha, b, hb, hbacked.joined a b hcarried hlinked⟩

theorem walk_of_run {ok : Progress → Bool × MediaItem → Prop} {vs : List (Bool × MediaItem)}
    (h : Run (ctx.visit toLowerCase) ok s vs s') :
    s'.walk = ctx.walkAlong toLowerCase s.walk vs := by
  unfold walkAlong
  induction h with
  | nil s => rfl
  | cons _ hs _ ih =>
    rw [List.foldl_cons, ← (visit_eq_some hs).2.1]
    exact ih

end Context

/-- **What a pass lets through has joined parents when it ends**, where each of its visits leaves
the linked pairs of the visited item an applied row. -/
theorem joined_of_keeps {s : Progress}
    (h : Run ((context toLowerCase arithmetic library threshold).visit toLowerCase)
      (fun s v => (context toLowerCase arithmetic library threshold).Keeps toLowerCase s.walk v.2)
      ⟨start (context toLowerCase arithmetic library threshold) table, []⟩
      (visitsOf toLowerCase arithmetic library serviceId threshold table) s) :
    ∀ pr ∈ s.proposed, pr.2.applied → pr.2.strategy = .SEASON_EPISODE →
      (context toLowerCase arithmetic library threshold).ParentsJoined
        (correlateService toLowerCase arithmetic library serviceId threshold table).1.table
          pr.1 pr.2 := by
  intro pr hpr _ hstrategy
  rw [← walkAlong_visitsOf, ← Context.walk_of_run h]
  exact Context.parentsJoined_of_run h pr hpr hstrategy

/-! ### Two series and their first seasons -/

def series (id serviceId tmdb : String) : MediaItem :=
  { id := id, serviceId := serviceId, parentId := none, kind := .SERIES, title := "Dark"
    normalizedTitle := "dark", year := some 2017, seasonNumber := none, episodeNumber := none
    externalIds := { tmdb := some tmdb }, file := none, syncState := .UNKNOWN }

def firstSeason (id serviceId parent : String) : MediaItem :=
  { id := id, serviceId := serviceId, parentId := some parent, kind := .SEASON, title := "Season 1"
    normalizedTitle := "season 1", year := none, seasonNumber := some 1, episodeNumber := none
    externalIds := {}, file := none, syncState := .UNKNOWN }

/-- Two services with a series of one title and its first season, under the numbers given. -/
def twoSeries (here there : String) : Library :=
  { catalogue := [series "here" "ours" here, firstSeason "here/1" "ours" "here",
      series "there" "theirs" there, firstSeason "there/1" "theirs" "there"]
    ids := by simp [series, firstSeason]
    services := [⟨"ours", none, true⟩, ⟨"theirs", some "peer", false⟩]
    landings := [] }

/-- The two series on record, as an earlier pass inferred from their titles. -/
def byTitle : MatchTable :=
  { rows := [{ id := 0, localItemId := some "here", remoteItemId := "there"
               remoteServiceId := "theirs", remotePeerId := none, strategy := .NORMALIZED_TITLE
               confidence := 95 / 100, state := .IN_SYNC, reason := none, confirmedAt := none }]
    next := 1, id_lt := by decide, ids := by decide, pairs := by unfold SeparatePairs; decide }

theorem joined_of_keeps_sameNumber : ∃ s : Progress,
    (∃ pr ∈ s.proposed, pr.2.applied ∧ pr.2.strategy = .SEASON_EPISODE) ∧
      ∀ pr ∈ s.proposed, pr.2.applied → pr.2.strategy = .SEASON_EPISODE →
        (context id .exact (twoSeries "70523" "70523") (8 / 10)).ParentsJoined
          (correlateService id .exact (twoSeries "70523" "70523") "ours" (8 / 10) byTitle).1.table
            pr.1 pr.2 := by
  let ctx := context id .exact (twoSeries "70523" "70523") (8 / 10)
  have hrun : (exec (ctx.visit id) (fun s v => ctx.Keeps id s.walk v.2) ⟨start ctx byTitle, []⟩
      (visitsOf id .exact (twoSeries "70523" "70523") "ours" (8 / 10) byTitle)).any fun s =>
        s.proposed.any fun pr => pr.2.applied ∧ pr.2.strategy = .SEASON_EPISODE := by decide +kernel
  obtain ⟨s, hs, hany⟩ := (Option.any_eq_true ..).mp hrun
  obtain ⟨pr, hpr, hletThrough⟩ := List.any_eq_true.mp hany
  exact ⟨s, ⟨pr, hpr, of_decide_eq_true hletThrough⟩, joined_of_keeps (.ofExec hs)⟩

/-- **A revoked series lets its seasons through**: the two series turn out to have different
numbers, so the visit of the first deletes their row; its link stays, and their seasons are matched
by it. -/
theorem letThrough_byRevoked :
    ¬ ∀ (toLowerCase : String → String) arithmetic library serviceId threshold table s,
      Run ((context toLowerCase arithmetic library threshold).visit toLowerCase) Free
          ⟨start (context toLowerCase arithmetic library threshold) table, []⟩
          (visitsOf toLowerCase arithmetic library serviceId threshold table) s →
        ∀ pr ∈ s.proposed, pr.2.applied → pr.2.strategy = .SEASON_EPISODE →
          (context toLowerCase arithmetic library threshold).ParentsJoined
            (correlateService toLowerCase arithmetic library serviceId threshold table).1.table
              pr.1 pr.2 := by
  intro h
  let ctx := context id .exact (twoSeries "70523" "1396") (8 / 10)
  have hrun : (exec (ctx.visit id) Free ⟨start ctx byTitle, []⟩
      (visitsOf id .exact (twoSeries "70523" "1396") "ours" (8 / 10) byTitle)).any fun s =>
        s.proposed.any fun pr => pr.2.applied ∧ pr.2.strategy = .SEASON_EPISODE ∧
          ¬ ctx.ParentsJoined (correlateService id .exact (twoSeries "70523" "1396") "ours" (8 / 10)
            byTitle).1.table pr.1 pr.2 := by decide +kernel
  obtain ⟨s, hs, hany⟩ := (Option.any_eq_true ..).mp hrun
  obtain ⟨pr, hpr, hbroken⟩ := List.any_eq_true.mp hany
  obtain ⟨happlied, hstrategy, hapart⟩ := of_decide_eq_true hbroken
  exact hapart (h id .exact (twoSeries "70523" "1396") "ours" (8 / 10) byTitle s (.ofExec hs) pr hpr
    happlied hstrategy)

end MediaCenterSync.Correlation
