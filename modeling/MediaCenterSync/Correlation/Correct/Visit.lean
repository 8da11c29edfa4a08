import MediaCenterSync.Correlation.Correct.Table

/-!
# One visit of a pass

A pass visits its items in turn (`visitsOf`).  A visit writes what it proposes to the table, links
what it applies, and takes the rows it revokes out of the table and of the snapshot
(`correlateItem_spec`, `mem_parentMatches_correlateItem`).
-/

namespace MediaCenterSync.Correlation

open Matching

theorem mem_link {links : Links} {near far : String} {pair : String × String} :
    pair ∈ links.link near far ↔ pair ∈ links ∨ pair = (near, far) := by
  unfold Links.link
  split
  · next h =>
    constructor
    · exact .inl
    · rintro (hpair | rfl)
      · exact hpair
      · exact h
  · simp

theorem mem_adjacency {pairs : List (String × String)} {a b : String} :
    (a, b) ∈ adjacency pairs ↔ (a, b) ∈ pairs ∨ (b, a) ∈ pairs := by
  have hfold : ∀ links : Links, (a, b) ∈ pairs.foldl (fun links pair =>
      (links.link pair.1 pair.2).link pair.2 pair.1) links ↔
        (a, b) ∈ links ∨ (a, b) ∈ pairs ∨ (b, a) ∈ pairs := by
    induction pairs with
    | nil => simp
    | cons pair pairs ih =>
      intro links
      rw [List.foldl_cons, ih, mem_link, mem_link]
      simp only [List.mem_cons, Prod.ext_iff]
      tauto
  exact (hfold []).trans (by simp)

namespace Context

section

variable (toLowerCase : String → String) (ctx : Context)

def revoked (w : Walk) (item : MediaItem) : List ℕ :=
  ((w.settled.filter (·.touches item.id)).filter (ctx.revokes toLowerCase item)).map (·.id)

def claimed (w : Walk) (item : MediaItem) (a b : String) : List MatchProposal :=
  (ctx.proposals toLowerCase w item).filter fun p => claims a b p || claims b a p

/-- The two are linked once a visit of the item has proposed. -/
def Linked (w : Walk) (item : MediaItem) (a b : String) : Prop :=
  (a, b) ∈ w.parentMatches ∨ ∃ p ∈ ctx.claimed toLowerCase w item a b, p.applied

instance (w : Walk) (item : MediaItem) (a b : String) :
    Decidable (ctx.Linked toLowerCase w item a b) :=
  inferInstanceAs (Decidable (_ ∨ _))

end

variable {toLowerCase : String → String} {ctx : Context} {w : Walk} {item : MediaItem}
  {touch : Bool} {a b : String}

theorem table_propose (touch : Bool) (ps : List MatchProposal) (w : Walk) :
    (ps.foldl (propose touch) w).table = ps.foldl MatchTable.upsertPair w.table := by
  induction ps generalizing w with
  | nil => rfl
  | cons p ps ih => exact ih _

theorem mem_parentMatches_propose (touch : Bool) (ps : List MatchProposal) (w : Walk) :
    (a, b) ∈ (ps.foldl (propose touch) w).parentMatches ↔
      (a, b) ∈ w.parentMatches ∨ ∃ p ∈ ps, p.applied ∧ (claims a b p || claims b a p) := by
  induction ps generalizing w with
  | nil => simp
  | cons p ps ih =>
    have hone : (a, b) ∈ (propose touch w p).parentMatches ↔
        (a, b) ∈ w.parentMatches ∨ p.applied ∧ (claims a b p || claims b a p) := by
      unfold propose
      cases happlied : p.applied with
      | false => simp
      | true =>
        simp only [if_true, mem_link, Prod.mk.injEq, claims, Bool.or_eq_true, decide_eq_true_eq,
          true_and, or_assoc]
        grind
    rw [List.foldl_cons, ih, hone, List.exists_mem_cons_iff, or_assoc]

theorem revoke_foldl (rows : List MediaMatch) (w : Walk) :
    (rows.foldl revoke w).table.rows = w.table.rows.filter (·.id ∉ rows.map (·.id)) ∧
      (rows.foldl revoke w).table.next = w.table.next ∧
      (rows.foldl revoke w).parentMatches = w.parentMatches ∧
      (rows.foldl revoke w).settled = w.settled.filter (·.id ∉ rows.map (·.id)) := by
  induction rows generalizing w with
  | nil => simp
  | cons row rows ih =>
    obtain ⟨hrows, hnext, hlinks, hsettled⟩ := ih (revoke w row)
    have hboth : ∀ kept : List MediaMatch,
        (kept.filter (·.id ≠ row.id)).filter (·.id ∉ rows.map (·.id)) =
          kept.filter (·.id ∉ (row :: rows).map (·.id)) := by
      intro kept
      rw [List.filter_filter]
      congr 1
      funext r
      rw [List.map_cons, Bool.eq_iff_iff]
      simp [and_comm]
    exact ⟨hrows.trans (hboth _), hnext, hlinks, hsettled.trans (hboth _)⟩

theorem touched_propose (touch : Bool) (ps : List MatchProposal) (w : Walk) :
    (ps.foldl (propose touch) w).touched =
      if touch then w.touched ++ ps.map (·.remoteItemId) else w.touched := by
  induction ps generalizing w with
  | nil => simp
  | cons p ps ih =>
    rw [List.foldl_cons, ih]
    cases touch <;> simp [propose]

section

variable (toLowerCase ctx w item touch)

/-- A visit of the item before it sets the state of the item. -/
def revised : Walk :=
  ctx.revokeContradicted toLowerCase
    ((ctx.proposals toLowerCase w item).foldl (propose touch) w) item

/-- The table once the visit's claims are written. -/
def proposedTable : MatchTable :=
  (ctx.proposals toLowerCase w item).foldl MatchTable.upsertPair w.table

end

theorem setSyncState_eq (w : Walk) (state : SyncState) : ∃ states,
    setSyncState w item state = { w with syncStates := states } := by
  unfold setSyncState
  split
  · exact ⟨w.syncStates, rfl⟩
  · exact ⟨w.syncStates ++ [(item.id, state)], rfl⟩

theorem correlateItem_eq : ∃ states, ctx.correlateItem toLowerCase touch w item =
    { ctx.revised toLowerCase w item touch with syncStates := states } :=
  setSyncState_eq (ctx.revised toLowerCase w item touch)
    (ctx.landed item (deriveItemState (ctx.proposals toLowerCase w item) (ctx.heldLocally item)))

theorem revised_spec :
    (ctx.revised toLowerCase w item touch).table.rows =
        (ctx.proposedTable toLowerCase w item).rows.filter
          (·.id ∉ ctx.revoked toLowerCase w item) ∧
      (ctx.revised toLowerCase w item touch).table.next =
        (ctx.proposedTable toLowerCase w item).next ∧
      (ctx.revised toLowerCase w item touch).settled =
        w.settled.filter (·.id ∉ ctx.revoked toLowerCase w item) ∧
      (ctx.revised toLowerCase w item touch).parentMatches =
        ((ctx.proposals toLowerCase w item).foldl (propose touch) w).parentMatches := by
  unfold revised revokeContradicted revoked proposedTable
  rw [← table_propose touch, settled_foldl_propose]
  obtain ⟨hrows, hnext, hlinks, hsettled⟩ := revoke_foldl
    ((w.settled.filter (·.touches item.id)).filter (ctx.revokes toLowerCase item))
    ((ctx.proposals toLowerCase w item).foldl (propose touch) w)
  rw [settled_foldl_propose] at hsettled
  exact ⟨hrows, hnext, hsettled, hlinks⟩

theorem correlateItem_spec :
    (ctx.correlateItem toLowerCase touch w item).table.rows =
        (ctx.proposedTable toLowerCase w item).rows.filter
          (·.id ∉ ctx.revoked toLowerCase w item) ∧
      (ctx.correlateItem toLowerCase touch w item).table.next =
        (ctx.proposedTable toLowerCase w item).next ∧
      (ctx.correlateItem toLowerCase touch w item).settled =
        w.settled.filter (·.id ∉ ctx.revoked toLowerCase w item) := by
  obtain ⟨states, heq⟩ := @correlateItem_eq toLowerCase ctx w item touch
  obtain ⟨hrows, hnext, hsettled, -⟩ := @revised_spec toLowerCase ctx w item touch
  rw [heq]
  dsimp only
  exact ⟨hrows, hnext, hsettled⟩

theorem mem_parentMatches_correlateItem :
    (a, b) ∈ (ctx.correlateItem toLowerCase touch w item).parentMatches ↔
      ctx.Linked toLowerCase w item a b := by
  obtain ⟨states, heq⟩ := @correlateItem_eq toLowerCase ctx w item touch
  obtain ⟨-, -, -, hlinks⟩ := @revised_spec toLowerCase ctx w item touch
  rw [heq]
  dsimp only
  rw [hlinks, mem_parentMatches_propose]
  refine or_congr_right ⟨?_, ?_⟩
  · rintro ⟨p, hp, happlied, hclaims⟩
    exact ⟨p, List.mem_filter.mpr ⟨hp, hclaims⟩, happlied⟩
  · rintro ⟨p, hp, happlied⟩
    obtain ⟨hmem, hclaims⟩ := List.mem_filter.mp hp
    exact ⟨p, hmem, happlied, hclaims⟩

theorem touched_correlateItem : (ctx.correlateItem toLowerCase touch w item).touched =
    if touch then w.touched ++ (ctx.proposals toLowerCase w item).map (·.remoteItemId)
    else w.touched := by
  have hrevoke : ∀ (rows : List MediaMatch) (w : Walk),
      (rows.foldl revoke w).touched = w.touched := by
    intro rows
    induction rows with
    | nil => exact fun _ => rfl
    | cons row rows ih => exact fun w => ih (revoke w row)
  obtain ⟨states, heq⟩ := @correlateItem_eq toLowerCase ctx w item touch
  rw [heq]
  dsimp only
  unfold revised revokeContradicted
  rw [hrevoke, touched_propose]

/-! ### The snapshot and the table -/

/-- A row of the snapshot is a row of the table, of the same pair, or has been taken out of it. -/
structure Aligned (w : Walk) : Prop where
  ids : w.settled.Pairwise fun a b => a.id ≠ b.id
  below : ∀ row ∈ w.settled, row.id < w.table.next
  pair : ∀ row ∈ w.settled, ∀ kept ∈ w.table.rows, row.id = kept.id →
    (row.localItemId, row.remoteItemId) = (kept.localItemId, kept.remoteItemId)

theorem Aligned.start (table : MatchTable) : Aligned (start ctx table) where
  ids := table.ids
  below := table.id_lt
  pair row hrow kept hkept hid := by rw [MatchTable.eq_of_id hrow hkept hid]

theorem Aligned.correlateItem (h : Aligned w) :
    Aligned (ctx.correlateItem toLowerCase touch w item) := by
  obtain ⟨hrows, hnext, hsettled⟩ := @correlateItem_spec toLowerCase ctx w item touch
  have hmem : ∀ {row}, row ∈ (ctx.correlateItem toLowerCase touch w item).settled →
      row ∈ w.settled := fun hrow => List.mem_of_mem_filter (hsettled ▸ hrow)
  refine ⟨?_, fun row hrow => ?_, fun row hrow kept hkept hid => ?_⟩
  · rw [hsettled]
    exact h.ids.filter _
  · rw [hnext]
    exact (h.below row (hmem hrow)).trans_le (MatchTable.next_le_foldl ..)
  · rw [hrows] at hkept
    have hbelow := h.below row (hmem hrow)
    rcases mem_foldl_upsertPair (List.mem_of_mem_filter hkept) with
      ⟨old, hold, hid', hpair⟩ | ⟨hnew, -⟩
    · exact (h.pair row (hmem hrow) old hold (hid.trans hid'.symm)).trans hpair
    · rw [hid] at hbelow
      exact absurd hnew hbelow.not_ge

end Context

/-! ### The visits of a pass -/

section

variable (toLowerCase : String → String) (arithmetic : Arithmetic)

def visitsOf (library : Library) (serviceId : String) (threshold : ℚ) (table : MatchTable) :
    List (Bool × MediaItem) :=
  let ctx := context toLowerCase arithmetic library threshold
  let walked := walkMine toLowerCase ctx serviceId table
  (mine library serviceId).map (true, ·) ++
    (counterparts library serviceId walked.touched).map (false, ·)

end

variable {toLowerCase : String → String} {arithmetic : Arithmetic} {library : Library}
  {serviceId : String} {threshold : ℚ} {table : MatchTable}

namespace Context

section

variable (toLowerCase : String → String) (ctx : Context)

def walkAlong (w : Walk) (vs : List (Bool × MediaItem)) : Walk :=
  vs.foldl (fun w v => ctx.correlateItem toLowerCase v.1 w v.2) w

def visitsFrom (w : Walk) : List (Bool × MediaItem) → List (Walk × MediaItem)
  | [] => []
  | v :: vs => (w, v.2) :: visitsFrom (ctx.correlateItem toLowerCase v.1 w v.2) vs

end

variable {toLowerCase : String → String} {ctx : Context} {w : Walk}

theorem walkAlong_cons (w : Walk) (v : Bool × MediaItem) (vs : List (Bool × MediaItem)) :
    ctx.walkAlong toLowerCase w (v :: vs) =
      ctx.walkAlong toLowerCase (ctx.correlateItem toLowerCase v.1 w v.2) vs := by
  unfold walkAlong
  rw [List.foldl_cons]

theorem visitsFrom_append (before after : List (Bool × MediaItem)) :
    ctx.visitsFrom toLowerCase w (before ++ after) = ctx.visitsFrom toLowerCase w before ++
      ctx.visitsFrom toLowerCase (ctx.walkAlong toLowerCase w before) after := by
  induction before generalizing w with
  | nil => rfl
  | cons v before ih =>
    rw [List.cons_append, visitsFrom, visitsFrom, ih, List.cons_append, walkAlong_cons]

theorem mem_visitsFrom {vs : List (Bool × MediaItem)} {v : Walk × MediaItem}
    (h : v ∈ ctx.visitsFrom toLowerCase w vs) : ∃ before touch after,
      vs = before ++ (touch, v.2) :: after ∧ v.1 = ctx.walkAlong toLowerCase w before := by
  induction vs generalizing w with
  | nil => cases h
  | cons first vs ih =>
    rcases List.mem_cons.mp h with rfl | hrest
    · exact ⟨[], first.1, vs, rfl, rfl⟩
    · obtain ⟨before, touch, after, rfl, hwalk⟩ := ih hrest
      rw [← walkAlong_cons] at hwalk
      exact ⟨first :: before, touch, after, rfl, hwalk⟩

end Context

theorem walkAlong_visitsOf :
    (context toLowerCase arithmetic library threshold).walkAlong toLowerCase
      (start (context toLowerCase arithmetic library threshold) table)
      (visitsOf toLowerCase arithmetic library serviceId threshold table) =
    (correlateService toLowerCase arithmetic library serviceId threshold table).1 := by
  unfold visitsOf correlateService Context.walkAlong
  rw [List.foldl_append, List.foldl_map, List.foldl_map]
  rfl

end MediaCenterSync.Correlation
