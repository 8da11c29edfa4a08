import Mathlib.Data.List.Induction
import MediaCenterSync.SyncManager.Sources

/-!
# Which copies feed a transfer

The engine takes ranges from every source it is handed, so each of them has to be a copy of the
same file.  `OnlyCopies` says so: every copy besides the transfer's own item is joined to it by a
pair that was applied, no two sources are known to differ, and the order in which the match table
is read is of no consequence.

None of this is checked when the sources are resolved, apart from conflicts.  `onlyCopies_iff`
gives what the match table has to say for it to hold (`Unambiguous`): all rows of a pair agree on
whether the copies are interchangeable; a copy that is so by some row has an applied one; and
those copies are not known to differ.  One direction reads the table in its own order.  For the
other, a row can be read last (`exists_read_last`), so a copy that some row admits is a source in
some order, and by stability in every one.
-/

namespace MediaCenterSync.SyncManager

/-! ### Specification -/

def Joins (item other : MediaItem) (m : MediaMatch) : Prop :=
  other.id ≠ item.id ∧ (m.localItemId = some item.id ∧ m.remoteItemId = other.id ∨
    m.remoteItemId = item.id ∧ m.localItemId = some other.id)

instance (item other : MediaItem) : DecidablePred (Joins item other) :=
  fun _ => inferInstanceAs (Decidable (_ ∧ _))

/-- The pair was applied: by its score, or because somebody confirmed it. -/
def Applied (threshold : ℚ) (m : MediaMatch) : Prop :=
  threshold ≤ m.confidence ∨ m.confirmedAt ≠ none

/-- Two values that are not known to differ. -/
def Agree {α : Type} (left right : Option α) : Prop :=
  ∀ x y, left = some x → right = some y → x = y

def SameFile (left right : TransferSourceRef) : Prop :=
  Agree (left.contentId.filter (· ≠ "")) (right.contentId.filter (· ≠ "")) ∧
    Agree left.sizeHint right.sizeHint

def Catalogue.reading (catalogue : Catalogue) (rows : List MediaMatch) : Catalogue :=
  { catalogue with matchRows := rows }

/-- **Only copies of one file feed a transfer.** -/
structure OnlyCopies (catalogue : Catalogue) (threshold : ℚ) (itemId : String) : Prop where
  joined : ∀ item, catalogue.items.find? (·.id = itemId) = some item →
    ∀ entry ∈ candidates catalogue itemId, entry.1 ≠ item →
      ∃ m ∈ catalogue.matchRows, Joins item entry.1 m ∧ Applied threshold m
  agree : ∀ left ∈ resolveSources catalogue itemId, ∀ right ∈ resolveSources catalogue itemId,
    SameFile left right
  stable : ∀ rows, rows.Perm catalogue.matchRows → ∀ entry,
    entry ∈ candidates (catalogue.reading rows) itemId ↔ entry ∈ candidates catalogue itemId

/-- A copy some row of the match table admits as a source. -/
def Admitted (catalogue : Catalogue) (item other : MediaItem) : Prop :=
  ∃ m ∈ catalogue.matchRows, Joins item other m ∧ interchangeable m item other = true

/-- What the match table has to say of an item. -/
structure Unambiguous (catalogue : Catalogue) (threshold : ℚ) (item : MediaItem) : Prop where
  decided : ∀ other ∈ catalogue.items, serviceOf catalogue other ≠ none →
    Admitted catalogue item other →
      ∀ m ∈ catalogue.matchRows, Joins item other m → interchangeable m item other = true
  applied : ∀ other ∈ catalogue.items, serviceOf catalogue other ≠ none →
    Admitted catalogue item other →
      ∃ m ∈ catalogue.matchRows, Joins item other m ∧ Applied threshold m
  agree : ∀ left ∈ catalogue.items, ∀ right ∈ catalogue.items,
    (left = item ∨ Admitted catalogue item left) →
    (right = item ∨ Admitted catalogue item right) →
    ∀ service service', serviceOf catalogue left = some service →
      serviceOf catalogue right = some service' →
        SameFile (toRef left service) (toRef right service')

/-! ### The last row read -/

/-- A row changes what is known of the other item it names, and of no one else. -/
theorem noteMatch_apply {item other : MediaItem} {m : MediaMatch} {map : ByOther}
    (hm : m.localItemId = some item.id ∨ m.remoteItemId = item.id) :
    noteMatch item.id map m other.id = if Joins item other m then some m else map other.id := by
  obtain ⟨localItemId, remoteItemId, confidence, state, confirmedAt⟩ := m
  unfold noteMatch ByOther.set Joins
  cases localItemId with
  | none =>
    have hr : remoteItemId = item.id := by simpa using hm
    simp [hr]
  | some l =>
    by_cases hli : l = item.id
    · by_cases hri : remoteItemId = item.id
      · -- A row that joins the item to itself is not noted.
        simp_all [eq_comm]
      · by_cases hro : remoteItemId = other.id <;> simp_all [eq_comm]
    · have hri : remoteItemId = item.id := by simpa [hli] using hm
      by_cases hlo : l = other.id <;> simp_all [eq_comm]

theorem byOther_append (rows : List MediaMatch) (m : MediaMatch) (itemId : String) :
    byOther (rows ++ [m]) itemId =
      if m.localItemId = some itemId ∨ m.remoteItemId = itemId then
        noteMatch itemId (byOther rows itemId) m
      else byOther rows itemId := by
  unfold byOther
  rw [List.filter_append, List.foldl_append]
  by_cases hm : m.localItemId = some itemId ∨ m.remoteItemId = itemId
  · simp [hm]
  · simp [hm]

theorem byOther_apply (rows : List MediaMatch) (item other : MediaItem) :
    byOther rows item.id other.id = (rows.filter (Joins item other ·)).getLast? := by
  induction rows using List.reverseRecOn with
  | nil => rfl
  | append_singleton rows m ih =>
    rw [byOther_append, List.filter_append]
    by_cases hm : m.localItemId = some item.id ∨ m.remoteItemId = item.id
    · rw [if_pos hm, noteMatch_apply hm, ih]
      by_cases hjoins : Joins item other m
      · simp [hjoins]
      · simp [hjoins]
    · have hjoins : ¬ Joins item other m := by
        rintro ⟨-, h⟩
        exact hm (h.imp And.left And.left)
      rw [if_neg hm, ih]
      simp [hjoins]

/-! ### Correlated copies -/

theorem mem_correlatedItems {catalogue : Catalogue} {item other : MediaItem} :
    other ∈ correlatedItems catalogue item ↔ other ∈ catalogue.items ∧
      ∃ m, (catalogue.matchRows.filter (Joins item other ·)).getLast? = some m ∧
        interchangeable m item other = true := by
  unfold correlatedItems
  rw [List.mem_filter, byOther_apply]
  refine and_congr_right fun _ => ?_
  cases (catalogue.matchRows.filter (Joins item other ·)).getLast? with
  | none => simp
  | some m => simp

theorem admitted_of_mem_correlatedItems {catalogue : Catalogue} {item other : MediaItem}
    (h : other ∈ correlatedItems catalogue item) : Admitted catalogue item other := by
  obtain ⟨-, m, hlast, hm⟩ := mem_correlatedItems.mp h
  have hmem : m ∈ catalogue.matchRows.filter (Joins item other ·) := List.mem_of_getLast? hlast
  rw [List.mem_filter] at hmem
  exact ⟨m, hmem.1, of_decide_eq_true hmem.2, hm⟩

/-- **Any row may be read last.** -/
theorem exists_read_last {catalogue : Catalogue} {item other : MediaItem} {m : MediaMatch}
    (hm : m ∈ catalogue.matchRows) (hjoins : Joins item other m) :
    ∃ rows : List MediaMatch, rows.Perm catalogue.matchRows ∧
      (rows.filter (Joins item other ·)).getLast? = some m := by
  refine ⟨catalogue.matchRows.erase m ++ [m], ?_, ?_⟩
  · exact List.perm_append_comm.trans (List.perm_cons_erase hm).symm
  · simp [List.filter_append, hjoins]

/-- Where all rows of a pair agree, a copy is correlated when some row admits it. -/
theorem mem_correlatedItems_iff {catalogue : Catalogue} {item other : MediaItem}
    (hdecided : Admitted catalogue item other →
      ∀ m ∈ catalogue.matchRows, Joins item other m → interchangeable m item other = true) :
    other ∈ correlatedItems catalogue item ↔
      other ∈ catalogue.items ∧ Admitted catalogue item other := by
  constructor
  · intro h
    exact ⟨(mem_correlatedItems.mp h).1, admitted_of_mem_correlatedItems h⟩
  · rintro ⟨hother, hadmitted⟩
    refine mem_correlatedItems.mpr ⟨hother, ?_⟩
    have hall := hdecided hadmitted
    obtain ⟨m, hm, hjoins, -⟩ := hadmitted
    have hne : catalogue.matchRows.filter (Joins item other ·) ≠ [] :=
      List.ne_nil_of_mem (List.mem_filter.mpr ⟨hm, decide_eq_true hjoins⟩)
    obtain ⟨last, hlast⟩ := Option.ne_none_iff_exists'.mp
      (fun h => hne (List.getLast?_eq_none_iff.mp h))
    have hmem := List.mem_filter.mp (List.mem_of_getLast? hlast)
    exact ⟨last, hlast, hall last hmem.1 (of_decide_eq_true hmem.2)⟩

/-! ### Candidates -/

theorem mem_candidates {catalogue : Catalogue} {itemId : String} {item : MediaItem}
    (hitem : catalogue.items.find? (·.id = itemId) = some item)
    {entry : MediaItem × MediaService} :
    entry ∈ candidates catalogue itemId ↔
      (entry.1 = item ∨ entry.1 ∈ correlatedItems catalogue item) ∧
        serviceOf catalogue entry.1 = some entry.2 := by
  obtain ⟨candidate, service⟩ := entry
  simp only [candidates, hitem, List.mem_insertionSort, List.mem_filterMap, List.mem_cons,
    Option.map_eq_some_iff, Prod.mk.injEq]
  constructor
  · rintro ⟨c, hc, s, hs, rfl, rfl⟩
    exact ⟨hc, hs⟩
  · rintro ⟨hc, hs⟩
    exact ⟨candidate, hc, service, hs, rfl, rfl⟩

theorem candidates_of_none {catalogue : Catalogue} {itemId : String}
    (hitem : catalogue.items.find? (·.id = itemId) = none) : candidates catalogue itemId = [] := by
  rw [candidates, hitem]

theorem serviceOf_reading (catalogue : Catalogue) (rows : List MediaMatch) (item : MediaItem) :
    serviceOf (catalogue.reading rows) item = serviceOf catalogue item := rfl

theorem admitted_reading {catalogue : Catalogue} {rows : List MediaMatch} {item other : MediaItem}
    (h : rows.Perm catalogue.matchRows) :
    Admitted (catalogue.reading rows) item other ↔ Admitted catalogue item other :=
  exists_congr fun _ => and_congr_left fun _ => h.mem_iff

/-! ### The condition -/

theorem Unambiguous.onlyCopies {catalogue : Catalogue} {threshold : ℚ} {itemId : String}
    {item : MediaItem} (hitem : catalogue.items.find? (·.id = itemId) = some item)
    (h : Unambiguous catalogue threshold item) : OnlyCopies catalogue threshold itemId := by
  have hmember : item ∈ catalogue.items := List.mem_of_find?_eq_some hitem
  -- A copy among the candidates is in the catalogue, and admitted by some row.
  have hcandidate : ∀ entry ∈ candidates catalogue itemId, entry.1 ∈ catalogue.items ∧
      (entry.1 = item ∨ Admitted catalogue item entry.1) ∧
        serviceOf catalogue entry.1 = some entry.2 := by
    intro entry hentry
    obtain ⟨hsource, hservice⟩ := (mem_candidates hitem).mp hentry
    rcases hsource with hself | hcorrelated
    · exact ⟨hself ▸ hmember, .inl hself, hservice⟩
    · exact ⟨(mem_correlatedItems.mp hcorrelated).1,
        .inr (admitted_of_mem_correlatedItems hcorrelated), hservice⟩
  refine ⟨?_, ?_, ?_⟩
  · intro item' hitem' entry hentry hne
    obtain rfl : item = item' := by simpa [hitem] using hitem'
    obtain ⟨hin, hsource, hservice⟩ := hcandidate entry hentry
    exact h.applied entry.1 hin (by simp [hservice]) (hsource.resolve_left hne)
  · intro left hleft right hright
    obtain ⟨entry, hentry, rfl⟩ := List.mem_map.mp hleft
    obtain ⟨entry', hentry', rfl⟩ := List.mem_map.mp hright
    obtain ⟨hin, hsource, hservice⟩ := hcandidate entry hentry
    obtain ⟨hin', hsource', hservice'⟩ := hcandidate entry' hentry'
    exact h.agree _ hin _ hin' hsource hsource' _ _ hservice hservice'
  · intro rows hrows entry
    have hitem' : (catalogue.reading rows).items.find? (·.id = itemId) = some item := hitem
    rw [mem_candidates hitem', mem_candidates hitem, serviceOf_reading]
    refine and_congr_left fun hservice => or_congr_right ?_
    have hdecided (hin : entry.1 ∈ catalogue.items) := h.decided entry.1 hin (by simp [hservice])
    by_cases hin : entry.1 ∈ catalogue.items
    · rw [mem_correlatedItems_iff (hdecided hin), mem_correlatedItems_iff, admitted_reading hrows]
      · rfl
      · intro hadmitted m hm
        exact hdecided hin ((admitted_reading hrows).mp hadmitted) m (hrows.mem_iff.mp hm)
    · exact iff_of_false (fun hc => hin (mem_correlatedItems.mp hc).1)
        fun hc => hin (mem_correlatedItems.mp hc).1

/-- A copy some row admits is a source in some order, so in every one when the order does not
matter. -/
theorem OnlyCopies.mem_correlatedItems {catalogue : Catalogue} {threshold : ℚ} {itemId : String}
    {item other : MediaItem} (hitem : catalogue.items.find? (·.id = itemId) = some item)
    (h : OnlyCopies catalogue threshold itemId) (hother : other ∈ catalogue.items)
    {service : MediaService} (hservice : serviceOf catalogue other = some service)
    {rows : List MediaMatch} (hrows : rows.Perm catalogue.matchRows) {m : MediaMatch}
    (hm : (rows.filter (Joins item other ·)).getLast? = some m) :
    other ∈ correlatedItems catalogue item ↔ interchangeable m item other = true := by
  have hitem' : (catalogue.reading rows).items.find? (·.id = itemId) = some item := hitem
  have hne : other ≠ item := by
    rintro rfl
    have hjoins := (List.mem_filter.mp (List.mem_of_getLast? hm)).2
    exact (of_decide_eq_true hjoins).1 rfl
  have hstable := h.stable rows hrows (other, service)
  rw [SyncManager.mem_candidates hitem', SyncManager.mem_candidates hitem, serviceOf_reading]
    at hstable
  simp only [hne, false_or, hservice, and_true] at hstable
  rw [← hstable, SyncManager.mem_correlatedItems]
  constructor
  · rintro ⟨-, last, hlast, hinter⟩
    obtain rfl : m = last := Option.some.inj (hm.symm.trans hlast)
    exact hinter
  · intro hinter
    exact ⟨hother, m, hm, hinter⟩

/-- Sources that are copies of one file in every order come from an unambiguous table. -/
theorem OnlyCopies.unambiguous {catalogue : Catalogue} {threshold : ℚ} {itemId : String}
    {item : MediaItem} (hitem : catalogue.items.find? (·.id = itemId) = some item)
    (h : OnlyCopies catalogue threshold itemId) : Unambiguous catalogue threshold item := by
  have hadmitted : ∀ other ∈ catalogue.items, ∀ service, serviceOf catalogue other = some service →
      Admitted catalogue item other → other ∈ correlatedItems catalogue item := by
    intro other hother service hservice ⟨m, hm, hjoins, hinter⟩
    obtain ⟨rows, hrows, hlast⟩ := exists_read_last hm hjoins
    exact (h.mem_correlatedItems hitem hother hservice hrows hlast).mpr hinter
  refine ⟨?_, ?_, ?_⟩
  · intro other hother hknown hadm m hm hjoins
    obtain ⟨service, hservice⟩ := Option.ne_none_iff_exists'.mp hknown
    obtain ⟨rows, hrows, hlast⟩ := exists_read_last hm hjoins
    exact (h.mem_correlatedItems hitem hother hservice hrows hlast).mp
      (hadmitted other hother service hservice hadm)
  · intro other hother hknown hadm
    obtain ⟨service, hservice⟩ := Option.ne_none_iff_exists'.mp hknown
    have hcorrelated := hadmitted other hother service hservice hadm
    have hne : other ≠ item := by
      obtain ⟨m, -, hjoins, -⟩ := hadm
      rintro rfl
      exact hjoins.1 rfl
    exact h.joined item hitem (other, service)
      ((mem_candidates hitem).mpr ⟨.inr hcorrelated, hservice⟩) hne
  · intro left hleft right hright hl hr service service' hservice hservice'
    have hsource : ∀ other ∈ catalogue.items, ∀ service, serviceOf catalogue other = some service →
        (other = item ∨ Admitted catalogue item other) →
          toRef other service ∈ resolveSources catalogue itemId := by
      intro other hother service hservice ho
      refine List.mem_map.mpr ⟨(other, service), (mem_candidates hitem).mpr ⟨?_, hservice⟩, rfl⟩
      exact ho.imp_right (hadmitted other hother service hservice)
    exact h.agree _ (hsource left hleft service hservice hl) _
      (hsource right hright service' hservice' hr)

/-- **When only copies of one file feed a transfer**: exactly when the match table is unambiguous
about its item. -/
theorem onlyCopies_iff (catalogue : Catalogue) (threshold : ℚ) (itemId : String) :
    OnlyCopies catalogue threshold itemId ↔
      ∀ item, catalogue.items.find? (·.id = itemId) = some item →
        Unambiguous catalogue threshold item := by
  constructor
  · intro h item hitem
    exact h.unambiguous hitem
  · intro h
    cases hitem : catalogue.items.find? (·.id = itemId) with
    | some item => exact (h item hitem).onlyCopies hitem
    | none =>
      have hnone := candidates_of_none hitem
      refine ⟨fun item hitem' => ?_, ?_, fun rows _ entry => ?_⟩
      · simp [hitem] at hitem'
      · simp [resolveSources, hnone]
      · have hitem' : (catalogue.reading rows).items.find? (·.id = itemId) = none := hitem
        rw [hnone, candidates_of_none hitem']

/-! ### Two encodes of one film -/

def ourCopy : MediaItem := ⟨"ours", "plex", "1", some ⟨4000, some "q1-a", none⟩⟩

def theirCopy : MediaItem := ⟨"theirs", "jellyfin", "2", some ⟨9000, some "q1-b", none⟩⟩

def plex : MediaService := ⟨"plex", "Plex", .PLEX, "http://plex", none, none, none, 1, none⟩

def jellyfin : MediaService :=
  ⟨"jellyfin", "Jellyfin", .JELLYFIN, "http://jellyfin", none, none, none, 2, none⟩

/-- A film in two encodes, the second an outdated copy that was only proposed. -/
def twoEncodes : Catalogue where
  items := [ourCopy, theirCopy]
  services := [plex, jellyfin]
  matchRows := [⟨some "ours", "theirs", 1 / 2, .OUTDATED, none⟩]

/-- Both encodes feed the transfer. -/
theorem onlyCopies_fails : ¬ ∀ (catalogue : Catalogue) (threshold : ℚ) (itemId : String),
    OnlyCopies catalogue threshold itemId := by
  intro h
  have hours : toRef ourCopy plex ∈ resolveSources twoEncodes "ours" := by decide +kernel
  have htheirs : toRef theirCopy jellyfin ∈ resolveSources twoEncodes "ours" := by decide +kernel
  have hsize := ((h twoEncodes (4 / 5) "ours").agree _ hours _ htheirs).2
  exact absurd (hsize 4000 9000 rfl rfl) (by decide)

end MediaCenterSync.SyncManager
