import MediaCenterSync.Handlers.Refresh
import MediaCenterSync.Lib.CursorWalk

/-!
# What a refresh passes over

A library is walked by refreshing it again and again, each time from the cursor the last refresh
gave.  A server that answers the oldest changes first (`Honours`) is walked to the end as long as
every cursor the walk comes to is one it can go on from (`Fits`): `refreshLibrary_givesAll`.  It
cannot where more items than a listing holds bear one stamp, or where one kind's listing reaches past
what another's left out.
-/

namespace MediaCenterSync.Handlers

open CursorWalk (Advances Exhausts)
open Matching (MediaKind)
open Share (LibraryKind)

variable {α : Type}

/-! ### The library of a server -/

structure Item (α : Type) where
  externalId : String
  named : externalId ≠ ""
  kind : MediaKind
  stamp : α

namespace Item

variable (item : Item α)

def payload : Payload α where
  id := some item.externalId
  kind := some item.kind
  stamp := some item.stamp

def normalised : NormalisedItem where
  externalId := item.externalId
  kind := item.kind

@[simp] theorem toItem_payload : toItem item.payload = some item.normalised :=
  if_neg item.named

@[simp] theorem stamp_payload : item.payload.stamp = some item.stamp := rfl

end Item

def serve (listing : ListingQuery α → List (Item α)) (query : ListingQuery α) : List (Payload α) :=
  (listing query).map Item.payload

theorem filterMap_toItem (page : List (Item α)) :
    (page.map Item.payload).filterMap toItem = page.map Item.normalised := by
  rw [List.filterMap_map, ← List.filterMap_eq_map]
  exact List.filterMap_congr fun item _ => item.toItem_payload

section Honours

variable [LinearOrder α] (store : List (Item α)) (listing : ListingQuery α → List (Item α))

/-- The library holds an item the query asks for. -/
def Asked (kinds : List MediaKind) (since : α) (item : Item α) : Prop :=
  item ∈ store ∧ item.kind ∈ kinds ∧ since ≤ item.stamp

/-- From a cursor on the listing gives the oldest changes, as many as were asked for. -/
structure Honours : Prop where
  asked {kinds : List MediaKind} {since : α} {limit : ℕ} :
    ∀ item ∈ listing ⟨kinds, some since, true, limit⟩, Asked store kinds since item
  nodup {kinds : List MediaKind} {since : α} {limit : ℕ} :
    (listing ⟨kinds, some since, true, limit⟩).Nodup
  sorted {kinds : List MediaKind} {since : α} {limit : ℕ} :
    (listing ⟨kinds, some since, true, limit⟩).Pairwise (·.stamp ≤ ·.stamp)
  capped {kinds : List MediaKind} {since : α} {limit : ℕ} :
    (listing ⟨kinds, some since, true, limit⟩).length ≤ limit
  /-- What is left out is no older than what was given, and there was no room for it. -/
  full {kinds : List MediaKind} {since : α} {limit : ℕ} {item : Item α} :
    Asked store kinds since item → item ∉ listing ⟨kinds, some since, true, limit⟩ →
      (listing ⟨kinds, some since, true, limit⟩).length = limit ∧
        ∀ one ∈ listing ⟨kinds, some since, true, limit⟩, one.stamp ≤ item.stamp

def page (cursor : α) (kinds : List MediaKind) : List (Item α) :=
  listing ⟨kinds, some cursor, true, 200⟩

def LeftOut (cursor : α) (kinds : List MediaKind) (item : Item α) : Prop :=
  Asked store kinds cursor item ∧ item ∉ page listing cursor kinds

/-- A cursor the refreshes can go on from, where one refresh asks for these listings. -/
structure Fits (listings : List (List MediaKind)) (cursor : α) : Prop where
  /-- Everything still owed is of a kind that is listed. -/
  listed : ∀ item ∈ store, cursor ≤ item.stamp → ∃ kinds ∈ listings, item.kind ∈ kinds
  /-- A listing that leaves something out has room for all that bears the cursor's stamp. -/
  room : ∀ kinds ∈ listings, ∀ item, LeftOut store listing cursor kinds item →
    (store.filter fun one => one.kind ∈ kinds ∧ one.stamp = cursor).length < 200
  /-- No other listing reaches past what a listing leaves out. -/
  behind : ∀ kinds ∈ listings, ∀ item, LeftOut store listing cursor kinds item →
    ∀ others ∈ listings, others ≠ kinds →
      ∀ one ∈ page listing cursor others, one.stamp ≤ item.stamp

variable {store listing}

theorem exists_lt_of_leftOut (h : Honours store listing) {listings : List (List MediaKind)}
    {cursor : α} (hfits : Fits store listing listings cursor) {kinds : List MediaKind}
    (hkinds : kinds ∈ listings) {item : Item α} (hleft : LeftOut store listing cursor kinds item) :
    ∃ one ∈ page listing cursor kinds, cursor < one.stamp := by
  by_contra hnone
  push Not at hnone
  have hlength : (page listing cursor kinds).length = 200 := (h.full hleft.1 hleft.2).1
  have hsub : page listing cursor kinds ⊆
      store.filter fun one => one.kind ∈ kinds ∧ one.stamp = cursor := by
    intro one hone
    obtain ⟨hstore, hkind, hle⟩ := h.asked one hone
    exact List.mem_filter.mpr
      ⟨hstore, by simpa using ⟨hkind, le_antisymm (hnone one hone) hle⟩⟩
  have hroom := hfits.room kinds hkinds item hleft
  have hle := (h.nodup.subperm hsub).length_le
  change (page listing cursor kinds).length ≤ _ at hle
  omega

theorem fits_of_room {kinds : List MediaKind} (hkinds : ∀ item ∈ store, item.kind ∈ kinds)
    {cursor : α} (hroom : (store.filter fun one => one.stamp = cursor).length < 200) :
    Fits store listing [kinds] cursor := by
  constructor
  · intro item hitem _
    exact ⟨kinds, List.mem_singleton_self kinds, hkinds item hitem⟩
  · intro asked _ item _
    refine lt_of_le_of_lt (List.Sublist.length_le ?_) hroom
    refine List.monotone_filter_right store fun one hone => ?_
    simp only [decide_eq_true_eq] at hone ⊢
    exact hone.2
  · intro asked hasked item _ others hothers hne
    rw [List.mem_singleton] at hasked hothers
    exact absurd (hothers.trans hasked.symm) hne

/-- A refresh from a cursor that fits gives all that is owed, or all that is before a later one. -/
theorem exhausts_or_advances (h : Honours store listing) {listings : List (List MediaKind)}
    {cursor : α} (hfits : Fits store listing listings cursor) (next : α → α)
    (hnext : ∀ one ∈ listings.flatMap (page listing cursor), cursor < one.stamp →
      one.stamp ≤ next cursor ∧
        ∃ top ∈ listings.flatMap (page listing cursor), top.stamp = next cursor) :
    Exhausts Item.stamp store (fun s => listings.flatMap (page listing s)) cursor ∨
      Advances Item.stamp store next (fun s => listings.flatMap (page listing s)) cursor := by
  by_cases hall : ∀ kinds ∈ listings, ∀ item, ¬ LeftOut store listing cursor kinds item
  · refine .inl fun item hitem hle => ?_
    obtain ⟨kinds, hkinds, hkind⟩ := hfits.listed item hitem hle
    by_contra hnot
    refine hall kinds hkinds item ⟨⟨hitem, hkind, hle⟩, fun hin => hnot ?_⟩
    exact List.mem_flatMap.mpr ⟨kinds, hkinds, hin⟩
  push Not at hall
  obtain ⟨kinds, hkinds, left, hleft⟩ := hall
  obtain ⟨one, hone, hlt⟩ := exists_lt_of_leftOut h hfits hkinds hleft
  obtain ⟨hreach, top, htop, hstamp⟩ := hnext one (List.mem_flatMap.mpr ⟨kinds, hkinds, hone⟩) hlt
  obtain ⟨others, hothers, htop'⟩ := List.mem_flatMap.mp htop
  refine .inr ⟨lt_of_lt_of_le hlt hreach, ⟨top, (h.asked top htop').1, hstamp⟩, ?_⟩
  intro item hitem hle hbefore
  obtain ⟨asked, hasked, hkind⟩ := hfits.listed item hitem hle
  by_contra hnot
  have hleft : LeftOut store listing cursor asked item :=
    ⟨⟨hitem, hkind, hle⟩, fun hin => hnot (List.mem_flatMap.mpr ⟨asked, hasked, hin⟩)⟩
  -- What was left out is no older than the newest of every page, so than the next cursor.
  have hbehind : top.stamp ≤ item.stamp := by
    by_cases hsame : others = asked
    · subst hsame
      exact (h.full hleft.1 hleft.2).2 top htop'
    · exact hfits.behind asked hasked item hleft others hothers hsame top htop'
  rw [hstamp] at hbehind
  exact absurd hbefore (not_lt.mpr hbehind)

end Honours

/-! ### One refresh -/

theorem mem_foldl_max [LinearOrder α] (stamps : List α) (cursor : α) :
    stamps.foldl max cursor = cursor ∨ stamps.foldl max cursor ∈ stamps := by
  induction stamps generalizing cursor with
  | nil => exact .inl rfl
  | cons stamp stamps ih =>
    rw [List.foldl_cons]
    rcases ih (max cursor stamp) with heq | hmem
    · rw [heq]
      rcases max_choice cursor stamp with hleft | hright
      · exact .inl hleft
      · rw [hright]
        exact .inr List.mem_cons_self
    · exact .inr (List.mem_cons_of_mem _ hmem)

theorem le_foldl_max [LinearOrder α] (stamps : List α) (cursor : α) :
    cursor ≤ stamps.foldl max cursor ∧ ∀ stamp ∈ stamps, stamp ≤ stamps.foldl max cursor := by
  induction stamps generalizing cursor with
  | nil => exact ⟨le_refl cursor, fun stamp h => absurd h List.not_mem_nil⟩
  | cons stamp stamps ih =>
    rw [List.foldl_cons]
    obtain ⟨hle, hall⟩ := ih (max cursor stamp)
    refine ⟨le_trans (le_max_left cursor stamp) hle, fun other hother => ?_⟩
    rcases List.mem_cons.mp hother with rfl | hother
    · exact le_trans (le_max_right cursor other) hle
    · exact hall other hother

theorem newest_spec [LinearOrder α] {items : List (Item α)} {cursor : α} {one : Item α}
    (hone : one ∈ items) (hlt : cursor < one.stamp) :
    one.stamp ≤ (items.map Item.stamp).foldl max cursor ∧
      ∃ top ∈ items, top.stamp = (items.map Item.stamp).foldl max cursor := by
  have hle := (le_foldl_max (items.map Item.stamp) cursor).2 _ (List.mem_map_of_mem hone)
  refine ⟨hle, ?_⟩
  rcases mem_foldl_max (items.map Item.stamp) cursor with heq | hmem
  · rw [heq] at hle
    exact absurd hlt (not_lt.mpr hle)
  · obtain ⟨top, htop, hstamp⟩ := List.mem_map.mp hmem
    exact ⟨top, htop, hstamp⟩

def cursorAfter (refresh : Option α → LibraryRefresh α) (c : α) (n : ℕ) : α :=
  (fun cursor => (refresh (some cursor)).cursor)^[n] c

namespace JellyfinHandler

variable [LinearOrder α]

def listings (library : LibraryKind) : List (List MediaKind) :=
  [includeTypes library]

theorem foldl_later (items : List (Item α)) (cursor : α) :
    (items.map Item.payload).foldl later (some cursor) =
      some ((items.map Item.stamp).foldl max cursor) := by
  induction items generalizing cursor with
  | nil => rfl
  | cons item items ih =>
    have hlater : later (some cursor) item.payload = some (max cursor item.stamp) := by
      change (if cursor < item.stamp then _ else _) = _
      split_ifs with hlt
      · rw [max_eq_right hlt.le]
      · rw [max_eq_left (not_lt.mp hlt)]
    rw [List.map_cons, List.foldl_cons, hlater, ih]
    rfl

variable (listing : ListingQuery α → List (Item α)) (library : LibraryKind) (now cursor : α)

theorem items_refreshLibrary :
    (refreshLibrary (serve listing) library now (some cursor)).items =
      ((listings library).flatMap (page listing cursor)).map Item.normalised := by
  rw [listings, List.flatMap_singleton]
  exact filterMap_toItem _

theorem cursor_refreshLibrary :
    (refreshLibrary (serve listing) library now (some cursor)).cursor =
      (((listings library).flatMap (page listing cursor)).map Item.stamp).foldl max cursor := by
  rw [listings, List.flatMap_singleton]
  unfold refreshLibrary
  dsimp only
  rw [serve, foldl_later]
  rfl

end JellyfinHandler

namespace PlexHandler

def listings (library : LibraryKind) : List (List MediaKind) :=
  (defaultKinds library).map ([·])

theorem foldl_later (items : List (Item ℕ)) (cursor : ℕ) :
    (items.map Item.payload).foldl later cursor = (items.map Item.stamp).foldl max cursor := by
  rw [List.foldl_map, List.foldl_map]
  rfl

variable (listing : ListingQuery ℕ → List (Item ℕ)) (library : LibraryKind) (now cursor : ℕ)

theorem foldl_gather (kinds : List MediaKind) (items : List NormalisedItem) (newest : ℕ) :
    kinds.foldl (gather (serve listing) (some cursor)) (items, newest) =
      (items ++ ((kinds.map ([·])).flatMap (page listing cursor)).map Item.normalised,
        (((kinds.map ([·])).flatMap (page listing cursor)).map Item.stamp).foldl max newest) := by
  induction kinds generalizing items newest with
  | nil => simp
  | cons kind kinds ih =>
    have hgather : gather (serve listing) (some cursor) (items, newest) kind =
        (items ++ (page listing cursor [kind]).map Item.normalised,
          ((page listing cursor [kind]).map Item.stamp).foldl max newest) := by
      unfold gather
      dsimp only
      rw [serve, filterMap_toItem, foldl_later]
      rfl
    rw [List.foldl_cons, hgather, ih]
    simp only [List.map_cons, List.flatMap_cons, List.map_append, List.foldl_append,
      List.append_assoc]

theorem items_refreshLibrary :
    (refreshLibrary (serve listing) library now (some cursor)).items =
      ((listings library).flatMap (page listing cursor)).map Item.normalised := by
  unfold refreshLibrary
  dsimp only
  rw [foldl_gather]
  rfl

theorem cursor_refreshLibrary
    (h : 0 < (((listings library).flatMap (page listing cursor)).map Item.stamp).foldl max cursor) :
    (refreshLibrary (serve listing) library now (some cursor)).cursor =
      (((listings library).flatMap (page listing cursor)).map Item.stamp).foldl max cursor := by
  unfold refreshLibrary
  dsimp only
  rw [foldl_gather]
  exact if_pos h

end PlexHandler

/-! ### The walk -/

section Walk

variable [LinearOrder α] {store : List (Item α)} {listing : ListingQuery α → List (Item α)}

/-- The refreshes from a cursor on give everything that was changed at it or later. -/
def GivesAll (refresh : Option α → LibraryRefresh α) (store : List (Item α)) (c : α) : Prop :=
  ∃ n, ∀ item ∈ store, c ≤ item.stamp →
    ∃ k < n, item.normalised ∈ (refresh (some (cursorAfter refresh c k))).items

/-- Refreshes that give what some listings give, and go on from the newest of it. -/
theorem givesAll_of_fits (h : Honours store listing) {listings : List (List MediaKind)}
    {refresh : Option α → LibraryRefresh α} {c : α}
    (hitems : ∀ cursor, (refresh (some cursor)).items =
      (listings.flatMap (page listing cursor)).map Item.normalised)
    (hcursor : ∀ cursor, (∃ one ∈ listings.flatMap (page listing cursor), cursor < one.stamp) →
      (refresh (some cursor)).cursor =
        ((listings.flatMap (page listing cursor)).map Item.stamp).foldl max cursor)
    (hfits : ∀ n, Fits store listing listings (cursorAfter refresh c n)) :
    GivesAll refresh store c := by
  obtain ⟨n, hn⟩ := CursorWalk.exists_all_given (c := c) fun n =>
    exhausts_or_advances h (hfits n) (fun cursor => (refresh (some cursor)).cursor)
      fun one hone hlt => by
        rw [hcursor _ ⟨one, hone, hlt⟩]
        exact newest_spec hone hlt
  refine ⟨n, fun item hitem hle => ?_⟩
  obtain ⟨k, hk, hgiven⟩ := hn item hitem hle
  refine ⟨k, hk, ?_⟩
  rw [hitems]
  exact List.mem_map_of_mem hgiven

/-- Where everything bears the first cursor's stamp, the walk stays there, and one listing is all it
ever gives. -/
theorem not_givesAll_of_tied (h : Honours store listing) (kinds : List MediaKind)
    {refresh : Option α → LibraryRefresh α} {c : α} (htied : ∀ item ∈ store, item.stamp = c)
    (hitems : (refresh (some c)).items = (page listing c kinds).map Item.normalised)
    (hstays : (refresh (some c)).cursor = c) (hnodup : (store.map Item.normalised).Nodup)
    (hmany : 200 < store.length) : ¬ GivesAll refresh store c := by
  rintro ⟨n, hn⟩
  have hsub : store.map Item.normalised ⊆ (page listing c kinds).map Item.normalised := by
    intro one hone
    obtain ⟨item, hitem, rfl⟩ := List.mem_map.mp hone
    obtain ⟨k, -, hgiven⟩ := hn item hitem (htied item hitem).ge
    have hthere : cursorAfter refresh c k = c := Function.iterate_fixed hstays k
    rwa [hthere, hitems] at hgiven
  have hle := (hnodup.subperm hsub).length_le
  have hcapped : (page listing c kinds).length ≤ 200 := h.capped
  rw [List.length_map, List.length_map] at hle
  omega

theorem newest_of_tied {items : List (Item α)} {c : α} (h : ∀ item ∈ items, item.stamp = c) :
    (items.map Item.stamp).foldl max c = c := by
  rcases mem_foldl_max (items.map Item.stamp) c with heq | hmem
  · exact heq
  · obtain ⟨item, hitem, hstamp⟩ := List.mem_map.mp hmem
    rw [← hstamp]
    exact h item hitem

end Walk

/-- **A refresh passes over nothing** where every cursor it comes to fits: a refresh of Jellyfin and
one of Plex, each time from where the last one left off, give everything changed since the first
cursor in a finite number of calls. -/
theorem refreshLibrary_givesAll (library : LibraryKind) :
    (∀ {α : Type} [LinearOrder α] {store : List (Item α)}
        {listing : ListingQuery α → List (Item α)}, Honours store listing → ∀ now c : α,
      let refresh := JellyfinHandler.refreshLibrary (serve listing) library now
      (∀ n, Fits store listing (JellyfinHandler.listings library) (cursorAfter refresh c n)) →
        GivesAll refresh store c) ∧
    (∀ {store : List (Item ℕ)} {listing : ListingQuery ℕ → List (Item ℕ)},
      Honours store listing → ∀ now c : ℕ,
      let refresh := PlexHandler.refreshLibrary (serve listing) library now
      (∀ n, Fits store listing (PlexHandler.listings library) (cursorAfter refresh c n)) →
        GivesAll refresh store c) := by
  constructor
  · intro α _ store listing h now c refresh hfits
    exact givesAll_of_fits h (JellyfinHandler.items_refreshLibrary listing library now)
      (fun cursor _ => JellyfinHandler.cursor_refreshLibrary listing library now cursor) hfits
  · intro store listing h now c refresh hfits
    refine givesAll_of_fits h (PlexHandler.items_refreshLibrary listing library now) ?_ hfits
    intro cursor ⟨one, hone, hlt⟩
    have hle := (newest_spec hone hlt).1
    exact PlexHandler.cursor_refreshLibrary listing library now cursor (by omega)

/-- The items of a query, oldest change first. -/
def changed (store : List (Item ℕ)) (kinds : List MediaKind) (since : Option ℕ) : List (Item ℕ) :=
  (store.filter fun item => item.kind ∈ kinds ∧ since.all (· ≤ item.stamp)).insertionSort
    (·.stamp ≤ ·.stamp)

theorem mem_changed {store : List (Item ℕ)} {kinds : List MediaKind} {since : ℕ} {item : Item ℕ} :
    item ∈ changed store kinds (some since) ↔ Asked store kinds since item := by
  simp [changed, List.mem_insertionSort, Asked]

theorem pairwise_changed (store : List (Item ℕ)) (kinds : List MediaKind) (since : Option ℕ) :
    (changed store kinds since).Pairwise (·.stamp ≤ ·.stamp) := by
  have : IsTrans (Item ℕ) (·.stamp ≤ ·.stamp) := ⟨fun _ _ _ => le_trans⟩
  have : Std.Total fun a b : Item ℕ => a.stamp ≤ b.stamp := ⟨fun a b => le_total a.stamp b.stamp⟩
  exact List.pairwise_insertionSort _ _

def oldestFirst (store : List (Item ℕ)) (query : ListingQuery ℕ) : List (Item ℕ) :=
  (changed store query.kinds query.since).take query.limit

theorem honours_oldestFirst {store : List (Item ℕ)} (hnodup : store.Nodup) :
    Honours store (oldestFirst store) := by
  constructor
  · intro kinds since limit item hitem
    exact mem_changed.mp (List.mem_of_mem_take hitem)
  · intro kinds since limit
    refine List.Nodup.sublist (List.take_sublist _ _) ?_
    exact (List.perm_insertionSort _ _).nodup_iff.mpr (hnodup.filter _)
  · intro kinds since limit
    exact (pairwise_changed store kinds (some since)).sublist (List.take_sublist _ _)
  · intro kinds since limit
    exact List.length_take_le _ _
  · intro kinds since limit item hitem hout
    have hitem := mem_changed.mpr hitem
    obtain ⟨i, hi, hget⟩ := List.getElem_of_mem hitem
    -- What is not among the first ones stands behind each of them.
    have hbound : limit ≤ i := by
      by_contra hlt
      exact hout (List.mem_take_iff_getElem.mpr ⟨i, lt_min (not_le.mp hlt) hi, hget⟩)
    refine ⟨List.length_take_of_le (le_trans hbound hi.le), fun one hone => ?_⟩
    obtain ⟨j, hj, hgetj⟩ := List.mem_take_iff_getElem.mp hone
    have hlt : j < i := lt_of_lt_of_le (lt_min_iff.mp hj).1 hbound
    rw [← hget, ← hgetj]
    exact List.pairwise_iff_getElem.mp (pairwise_changed store kinds (some since)) j i _ hi hlt

/-- A movie whose identifier is so many strokes. -/
def strokes (n stamp : ℕ) : Item ℕ where
  externalId := String.ofList (List.replicate (n + 1) 'i')
  named := by
    rw [List.replicate_succ]
    intro h
    exact absurd (String.ofList_injective (h.trans rfl)) (List.cons_ne_nil _ _)
  kind := .MOVIE
  stamp := stamp

theorem normalised_strokes_injective (stamp : ℕ) :
    Function.Injective fun n => (strokes n stamp).normalised := by
  intro m n h
  have hlists := String.ofList_injective (congrArg NormalisedItem.externalId h)
  have hlengths := congrArg List.length hlists
  simpa using hlengths

def imported (count : ℕ) : List (Item ℕ) :=
  (List.range count).map (strokes · 5)

theorem nodup_normalised_imported (count : ℕ) : ((imported count).map Item.normalised).Nodup := by
  rw [imported, List.map_map]
  exact List.nodup_range.map (normalised_strokes_injective 5)

theorem stamp_of_mem_imported {count : ℕ} {item : Item ℕ} (h : item ∈ imported count) :
    item.stamp = 5 := by
  obtain ⟨n, -, rfl⟩ := List.mem_map.mp h
  rfl

theorem kind_of_mem_imported {count : ℕ} {item : Item ℕ} (h : item ∈ imported count) :
    item.kind = .MOVIE := by
  obtain ⟨n, -, rfl⟩ := List.mem_map.mp h
  rfl

theorem honours_imported (count : ℕ) : Honours (imported count) (oldestFirst (imported count)) :=
  honours_oldestFirst (List.Nodup.of_map _ (nodup_normalised_imported count))

/-- Three movies of one second are given. -/
theorem refreshLibrary_givesAll_three :
    GivesAll (JellyfinHandler.refreshLibrary (serve (oldestFirst (imported 3))) .MOVIES 9)
        (imported 3) 5 ∧
      GivesAll (PlexHandler.refreshLibrary (serve (oldestFirst (imported 3))) .MOVIES 9)
        (imported 3) 5 := by
  have hroom : ∀ cursor : ℕ, ((imported 3).filter fun one => one.stamp = cursor).length < 200 :=
    fun cursor => lt_of_le_of_lt (List.length_filter_le _ _) (by decide)
  refine ⟨(refreshLibrary_givesAll .MOVIES).1 (honours_imported 3) 9 5 fun n => ?_,
    (refreshLibrary_givesAll .MOVIES).2 (honours_imported 3) 9 5 fun n => ?_⟩
  · refine fits_of_room (fun item hitem => ?_) (hroom _)
    rw [kind_of_mem_imported hitem]
    decide
  · refine fits_of_room (fun item hitem => ?_) (hroom _)
    rw [kind_of_mem_imported hitem]
    decide

/-- Two hundred and one movies of one second are not: the cursor stays, and so does the listing. -/
theorem not_givesAll_bulkImport :
    Honours (imported 201) (oldestFirst (imported 201)) ∧
      ¬ GivesAll (JellyfinHandler.refreshLibrary (serve (oldestFirst (imported 201))) .MOVIES 9)
        (imported 201) 5 ∧
      ¬ GivesAll (PlexHandler.refreshLibrary (serve (oldestFirst (imported 201))) .MOVIES 9)
        (imported 201) 5 := by
  have hhonours := honours_imported 201
  have hnodup := nodup_normalised_imported 201
  have hmany : 200 < (imported 201).length := by simp [imported]
  have htied : ∀ kinds, ∀ item ∈ page (oldestFirst (imported 201)) 5 kinds, item.stamp = 5 :=
    fun kinds item hitem => stamp_of_mem_imported (hhonours.asked item hitem).1
  refine ⟨hhonours, ?_, ?_⟩
  · refine not_givesAll_of_tied hhonours (JellyfinHandler.includeTypes .MOVIES)
      (fun item => stamp_of_mem_imported) ?_ ?_ hnodup hmany
    · rw [JellyfinHandler.items_refreshLibrary, JellyfinHandler.listings, List.flatMap_singleton]
    · rw [JellyfinHandler.cursor_refreshLibrary, JellyfinHandler.listings, List.flatMap_singleton]
      exact newest_of_tied (htied _)
  · have hnewest : (((PlexHandler.listings .MOVIES).flatMap
        (page (oldestFirst (imported 201)) 5)).map Item.stamp).foldl max 5 = 5 :=
      newest_of_tied fun item hitem => by
        obtain ⟨kinds, -, hitem⟩ := List.mem_flatMap.mp hitem
        exact htied kinds item hitem
    refine not_givesAll_of_tied hhonours [.MOVIE]
      (fun item => stamp_of_mem_imported) ?_ ?_ hnodup hmany
    · rw [PlexHandler.items_refreshLibrary]
      exact congrArg _ (List.flatMap_singleton _ [MediaKind.MOVIE])
    · rw [PlexHandler.cursor_refreshLibrary, hnewest]
      omega

end MediaCenterSync.Handlers
