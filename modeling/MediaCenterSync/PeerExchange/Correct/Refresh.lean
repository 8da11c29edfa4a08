import MediaCenterSync.Lib.LabelledRun
import MediaCenterSync.PeerExchange.Correct.Hidden

/-!
# What a refresh misses

Their page is cut first and filtered afterwards, and the walk stops at the first page that is
empty.  So a complete walk is exact where the rows older than the cursor do not fill a page, or no
row is newer (`fetchCatalogue_exact_iff`).  The cursor is stamped when the walk is over, and a row
that is written moves to the end of the order.  So what is written once the walk has had a page read
may be passed over by this walk and by every later one, and so may what is stamped as older than the
cursor; where the walk that moves the cursor was not disturbed in this way, and is exact, it leaves
nothing behind (`Kept.step`).
-/

namespace MediaCenterSync.PeerExchange

open Peers Share LabelledRun

/-! ### Pages of a list -/

section Pages

variable {α β : Type*} {rows : List α} {c : α → Bool} {K m : ℕ}

/-- An empty page is the last, where what is filtered out does not fill a page. -/
theorem not_mem_rest (hshown : (rows.filter (!c ·)).length < K ∨ ∀ row ∈ rows, ¬ c row)
    (hpage : ((rows.drop m).take K).filter c = []) : ∀ row ∈ rows.drop m, ¬ c row := by
  obtain hold | hnone := hshown
  · have hempty : ∀ row ∈ (rows.drop m).take K, ¬ c row := List.filter_eq_nil_iff.mp hpage
    have hshort : (rows.drop m).length < K := by
      by_contra hlong
      -- a full page of rows that are filtered out
      have hfull : ((rows.drop m).take K).length = K := by
        rw [List.length_take]
        omega
      have hall : ((rows.drop m).take K).filter (!c ·) = (rows.drop m).take K :=
        List.filter_eq_self.mpr fun row hrow => by simpa using hempty row hrow
      have hsub : (((rows.drop m).take K).filter (!c ·)).length ≤ (rows.filter (!c ·)).length :=
        (((List.take_sublist _ _).trans (List.drop_sublist _ _)).filter _).length_le
      rw [hall, hfull] at hsub
      omega
    rw [List.take_of_length_le hshort.le] at hempty
    exact hempty
  · exact fun row hrow => hnone row (List.mem_of_mem_drop hrow)

theorem filter_append_filter (h : rows.Pairwise fun left right => c left → c right) :
    rows.filter (!c ·) ++ rows.filter c = rows := by
  induction rows with
  | nil => rfl
  | cons row rows ih =>
    obtain ⟨hrow, hrows⟩ := List.pairwise_cons.mp h
    cases hc : c row with
    | true =>
      have hall : ∀ other ∈ rows, c other := fun other hother => hrow other hother hc
      rw [List.filter_eq_nil_iff.mpr (by simpa [hc] using hall), List.nil_append,
        List.filter_eq_self.mpr (by simpa [hc] using hall)]
    | false =>
      rw [List.filter_cons_of_pos (by simp [hc]), List.filter_cons_of_neg (by simp [hc]),
        List.cons_append, ih hrows]

theorem flatMap_pages (f : α → β) (n : ℕ) :
    ((List.range' 1 n).flatMap fun page =>
      (((rows.drop ((page - 1) * K)).take K).filter c).map f) =
      ((rows.take (n * K)).filter c).map f := by
  induction n with
  | zero => simp
  | succ n ih =>
    rw [List.range'_1_concat, List.flatMap_append, ih, List.flatMap_singleton,
      Nat.add_sub_cancel_left, Nat.succ_mul, List.take_add, List.filter_append, List.map_append]

end Pages

theorem walkPages_complete {Entry : Type*} {ask : ℕ → Option (List Entry)} {rows : ℕ → List Entry}
    {fuel : ℕ} {walk : PageWalk Entry} {entries : List Entry}
    (hask : ∀ page, walk.page ≤ page → ask page = none ∨ ask page = some (rows page))
    (h : walkPages ask fuel walk = (entries, true)) :
    ∃ n, rows (walk.page + n) = [] ∧
      entries = walk.entries ++ (List.range' walk.page n).flatMap rows := by
  induction fuel generalizing walk with
  | zero => cases h
  | succ fuel ih =>
    unfold walkPages PageWalk.next at h
    obtain hnone | hsome := hask walk.page le_rfl
    · rw [hnone] at h
      cases h
    · rw [hsome] at h
      cases hrows : rows walk.page with
      | nil =>
        rw [hrows] at h
        obtain rfl := congrArg Prod.fst h
        exact ⟨0, hrows, (List.append_nil _).symm⟩
      | cons row rest =>
        rw [hrows] at h
        dsimp only at h
        by_cases hceiling : walk.page < MAX_CATALOGUE_PAGES
        · rw [if_pos hceiling] at h
          obtain ⟨n, hempty, rfl⟩ := ih (fun page hpage => hask page (Nat.le_of_succ_le hpage)) h
          refine ⟨n + 1, ?_, ?_⟩
          · rw [← hempty, Nat.add_right_comm, Nat.add_assoc]
          · rw [List.range'_succ, List.flatMap_cons, hrows, List.append_assoc]
        · rw [if_neg hceiling] at h
          cases h

/-! ### A complete walk -/

namespace Gateway

variable {w : World} {g : Gateway} {peer : Peer} {libraryId : Option String}
  {policies : List CataloguePolicy} {since : Option ℤ} {page : ℕ}

/-- The rows in the order of their stamps. -/
def sorted (g : Gateway) (policies : List CataloguePolicy) : List MediaItem :=
  (g.itemsOf policies).insertionSort fun left right =>
    toLex (left.updatedAt, left.id) ≤ toLex (right.updatedAt, right.id)

def rest (g : Gateway) (policies : List CataloguePolicy) (page : ℕ) : List MediaItem :=
  (g.sorted policies).drop ((page - 1) * CATALOGUE_PAGE)

theorem perm_sorted : (g.sorted policies).Perm (g.itemsOf policies) := List.perm_insertionSort _ _

theorem pageOf_eq : g.pageOf policies page = (g.rest policies page).take CATALOGUE_PAGE := rfl

theorem mem_rest_one {item : MediaItem} : item ∈ g.rest policies 1 ↔ item ∈ g.itemsOf policies := by
  unfold rest
  rw [Nat.sub_self, Nat.zero_mul, List.drop_zero, perm_sorted.mem_iff]

theorem rest_succ (hpage : 1 ≤ page) :
    g.rest policies (page + 1) = (g.rest policies page).drop CATALOGUE_PAGE := by
  have hrows : (page - 1) * CATALOGUE_PAGE + CATALOGUE_PAGE = page * CATALOGUE_PAGE := by
    obtain ⟨page, rfl⟩ := Nat.exists_eq_add_of_le' hpage
    rw [Nat.add_sub_cancel, Nat.succ_mul]
  unfold rest
  rw [List.drop_drop, Nat.add_sub_cancel, hrows]

theorem catalogue_eq (hpeer : g.requirePeer peer.id = .ok peer) (sinceRaw : Option String)
    (hpage : 1 ≤ page) :
    g.catalogue w peer.id sinceRaw page libraryId =
      .ok (g.cataloguePage (g.wanted peer libraryId) (Gateway.since w sinceRaw) page) := by
  have hround : (max 1 ⌊(page : ℚ)⌋).toNat = page := by
    rw [show ⌊(page : ℚ)⌋ = (page : ℤ) from Int.floor_natCast page]
    omega
  unfold catalogue
  rw [hpeer]
  dsimp only [bind, Except.bind]
  rw [hround]
  rfl

/-- The rows that are older do not fill a page, or none is newer. -/
def Shown (g : Gateway) (policies : List CataloguePolicy) (since : Option ℤ) : Prop :=
  ((g.itemsOf policies).filter (!changed since ·)).length < CATALOGUE_PAGE ∨
    ∀ item ∈ g.itemsOf policies, ¬ changed since item

instance : Decidable (g.Shown policies since) := inferInstanceAs (Decidable (_ ∨ _))

theorem Shown.not_mem_rest (h : g.Shown policies since)
    (hempty : g.cataloguePage policies since page = []) :
    ∀ item ∈ g.rest policies page, ¬ changed since item := by
  refine PeerExchange.not_mem_rest ?_ (List.map_eq_nil_iff.mp hempty)
  refine h.imp ?_ ?_
  · intro hfew
    rwa [(perm_sorted.filter _).length_eq]
  · exact fun hnone item hitem => hnone item (perm_sorted.mem_iff.mp hitem)

/-- What is asked of the gateway is answered by it, or not at all. -/
def Serves (g : Gateway) (w : World) (peer : Peer) (sinceRaw libraryId : Option String)
    (ask : ℕ → Option (List CatalogueEntry)) : Prop :=
  ∀ page, 1 ≤ page → ask page = none ∨
    ask page = (g.catalogue w peer.id sinceRaw page libraryId).toOption

theorem pairwise_changed (since : Option ℤ) :
    (g.sorted policies).Pairwise fun left right => changed since left → changed since right := by
  have hsorted : (g.sorted policies).Pairwise fun left right =>
      toLex (left.updatedAt, left.id) ≤ toLex (right.updatedAt, right.id) :=
    List.pairwise_insertionSort _ _
  refine hsorted.imp fun {left right} hle => ?_
  have hstamp : left.updatedAt ≤ right.updatedAt := by
    obtain hless | hsame := Prod.Lex.toLex_le_toLex.mp hle
    · exact le_of_lt hless
    · exact le_of_eq hsame.1
  unfold changed
  cases since with
  | none => exact id
  | some since => simpa using fun h => h.trans hstamp

/-- **A complete walk is exact**, each row once, exactly where the rows that are older do not fill a
page, or none is newer. -/
theorem fetchCatalogue_exact_iff (hpeer : g.requirePeer peer.id = .ok peer)
    (sinceRaw : Option String) :
    (∀ ask, g.Serves w peer sinceRaw libraryId ask →
      ∀ entries, fetchCatalogue ask = (entries, true) →
      entries.Perm (((g.itemsOf (g.wanted peer libraryId)).filter
        (changed (Gateway.since w sinceRaw))).map entry)) ↔
    g.Shown (g.wanted peer libraryId) (Gateway.since w sinceRaw) := by
  set policies := g.wanted peer libraryId
  set since := Gateway.since w sinceRaw
  have hperm : (g.sorted policies).Perm (g.itemsOf policies) := perm_sorted
  constructor
  · intro h
    by_contra hhidden
    unfold Shown at hhidden
    obtain ⟨hfull, item, hitem, hnew⟩ : CATALOGUE_PAGE ≤
        ((g.itemsOf policies).filter (!changed since ·)).length ∧
        ∃ item ∈ g.itemsOf policies, changed since item := by
      simpa only [not_or, not_lt, not_forall, not_not, exists_prop] using hhidden
    -- the first page is all older rows, and so it is empty
    have hfirst : g.cataloguePage policies since 1 = [] := by
      unfold cataloguePage
      rw [pageOf_eq]
      unfold rest
      rw [Nat.sub_self, Nat.zero_mul, List.drop_zero,
        ← filter_append_filter (pairwise_changed since),
        List.take_append_of_le_length (by rwa [(hperm.filter _).length_eq])]
      refine List.map_eq_nil_iff.mpr (List.filter_eq_nil_iff.mpr fun row hrow => ?_)
      have hold := (List.mem_filter.mp (List.mem_of_mem_take hrow)).2
      simpa using hold
    have hserves : g.Serves w peer sinceRaw libraryId fun page =>
        (g.catalogue w peer.id sinceRaw page libraryId).toOption := fun _ _ => .inr rfl
    have hwalk : fetchCatalogue (fun page : ℕ =>
        (g.catalogue w peer.id sinceRaw page libraryId).toOption) = ([], true) := by
      unfold fetchCatalogue
      rw [show MAX_CATALOGUE_PAGES = 499 + 1 from rfl]
      unfold walkPages PageWalk.start PageWalk.next
      dsimp only
      rw [catalogue_eq hpeer sinceRaw le_rfl, hfirst]
      rfl
    have hnil := (h _ hserves _ hwalk).nil_eq
    have hmem : entry item ∈ ((g.itemsOf policies).filter (changed since)).map entry :=
      List.mem_map_of_mem (List.mem_filter.mpr ⟨hitem, hnew⟩)
    rw [← hnil] at hmem
    cases hmem
  · intro hshown ask hask entries h
    have hrows : ∀ page, 1 ≤ page → ask page = none ∨
        ask page = some (g.cataloguePage policies since page) := by
      intro page hpage
      refine (hask page hpage).imp_right fun hanswer => ?_
      rw [hanswer, catalogue_eq hpeer sinceRaw hpage]
      rfl
    obtain ⟨n, hempty, rfl⟩ := walkPages_complete hrows h
    have hpages : (List.range' 1 n).flatMap (g.cataloguePage policies since) =
        (((g.sorted policies).take (n * CATALOGUE_PAGE)).filter (changed since)).map entry :=
      flatMap_pages entry n
    have hrest : ((g.sorted policies).drop (n * CATALOGUE_PAGE)).filter (changed since) = [] := by
      have hnone := hshown.not_mem_rest hempty
      unfold rest PageWalk.start at hnone
      rw [Nat.add_sub_cancel_left] at hnone
      exact List.filter_eq_nil_iff.mpr hnone
    have htaken : ((g.sorted policies).take (n * CATALOGUE_PAGE)).filter (changed since) =
        (g.sorted policies).filter (changed since) := by
      calc ((g.sorted policies).take (n * CATALOGUE_PAGE)).filter (changed since)
        _ = ((g.sorted policies).take (n * CATALOGUE_PAGE) ++
              (g.sorted policies).drop (n * CATALOGUE_PAGE)).filter (changed since) := by
          rw [List.filter_append, hrest, List.append_nil]
        _ = (g.sorted policies).filter (changed since) := by rw [List.take_append_drop]
    change ([] ++ (List.range' 1 n).flatMap (g.cataloguePage policies since)).Perm _
    rw [List.nil_append, hpages, htaken]
    exact (hperm.filter _).map _

/-! ### What a write leaves -/

theorem write_shares (item : MediaItem) (stamp : ℤ) : (g.write item stamp).shares = g.shares := by
  unfold write
  dsimp only
  split <;> rfl

theorem wanted_write (item : MediaItem) (stamp : ℤ) :
    (g.write item stamp).wanted peer libraryId = g.wanted peer libraryId := by
  unfold wanted
  rw [write_shares]

theorem mem_write_self (item : MediaItem) (stamp : ℤ) :
    { item with updatedAt := stamp } ∈ (g.write item stamp).items := by
  unfold write
  dsimp only
  split
  · next hknown =>
    obtain ⟨row, hrow, hid⟩ := List.mem_map.mp hknown
    exact List.mem_map.mpr ⟨row, hrow, if_pos hid⟩
  · exact List.mem_append.mpr (.inr (List.mem_singleton.mpr rfl))

theorem mem_write_of_ne {item row : MediaItem} {stamp : ℤ} (hrow : row ∈ g.items)
    (hid : row.id ≠ item.id) : row ∈ (g.write item stamp).items := by
  unfold write
  dsimp only
  split
  · exact List.mem_map.mpr ⟨row, hrow, if_neg hid⟩
  · exact List.mem_append.mpr (.inl hrow)

end Gateway

/-! ### Refreshes and writes -/

namespace Refreshing

variable {peer : Peer} {libraryId : Option String} {s s' : Refreshing}

abbrev policies (s : Refreshing) (peer : Peer) (libraryId : Option String) : List CataloguePolicy :=
  s.gateway.wanted peer libraryId

/-- The row is one that is wanted, and is new to the cursor. -/
def IsNew (peer : Peer) (libraryId : Option String) (s : Refreshing) (item : MediaItem) : Prop :=
  item ∈ s.gateway.itemsOf (s.policies peer libraryId) ∧ Gateway.changed s.cursor item

/-- What is waiting is new to the cursor, and ahead of a walk that was not disturbed. -/
structure Kept (peer : Peer) (libraryId : Option String) (s : Refreshing) : Prop where
  serial : ∀ update ∈ s.waiting, update.serial < s.writes
  completed : s.completed ≤ s.begun
  begun : ∀ update ∈ s.waiting, s.completed ≤ update.begun
  idle : s.walk = none → s.answer = none
  page : ∀ walk ∈ s.walk, 1 ≤ walk.page
  new : ∀ update ∈ s.waiting, ∃ item, s.IsNew peer libraryId item ∧ item.id = update.itemId
  read : ∀ walk ∈ s.walk, ∀ answer ∈ s.answer, s.moved = false →
    answer = ⟨s.gateway.cataloguePage (s.policies peer libraryId) s.cursor walk.page, s.writes⟩
  ahead : ∀ walk ∈ s.walk, s.moved = false → ∀ update ∈ s.waiting,
    ∃ item ∈ s.gateway.rest (s.policies peer libraryId) walk.page, item.id = update.itemId

/-- No row is stamped as older than the cursor; a walk that moves the cursor was not disturbed, and
the rows older than the cursor did not fill a page or none was newer. -/
def Undisturbed (peer : Peer) (libraryId : Option String) (s : Refreshing) : Event → Prop
  | .write _ stamp => ∀ since ∈ s.cursor, since ≤ stamp
  | .receive => ∀ answer ∈ s.answer, answer.entries = [] →
      s.moved = false ∧ s.gateway.Shown (s.policies peer libraryId) s.cursor
  | _ => True

instance (s : Refreshing) : (event : Event) → Decidable (Undisturbed peer libraryId s event)
  | .write .. | .receive => inferInstanceAs (Decidable (∀ _ ∈ _, _))
  | .tick _ | .begin | .read | .fail => inferInstanceAs (Decidable True)

theorem IsNew.eq_of_id {item other : MediaItem} (h : s.IsNew peer libraryId item)
    (hother : other ∈ s.gateway.items) (hid : other.id = item.id) : other = item :=
  List.inj_on_of_nodup_map s.gateway.itemIds hother (List.mem_of_mem_filter h.1) hid

/-- A row that is ahead of a page and not on it is ahead of the next. -/
theorem Kept.mem_rest_succ {walk : PageWalk CatalogueEntry} (h : s.Kept peer libraryId)
    (hwalk : s.walk = some walk) (hmoved : s.moved = false) {update : Update}
    (hupdate : update ∈ s.waiting)
    (hpage : update.itemId ∉ (s.gateway.cataloguePage (s.policies peer libraryId) s.cursor
      walk.page).map (·.externalId)) :
    ∃ item ∈ s.gateway.rest (s.policies peer libraryId) (walk.page + 1),
      item.id = update.itemId := by
  obtain ⟨item, hitem, hid⟩ := h.ahead walk hwalk hmoved update hupdate
  obtain ⟨other, hnew, hother⟩ := h.new update hupdate
  have hmem : item ∈ s.gateway.itemsOf (s.policies peer libraryId) :=
    Gateway.perm_sorted.mem_iff.mp (List.mem_of_mem_drop hitem)
  obtain rfl := hnew.eq_of_id (List.mem_of_mem_filter hmem) (hid.trans hother.symm)
  refine ⟨item, ?_, hid⟩
  rw [Gateway.rest_succ (h.page walk hwalk)]
  rw [← List.take_append_drop CATALOGUE_PAGE (s.gateway.rest _ walk.page)] at hitem
  obtain hhere | hlater := List.mem_append.mp hitem
  · -- on the page, and changed: then it is in the answer
    refine absurd (List.mem_map.mpr ⟨entry item, ?_, hid⟩) hpage
    exact List.mem_map_of_mem (List.mem_filter.mpr ⟨hhere, hnew.2⟩)
  · exact hlater

theorem Kept.not_mem_waiting {walk : PageWalk CatalogueEntry} (h : s.Kept peer libraryId)
    (hwalk : s.walk = some walk) (hmoved : s.moved = false)
    (hshown : s.gateway.Shown (s.policies peer libraryId) s.cursor)
    (hempty : s.gateway.cataloguePage (s.policies peer libraryId) s.cursor walk.page = [])
    (update : Update) : update ∉ s.waiting := by
  intro hupdate
  obtain ⟨item, hitem, hid⟩ := h.ahead walk hwalk hmoved update hupdate
  obtain ⟨other, hnew, hother⟩ := h.new update hupdate
  have hmem : item ∈ s.gateway.itemsOf (s.policies peer libraryId) :=
    Gateway.perm_sorted.mem_iff.mp (List.mem_of_mem_drop hitem)
  obtain rfl := hnew.eq_of_id (List.mem_of_mem_filter hmem) (hid.trans hother.symm)
  exact hshown.not_mem_rest hempty item hitem hnew.2

theorem Kept.new_write {item : MediaItem} {stamp : ℤ} (h : s.Kept peer libraryId)
    (hlibrary : ∀ row ∈ s.gateway.items, row.id = item.id → row.libraryId = item.libraryId)
    (hstamp : ∀ since ∈ s.cursor, since ≤ stamp) {update : Update} (hupdate : update ∈ s.waiting) :
    ∃ row ∈ (s.gateway.write item stamp).itemsOf
        ((s.gateway.write item stamp).wanted peer libraryId),
      Gateway.changed s.cursor row ∧ row.id = update.itemId := by
  obtain ⟨row, ⟨hrow, hchanged⟩, hid⟩ := h.new update hupdate
  obtain ⟨hmem, hwanted⟩ := List.mem_filter.mp hrow
  rw [Gateway.wanted_write]
  by_cases hsame : row.id = item.id
  · refine ⟨{ item with updatedAt := stamp },
      List.mem_filter.mpr ⟨Gateway.mem_write_self _ _, ?_⟩,
      ?_, hsame.symm.trans hid⟩
    · rwa [← hlibrary row hmem hsame]
    · unfold Gateway.changed
      cases hcursor : s.cursor with
      | none => rfl
      | some since => simpa using hstamp since hcursor
  · exact ⟨row, List.mem_filter.mpr ⟨Gateway.mem_write_of_ne hmem hsame, hwanted⟩, hchanged, hid⟩

theorem Kept.write {item : MediaItem} {stamp : ℤ} (h : s.Kept peer libraryId)
    (hstamp : ∀ since ∈ s.cursor, since ≤ stamp)
    (hstep : s.step peer libraryId (.write item stamp) = some s') : s'.Kept peer libraryId := by
  obtain ⟨⟨hlibrary, -⟩, hsome⟩ := Option.ite_none_right_eq_some.mp hstep
  cases hsome
  -- where the walk counts as undisturbed, its first page is still to be read
  have hfirst :
      (s.moved || s.isUnderWay) = false → ∀ walk ∈ s.walk, walk.page = 1 ∧ s.answer = none := by
    intro hmoved walk hwalk
    obtain ⟨-, hunder⟩ := Bool.or_eq_false_iff.mp hmoved
    unfold isUnderWay at hunder
    rw [hwalk] at hunder
    simp only [decide_eq_false_iff_not, not_or, not_lt] at hunder
    exact ⟨le_antisymm hunder.1 (h.page walk hwalk), by simpa using hunder.2⟩
  have hnew : ∀ update ∈ (if item.libraryId ∈ (s.policies peer libraryId).map (·.libraryId) then
        s.waiting ++ [⟨item.id, s.writes, s.begun⟩] else s.waiting),
      ∃ row ∈ (s.gateway.write item stamp).itemsOf
        ((s.gateway.write item stamp).wanted peer libraryId),
        Gateway.changed s.cursor row ∧ row.id = update.itemId := by
    intro update hupdate
    split at hupdate
    · next hwanted =>
      obtain hold | hthis := List.mem_append.mp hupdate
      · exact h.new_write hlibrary hstamp hold
      · obtain rfl := List.mem_singleton.mp hthis
        refine ⟨_, List.mem_filter.mpr ⟨Gateway.mem_write_self item stamp, ?_⟩, ?_, rfl⟩
        · rw [Gateway.wanted_write]
          exact decide_eq_true hwanted
        · unfold Gateway.changed
          cases hcursor : s.cursor with
          | none => rfl
          | some since => simpa using hstamp since hcursor
    · exact h.new_write hlibrary hstamp hupdate
  have hwaiting : ∀ update ∈ (if item.libraryId ∈ (s.policies peer libraryId).map (·.libraryId) then
        s.waiting ++ [⟨item.id, s.writes, s.begun⟩] else s.waiting),
      update ∈ s.waiting ∨ update = ⟨item.id, s.writes, s.begun⟩ := by
    intro update hupdate
    split at hupdate
    · exact (List.mem_append.mp hupdate).imp_right List.mem_singleton.mp
    · exact .inl hupdate
  constructor
  case serial =>
    intro update hupdate
    obtain hold | rfl := hwaiting update hupdate
    · exact Nat.lt_succ_of_lt (h.serial update hold)
    · exact Nat.lt_succ_self _
  case completed => exact h.completed
  case begun =>
    intro update hupdate
    obtain hold | rfl := hwaiting update hupdate
    · exact h.begun update hold
    · exact h.completed
  case idle => exact h.idle
  case page => exact h.page
  case new =>
    intro update hupdate
    obtain ⟨row, hrow, hchanged, hid⟩ := hnew update hupdate
    exact ⟨row, ⟨hrow, hchanged⟩, hid⟩
  case read =>
    intro walk hwalk answer hanswer hmoved
    have hnone := (hfirst (by simpa using hmoved) walk hwalk).2
    change s.answer = some answer at hanswer
    rw [hnone] at hanswer
    cases hanswer
  case ahead =>
    intro walk hwalk hmoved update hupdate
    obtain ⟨row, hrow, hchanged, hid⟩ := hnew update hupdate
    rw [(hfirst (by simpa using hmoved) walk hwalk).1]
    exact ⟨row, Gateway.mem_rest_one.mpr hrow, hid⟩

theorem Kept.over {s' : Refreshing} (h : s.Kept peer libraryId) (hwaiting : s'.waiting ⊆ s.waiting)
    (hgateway : s'.gateway = s.gateway) (hcursor : s'.cursor = s.cursor)
    (hwrites : s'.writes = s.writes) (hbegun : s'.begun = s.begun)
    (hcompleted : s'.completed = s.completed) (hwalk : s'.walk = none)
    (hanswer : s'.answer = none) :
    s'.Kept peer libraryId := by
  constructor
  case serial => rw [hwrites]; exact fun update hupdate => h.serial update (hwaiting hupdate)
  case completed => rw [hcompleted, hbegun]; exact h.completed
  case begun => rw [hcompleted]; exact fun update hupdate => h.begun update (hwaiting hupdate)
  case idle => exact fun _ => hanswer
  case page => rw [hwalk]; exact fun _ hnone => absurd hnone (by simp)
  case new =>
    intro update hupdate
    obtain ⟨item, hitem, hid⟩ := h.new update (hwaiting hupdate)
    refine ⟨item, ?_, hid⟩
    unfold IsNew policies
    rw [hgateway, hcursor]
    exact hitem
  case read => rw [hwalk]; exact fun _ hnone => absurd hnone (by simp)
  case ahead => rw [hwalk]; exact fun _ hnone => absurd hnone (by simp)

theorem Kept.receive (h : s.Kept peer libraryId) (hguard : Undisturbed peer libraryId s .receive)
    (hstep : s.step peer libraryId .receive = some s') : s'.Kept peer libraryId := by
  unfold step at hstep
  cases hwalk : s.walk with
  | none => rw [hwalk] at hstep; cases hstep
  | some walk =>
    cases hanswer : s.answer with
    | none => rw [hwalk, hanswer] at hstep; cases hstep
    | some answer =>
      rw [hwalk, hanswer] at hstep
      cases hstep
      have hwaiting : (s.deliver answer).waiting ⊆ s.waiting :=
        fun _ => List.mem_of_mem_filter
      unfold PageWalk.next
      cases hentries : answer.entries with
      | nil =>
        -- the walk is complete and nothing is waiting
        obtain ⟨hmoved, hshown⟩ := hguard answer hanswer hentries
        have hread := h.read walk hwalk answer hanswer hmoved
        have hempty := hentries
        rw [hread] at hempty
        have hnone : ∀ update, update ∉ (s.deliver answer).waiting := fun update hupdate =>
          h.not_mem_waiting hwalk hmoved hshown hempty update (hwaiting hupdate)
        constructor
        case serial => exact fun update hupdate => absurd hupdate (hnone update)
        case completed => exact le_rfl
        case begun => exact fun update hupdate => absurd hupdate (hnone update)
        case idle => exact fun _ => rfl
        case page => exact fun _ hnone => absurd hnone (by simp [advance])
        case new => exact fun update hupdate => absurd hupdate (hnone update)
        case read => exact fun _ hnone => absurd hnone (by simp [advance])
        case ahead => exact fun _ hnone => absurd hnone (by simp [advance])
      | cons row rows =>
        dsimp only
        split
        · -- another page is asked for
          have hahead : s.moved = false → ∀ update ∈ (s.deliver answer).waiting,
              ∃ item ∈ s.gateway.rest (s.policies peer libraryId) (walk.page + 1),
                item.id = update.itemId := by
            intro hmoved update hupdate
            obtain ⟨hold, hmissed⟩ := List.mem_filter.mp hupdate
            refine h.mem_rest_succ hwalk hmoved hold fun hpage => ?_
            rw [h.read walk hwalk answer hanswer hmoved] at hmissed
            exact of_decide_eq_true hmissed ⟨h.serial update hold, hpage⟩
          constructor
          case serial => exact fun update hupdate => h.serial update (hwaiting hupdate)
          case completed => exact h.completed
          case begun => exact fun update hupdate => h.begun update (hwaiting hupdate)
          case idle => exact fun _ => rfl
          case page =>
            rintro _ ⟨⟩
            exact Nat.le_add_left 1 walk.page
          case new => exact fun update hupdate => h.new update (hwaiting hupdate)
          case read => exact fun _ _ _ hnone => absurd hnone (by simp [advance])
          case ahead =>
            rintro _ ⟨⟩ hmoved update hupdate
            exact hahead hmoved update hupdate
        · -- the ceiling: the cursor stays
          exact h.over hwaiting rfl rfl rfl rfl rfl rfl rfl

theorem Kept.fail (h : s.Kept peer libraryId) (hstep : s.step peer libraryId .fail = some s') :
    s'.Kept peer libraryId := by
  unfold step at hstep
  cases hwalk : s.walk with
  | none => rw [hwalk] at hstep; cases hstep
  | some walk =>
    rw [hwalk] at hstep
    cases hstep
    exact h.over (List.Subset.refl _) rfl rfl rfl rfl rfl rfl rfl

theorem Kept.read_page (h : s.Kept peer libraryId)
    (hstep : s.step peer libraryId .read = some s') : s'.Kept peer libraryId := by
  unfold step at hstep
  cases hwalk : s.walk with
  | none => rw [hwalk] at hstep; cases hstep
  | some walk =>
    cases hanswer : s.answer with
    | some answer => rw [hwalk, hanswer] at hstep; cases hstep
    | none =>
      rw [hwalk, hanswer] at hstep
      cases hstep
      constructor
      case serial => exact h.serial
      case completed => exact h.completed
      case begun => exact h.begun
      case idle => exact fun hnone => absurd hnone (by simp)
      case page => rintro _ ⟨⟩; exact h.page walk hwalk
      case new => exact h.new
      case read => rintro _ ⟨⟩ _ ⟨⟩ _; rfl
      case ahead => rintro _ ⟨⟩; exact h.ahead walk hwalk

/-- **One step** keeps what is waiting new and ahead, where a walk that moves the cursor was not
disturbed. -/
theorem Kept.step {event : Event} (h : s.Kept peer libraryId)
    (hguard : Undisturbed peer libraryId s event)
    (hstep : s.step peer libraryId event = some s') : s'.Kept peer libraryId := by
  cases event with
  | tick milliseconds =>
    cases hstep
    exact { h with }
  | write item stamp => exact h.write hguard hstep
  | begin =>
    unfold Refreshing.step at hstep
    cases hwalk : s.walk with
    | some walk => rw [hwalk] at hstep; cases hstep
    | none =>
      rw [hwalk] at hstep
      cases hstep
      constructor
      case serial => exact h.serial
      case completed => exact h.completed.trans (Nat.le_succ _)
      case begun => exact h.begun
      case idle => exact fun _ => h.idle hwalk
      case page => rintro _ ⟨⟩; exact le_rfl
      case new => exact h.new
      case read =>
        intro _ _ answer hanswer
        change s.answer = some answer at hanswer
        rw [h.idle hwalk] at hanswer
        cases hanswer
      case ahead =>
        rintro _ ⟨⟩ _ update hupdate
        obtain ⟨item, hitem, hid⟩ := h.new update hupdate
        exact ⟨item, Gateway.mem_rest_one.mpr hitem.1, hid⟩
  | read => exact h.read_page hstep
  | receive => exact h.receive hguard hstep
  | fail => exact h.fail hstep

structure Starts (s : Refreshing) : Prop where
  walk : s.walk = none
  answer : s.answer = none
  completed : s.completed = 0
  waiting : s.waiting = []

theorem Starts.kept (h : s.Starts) : s.Kept peer libraryId := by
  have hnone : ∀ update, update ∉ s.waiting := fun update hupdate => by
    rw [h.waiting] at hupdate
    cases hupdate
  have hidle : ∀ walk, walk ∉ s.walk := fun walk hwalk => by
    rw [h.walk] at hwalk
    cases hwalk
  constructor
  case serial => exact fun update hupdate => absurd hupdate (hnone update)
  case completed => rw [h.completed]; exact Nat.zero_le _
  case begun => exact fun update hupdate => absurd hupdate (hnone update)
  case idle => exact fun _ => h.answer
  case page => exact fun walk hwalk => absurd hwalk (hidle walk)
  case new => exact fun update hupdate => absurd hupdate (hnone update)
  case read => exact fun walk hwalk => absurd hwalk (hidle walk)
  case ahead => exact fun walk hwalk => absurd hwalk (hidle walk)

/-- **A refresh misses nothing** where it is not disturbed.  A complete walk is exact exactly where
the rows older than the cursor do not fill a page, or none is newer; and where every walk that moves
the cursor is so, and had no row written since its first page was read, and no row is stamped as older
than the cursor, nothing that was written before a complete refresh began is still waiting after it.
-/
theorem misses_nothing (w : World) {g : Gateway} (hpeer : g.requirePeer peer.id = .ok peer)
    (libraryId sinceRaw : Option String) :
    ((∀ ask, g.Serves w peer sinceRaw libraryId ask →
      ∀ entries, fetchCatalogue ask = (entries, true) →
        entries.Perm (((g.itemsOf (g.wanted peer libraryId)).filter
          (Gateway.changed (Gateway.since w sinceRaw))).map entry)) ↔
      g.Shown (g.wanted peer libraryId) (Gateway.since w sinceRaw)) ∧
    ∀ s₀ events s, Starts s₀ →
      Run (Refreshing.step peer libraryId) (Undisturbed peer libraryId) s₀ events s →
      ∀ update ∈ s.waiting, s.completed ≤ update.begun := by
  refine ⟨Gateway.fetchCatalogue_exact_iff hpeer sinceRaw, fun s₀ events s h₀ hrun => ?_⟩
  have hstart : s₀.Kept peer libraryId := h₀.kept
  have hkept := hrun.invariant (fun _ _ _ hkept hguard hstep => Kept.step hkept hguard hstep) hstart
  exact hkept.begun

end Refreshing

/-! ### A film that is written while the walk goes on -/

/-- A gateway with one film, and a friend who has not asked yet. -/
def oneFilm : Refreshing :=
  { gateway := home [film "a" "films"] (by decide)
    clock := 0, cursor := none, walk := none, answer := none
    writes := 0, begun := 0, completed := 0, moved := false, waiting := [] }

/-- A refresh that is not disturbed: the films that were written, and a page that is empty. -/
def wholeWalk : List Refreshing.Event := [.begin, .read, .receive, .read, .receive]

/-- A film is written after a refresh and found by the next, and another one after that. -/
def twoRefreshes : List Refreshing.Event :=
  wholeWalk ++ [.tick 1500, .write (film "b" "films") 1000] ++ wholeWalk ++
    [.tick 700, .write (film "c" "films") 2000]

/-- The film is found, and so is one that is written between two refreshes; the last one waits. -/
theorem misses_nothing_oneFilm :
    [entry (film "a" "films")].Perm (((oneFilm.gateway.itemsOf
      (oneFilm.gateway.wanted friend none)).filter (Gateway.changed none)).map entry) ∧
    ∃ s, exec (Refreshing.step friend none) (Refreshing.Undisturbed friend none) oneFilm
        twoRefreshes = some s ∧ s.completed = 2 ∧ s.waiting.map (·.itemId) = ["c"] ∧
      ∀ update ∈ s.waiting, s.completed ≤ update.begun := by
  have hpeer : oneFilm.gateway.requirePeer friend.id = .ok friend := rfl
  obtain ⟨hexact, hrun⟩ := Refreshing.misses_nothing quiet hpeer none none
  constructor
  · refine hexact.mpr (.inl (by decide +kernel))
      (fun page => (oneFilm.gateway.catalogue quiet "friend"
      none page none).toOption) (fun _ _ => .inr rfl) _ ?_
    decide +kernel
  · have hexec : (exec (Refreshing.step friend none) (Refreshing.Undisturbed friend none) oneFilm
        twoRefreshes).any (fun s => s.completed = 2 ∧ s.waiting.map (·.itemId) = ["c"]) = true := by
      decide +kernel
    obtain ⟨s, hs, hend⟩ := (Option.any_eq_true _ _).mp hexec
    obtain ⟨hcompleted, hwaiting⟩ := of_decide_eq_true hend
    exact ⟨s, hs, hcompleted, hwaiting,
      hrun oneFilm twoRefreshes s ⟨rfl, rfl, rfl, rfl⟩ (.ofExec hs)⟩

/-- Some update is in no refresh, though one was begun after it and completed. -/
def Missed (events : List Refreshing.Event) : Prop :=
  ∃ s : Refreshing, oneFilm.Starts ∧ Run (Refreshing.step friend none) Free oneFilm events s ∧
    ¬ ∀ update ∈ s.waiting, s.completed ≤ update.begun

/-- A film that is written after the last page was read and before the cursor is stamped, or with a
stamp cut to the second in which the cursor was stamped, is in no later refresh. -/
theorem not_misses_nothing :
    Missed [.begin, .read, .receive, .read, .write (film "b" "films") 0, .tick 1, .receive,
      .begin, .read, .receive] ∧
    Missed (.tick 1500 :: wholeWalk ++
      [.tick 100, .write (film "b" "films") 1000, .begin, .read, .receive]) := by
  have hmissed : ∀ events, (exec (Refreshing.step friend none) Free oneFilm events).any
      (fun s => ¬ ∀ update ∈ s.waiting, s.completed ≤ update.begun) = true → Missed events := by
    intro events hany
    obtain ⟨s, hs, hwaiting⟩ := (Option.any_eq_true _ _).mp hany
    exact ⟨s, ⟨rfl, rfl, rfl, rfl⟩, .ofExec hs, of_decide_eq_true hwaiting⟩
  exact ⟨hmissed _ (by decide +kernel), hmissed _ (by decide +kernel)⟩

end MediaCenterSync.PeerExchange
