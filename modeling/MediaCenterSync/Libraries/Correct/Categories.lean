import Mathlib.Data.List.Find
import Mathlib.Data.String.Basic
import MediaCenterSync.Lib.Comparator
import MediaCenterSync.Libraries.Manager

/-!
# Categories, in whatever order the rows come

A category is named by the first of the libraries that lead it: those at the lowest position among
the libraries that may name it, or all of them when none may (`Named`).  So the categories are the
same for every order of the rows if and only if the leaders of a category read alike and no two
categories stand at one place (`orderFree_iff`).
-/

namespace MediaCenterSync.Libraries

variable {κ : Type*} {language : Language κ}

/-! ### The libraries of one category -/

section

variable (language) (filed : List (String × FiledCategory))

/-- Among some libraries, one that may name their category, at the lowest position of those; or any
of them, when none may. -/
def Leads (rows : List Library) (library : Library) : Prop :=
  ∀ other ∈ rows, (read language filed other).names →
    (read language filed library).names ∧ library.position ≤ other.position

instance (rows : List Library) (library : Library) :
    Decidable (Leads language filed rows library) :=
  inferInstanceAs (Decidable (∀ other ∈ rows, _))

/-- The first of some libraries that leads them. -/
def leader (rows : List Library) : Option Library :=
  rows.find? fun library => decide (Leads language filed rows library)

/-- What a name, a kind and the position they were taken at are of the libraries of a category. -/
structure Named (rows : List Library) (name : String) (kind : Share.LibraryKind)
    (namedAt : Option ℤ) : Prop where
  unnamed : namedAt = none → ∀ library ∈ rows, ¬ (read language filed library).names
  namedAt : ∀ p ∈ namedAt,
    IsLeast {p | ∃ library ∈ rows, (read language filed library).names ∧ library.position = p} p
  led : ∃ library, leader language filed rows = some library ∧
    name = (read language filed library).name ∧ kind = (read language filed library).kind

end

/-- What the rest of a category is of the libraries in it. -/
structure Gathers (ours : List String) (rows : List Library) (category : MediaCategory) :
    Prop where
  libraryIds : category.libraryIds = rows.map (·.id)
  serviceIds : ∀ service, service ∈ category.serviceIds ↔ service ∈ rows.map (·.serviceId)
  itemCount : category.itemCount = (rows.map (·.itemCount)).sum
  isLocal : category.local = rows.any fun library => decide (library.serviceId ∈ ours)
  position : IsLeast {p | ∃ library ∈ rows, library.position = p} category.position

variable {filed : List (String × FiledCategory)} {ours : List String} {rows : List Library}
  {library : Library} {category : MediaCategory} {name : String} {kind : Share.LibraryKind}
  {namedAt : Option ℤ}

theorem Gathers.concat (h : Gathers ours rows category) (library : Library) :
    Gathers ours (rows ++ [library]) (joined ours library category) where
  libraryIds := by rw [joined, h.libraryIds, List.map_append, List.map_singleton]
  serviceIds service := by
    have hrows := h.serviceIds service
    simp only [joined, List.map_append, List.map_singleton, List.mem_append, List.mem_singleton]
    split_ifs with hin
    · rw [hrows]
      refine ⟨.inl, fun hor => hor.elim id fun heq => ?_⟩
      exact hrows.mp (heq ▸ hin)
    · rw [List.mem_append, List.mem_singleton, hrows]
  itemCount := by
    rw [joined, h.itemCount, List.map_append, List.sum_append, List.map_singleton,
      List.sum_singleton]
  isLocal := by
    rw [joined, h.isLocal, List.any_append, List.any_cons, List.any_nil, Bool.or_false]
  position := by
    obtain ⟨⟨least, hleast, heq⟩, hlow⟩ := h.position
    constructor
    · rcases le_total category.position library.position with hle | hle
      · exact ⟨least, List.mem_append_left _ hleast, heq.trans (min_eq_left hle).symm⟩
      · exact ⟨library, List.mem_concat_self, (min_eq_right hle).symm⟩
    · rintro p ⟨other, hother, rfl⟩
      rcases List.mem_append.mp hother with hrow | hlast
      · exact (min_le_left _ _).trans (hlow ⟨other, hrow, rfl⟩)
      · obtain rfl := List.mem_singleton.mp hlast
        exact min_le_right _ _

/-- A library at a lower position than every one that may name the category takes it over. -/
theorem Named.concat_takes (h : Named language filed rows name kind namedAt)
    (hnames : (read language filed library).names)
    (hlow : ∀ p ∈ namedAt, library.position < p) :
    Named language filed (rows ++ [library]) (read language filed library).name
      (read language filed library).kind (some library.position) := by
  have hbelow : ∀ other ∈ rows, (read language filed other).names →
      library.position < other.position := by
    intro other hother hother'
    rcases hat : namedAt with _ | p
    · exact absurd hother' (h.unnamed hat other hother)
    · exact (hlow p hat).trans_le ((h.namedAt p hat).2 ⟨other, hother, hother', rfl⟩)
  have hleads : Leads language filed (rows ++ [library]) library := by
    intro other hother hother'
    refine ⟨hnames, ?_⟩
    rcases List.mem_append.mp hother with hrow | hlast
    · exact (hbelow other hrow hother').le
    · rw [List.mem_singleton.mp hlast]
  refine ⟨fun hnone => absurd hnone (Option.some_ne_none _), ?_, library, ?_, rfl, rfl⟩
  · intro p hp
    cases hp
    refine ⟨⟨library, List.mem_concat_self, hnames, rfl⟩, ?_⟩
    rintro p ⟨other, hother, hother', rfl⟩
    exact (hleads other hother hother').2
  · rw [leader, List.find?_append, List.find?_eq_none.mpr, Option.none_or]
    · exact List.find?_cons_of_pos (decide_eq_true hleads)
    · intro other hother hlead
      obtain ⟨hother', hle⟩ := of_decide_eq_true hlead library List.mem_concat_self hnames
      exact absurd hle (not_le_of_gt (hbelow other hother hother'))

theorem Named.concat_leaves (h : Named language filed rows name kind namedAt)
    (hleaves : ¬ ((read language filed library).names ∧ ∀ p ∈ namedAt, library.position < p)) :
    Named language filed (rows ++ [library]) name kind namedAt := by
  -- a library that may name the category stands no lower than the one it is named after
  have hbeside : (read language filed library).names → ∃ p ∈ namedAt, p ≤ library.position := by
    intro hnames
    by_contra hnone
    push Not at hnone
    exact hleaves ⟨hnames, hnone⟩
  refine ⟨?_, ?_, ?_⟩
  · intro hnone other hother
    rcases List.mem_append.mp hother with hrow | hlast
    · exact h.unnamed hnone other hrow
    · obtain rfl := List.mem_singleton.mp hlast
      intro hnames
      obtain ⟨p, hp, -⟩ := hbeside hnames
      exact absurd (hnone ▸ hp) (Option.not_mem_none p)
  · intro p hp
    obtain ⟨⟨least, hleast, hnames, heq⟩, hlow⟩ := h.namedAt p hp
    refine ⟨⟨least, List.mem_append_left _ hleast, hnames, heq⟩, ?_⟩
    rintro q ⟨other, hother, hother', rfl⟩
    rcases List.mem_append.mp hother with hrow | hlast
    · exact hlow ⟨other, hrow, hother', rfl⟩
    · obtain rfl := List.mem_singleton.mp hlast
      obtain ⟨q, hq, hle⟩ := hbeside hother'
      exact (Option.mem_unique hp hq) ▸ hle
  · obtain ⟨first, hfirst, hname, hkind⟩ := h.led
    refine ⟨first, ?_, hname, hkind⟩
    have hsame : ∀ other ∈ rows, (Leads language filed (rows ++ [library]) other ↔
        Leads language filed rows other) := by
      intro other hother
      refine ⟨fun hlead row hrow => hlead row (List.mem_append_left _ hrow), ?_⟩
      intro hlead row hrow hnames
      rcases List.mem_append.mp hrow with hin | hlast
      · exact hlead row hin hnames
      · obtain rfl := List.mem_singleton.mp hlast
        obtain ⟨p, hp, hle⟩ := hbeside hnames
        obtain ⟨⟨least, hleast, hleast', rfl⟩, -⟩ := h.namedAt p hp
        obtain ⟨hother', hlow⟩ := hlead least hleast hleast'
        exact ⟨hother', hlow.trans hle⟩
    rw [leader, List.find?_append, List.find?_congr fun other hother =>
      decide_eq_decide.mpr (hsame other hother), ← leader, hfirst, Option.some_or]

variable (language filed ours) in
/-- What a category, and the position it was named at, are of its libraries. -/
structure Merges (key : String) (rows : List Library) (entry : MediaCategory × Option ℤ) :
    Prop where
  key : entry.1.key = key
  gathers : Gathers ours rows entry.1
  named : Named language filed rows entry.1.name entry.1.kind entry.2

variable {key : String} {entry : MediaCategory × Option ℤ} {libraries : List Library}

theorem merges_singleton (library : Library) :
    Merges language filed ours (keyOf language filed library) [library]
      (mergeInto language ours filed library none) where
  key := rfl
  gathers := by
    refine ⟨rfl, fun service => Iff.rfl, ?_, ?_, ?_⟩
    · rw [List.map_singleton, List.sum_singleton]
      rfl
    · rw [List.any_cons, List.any_nil, Bool.or_false]
      rfl
    · refine ⟨⟨library, List.mem_singleton_self _, rfl⟩, ?_⟩
      rintro p ⟨other, hother, rfl⟩
      rw [List.mem_singleton.mp hother]
      exact le_rfl
  named := by
    have hleads : Leads language filed [library] library := by
      intro other hother hnames
      obtain rfl := List.mem_singleton.mp hother
      exact ⟨hnames, le_rfl⟩
    refine ⟨?_, ?_, library, List.find?_cons_of_pos (decide_eq_true hleads), rfl, rfl⟩
    · intro hnone other hother hnames
      obtain rfl := List.mem_singleton.mp hother
      rw [mergeInto, if_pos hnames] at hnone
      exact Option.some_ne_none _ hnone
    · intro p hp
      obtain ⟨hnames, heq⟩ := Option.ite_none_right_eq_some.mp hp
      cases heq
      refine ⟨⟨library, List.mem_singleton_self _, hnames, rfl⟩, ?_⟩
      rintro p ⟨other, hother, -, rfl⟩
      rw [List.mem_singleton.mp hother]

theorem Merges.concat (h : Merges language filed ours key rows entry) (library : Library) :
    Merges language filed ours key (rows ++ [library])
      (mergeInto language ours filed library (some entry)) := by
  have hgathers := h.gathers.concat library
  by_cases htakes : (read language filed library).names ∧ ∀ p ∈ entry.2, library.position < p
  · rw [mergeInto, if_pos htakes]
    exact ⟨h.key, ⟨hgathers.libraryIds, hgathers.serviceIds, hgathers.itemCount, hgathers.isLocal,
      hgathers.position⟩, h.named.concat_takes htakes.1 htakes.2⟩
  · rw [mergeInto, if_neg htakes]
    exact ⟨h.key, hgathers, h.named.concat_leaves htakes⟩

theorem exists_merges (hrows : rows ≠ []) (hkey : ∀ row ∈ rows, keyOf language filed row = key) :
    ∃ entry, rows.foldl (fun value row => some (mergeInto language ours filed row value)) none =
      some entry ∧ Merges language filed ours key rows entry := by
  induction rows using List.reverseRecOn with
  | nil => exact absurd rfl hrows
  | append_singleton rows row ih =>
    rw [List.foldl_append]
    rcases eq_or_ne rows [] with rfl | hne
    · obtain rfl := hkey row (List.mem_singleton_self _)
      exact ⟨_, rfl, merges_singleton row⟩
    · obtain ⟨entry, hfold, hmerges⟩ :=
        ih hne fun other hother => hkey other (List.mem_append_left _ hother)
      rw [hfold]
      exact ⟨_, rfl, hmerges.concat row⟩

variable (language filed) in
def sharing (libraries : List Library) (key : String) : List Library :=
  libraries.filter (keyOf language filed · = key)

theorem mem_sharing : library ∈ sharing language filed libraries key ↔
    library ∈ libraries ∧ keyOf language filed library = key := by
  rw [sharing, List.mem_filter, decide_eq_true_eq]

theorem merges_of_mem (h : (key, entry) ∈ merged language ours filed libraries) :
    sharing language filed libraries key ≠ [] ∧
      Merges language filed ours key (sharing language filed libraries key) entry := by
  have hfold := (OrderedMap.mem_groupBy _ _).mp h
  have hne : sharing language filed libraries key ≠ [] := by
    intro hnil
    rw [show libraries.filter (keyOf language filed · = key) = [] from hnil] at hfold
    exact Option.some_ne_none _ hfold.symm
  obtain ⟨entry', hfold', hmerges⟩ := exists_merges hne
    fun row hrow => (mem_sharing.mp hrow).2
  obtain rfl := Option.some.inj (hfold'.symm.trans hfold)
  exact ⟨hne, hmerges⟩

variable (language filed ours) in
theorem exists_mem_merged (h : library ∈ libraries) :
    ∃ entry, (keyOf language filed library, entry) ∈ merged language ours filed libraries := by
  have hne : sharing language filed libraries (keyOf language filed library) ≠ [] :=
    List.ne_nil_of_mem (mem_sharing.mpr ⟨h, rfl⟩)
  obtain ⟨entry, hfold, -⟩ := exists_merges hne
    fun row hrow => (mem_sharing.mp hrow).2
  exact ⟨entry, (OrderedMap.mem_groupBy _ _).mpr hfold⟩

variable (language filed ours libraries) in
theorem nodup_keys_merged :
    ((merged language ours filed libraries).map (·.1)).Nodup :=
  OrderedMap.nodup_keys_groupBy _ _ libraries

theorem mem_map_merged :
    category ∈ (merged language ours filed libraries).map (·.2.1) ↔
      ∃ namedAt, (category.key, category, namedAt) ∈ merged language ours filed libraries := by
  rw [List.mem_map]
  constructor
  · rintro ⟨⟨key, category, namedAt⟩, hin, rfl⟩
    obtain rfl := (merges_of_mem hin).2.key
    exact ⟨namedAt, hin⟩
  · rintro ⟨namedAt, hin⟩
    exact ⟨_, hin, rfl⟩

theorem keys_merged :
    ((merged language ours filed libraries).map (·.2.1)).map (·.key) =
      (merged language ours filed libraries).map (·.1) := by
  rw [List.map_map]
  refine List.map_congr_left ?_
  rintro ⟨key, entry⟩ hin
  exact (merges_of_mem hin).2.key

/-! ### In another order -/

@[ext]
structure Card where
  key : String
  name : String
  kind : Share.LibraryKind
  position : ℤ
  libraryIds : Finset String
  serviceIds : Finset String
  itemCount : ℕ
  «local» : Bool

def MediaCategory.card (category : MediaCategory) : Card :=
  { category with
    libraryIds := category.libraryIds.toFinset
    serviceIds := category.serviceIds.toFinset }

/-- Two libraries that lead one category give it the same name and kind. -/
def Agree (language : Language κ) (filed : List (String × FiledCategory))
    (libraries : List Library) : Prop :=
  ∀ key, ∀ one ∈ sharing language filed libraries key,
    ∀ other ∈ sharing language filed libraries key,
      Leads language filed (sharing language filed libraries key) one →
        Leads language filed (sharing language filed libraries key) other →
          (read language filed one).name = (read language filed other).name ∧
            (read language filed one).kind = (read language filed other).kind

variable {rows' : List Library} {libraries' : List Library} {entry' : MediaCategory × Option ℤ}

theorem Leads.perm (h : Leads language filed rows library) (hperm : rows.Perm rows') :
    Leads language filed rows' library :=
  fun other hother => h other (hperm.mem_iff.mpr hother)

variable (language filed) in
theorem sharing_perm (hperm : libraries.Perm libraries') (key : String) :
    (sharing language filed libraries key).Perm (sharing language filed libraries' key) :=
  hperm.filter _

theorem Agree.perm (h : Agree language filed libraries) (hperm : libraries.Perm libraries') :
    Agree language filed libraries' := by
  intro key one hone other hother hlead hlead'
  have hsharing := sharing_perm language filed hperm key
  exact h key one (hsharing.mem_iff.mpr hone) other (hsharing.mem_iff.mpr hother)
    (hlead.perm hsharing.symm) (hlead'.perm hsharing.symm)

theorem mem_of_leader {rows : List Library} (h : leader language filed rows = some library) :
    library ∈ rows ∧ Leads language filed rows library := by
  unfold leader at h
  have hlead := List.find?_some h
  exact ⟨List.mem_of_find?_eq_some h, of_decide_eq_true hlead⟩

theorem named_of_first {rest : List Library} {one : Library}
    (hin : (key, entry) ∈ merged language ours filed libraries)
    (hfirst : sharing language filed libraries key = one :: rest)
    (hlead : Leads language filed (sharing language filed libraries key) one) :
    entry.1.name = (read language filed one).name ∧
      entry.1.kind = (read language filed one).kind := by
  obtain ⟨library, hlibrary, hname, hkind⟩ := (merges_of_mem hin).2.named.led
  rw [hfirst] at hlead hlibrary
  have hone : leader language filed (one :: rest) = some one :=
    List.find?_cons_of_pos (decide_eq_true hlead)
  obtain rfl := Option.some.inj (hone.symm.trans hlibrary)
  exact ⟨hname, hkind⟩

/-- Libraries whose leaders read alike merge into the same category in every order. -/
theorem card_eq (hperm : rows.Perm rows')
    (hagree : ∀ one ∈ rows, ∀ other ∈ rows, Leads language filed rows one →
      Leads language filed rows other →
        (read language filed one).name = (read language filed other).name ∧
          (read language filed one).kind = (read language filed other).kind)
    (h : Merges language filed ours key rows entry)
    (h' : Merges language filed ours key rows' entry') : entry.1.card = entry'.1.card := by
  obtain ⟨one, hone, hname, hkind⟩ := h.named.led
  obtain ⟨other, hother, hname', hkind'⟩ := h'.named.led
  obtain ⟨hone, hlead⟩ := mem_of_leader hone
  obtain ⟨hother, hlead'⟩ := mem_of_leader hother
  obtain ⟨hnames, hkinds⟩ :=
    hagree one hone other (hperm.mem_iff.mpr hother) hlead (hlead'.perm hperm.symm)
  have hleast := h'.gathers.position
  simp only [← hperm.mem_iff] at hleast
  apply Card.ext
  · exact h.key.trans h'.key.symm
  · exact hname.trans (hnames.trans hname'.symm)
  · exact hkind.trans (hkinds.trans hkind'.symm)
  · exact h.gathers.position.unique hleast
  · show entry.1.libraryIds.toFinset = entry'.1.libraryIds.toFinset
    rw [h.gathers.libraryIds, h'.gathers.libraryIds]
    exact List.toFinset_eq_of_perm _ _ (hperm.map _)
  · ext service
    show service ∈ entry.1.serviceIds.toFinset ↔ service ∈ entry'.1.serviceIds.toFinset
    rw [List.mem_toFinset, List.mem_toFinset, h.gathers.serviceIds, h'.gathers.serviceIds]
    exact (hperm.map _).mem_iff
  · exact h.gathers.itemCount.trans ((hperm.map _).sum_eq.trans h'.gathers.itemCount.symm)
  · exact h.gathers.isLocal.trans (hperm.any_eq.trans h'.gathers.isLocal.symm)

variable (language filed ours) in
def cards (libraries : List Library) : List Card :=
  ((merged language ours filed libraries).map (·.2.1)).map MediaCategory.card

theorem mem_cards {card : Card} : card ∈ cards language filed ours libraries ↔
    ∃ key entry, (key, entry) ∈ merged language ours filed libraries ∧ entry.1.card = card := by
  rw [cards, List.map_map, List.mem_map]
  exact ⟨fun ⟨entry, hin, heq⟩ => ⟨entry.1, entry.2, hin, heq⟩,
    fun ⟨key, entry, hin, heq⟩ => ⟨(key, entry), hin, heq⟩⟩

theorem map_key_cards :
    (cards language filed ours libraries).map (·.key) =
      (merged language ours filed libraries).map (·.1) := by
  rw [← keys_merged, cards, List.map_map]
  rfl

theorem nodup_cards : (cards language filed ours libraries).Nodup := by
  refine List.Nodup.of_map Card.key ?_
  rw [map_key_cards]
  exact nodup_keys_merged ..

theorem cards_subset (hperm : libraries.Perm libraries') (hagree : Agree language filed libraries) :
    cards language filed ours libraries ⊆ cards language filed ours libraries' := by
  intro card hcard
  obtain ⟨key, entry, hin, rfl⟩ := mem_cards.mp hcard
  obtain ⟨hne, hmerges⟩ := merges_of_mem hin
  obtain ⟨library, hshares⟩ := List.exists_mem_of_ne_nil _ hne
  obtain ⟨hlibrary, rfl⟩ := mem_sharing.mp hshares
  obtain ⟨entry', hin'⟩ := exists_mem_merged language filed ours (hperm.mem_iff.mp hlibrary)
  refine mem_cards.mpr ⟨_, entry', hin', ?_⟩
  exact (card_eq (sharing_perm _ _ hperm _) (hagree _) hmerges (merges_of_mem hin').2).symm

theorem cards_perm (hperm : libraries.Perm libraries') (hagree : Agree language filed libraries) :
    (cards language filed ours libraries).Perm (cards language filed ours libraries') :=
  (List.perm_ext_iff_of_nodup nodup_cards nodup_cards).mpr fun _ =>
    ⟨fun h => cards_subset hperm hagree h, fun h => cards_subset hperm.symm (hagree.perm hperm) h⟩

/-- The anchors are the same for every order of the rows. -/
theorem filedByKeyword_perm (hids : (libraries.map (·.id)).Nodup)
    (hperm : libraries.Perm libraries') (keywords : List CategoryKeyword) :
    filedByKeyword libraries' keywords = filedByKeyword libraries keywords := by
  unfold filedByKeyword
  congr 1
  funext filed keyword
  rw [Table.find_perm hids hperm]

/-! ### Sorted -/

section

variable [LinearOrder κ]

variable (language) in
/-- `before`, of cards -/
def Card.before (left right : Card) : Prop :=
  left.position < right.position ∨
    left.position = right.position ∧ language.collate left.name ≤ language.collate right.name

instance : DecidableRel (Card.before language) := fun _ _ => inferInstanceAs (Decidable (_ ∨ _))

instance : IsTrans Card (Card.before language) where
  trans a b c := by
    rintro (hab | ⟨hab, hab'⟩) (hbc | ⟨hbc, hbc'⟩)
    · exact .inl (hab.trans hbc)
    · exact .inl (hbc ▸ hab)
    · exact .inl (hab ▸ hbc)
    · exact .inr ⟨hab.trans hbc, hab'.trans hbc'⟩

instance : Std.Total (Card.before language) where
  total a b := by
    rcases lt_trichotomy a.position b.position with hlt | heq | hgt
    · exact .inl (.inl hlt)
    · rcases le_total (language.collate a.name) (language.collate b.name) with hle | hle
      · exact .inl (.inr ⟨heq, hle⟩)
      · exact .inr (.inr ⟨heq.symm, hle⟩)
    · exact .inr (.inl hgt)

theorem Card.before_antisymm {a b : Card} (hab : a.before language b) (hba : b.before language a) :
    a.position = b.position ∧ language.collate a.name = language.collate b.name := by
  rcases hab with hab | ⟨hab, hab'⟩ <;> rcases hba with hba | ⟨hba, hba'⟩
  · exact absurd hab hba.asymm
  · exact absurd hab (hba ▸ lt_irrefl _)
  · exact absurd hba (hab ▸ lt_irrefl _)
  · exact ⟨hab, le_antisymm hab' hba'⟩

theorem map_card_sort (categories : List MediaCategory) :
    (categories.insertionSort (before language)).map MediaCategory.card =
      (categories.map MediaCategory.card).insertionSort (Card.before language) :=
  List.map_insertionSort _ _ _ _ fun _ _ _ _ => Iff.rfl

theorem sort_eq_of_perm {cards cards' : List Card} (hperm : cards.Perm cards')
    (hapart : ∀ a ∈ cards, ∀ b ∈ cards, a.position = b.position →
      language.collate a.name = language.collate b.name → a = b) :
    cards.insertionSort (Card.before language) = cards'.insertionSort (Card.before language) := by
  refine List.Perm.eq_of_pairwise ?_ (List.pairwise_insertionSort (Card.before language) cards)
    (List.pairwise_insertionSort (Card.before language) cards')
    ((List.perm_insertionSort _ _).trans (hperm.trans (List.perm_insertionSort _ _).symm))
  intro a b ha hb hab hba
  obtain ⟨hposition, hname⟩ := Card.before_antisymm hab hba
  exact hapart a ((List.mem_insertionSort _).mp ha) b
    (hperm.mem_iff.mpr ((List.mem_insertionSort _).mp hb)) hposition hname

end

/-! ### When the order does not matter -/

section

variable [LinearOrder κ] (language)

namespace Tables

variable (t : Tables)

/-- The positions of the libraries of one category. -/
def positions (key : String) : Set ℤ :=
  {p | ∃ library ∈ sharing language t.folded t.libraries key, library.position = p}

/-- The libraries that lead a category read alike, and no two categories that are led by libraries
of names that sort alike have the same lowest position. -/
structure Settled : Prop where
  agree : Agree language t.folded t.libraries
  apart : ∀ key, ∀ one ∈ sharing language t.folded t.libraries key,
    ∀ key', ∀ other ∈ sharing language t.folded t.libraries key',
      Leads language t.folded (sharing language t.folded t.libraries key) one →
        Leads language t.folded (sharing language t.folded t.libraries key') other →
          ∀ p, IsLeast (t.positions language key) p → IsLeast (t.positions language key') p →
            language.collate (read language t.folded one).name =
              language.collate (read language t.folded other).name → key = key'

/-- The categories are the same for every order of the rows, every library is in one of them, and
each has the key of its name. -/
structure OrderFree : Prop where
  same : ∀ rows, rows.Perm t.libraries →
    (Libraries.categories language rows t.services t.keywords).map MediaCategory.card =
      (t.categories language).map MediaCategory.card
  partition : ((t.categories language).flatMap (·.libraryIds)).Perm (t.libraries.map (·.id))
  key_name : ∀ category ∈ t.categories language, categoryKeyOf language category.name = category.key

variable {language} {t : Tables}

theorem map_card_categories (rows : List Library) (services : List Correlation.MediaService)
    (keywords : List CategoryKeyword) :
    (Libraries.categories language rows services keywords).map MediaCategory.card =
      (cards language (filedByKeyword rows keywords) (ourServiceIds services) rows).insertionSort
        (Card.before language) :=
  map_card_sort _

/-- Leaders that read alike, at places of their own, give one answer in every order. -/
theorem Settled.same (h : t.Settled language) {rows : List Library}
    (hperm : rows.Perm t.libraries) :
    (Libraries.categories language rows t.services t.keywords).map MediaCategory.card =
      (t.categories language).map MediaCategory.card := by
  rw [categories, map_card_categories, map_card_categories,
    filedByKeyword_perm t.ids_nodup hperm.symm]
  refine (sort_eq_of_perm (cards_perm hperm.symm h.agree) ?_).symm
  intro a ha b hb hposition hname
  obtain ⟨key, entry, hentry, rfl⟩ := mem_cards.mp ha
  obtain ⟨key', entry', hentry', rfl⟩ := mem_cards.mp hb
  have hmerges := (merges_of_mem hentry).2
  have hmerges' := (merges_of_mem hentry').2
  obtain ⟨one, hone, hone', -⟩ := hmerges.named.led
  obtain ⟨other, hother, hother', -⟩ := hmerges'.named.led
  obtain ⟨hone, hlead⟩ := mem_of_leader hone
  obtain ⟨hother, hlead'⟩ := mem_of_leader hother
  have hkey : key = key' := by
    refine h.apart key one hone key' other hother hlead hlead' entry.1.position
      hmerges.gathers.position ?_ ?_
    · rw [show entry.1.position = entry'.1.position from hposition]
      exact hmerges'.gathers.position
    · rw [← hone', ← hother']
      exact hname
  refine List.inj_on_of_nodup_map (f := Card.key) ?_ ha hb
    (hmerges.key.trans (hkey.trans hmerges'.key.symm))
  rw [map_key_cards]
  exact nodup_keys_merged ..

theorem agree_of_same (h : ∀ rows, rows.Perm t.libraries →
    (Libraries.categories language rows t.services t.keywords).map MediaCategory.card =
      (t.categories language).map MediaCategory.card) :
    Agree language t.folded t.libraries := by
  -- the category as it is when a leader of it comes first
  have hheaded : ∀ key, ∀ one ∈ sharing language t.folded t.libraries key,
      Leads language t.folded (sharing language t.folded t.libraries key) one →
        ∃ card ∈ cards language t.folded (ourServiceIds t.services) t.libraries, card.key = key ∧
          card.name = (read language t.folded one).name ∧
            card.kind = (read language t.folded one).kind := by
    intro key one hone hlead
    obtain ⟨hlibrary, rfl⟩ := mem_sharing.mp hone
    have hperm := List.perm_cons_erase hlibrary
    have hfirst := List.filter_cons_of_pos (l := t.libraries.erase one)
      (p := (keyOf language t.folded · = keyOf language t.folded one)) (a := one)
      (decide_eq_true rfl)
    obtain ⟨entry, hentry⟩ := exists_mem_merged language t.folded (ourServiceIds t.services)
      (List.mem_cons_self (a := one) (l := t.libraries.erase one))
    obtain ⟨hname, hkind⟩ :=
      named_of_first hentry hfirst (hlead.perm (sharing_perm _ _ hperm _))
    refine ⟨entry.1.card, ?_, (merges_of_mem hentry).2.key, hname, hkind⟩
    have hsame := h _ hperm.symm
    rw [categories, map_card_categories, map_card_categories,
      filedByKeyword_perm t.ids_nodup hperm] at hsame
    rw [← List.mem_insertionSort (Card.before language), folded, ← hsame, List.mem_insertionSort]
    exact mem_cards.mpr ⟨_, entry, hentry, rfl⟩
  intro key one hone other hother hlead hlead'
  obtain ⟨card, hcard, hkey, hname, hkind⟩ := hheaded key one hone hlead
  obtain ⟨card', hcard', hkey', hname', hkind'⟩ := hheaded key other hother hlead'
  have hnodup := nodup_keys_merged language t.folded (ourServiceIds t.services) t.libraries
  rw [← map_key_cards] at hnodup
  obtain rfl := List.inj_on_of_nodup_map hnodup hcard hcard' (hkey.trans hkey'.symm)
  exact ⟨hname.symm.trans hname', hkind.symm.trans hkind'⟩

variable (ours) in
theorem sublist_of_first {libraries rest : List Library} {one other : Library} {p : ℤ}
    (hrows : libraries = one :: other :: rest)
    (hne : keyOf language filed one ≠ keyOf language filed other)
    (hlead : Leads language filed (sharing language filed libraries (keyOf language filed one)) one)
    (hlead' : Leads language filed
      (sharing language filed libraries (keyOf language filed other)) other)
    (hleast : IsLeast
      {p | ∃ library ∈ sharing language filed libraries (keyOf language filed one),
        library.position = p} p)
    (hleast' : IsLeast
      {p | ∃ library ∈ sharing language filed libraries (keyOf language filed other),
        library.position = p} p)
    (hname : language.collate (read language filed one).name =
      language.collate (read language filed other).name) :
    [keyOf language filed one, keyOf language filed other].Sublist
      (((cards language filed ours libraries).insertionSort (Card.before language)).map (·.key)) := by
  -- The two keys come first in the merge, because their libraries do.
  have hkeys : [keyOf language filed one, keyOf language filed other] <+:
      (merged language ours filed libraries).map (·.1) := by
    rw [hrows]
    have hpair : (merged language ours filed [one, other]).map (·.1) =
        [keyOf language filed one, keyOf language filed other] := by
      refine (OrderedMap.keys_modify
        [(keyOf language filed one, mergeInto language ours filed one none)] _ _).trans (if_neg ?_)
      rw [List.map_singleton, List.mem_singleton]
      exact hne.symm
    rw [← hpair]
    exact OrderedMap.keys_groupBy_append _ _ [one, other] rest
  obtain ⟨tail, htail⟩ := hkeys
  obtain ⟨⟨key, entry⟩, entries, hmerged, rfl, hrest⟩ := List.map_eq_cons_iff.mp htail.symm
  obtain ⟨⟨key', entry'⟩, entries', rfl, hkey', -⟩ := List.map_eq_cons_iff.mp hrest
  obtain rfl : key' = keyOf language filed other := hkey'
  have hin : (keyOf language filed one, entry) ∈ merged language ours filed libraries :=
    hmerged ▸ List.mem_cons_self
  have hin' : (keyOf language filed other, entry') ∈ merged language ours filed libraries :=
    hmerged ▸ List.mem_cons_of_mem _ List.mem_cons_self
  have hmerges := (merges_of_mem hin).2
  have hmerges' := (merges_of_mem hin').2
  have hfirst : sharing language filed libraries (keyOf language filed one) =
      one :: sharing language filed (other :: rest) (keyOf language filed one) := by
    rw [hrows]
    exact List.filter_cons_of_pos (decide_eq_true rfl)
  have hfirst' : sharing language filed libraries (keyOf language filed other) =
      other :: sharing language filed rest (keyOf language filed other) := by
    rw [hrows]
    exact (List.filter_cons_of_neg (by simpa using hne)).trans
      (List.filter_cons_of_pos (decide_eq_true rfl))
  -- The sort leaves the two as they are: their positions are one, and so are their names.
  have hbefore : entry.1.card.before language entry'.1.card := by
    refine .inr ⟨?_, ?_⟩
    · show entry.1.position = entry'.1.position
      rw [hmerges.gathers.position.unique hleast, hmerges'.gathers.position.unique hleast']
    · show language.collate entry.1.name ≤ language.collate entry'.1.name
      rw [(named_of_first hin hfirst hlead).1, (named_of_first hin' hfirst' hlead').1]
      exact hname.le
  have hpair : [entry.1.card, entry'.1.card].Sublist (cards language filed ours libraries) := by
    rw [cards, hmerged]
    exact ((List.nil_sublist _).cons_cons _).cons_cons _
  have hsorted := (List.pair_sublist_insertionSort hbefore hpair).map Card.key
  rw [← show entry.1.card.key = keyOf language filed one from hmerges.key,
    ← show entry'.1.card.key = keyOf language filed other from hmerges'.key]
  exact hsorted

theorem settled_of_same (h : ∀ rows, rows.Perm t.libraries →
    (Libraries.categories language rows t.services t.keywords).map MediaCategory.card =
      (t.categories language).map MediaCategory.card) : t.Settled language := by
  refine ⟨agree_of_same h, ?_⟩
  intro key one hshares key' other hshares' hlead hlead' p hleast hleast' hname
  obtain ⟨hone, rfl⟩ := mem_sharing.mp hshares
  obtain ⟨hother, rfl⟩ := mem_sharing.mp hshares'
  by_contra hne
  have hdiffer : other ≠ one := fun heq => hne (by rw [heq])
  have hdiffer' : one ≠ other := hdiffer.symm
  have hperm : t.libraries.Perm (one :: other :: (t.libraries.erase one).erase other) :=
    (List.perm_cons_erase hone).trans
      ((List.perm_cons_erase ((List.mem_erase_of_ne hdiffer).mpr hother)).cons one)
  have hperm' := hperm.trans (List.Perm.swap other one _)
  -- the keys as they come out of either order
  have hkeys : ∀ rows, t.libraries.Perm rows →
      ((cards language t.folded (ourServiceIds t.services) rows).insertionSort
        (Card.before language)).map (·.key) =
          ((t.categories language).map MediaCategory.card).map (·.key) := by
    intro rows hrows
    have hsame := h rows hrows.symm
    rw [map_card_categories, filedByKeyword_perm t.ids_nodup hrows] at hsame
    rw [← hsame]
    rfl
  have hleasts : ∀ rows, t.libraries.Perm rows → ∀ key,
      {p | ∃ library ∈ sharing language t.folded rows key, library.position = p} =
        t.positions language key := by
    intro rows hrows key
    ext q
    simp only [positions, (sharing_perm _ _ hrows key).mem_iff]
  have hforth := sublist_of_first (ourServiceIds t.services) rfl hne
    (hlead.perm (sharing_perm _ _ hperm _)) (hlead'.perm (sharing_perm _ _ hperm _))
    (hleasts _ hperm _ ▸ hleast) (hleasts _ hperm _ ▸ hleast') hname
  have hback := sublist_of_first (ourServiceIds t.services) rfl (Ne.symm hne)
    (hlead'.perm (sharing_perm _ _ hperm' _)) (hlead.perm (sharing_perm _ _ hperm' _))
    (hleasts _ hperm' _ ▸ hleast') (hleasts _ hperm' _ ▸ hleast) hname.symm
  rw [hkeys _ hperm] at hforth
  rw [hkeys _ hperm'] at hback
  refine Comparator.not_sublist_swap ?_ hforth hback
  rw [← hkeys _ (List.Perm.refl _)]
  refine ((List.perm_insertionSort _ _).map _).nodup_iff.mpr ?_
  rw [map_key_cards]
  exact nodup_keys_merged ..

/-! ### Every library, and every key -/

theorem mem_categories {category : MediaCategory} : category ∈ t.categories language ↔
    ∃ namedAt, (category.key, category, namedAt) ∈
      merged language (ourServiceIds t.services) t.folded t.libraries := by
  rw [categories, Libraries.categories, List.mem_insertionSort]
  exact mem_map_merged

theorem key_name {category : MediaCategory} (h : category ∈ t.categories language) :
    categoryKeyOf language category.name = category.key := by
  obtain ⟨namedAt, hin⟩ := mem_categories.mp h
  obtain ⟨library, hlibrary, hname, -⟩ := (merges_of_mem hin).2.named.led
  rw [hname]
  exact (mem_sharing.mp (mem_of_leader hlibrary).1).2

theorem mem_libraryIds {category : MediaCategory} (h : category ∈ t.categories language)
    {library : Library} (hlibrary : library ∈ t.libraries) :
    library.id ∈ category.libraryIds ↔ keyOf language t.folded library = category.key := by
  obtain ⟨namedAt, hin⟩ := mem_categories.mp h
  rw [(merges_of_mem hin).2.gathers.libraryIds, List.mem_map]
  constructor
  · rintro ⟨other, hother, hid⟩
    obtain ⟨hother, hkey⟩ := mem_sharing.mp hother
    rwa [← List.inj_on_of_nodup_map t.ids_nodup hother hlibrary hid]
  · exact fun hkey => ⟨library, mem_sharing.mpr ⟨hlibrary, hkey⟩, rfl⟩

variable (language) in
theorem exists_category {library : Library} (h : library ∈ t.libraries) :
    ∃ category ∈ t.categories language, category.key = keyOf language t.folded library ∧
      library.id ∈ category.libraryIds := by
  obtain ⟨entry, hin⟩ := exists_mem_merged language t.folded (ourServiceIds t.services) h
  have hkey := (merges_of_mem hin).2.key
  have hcategory : entry.1 ∈ t.categories language :=
    mem_categories.mpr ⟨entry.2, hkey.symm ▸ hin⟩
  exact ⟨entry.1, hcategory, hkey, (mem_libraryIds hcategory h).mpr hkey.symm⟩

theorem nodup_keys_categories : ((t.categories language).map (·.key)).Nodup := by
  rw [categories, Libraries.categories]
  refine ((List.perm_insertionSort _ _).map _).nodup_iff.mpr ?_
  rw [keys_merged]
  exact nodup_keys_merged ..

theorem partition : ((t.categories language).flatMap (·.libraryIds)).Perm
    (t.libraries.map (·.id)) := by
  have hids : ∀ category ∈ t.categories language, ∀ id ∈ category.libraryIds,
      ∃ library ∈ t.libraries, library.id = id ∧
        keyOf language t.folded library = category.key := by
    intro category hcategory id hid
    obtain ⟨namedAt, hin⟩ := mem_categories.mp hcategory
    rw [(merges_of_mem hin).2.gathers.libraryIds] at hid
    obtain ⟨library, hlibrary, rfl⟩ := List.mem_map.mp hid
    obtain ⟨hlibrary, hkey⟩ := mem_sharing.mp hlibrary
    exact ⟨library, hlibrary, rfl, hkey⟩
  refine (List.perm_ext_iff_of_nodup (List.nodup_flatMap.mpr ⟨?_, ?_⟩) t.ids_nodup).mpr ?_
  · intro category hcategory
    obtain ⟨namedAt, hin⟩ := mem_categories.mp hcategory
    rw [(merges_of_mem hin).2.gathers.libraryIds]
    exact t.ids_nodup.sublist (List.filter_sublist.map _)
  · refine (List.pairwise_map.mp nodup_keys_categories).imp_of_mem ?_
    intro one other hone hother hne
    refine List.disjoint_left.mpr fun id hid hid' => hne ?_
    obtain ⟨library, hlibrary, heq, hkey⟩ := hids one hone id hid
    obtain ⟨library', hlibrary', heq', hkey'⟩ := hids other hother id hid'
    obtain rfl := List.inj_on_of_nodup_map t.ids_nodup hlibrary hlibrary' (heq.trans heq'.symm)
    exact hkey.symm.trans hkey'
  · intro id
    rw [List.mem_flatMap, List.mem_map]
    constructor
    · rintro ⟨category, hcategory, hid⟩
      obtain ⟨library, hlibrary, heq, -⟩ := hids category hcategory id hid
      exact ⟨library, hlibrary, heq⟩
    · rintro ⟨library, hlibrary, rfl⟩
      obtain ⟨category, hcategory, -, hid⟩ := exists_category language hlibrary
      exact ⟨category, hcategory, hid⟩

/-- **The categories do not depend on which row came back first** exactly when the libraries that
lead a category read alike, and no two categories are at one place. -/
theorem orderFree_iff (t : Tables) : t.OrderFree language ↔ t.Settled language :=
  ⟨fun h => settled_of_same h.same,
    fun h => ⟨fun _ hperm => h.same hperm, partition, fun _ hcategory => key_name hcategory⟩⟩

end Tables

end

/-! ### A tie -/

theorem toLower_of_isSpace {c : Char} (h : Quality.isSpace c) : c.toLower = c := by
  unfold Char.toLower
  split_ifs with hupper
  · have hlow : 65 ≤ c.toNat := UInt32.le_iff_toNat_le.mp hupper.1
    have hhigh : c.toNat ≤ 90 := UInt32.le_iff_toNat_le.mp hupper.2
    simp only [Quality.isSpace, List.mem_cons, List.not_mem_nil, or_false, decide_eq_true_eq] at h
    omega
  · rfl

/-- What the language does with letters that have no accents. -/
def plainLanguage : Language String where
  nfd text := text
  toLowerCase text := text.map Char.toLower
  collate text := text
  nfd_cons _ _ := rfl
  nfd_concat _ _ := rfl
  isSpace_nfd h d hd := List.mem_singleton.mp hd ▸ h
  toLowerCase_cons h text := by rw [List.map_cons, toLower_of_isSpace h]
  toLowerCase_concat h text := by rw [List.map_append, List.map_singleton, toLower_of_isSpace h]

private def shelf (id name : String) : Library := ⟨id, "nas", name, none, 100, .SHOWS, 3⟩

/-- Two libraries where the default puts them. -/
private def tied : Tables where
  libraries := [shelf "1" "Shows", shelf "2" "SHOWS"]
  services := []
  keywords := []
  ids_nodup := by decide
  keywordIds_nodup := by decide
  normalized_nodup := by decide

/-- The category has the name of the one that comes first. -/
theorem not_orderFree_tied : ¬ tied.OrderFree plainLanguage := by
  intro h
  have hsame := h.same [shelf "2" "SHOWS", shelf "1" "Shows"] (List.Perm.swap ..)
  have hnames := congrArg (List.map Card.name) hsame
  revert hnames
  decide +kernel

end MediaCenterSync.Libraries
