import MediaCenterSync.Placement.Service

/-!
# What a placement answers

`resolve` takes the first candidate whose directory can be written into (`chosen`), and in it the
first of the names it tries (`tried`) that nothing occupies: `resolve_eq_ok`.  Of a lot that has a
destination already only that destination is a candidate, and it is answered with
(`sent_of_pinned`).
-/

namespace MediaCenterSync.Placement

open TransferManager (Dir PlacedBy)

variable {disk : Disk} {request : PlacementRequest} {target : PlacementTarget}

/-- The first candidate that can take the file. -/
def chosen (disk : Disk) (request : PlacementRequest) : Option PlacementAttempt :=
  (candidates request).1.find? fun attempt => (probeAttempt disk request attempt).writable

/-- The names a file is given in a root, in the order they are tried. -/
def tried (request : PlacementRequest) (root : Dir) : List Dir :=
  inRoot root (request.relativeName root) :: alternatives request root (request.relativeName root)

theorem freePath_eq_ok {root : Dir} {free : Dir × Option String}
    (h : freePath disk request root (request.relativeName root) = .ok free) :
    (tried request root).find? (!occupied disk request.reserved request.replacesPath ·)
      = some free.1 := by
  simp only [freePath] at h
  split_ifs at h with hwanted
  · cases h
    exact List.find?_cons_of_pos hwanted
  · split at h
    · next candidate hcandidate =>
      cases h
      have hskip := List.find?_cons_of_neg
        (l := alternatives request root (request.relativeName root))
        (p := (!occupied disk request.reserved request.replacesPath ·)) hwanted
      exact hskip.trans hcandidate
    · cases h

/-- **What a placement answers with**: the first candidate that can take the file, and the first
name in it that nothing occupies. -/
theorem resolveFrom_eq_ok {skipped : List String} {attempts : List PlacementAttempt}
    {rejected : List String} (h : resolveFrom disk request skipped attempts rejected = .ok target) :
    ∃ attempt rejected free,
      attempts.find? (fun attempt => (probeAttempt disk request attempt).writable)
        = some attempt ∧
      (tried request attempt.root).find?
        (!occupied disk request.reserved request.replacesPath ·) = some free.1 ∧
      target = targetOf request skipped rejected attempt free := by
  induction attempts generalizing rejected with
  | nil => cases h
  | cons attempt rest ih =>
    rw [resolveFrom] at h
    by_cases hwritable : (probeAttempt disk request attempt).writable
    · rw [if_pos hwritable] at h
      split at h
      · next free hfree =>
        cases h
        exact ⟨attempt, rejected, free, List.find?_cons_of_pos hwritable, freePath_eq_ok hfree, rfl⟩
      · cases h
    · rw [if_neg hwritable] at h
      obtain ⟨later, rejected, free, hfind, hrest⟩ := ih h
      have hskip := List.find?_cons_of_neg (l := rest)
        (p := fun attempt => (probeAttempt disk request attempt).writable) hwritable
      exact ⟨later, rejected, free, hskip.trans hfind, hrest⟩

theorem resolve_eq_ok (h : resolve disk request = .ok target) :
    ∃ attempt rejected free, chosen disk request = some attempt ∧
      (tried request attempt.root).find?
        (!occupied disk request.reserved request.replacesPath ·) = some free.1 ∧
      target = targetOf request (candidates request).2 rejected attempt free :=
  resolveFrom_eq_ok h

theorem path_of_resolve (h : resolve disk request = .ok target) :
    ∃ attempt, chosen disk request = some attempt ∧
      (tried request attempt.root).find?
        (!occupied disk request.reserved request.replacesPath ·) = some target.path := by
  obtain ⟨attempt, rejected, free, hchosen, hfree, rfl⟩ := resolve_eq_ok h
  exact ⟨attempt, hchosen, hfree⟩

theorem occupied_eq_false_iff {reserved : List Dir} {replaces : Option Dir} {path : Dir} :
    occupied disk reserved replaces path = false ↔
      some path = replaces ∨ path ∉ reserved ∧ disk.existsAt path = false := by
  unfold occupied
  split_ifs with hreplaces hreserved
  · simp [hreplaces]
  · simp [hreplaces, hreserved]
  · simp [hreplaces, hreserved]

/-! ### Names -/

/-- A name a path keeps as it is. -/
structure Proper (name : String) : Prop where
  plain : name ∉ ["", ".", ".."]
  whole : Char.ofNat 0x5C ∉ name.toList

def folders (parts : List String) : List String :=
  ((normalize parts).flatMap splitBackslashes).filter fun part => part ∉ ["", ".", ".."]

theorem splitBackslashes_eq {name : String} (h : Char.ofNat 0x5C ∉ name.toList) :
    splitBackslashes name = [name] := by
  rw [splitBackslashes, List.splitOn_eq_singleton h, List.map_singleton, String.ofList_toList]

theorem flatMap_splitBackslashes {parts : List String}
    (h : ∀ part ∈ parts, Char.ofNat 0x5C ∉ part.toList) :
    parts.flatMap splitBackslashes = parts := by
  induction parts with
  | nil => rfl
  | cons part rest ih =>
    rw [List.flatMap_cons, splitBackslashes_eq (h part (List.mem_cons_self ..)),
      ih fun other hother => h other (List.mem_cons_of_mem _ hother), List.singleton_append]

theorem normalize_concat (parts : List String) {name : String} (h : Proper name) :
    normalize (parts ++ [name]) = normalize parts ++ [name] := by
  have hplain := h.plain
  simp only [List.mem_cons, List.not_mem_nil, or_false, not_or] at hplain
  obtain ⟨hempty, hdot, hdots⟩ := hplain
  rw [normalize, List.foldl_append, List.foldl_cons, List.foldl_nil, if_neg (by tauto),
    if_neg hdots, List.reverse_cons]
  rfl

theorem safeRelative_concat (parts : List String) {name : String} (h : Proper name) :
    safeRelative (parts ++ [name]) = folders parts ++ [name] := by
  have hname : [name].filter (fun part => part ∉ ["", ".", ".."]) = [name] := by
    rw [List.filter_cons_of_pos (by simpa using h.plain), List.filter_nil]
  rw [safeRelative, normalize_concat parts h, List.flatMap_append, List.flatMap_singleton,
    splitBackslashes_eq h.whole, List.filter_append, hname]
  simp [folders]

theorem normalize_of_proper {parts : List String} (h : ∀ part ∈ parts, Proper part) :
    normalize parts = parts := by
  induction parts using List.reverseRecOn with
  | nil => rfl
  | append_singleton parts part ih =>
    rw [normalize_concat parts (h part (by simp)),
      ih fun other hother => h other (List.mem_append_left _ hother)]

theorem folders_of_proper {parts : List String} (h : ∀ part ∈ parts, Proper part) :
    folders parts = parts := by
  rw [folders, normalize_of_proper h, flatMap_splitBackslashes fun part hpart => (h part hpart).whole,
    List.filter_eq_self]
  intro part hpart
  simpa using (h part hpart).plain

/-! ### Libraries -/

/-- The identifier of a library that is offered, or of one made up around a path. -/
def Offered (libraries : List PlacementLibrary) (id : String) : Prop :=
  id ∈ libraries.map (·.id) ∨ id = ""

theorem offered_of_mem {libraries : List PlacementLibrary} {library : PlacementLibrary}
    (h : library ∈ libraries) : Offered libraries library.id :=
  .inl (List.mem_map_of_mem h)

theorem mem_of_usable {libraries : List PlacementLibrary} {one : PlacementLibrary × Dir}
    (h : one ∈ usable libraries) : one.1 ∈ libraries := by
  obtain ⟨library, hlibrary, hone⟩ := List.mem_filterMap.mp h
  split_ifs at hone
  obtain ⟨_, -, rfl⟩ := Option.map_eq_some_iff.mp hone
  exact hlibrary

theorem mem_of_rootHolding {libraries : List PlacementLibrary} {path : Dir}
    {host : PlacementLibrary × Dir} (h : rootHolding libraries path = some host) :
    host.1 ∈ libraries := by
  have hsorted := List.mem_of_head? h
  rw [List.mem_insertionSort] at hsorted
  obtain ⟨library, hlibrary, hhost⟩ := List.mem_flatMap.mp (List.mem_filter.mp hsorted).1
  obtain ⟨_, -, rfl⟩ := List.mem_map.mp hhost
  exact hlibrary

theorem offered_getD {libraries : List PlacementLibrary} {holder : Option PlacementLibrary}
    (h : ∀ library ∈ holder, library ∈ libraries) (path : Dir) :
    Offered libraries (holder.getD (syntheticLibrary path)).id := by
  cases holder with
  | none => exact .inr rfl
  | some library => exact offered_of_mem (h library rfl)

theorem mem_of_libraryHolding {libraries : List PlacementLibrary} {path : Dir} :
    ∀ library ∈ libraryHolding libraries path, library ∈ libraries := by
  intro library h
  obtain ⟨host, hhost, rfl⟩ := Option.map_eq_some_iff.mp h
  exact mem_of_rootHolding hhost

theorem mem_of_configured {libraries : List PlacementLibrary} {choice : Option Choice}
    {label : String} {attempt : PlacementAttempt}
    (h : configured libraries choice label = some (.ok attempt)) :
    attempt.library ∈ libraries := by
  obtain ⟨choice, -, hchoice⟩ := Option.map_eq_some_iff.mp h
  split at hchoice
  · cases hchoice
  · next library hlibrary =>
    split_ifs at hchoice
    dsimp only at hchoice
    split at hchoice
    · cases hchoice
    · cases hchoice
      cases choice <;> exact List.mem_of_find?_eq_some hlibrary

theorem mem_of_byPreference {libraries : List (PlacementLibrary × Dir)} {kind : Matching.MediaKind}
    {categoryKey : Option String} {one : PlacementLibrary × Dir}
    (h : one ∈ byPreference libraries kind categoryKey) : one ∈ libraries := by
  simp only [byPreference] at h
  split_ifs at h <;> simp only [List.mem_append, List.mem_filter] at h <;> tauto

theorem mem_of_distinctRoots {attempts : List PlacementAttempt} {attempt : PlacementAttempt}
    (h : attempt ∈ distinctRoots attempts) : attempt ∈ attempts := by
  induction attempts with
  | nil => exact h
  | cons first rest ih =>
    rcases List.mem_cons.mp h with rfl | h
    · exact List.mem_cons_self ..
    · exact List.mem_cons_of_mem _ (ih (List.mem_filter.mp h).1)

theorem offered_of_unpinned {attempt : PlacementAttempt}
    (h : attempt ∈ (unpinnedCandidates request).1) :
    Offered request.libraries attempt.library.id := by
  have husable : ∀ library ∈ (usable request.libraries).map (·.1), library ∈ request.libraries := by
    intro library hlibrary
    obtain ⟨one, hone, rfl⟩ := List.mem_map.mp hlibrary
    exact mem_of_usable hone
  have h := mem_of_distinctRoots h
  simp only [List.mem_append] at h
  rcases h with (((((hnamed | hexisting) | hpreferred) | hconfigured) | hfixed) | hfallback) | hrest
  · obtain ⟨named, -, rfl⟩ := List.mem_map.mp hnamed
    exact offered_getD (fun library hl => husable _ (mem_of_libraryHolding library hl)) _
  · obtain ⟨host, hhost, rfl⟩ := List.mem_map.mp hexisting
    obtain ⟨path, -, hhost⟩ := Option.bind_eq_some_iff.mp (Option.mem_toList.mp hhost)
    exact offered_of_mem (husable _ (mem_of_rootHolding hhost))
  · obtain ⟨one, hone, rfl⟩ := List.mem_map.mp hpreferred
    exact offered_of_mem (mem_of_usable (List.mem_of_find?_eq_some (Option.mem_toList.mp hone)))
  · obtain ⟨choice, hchoice, hattempt⟩ := List.mem_filterMap.mp hconfigured
    obtain ⟨one, hone, rfl⟩ := List.mem_filterMap.mp hchoice
    cases choice with
    | error note => cases hattempt
    | ok found =>
      cases hattempt
      rcases List.mem_cons.mp hone with hone | hone
      · exact offered_of_mem (mem_of_configured hone.symm)
      · exact offered_of_mem (mem_of_configured (List.mem_singleton.mp hone).symm)
  · split_ifs at hfixed
    · obtain ⟨fixed, -, rfl⟩ := List.mem_map.mp hfixed
      refine offered_getD (fun library hl => ?_) _
      rcases Option.or_eq_some_iff.mp hl with hl | ⟨-, hl⟩
      · exact husable _ (mem_of_libraryHolding library hl)
      · exact husable _ (List.mem_of_head? hl)
    · cases hfixed
  · obtain ⟨path, -, rfl⟩ := List.mem_map.mp hfallback
    exact offered_getD (fun library hl => husable _ (mem_of_libraryHolding library hl)) _
  · obtain ⟨one, hone, rfl⟩ := List.mem_map.mp hrest
    exact offered_of_mem (mem_of_usable (mem_of_byPreference hone))

/-! ### Lots -/

/-- What an item that decides for its lot is sent to: the root and the library of the first
candidate that can take the file, and the rule that is answerable for it. -/
def sentTo (disk : Disk) (request : PlacementRequest) : Option (Dir × String × PlacedBy) := do
  let attempt ← chosen disk request
  let path ← (tried request attempt.root).find?
    (!occupied disk request.reserved request.replacesPath ·)
  return (attempt.root, attempt.library.id,
    placedByFor request attempt.library.id path attempt.strategy)

def PlacementTarget.sent (target : PlacementTarget) : Dir × String × PlacedBy :=
  (target.root, target.libraryId, target.placedBy)

theorem sent_of_unpinned (h : resolve disk request = .ok target) (hpin : request.pinned = none) :
    sentTo disk request = some target.sent ∧ Offered request.libraries target.libraryId := by
  obtain ⟨attempt, rejected, free, hchosen, hfree, rfl⟩ := resolve_eq_ok h
  constructor
  · simp only [sentTo, hchosen, hfree, bind, Option.bind, pure, PlacementTarget.sent, targetOf,
      hpin]
  · have hattempt := List.mem_of_find?_eq_some hchosen
    rw [candidates, hpin] at hattempt
    exact offered_of_unpinned hattempt

/-- **An item of a lot that has a destination goes there.** -/
theorem sent_of_pinned {pin : PlacementPin} (h : resolve disk request = .ok target)
    (hpin : request.pinned = some pin) (hoffered : Offered request.libraries pin.libraryId) :
    target.sent = (pin.root, pin.libraryId, pin.placedBy) := by
  obtain ⟨attempt, rejected, free, hchosen, -, rfl⟩ := resolve_eq_ok h
  have hattempt := List.mem_of_find?_eq_some hchosen
  rw [candidates, hpin] at hattempt
  obtain rfl := List.mem_singleton.mp hattempt
  have hid : ((request.libraries.find? (·.id = pin.libraryId)).getD
      (syntheticLibrary pin.root)).id = pin.libraryId := by
    cases hfind : request.libraries.find? (·.id = pin.libraryId) with
    | some library => simpa using List.find?_some hfind
    | none =>
      rcases hoffered with hin | hempty
      · obtain ⟨library, hlibrary, hid⟩ := List.mem_map.mp hin
        exact absurd (List.find?_eq_none.mp hfind library hlibrary) (by simpa using hid)
      · exact hempty.symm
  simp only [PlacementTarget.sent, targetOf, hpin, hid]

end MediaCenterSync.Placement
