import Mathlib.Data.List.Basic

/-!
# Patterns matched by backtracking

A pattern is tried at a place of a text, and the places it can end at are listed in the order it
tries them (`ends`): the left side of a choice first, a repetition as often as it can.  The first of
them is where it matches.  A pattern is found at the first place it matches at (`exec`), and found
again after each place it ended (`execAll`).
-/

namespace Regex

variable {χ : Type*}

inductive Pattern (χ : Type*) where
  | empty
  /-- One character of a class. -/
  | one (p : χ → Bool)
  | seq (first second : Pattern χ)
  | alt (first second : Pattern χ)
  /-- Any number of times, as many as it can. -/
  | star (body : Pattern χ)
  /-- What it matches is kept. -/
  | group (body : Pattern χ)
  /-- The next character is none of a class. -/
  | notNext (p : χ → Bool)
  /-- Exactly one of the characters beside this place belongs to a word. -/
  | boundary (word : χ → Bool)

/-- A place of a text, with what was kept on the way to it. -/
structure Cursor (χ : Type*) where
  /-- The characters before it, nearest first. -/
  before : List χ
  rest : List χ
  groups : List (List χ)

namespace Cursor

variable (cursor : Cursor χ)

def textTo (last : Cursor χ) : List χ :=
  cursor.rest.take (cursor.rest.length - last.rest.length)

def keep (start : Cursor χ) : Cursor χ :=
  { cursor with groups := cursor.groups ++ [start.textTo cursor] }

/-- The next character, where there is one of the class. -/
def next (p : χ → Bool) : List (Cursor χ) :=
  match cursor.rest with
  | c :: rest =>
    if p c then [{ cursor with before := c :: cursor.before, rest := rest }] else []
  | [] => []

end Cursor

/-- A body as often as it can, each time going on. -/
def greedy (body : Cursor χ → List (Cursor χ)) : ℕ → Cursor χ → List (Cursor χ)
  | 0, cursor => [cursor]
  | times + 1, cursor =>
    ((body cursor).filter (·.rest.length < cursor.rest.length)).flatMap (greedy body times) ++
      [cursor]

namespace Pattern

/-- Where a pattern can end, in the order it tries them. -/
def ends : Pattern χ → Cursor χ → List (Cursor χ)
  | empty, cursor => [cursor]
  | one p, cursor => cursor.next p
  | seq first second, cursor => (first.ends cursor).flatMap second.ends
  | alt first second, cursor => first.ends cursor ++ second.ends cursor
  | star body, cursor => greedy body.ends cursor.rest.length cursor
  | group body, cursor => (body.ends cursor).map (·.keep cursor)
  | notNext p, cursor => if cursor.rest.head?.any p then [] else [cursor]
  | boundary word, cursor =>
    if cursor.before.head?.any word = cursor.rest.head?.any word then [] else [cursor]

def all : List (Pattern χ) → Pattern χ :=
  List.foldr seq empty

def optional (pattern : Pattern χ) : Pattern χ :=
  alt pattern empty

/-- A pattern once and then as often as it can. -/
def plus (pattern : Pattern χ) : Pattern χ :=
  seq pattern (star pattern)

/-- A pattern once, and at most so many times more, as many as it can. -/
def upTo (pattern : Pattern χ) : ℕ → Pattern χ
  | 0 => pattern
  | times + 1 => seq pattern (optional (upTo pattern times))

end Pattern

/-- Where a pattern was found. -/
structure Found (χ : Type*) where
  text : List χ
  groups : List (List χ)
  /-- The characters before its end, nearest first, and those after. -/
  before : List χ
  rest : List χ

def foundAt (pattern : Pattern χ) (before rest : List χ) : Option (Found χ) :=
  (pattern.ends ⟨before, rest, []⟩).head?.map fun last =>
    { text := (Cursor.mk before rest []).textTo last
      groups := last.groups
      before := last.before
      rest := last.rest }

def find (pattern : Pattern χ) : List χ → List χ → Option (Found χ)
  | before, [] => foundAt pattern before []
  | before, c :: rest => foundAt pattern before (c :: rest) <|> find pattern (c :: before) rest

def exec (pattern : Pattern χ) (text : List χ) : Option (Found χ) :=
  find pattern [] text

/-- Every place a pattern is found at, each after the one before, at most so many. -/
def findAll (pattern : Pattern χ) : ℕ → List χ → List χ → List (Found χ)
  | 0, _, _ => []
  | times + 1, before, rest =>
    match find pattern before rest with
    | none => []
    | some found =>
      match found.text, found.rest with
      -- Nothing was matched, so the next search is one character on.
      | [], c :: rest => found :: findAll pattern times (c :: found.before) rest
      | _, rest => found :: findAll pattern times found.before rest

def execAll (pattern : Pattern χ) (text : List χ) : List (Found χ) :=
  findAll pattern (text.length + 1) [] text

/-! ### What is kept -/

theorem groups_prefix_of_mem_greedy {body : Cursor χ → List (Cursor χ)}
    (hbody : ∀ cursor, ∀ last ∈ body cursor, cursor.groups <+: last.groups) (times : ℕ)
    {cursor last : Cursor χ} (h : last ∈ greedy body times cursor) :
    cursor.groups <+: last.groups := by
  induction times generalizing cursor with
  | zero =>
    obtain rfl := List.mem_singleton.mp h
    exact List.prefix_rfl
  | succ times ih =>
    rcases List.mem_append.mp h with h | h
    · obtain ⟨next, hnext, hlast⟩ := List.mem_flatMap.mp h
      exact (hbody cursor next (List.mem_of_mem_filter hnext)).trans (ih hlast)
    · obtain rfl := List.mem_singleton.mp h
      exact List.prefix_rfl

namespace Pattern

theorem groups_prefix_of_mem_ends (pattern : Pattern χ) {cursor last : Cursor χ}
    (h : last ∈ pattern.ends cursor) : cursor.groups <+: last.groups := by
  induction pattern generalizing cursor last with
  | empty =>
    obtain rfl := List.mem_singleton.mp h
    exact List.prefix_rfl
  | one p =>
    unfold ends Cursor.next at h
    split at h
    · split at h
      · obtain rfl := List.mem_singleton.mp h
        exact List.prefix_rfl
      · exact absurd h List.not_mem_nil
    · exact absurd h List.not_mem_nil
  | seq first second ihfirst ihsecond =>
    obtain ⟨middle, hfirst, hsecond⟩ := List.mem_flatMap.mp h
    exact (ihfirst hfirst).trans (ihsecond hsecond)
  | alt first second ihfirst ihsecond =>
    rcases List.mem_append.mp h with h | h
    · exact ihfirst h
    · exact ihsecond h
  | star body ih =>
    exact groups_prefix_of_mem_greedy (fun _ _ hlast => ih hlast) _ h
  | group body ih =>
    obtain ⟨middle, hmiddle, rfl⟩ := List.mem_map.mp h
    exact (ih hmiddle).trans (List.prefix_append _ _)
  | notNext p =>
    unfold ends at h
    split at h
    · exact absurd h List.not_mem_nil
    · obtain rfl := List.mem_singleton.mp h
      exact List.prefix_rfl
  | boundary word =>
    unfold ends at h
    split at h
    · exact absurd h List.not_mem_nil
    · obtain rfl := List.mem_singleton.mp h
      exact List.prefix_rfl

/-- Something is kept wherever it matches. -/
def keeps : Pattern χ → Bool
  | group _ => true
  | seq first second => first.keeps || second.keeps
  | alt first second => first.keeps && second.keeps
  | _ => false

theorem length_groups_lt (pattern : Pattern χ) (hkeeps : pattern.keeps = true)
    {cursor last : Cursor χ} (h : last ∈ pattern.ends cursor) :
    cursor.groups.length < last.groups.length := by
  induction pattern generalizing cursor last with
  | seq first second ihfirst ihsecond =>
    obtain ⟨middle, hfirst, hsecond⟩ := List.mem_flatMap.mp h
    have hbefore := (first.groups_prefix_of_mem_ends hfirst).length_le
    have hafter := (second.groups_prefix_of_mem_ends hsecond).length_le
    rcases Bool.or_eq_true_iff.mp hkeeps with hkeeps | hkeeps
    · exact Nat.lt_of_lt_of_le (ihfirst hkeeps hfirst) hafter
    · exact Nat.lt_of_le_of_lt hbefore (ihsecond hkeeps hsecond)
  | alt first second ihfirst ihsecond =>
    obtain ⟨hfirst, hsecond⟩ := Bool.and_eq_true_iff.mp hkeeps
    rcases List.mem_append.mp h with h | h
    · exact ihfirst hfirst h
    · exact ihsecond hsecond h
  | group body _ =>
    obtain ⟨middle, hmiddle, rfl⟩ := List.mem_map.mp h
    have hbody := (body.groups_prefix_of_mem_ends hmiddle).length_le
    rw [Cursor.keep, List.length_append, List.length_singleton]
    omega
  | _ => cases hkeeps

end Pattern

theorem groups_ne_nil_of_foundAt {pattern : Pattern χ} (hkeeps : pattern.keeps = true)
    {before rest : List χ} {found : Found χ} (h : foundAt pattern before rest = some found) :
    found.groups ≠ [] := by
  obtain ⟨last, hlast, rfl⟩ := Option.map_eq_some_iff.mp h
  exact List.length_pos_iff.mp (pattern.length_groups_lt hkeeps (List.mem_of_mem_head? hlast))

theorem groups_ne_nil_of_exec {pattern : Pattern χ} (hkeeps : pattern.keeps = true) {text : List χ}
    {found : Found χ} (h : exec pattern text = some found) : found.groups ≠ [] := by
  unfold exec at h
  generalize ([] : List χ) = before at h
  induction text generalizing before with
  | nil => exact groups_ne_nil_of_foundAt hkeeps h
  | cons c rest ih =>
    rw [find] at h
    cases hhere : foundAt pattern before (c :: rest) with
    | none =>
      rw [hhere] at h
      exact ih (c :: before) h
    | some here =>
      rw [hhere] at h
      obtain rfl : here = found := Option.some.inj h
      exact groups_ne_nil_of_foundAt hkeeps hhere

end Regex
