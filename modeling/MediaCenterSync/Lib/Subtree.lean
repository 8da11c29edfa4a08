import Mathlib.Data.List.Nodup
import Mathlib.Data.Set.Function

/-!
# Walking down a forest

`gather children own` is the recursion that gives a node what it owns followed by what its
children's walks give, and `collect` the same recursion with a memo that is written once a node's
walk is over. Both take fuel, and give `none` when it runs out.

* `gather_eq_flatMap`, `mem_nodes` and `nodup_nodes`: when no node has two parents, what a walk
  gives is what the nodes at or below its start own, each node once;
* `collect_eq_some`: with a memo that only holds what walks give, what `collect` gives is what
  `gather` does;
* `exists_collect_iff` and `exists_walks_iff`: a `collect` with so much fuel ends exactly when no
  descent from its start, past what its memo already holds, is longer than that.
-/

namespace MediaCenterSync.Subtree

variable {α β κ : Type*}

/-! ### The plain walk -/

section Gather

variable (children : α → List α) (own : α → List β)

/-- What a node owns, followed by what the walks of its children give. -/
def gather : ℕ → α → Option (List β)
  | 0, _ => none
  | fuel + 1, a => ((children a).mapM (gather fuel)).map fun below => own a ++ below.flatten

/-- `x` is one of the children of `a`. -/
def IsChild (x a : α) : Prop := x ∈ children a

theorem gather_succ (n : ℕ) (a : α) :
    gather children own (n + 1) a
      = ((children a).mapM (gather children own n)).map fun below => own a ++ below.flatten := rfl

variable {children own}

theorem forall_of_mapM {f : α → Option (List β)} :
    ∀ {l : List α} {below : List (List β)}, l.mapM f = some below → ∀ a ∈ l, ∃ xs, f a = some xs
  | [], _, _, _, ha => by simp at ha
  | b :: l, below, h, a, ha => by
    simp only [List.mapM_cons, Option.pure_def, Option.bind_eq_bind, Option.bind_eq_some_iff] at h
    obtain ⟨xs, hxs, rest, hrest, -⟩ := h
    rcases List.mem_cons.mp ha with rfl | ha
    · exact ⟨xs, hxs⟩
    · exact forall_of_mapM hrest a ha

/-- Where one function says something, a function that agrees with it there gives the same list. -/
theorem mapM_eq_some_of_agree {f g : α → Option (List β)} :
    ∀ {l : List α} {below : List (List β)}, l.mapM f = some below →
      (∀ a ∈ l, ∀ xs, f a = some xs → g a = some xs) → l.mapM g = some below
  | [], below, h, _ => h
  | b :: l, below, h, hfg => by
    simp only [List.mapM_cons, Option.pure_def, Option.bind_eq_bind, Option.bind_eq_some_iff] at h
    obtain ⟨xs, hxs, rest, hrest, hbelow⟩ := h
    have htail : l.mapM g = some rest :=
      mapM_eq_some_of_agree hrest fun a ha => hfg a (by simp [ha])
    simp [List.mapM_cons, hfg b (by simp) xs hxs, htail, ← hbelow]

theorem gather_mono {n m : ℕ} (hnm : n ≤ m) {a : α} {xs : List β}
    (h : gather children own n a = some xs) : gather children own m a = some xs := by
  induction n generalizing m a xs with
  | zero => simp [gather] at h
  | succ n ih =>
    obtain ⟨m, rfl⟩ : ∃ k, m = k + 1 := ⟨m - 1, by omega⟩
    rw [gather_succ] at h ⊢
    obtain ⟨below, hbelow, hxs⟩ := Option.map_eq_some_iff.mp h
    have hmap : (children a).mapM (gather children own m) = some below :=
      mapM_eq_some_of_agree hbelow fun b _ ys hys => ih (by omega) hys
    rw [hmap, Option.map_some, hxs]

/-- No chain of children goes on for ever below the start of a walk that ends. -/
theorem acc_of_gather {n : ℕ} {a : α} {xs : List β} (h : gather children own n a = some xs) :
    Acc (IsChild children) a := by
  induction n generalizing a xs with
  | zero => simp [gather] at h
  | succ n ih =>
    rw [gather_succ] at h
    obtain ⟨below, hbelow, -⟩ := Option.map_eq_some_iff.mp h
    refine Acc.intro a fun b hb => ?_
    obtain ⟨ys, hys⟩ := forall_of_mapM hbelow b hb
    exact ih hys

/-- The start of a walk that ends is not below itself. -/
theorem not_transGen_of_gather {n : ℕ} {a : α} {xs : List β}
    (h : gather children own n a = some xs) : ¬ Relation.TransGen (IsChild children) a a := by
  have hself : ∀ b, Acc (Relation.TransGen (IsChild children)) b →
      ¬ Relation.TransGen (IsChild children) b b := by
    intro b hb
    induction hb with
    | intro b _ ih => exact fun h => ih b h h
  exact hself a (acc_of_gather h).transGen

/-! ### The nodes a walk goes through -/

variable (children) in
/-- A node followed by the nodes below it, in the order a walk visits them. -/
def nodes : ℕ → α → Option (List α) := gather children fun a => [a]

theorem mapM_map_flatMap {f : α → Option (List α)} {g : α → Option (List β)}
    (hfg : ∀ a, g a = (f a).map (·.flatMap own)) :
    ∀ l : List α, l.mapM g = (l.mapM f).map fun below => below.map (·.flatMap own)
  | [] => rfl
  | a :: l => by
    rw [List.mapM_cons, List.mapM_cons, hfg a, mapM_map_flatMap hfg l]
    cases f a with
    | none => rfl
    | some xs => cases l.mapM f <;> rfl

theorem gather_eq_flatMap (n : ℕ) (a : α) :
    gather children own n a = (nodes children n a).map (·.flatMap own) := by
  induction n generalizing a with
  | zero => rfl
  | succ n ih =>
    rw [nodes, gather_succ, gather_succ, mapM_map_flatMap (f := nodes children n) ih (children a),
      Option.map_map, Option.map_map]
    congr 1
    funext below
    simp [List.flatMap_def, List.map_flatten, List.flatten_flatten, Function.comp_def]

/-- What a walk with some fuel left goes through: its start, and its children's walks. -/
theorem nodes_succ_eq_some {n : ℕ} {a : α} {visited : List α}
    (h : nodes children (n + 1) a = some visited) :
    ∃ below, (children a).mapM (nodes children n) = some below ∧
      visited = a :: below.flatten := by
  rw [nodes, gather_succ] at h
  obtain ⟨below, hbelow, hvisited⟩ := Option.map_eq_some_iff.mp h
  exact ⟨below, hbelow, hvisited.symm⟩

theorem forall₂_of_mapM {f : α → Option (List β)} :
    ∀ {l : List α} {below : List (List β)}, l.mapM f = some below →
      List.Forall₂ (fun a xs => f a = some xs) l below
  | [], _, h => by
    obtain rfl : _ = _ := Option.some.inj h
    exact .nil
  | a :: l, _, h => by
    simp only [List.mapM_cons, Option.pure_def, Option.bind_eq_bind, Option.bind_eq_some_iff] at h
    obtain ⟨xs, hxs, rest, hrest, hbelow⟩ := h
    obtain rfl : _ = _ := Option.some.inj hbelow
    exact .cons hxs (forall₂_of_mapM hrest)

theorem mem_flatten_iff {f : α → Option (List β)} {l : List α} {below : List (List β)}
    (h : List.Forall₂ (fun a xs => f a = some xs) l below) (x : β) :
    x ∈ below.flatten ↔ ∃ a ∈ l, ∃ xs, f a = some xs ∧ x ∈ xs := by
  induction h with
  | nil => simp
  | @cons a xs l below hxs _ ih =>
    rw [List.flatten_cons, List.mem_append, ih]
    constructor
    · rintro (hx | ⟨b, hb, ys, hys, hx⟩)
      · exact ⟨a, by simp, xs, hxs, hx⟩
      · exact ⟨b, by simp [hb], ys, hys, hx⟩
    · rintro ⟨b, hb, ys, hys, hx⟩
      rcases List.mem_cons.mp hb with rfl | hb
      · exact .inl (by rwa [← Option.some.inj (hxs.symm.trans hys)] at hx)
      · exact .inr ⟨b, hb, ys, hys, hx⟩

/-- **A walk goes through its start and everything below it.** -/
theorem mem_nodes {n : ℕ} {a : α} {visited : List α} (h : nodes children n a = some visited)
    (x : α) : x ∈ visited ↔ Relation.ReflTransGen (IsChild children) x a := by
  induction n generalizing a visited x with
  | zero => simp [nodes, gather] at h
  | succ n ih =>
    obtain ⟨below, hbelow, rfl⟩ := nodes_succ_eq_some h
    rw [List.mem_cons, mem_flatten_iff (forall₂_of_mapM hbelow),
      Relation.ReflTransGen.cases_tail_iff]
    refine or_congr eq_comm ⟨?_, ?_⟩
    · rintro ⟨b, hb, xs, hxs, hx⟩
      exact ⟨b, (ih hxs x).mp hx, hb⟩
    · rintro ⟨b, hx, hb⟩
      obtain ⟨xs, hxs⟩ := forall_of_mapM hbelow b hb
      exact ⟨b, hb, xs, hxs, (ih hxs x).mpr hx⟩

section Once

variable {domain : Set α} (hclosed : ∀ a ∈ domain, ∀ b ∈ children a, b ∈ domain)
  (hparent : ∀ x, ∀ a ∈ domain, ∀ b ∈ domain, IsChild children x a → IsChild children x b → a = b)

include hclosed in
theorem mem_of_below {x a : α} (h : Relation.ReflTransGen (IsChild children) x a)
    (ha : a ∈ domain) : x ∈ domain := by
  induction h using Relation.ReflTransGen.head_induction_on with
  | refl => exact ha
  | head hxy _ ih => exact hclosed _ ih _ hxy

include hclosed hparent in
theorem below_or_above {x a b : α} (ha : a ∈ domain) (hb : b ∈ domain)
    (hxa : Relation.ReflTransGen (IsChild children) x a)
    (hxb : Relation.ReflTransGen (IsChild children) x b) :
    Relation.ReflTransGen (IsChild children) a b ∨
      Relation.ReflTransGen (IsChild children) b a := by
  induction hxa using Relation.ReflTransGen.head_induction_on with
  | refl => exact .inl hxb
  | @head x y hxy hya ih =>
    rcases Relation.ReflTransGen.cases_head hxb with rfl | ⟨z, hxz, hzb⟩
    · exact .inr (.head hxy hya)
    · have hyz : y = z := hparent x y (mem_of_below hclosed hya ha) z
        (mem_of_below hclosed hzb hb) hxy hxz
      exact ih (hyz ▸ hzb)

include hclosed hparent in
/-- Two children of a node that is not below itself have nothing below them in common. -/
theorem children_apart {a : α} (ha : a ∈ domain)
    (hacyclic : ¬ Relation.TransGen (IsChild children) a a) {p q x : α} (hp : p ∈ children a)
    (hq : q ∈ children a) (hpq : p ≠ q) (hxp : Relation.ReflTransGen (IsChild children) x p) :
    ¬ Relation.ReflTransGen (IsChild children) x q := by
  -- From one child up to its sibling the way leads through their parent.
  have hthrough : ∀ p q, p ∈ children a → q ∈ children a → p ≠ q →
      ¬ Relation.ReflTransGen (IsChild children) p q := by
    intro p q hp hq hpq hup
    rcases Relation.ReflTransGen.cases_head hup with heq | ⟨m, hpm, hmq⟩
    · exact hpq heq
    · have hm : m ∈ domain := mem_of_below hclosed hmq (hclosed a ha q hq)
      rw [hparent p m hm a ha hpm hp] at hmq
      exact hacyclic (.tail' hmq hq)
  intro hxq
  rcases below_or_above hclosed hparent (hclosed a ha p hp) (hclosed a ha q hq) hxp hxq
    with hup | hup
  · exact hthrough p q hp hq hpq hup
  · exact hthrough q p hq hp hpq.symm hup

include hclosed hparent in
/-- **Where no node has two parents, a walk goes through each node once.** -/
theorem nodup_nodes (hchildren : ∀ a, (children a).Nodup) {n : ℕ} {a : α} (ha : a ∈ domain)
    {visited : List α} (h : nodes children n a = some visited) : visited.Nodup := by
  induction n generalizing a visited with
  | zero => simp [nodes, gather] at h
  | succ n ih =>
    have hacyclic : ¬ Relation.TransGen (IsChild children) a a := not_transGen_of_gather h
    obtain ⟨below, hbelow, rfl⟩ := nodes_succ_eq_some h
    have hall := forall₂_of_mapM hbelow
    refine List.nodup_cons.mpr ⟨?_, ?_⟩
    · -- The start is not below itself.
      rw [mem_flatten_iff hall]
      rintro ⟨b, hb, xs, hxs, ha⟩
      exact hacyclic (.tail' ((mem_nodes hxs a).mp ha) hb)
    · -- The walks of two children share no node: one of the two would be below the other, and
      -- so below their parent, which is below the other again.
      have hapart : ∀ {l : List α} {below : List (List α)}, l.Nodup → (∀ b ∈ l, b ∈ children a) →
          List.Forall₂ (fun b xs => nodes children n b = some xs) l below →
            below.flatten.Nodup := by
        intro l below hl hsub hforall
        induction hforall with
        | nil => simp
        | @cons b xs l below hxs hrest ihl =>
          obtain ⟨hb, hl⟩ := List.nodup_cons.mp hl
          rw [List.flatten_cons, List.nodup_append]
          refine ⟨ih (hclosed a ha b (hsub b (by simp))) hxs,
            ihl hl fun c hc => hsub c (by simp [hc]), ?_⟩
          rintro x hx y hy rfl
          obtain ⟨c, hc, ys, hys, hxc⟩ := (mem_flatten_iff hrest x).mp hy
          have hne : b ≠ c := fun heq => hb (heq ▸ hc)
          have hapart := children_apart hclosed hparent ha hacyclic (hsub b (by simp))
            (hsub c (by simp [hc])) hne ((mem_nodes hxs x).mp hx)
          exact hapart ((mem_nodes hys x).mp hxc)
      exact hapart (hchildren a) (fun b hb => hb) hall

end Once

end Gather

/-! ### The walk with a memo -/

section Collect

variable [DecidableEq κ] (key : α → κ) (children : α → List α) (own : α → List β)

/-- What has been collected so far, by key. -/
abbrev Memo (κ β : Type*) := κ → Option (List β)

/-- The results of a walk from each node of a list, one after another. -/
def collectAll (walk : Memo κ β → α → Option (List β × Memo κ β)) :
    Memo κ β → List α → Option (List (List β) × Memo κ β)
  | memo, [] => some ([], memo)
  | memo, a :: rest => do
    let (xs, memo) ← walk memo a
    let (below, memo) ← collectAll walk memo rest
    some (xs :: below, memo)

/-- The walk that reads its memo first and writes what it gives to it when it is over. -/
def collect : ℕ → Memo κ β → α → Option (List β × Memo κ β)
  | 0, _, _ => none
  | fuel + 1, memo, a =>
    match memo (key a) with
    | some cached => some (cached, memo)
    | none => do
      let (below, memo) ← collectAll (collect fuel) memo (children a)
      let all := own a ++ below.flatten
      some (all, Function.update memo (key a) (some all))

omit [DecidableEq κ] in
theorem collectAll_cons (walk : Memo κ β → α → Option (List β × Memo κ β)) (memo : Memo κ β) (a : α)
    (rest : List α) :
    collectAll walk memo (a :: rest)
      = (walk memo a).bind fun (xs, memo) =>
          (collectAll walk memo rest).map fun (below, memo) => (xs :: below, memo) := by
  rw [collectAll]
  cases walk memo a with
  | none => rfl
  | some first =>
    cases hrest : collectAll walk first.2 rest with
    | none => simp [hrest]
    | some all => simp [hrest]

/-- Every entry of a memo is what the walk from the node of that key gives. -/
def Memo.Sound (domain : Set α) (memo : Memo κ β) : Prop :=
  ∀ a ∈ domain, ∀ xs, memo (key a) = some xs → ∃ n, gather children own n a = some xs

variable {key children own}
variable {domain : Set α} (hkey : Set.InjOn key domain)
  (hclosed : ∀ a ∈ domain, ∀ b ∈ children a, b ∈ domain)

omit [DecidableEq κ] in
theorem Memo.sound_empty : Memo.Sound key children own domain fun _ => none :=
  fun _ _ _ h => nomatch h

include hkey in
theorem Memo.Sound.update {memo : Memo κ β} (hsound : memo.Sound key children own domain) {a : α}
    (ha : a ∈ domain) {xs : List β} (hxs : ∃ n, gather children own n a = some xs) :
    Memo.Sound key children own domain (Function.update memo (key a) (some xs)) := by
  intro b hb ys hys
  by_cases heq : key b = key a
  · rw [heq, Function.update_self] at hys
    rw [hkey hb ha heq, ← Option.some.inj hys]
    exact hxs
  · rw [Function.update_of_ne heq] at hys
    exact hsound b hb ys hys

/-- The results of walks that end with some fuel each are those of walks with fuel enough for
all. -/
theorem exists_mapM_gather {l : List α} {xss : List (List β)}
    (h : List.Forall₂ (fun a xs => ∃ n, gather children own n a = some xs) l xss) :
    ∃ n, l.mapM (gather children own n) = some xss := by
  induction h with
  | nil => exact ⟨0, rfl⟩
  | @cons a xs l xss hxs _ ih =>
    obtain ⟨n, hn⟩ := hxs
    obtain ⟨m, hm⟩ := ih
    refine ⟨max n m, ?_⟩
    have hhead := gather_mono (le_max_left n m) hn
    have htail := mapM_eq_some_of_agree hm fun b _ ys => gather_mono (le_max_right n m)
    simp [List.mapM_cons, hhead, htail]

omit [DecidableEq κ] in
/-- Where each walk of a list gives what the plain one does, so do all of them. -/
theorem collectAll_spec {walk : Memo κ β → α → Option (List β × Memo κ β)}
    (hwalk : ∀ memo : Memo κ β, memo.Sound key children own domain → ∀ a ∈ domain, ∀ xs after,
      walk memo a = some (xs, after) →
        (∃ n, gather children own n a = some xs) ∧ after.Sound key children own domain)
    {l : List α} (hl : ∀ a ∈ l, a ∈ domain) {memo : Memo κ β}
    (hsound : memo.Sound key children own domain) {xss : List (List β)} {after : Memo κ β}
    (h : collectAll walk memo l = some (xss, after)) :
    List.Forall₂ (fun a xs => ∃ n, gather children own n a = some xs) l xss ∧
      after.Sound key children own domain := by
  induction l generalizing memo xss after with
  | nil =>
    cases h
    exact ⟨.nil, hsound⟩
  | cons a l ih =>
    rw [collectAll_cons] at h
    obtain ⟨⟨xs, between⟩, ha, h⟩ := Option.bind_eq_some_iff.mp h
    obtain ⟨⟨rest, last⟩, hrest, heq⟩ := Option.map_eq_some_iff.mp h
    obtain ⟨rfl, rfl⟩ := Prod.mk.inj heq
    obtain ⟨hxs, hbetween⟩ := hwalk memo hsound a (hl a (by simp)) xs between ha
    obtain ⟨hforall, hlast⟩ := ih (fun b hb => hl b (by simp [hb])) hbetween hrest
    exact ⟨.cons hxs hforall, hlast⟩

include hkey hclosed in
/-- **What a walk with a memo gives is what the plain walk gives**, and its memo stays sound. -/
theorem collect_eq_some {n : ℕ} {memo : Memo κ β} (hsound : memo.Sound key children own domain)
    {a : α} (ha : a ∈ domain) {xs : List β} {after : Memo κ β}
    (h : collect key children own n memo a = some (xs, after)) :
    (∃ m, gather children own m a = some xs) ∧ after.Sound key children own domain := by
  induction n generalizing memo a xs after with
  | zero => simp [collect] at h
  | succ n ih =>
    rw [collect] at h
    cases hmemo : memo (key a) with
    | some cached =>
      rw [hmemo] at h
      cases h
      exact ⟨hsound a ha _ hmemo, hsound⟩
    | none =>
      rw [hmemo] at h
      obtain ⟨⟨below, between⟩, hbelow, heq⟩ := Option.bind_eq_some_iff.mp h
      cases heq
      obtain ⟨hforall, hbetween⟩ :=
        collectAll_spec (fun _ hm b hb _ _ => ih hm hb) (hclosed a ha) hsound hbelow
      obtain ⟨m, hm⟩ := exists_mapM_gather hforall
      have hgather : ∃ k, gather children own k a = some (own a ++ below.flatten) :=
        ⟨m + 1, by rw [gather_succ, hm, Option.map_some]⟩
      exact ⟨hgather, hbetween.update hkey ha hgather⟩

end Collect

/-! ### How deep a walk goes -/

section Depth

variable [DecidableEq κ] {key : α → κ} {children : α → List α} {own : α → List β}
  {domain : Set α} (hkey : Set.InjOn key domain)
  (hclosed : ∀ a ∈ domain, ∀ b ∈ children a, b ∈ domain)

variable (children) in
/-- A walk that has been through `done` may have so many calls open inside one another, the
outermost at a node: each at a child of the one before, and none below a node of `done`. -/
inductive Descent (done : Set α) : α → ℕ → Prop
  | here (a : α) : Descent done a 1
  | down {a b : α} {n : ℕ} : a ∉ done → b ∈ children a → Descent done b n →
      Descent done a (n + 1)

theorem Descent.anti {done done' : Set α} (hsub : done ⊆ done') {a : α} {n : ℕ}
    (h : Descent children done' a n) : Descent children done a n := by
  induction h with
  | here a => exact .here a
  | down hfresh hb _ ih => exact .down (fun hin => hfresh (hsub hin)) hb ih

/-- A descent only depends on what lies at or below its start. -/
theorem Descent.congr {done done' : Set α} {a : α} {n : ℕ} (h : Descent children done a n)
    (hbelow : ∀ x, Relation.ReflTransGen (IsChild children) x a → x ∈ done' → x ∈ done) :
    Descent children done' a n := by
  induction h with
  | here a => exact .here a
  | @down a b n hfresh hb _ ih =>
    have hrest : ∀ x, Relation.ReflTransGen (IsChild children) x b → x ∈ done' → x ∈ done :=
      fun x hx => hbelow x (.tail hx hb)
    exact .down (fun hin => hfresh (hbelow a .refl hin)) hb (ih hrest)

theorem forall_descent_succ_iff {done : Set α} {a : α} (hfresh : a ∉ done) {n : ℕ} :
    (∀ k, Descent children done a k → k ≤ n + 1) ↔
      ∀ b ∈ children a, ∀ k, Descent children done b k → k ≤ n := by
  constructor
  · exact fun h b hb k hk => Nat.le_of_succ_le_succ (h _ (.down hfresh hb hk))
  · intro h k hk
    cases hk with
    | here => exact Nat.le_add_left 1 n
    | down _ hb hrest => exact Nat.succ_le_succ (h _ hb _ hrest)

variable (children) in
def below (l : List α) : Set α := {x | ∃ a ∈ l, Relation.ReflTransGen (IsChild children) x a}

theorem below_nil : below children [] = ∅ := by
  ext x
  simp [below]

theorem below_cons (a : α) (l : List α) :
    below children (a :: l) = below children [a] ∪ below children l := by
  ext x
  simp [below]

variable (key children) in
/-- A memo that has the nodes of a set, and with a node everything below it. -/
structure Memo.Holds (domain done : Set α) (memo : Memo κ β) : Prop where
  isSome_iff : ∀ a ∈ domain, (memo (key a)).isSome ↔ a ∈ done
  closed : ∀ a ∈ domain, a ∈ done → ∀ b ∈ children a, b ∈ done

variable {done : Set α}

omit [DecidableEq κ] in
theorem Memo.holds_empty : Memo.Holds key children domain ∅ (fun _ => none : Memo κ β) where
  isSome_iff := by simp
  closed := by simp

omit [DecidableEq κ] in
include hclosed in
theorem Memo.Holds.below_subset {memo : Memo κ β} (h : memo.Holds key children domain done)
    {a : α} (ha : a ∈ domain) (hdone : a ∈ done) : below children [a] ⊆ done := by
  rintro x ⟨b, hb, hx⟩
  rw [List.mem_singleton.mp hb] at hx
  clear hb
  induction hx using Relation.ReflTransGen.head_induction_on with
  | refl => exact hdone
  | @head x y hxy hya ih => exact h.closed y (mem_of_below hclosed hya ha) ih x hxy

omit [DecidableEq κ] in
/-- Where each walk of a list adds what is at or below its start, so do all of them. -/
theorem collectAll_holds {walk : Memo κ β → α → Option (List β × Memo κ β)}
    (hwalk : ∀ memo done, Memo.Holds key children domain done memo → ∀ a ∈ domain, ∀ xs after,
      walk memo a = some (xs, after) →
        after.Holds key children domain (done ∪ below children [a]))
    {l : List α} (hl : ∀ a ∈ l, a ∈ domain) {memo : Memo κ β}
    (hmemo : memo.Holds key children domain done) {xss : List (List β)} {after : Memo κ β}
    (h : collectAll walk memo l = some (xss, after)) :
    after.Holds key children domain (done ∪ below children l) := by
  induction l generalizing memo done xss after with
  | nil =>
    cases h
    rwa [below_nil, Set.union_empty]
  | cons a l ih =>
    rw [collectAll_cons] at h
    obtain ⟨⟨xs, between⟩, ha, h⟩ := Option.bind_eq_some_iff.mp h
    obtain ⟨⟨rest, last⟩, hrest, heq⟩ := Option.map_eq_some_iff.mp h
    obtain ⟨rfl, rfl⟩ := Prod.mk.inj heq
    rw [below_cons, ← Set.union_assoc]
    exact ih (fun b hb => hl b (by simp [hb]))
      (hwalk memo done hmemo a (hl a (by simp)) xs between ha) hrest

include hkey hclosed in
theorem collect_holds {n : ℕ} {memo : Memo κ β} (hmemo : memo.Holds key children domain done)
    {a : α} (ha : a ∈ domain) {xs : List β} {after : Memo κ β}
    (h : collect key children own n memo a = some (xs, after)) :
    after.Holds key children domain (done ∪ below children [a]) := by
  induction n generalizing memo done a xs after with
  | zero => simp [collect] at h
  | succ n ih =>
    rw [collect] at h
    cases hcached : memo (key a) with
    | some cached =>
      rw [hcached] at h
      cases h
      have hdone : a ∈ done := (hmemo.isSome_iff a ha).mp (by simp [hcached])
      rwa [Set.union_eq_self_of_subset_right (hmemo.below_subset hclosed ha hdone)]
    | none =>
      rw [hcached] at h
      obtain ⟨⟨rest, between⟩, hrest, heq⟩ := Option.bind_eq_some_iff.mp h
      cases heq
      have hbetween := collectAll_holds (fun _ _ hm b hb _ _ => ih hm hb) (hclosed a ha) hmemo hrest
      have hmem : ∀ x, x ∈ done ∪ below children [a] ↔
          x = a ∨ x ∈ done ∪ below children (children a) := by
        intro x
        have hhere : x ∈ below children [a] ↔ x = a ∨ x ∈ below children (children a) := by
          simp only [below, Set.mem_ofPred_eq, List.mem_singleton, exists_eq_left]
          rw [Relation.ReflTransGen.cases_tail_iff, eq_comm]
          simp only [IsChild, and_comm]
        rw [Set.mem_union, hhere, Set.mem_union]
        tauto
      constructor
      · intro b hb
        rw [hmem]
        by_cases heq : key b = key a
        · simp [hkey hb ha heq]
        · have hne : b ≠ a := fun h => heq (h ▸ rfl)
          simp only [Function.update_of_ne heq, hbetween.isSome_iff b hb, hne, false_or]
      · intro b hb hin c hc
        rw [hmem] at hin ⊢
        rcases hin with rfl | hin
        · exact .inr (.inr ⟨c, hc, .refl⟩)
        · exact .inr (hbetween.closed b hb hin c hc)

theorem forall_split_cons {a : α} {l : List α} {n : ℕ} :
    (∀ before b after, a :: l = before ++ b :: after →
      ∀ k, Descent children (done ∪ below children before) b k → k ≤ n) ↔
      (∀ k, Descent children done a k → k ≤ n) ∧
        ∀ before b after, l = before ++ b :: after →
          ∀ k, Descent children ((done ∪ below children [a]) ∪ below children before) b k →
            k ≤ n := by
  constructor
  · intro h
    refine ⟨fun k hk => h [] a l rfl k (by rwa [below_nil, Set.union_empty]), ?_⟩
    intro before b after heq k hk
    refine h (a :: before) b after (by rw [heq]; rfl) k ?_
    rwa [below_cons, ← Set.union_assoc]
  · rintro ⟨hhead, htail⟩ before b after heq k hk
    rcases before with _ | ⟨c, before⟩
    · obtain ⟨rfl, rfl⟩ := List.cons.inj heq
      exact hhead k (by rwa [below_nil, Set.union_empty] at hk)
    · obtain ⟨rfl, rfl⟩ := List.cons.inj heq
      refine htail before b after rfl k ?_
      rwa [below_cons, ← Set.union_assoc] at hk

omit [DecidableEq κ] in
/-- The walks of a list end where none of them goes too deep, past what those before it have been
through. -/
theorem exists_collectAll_iff {walk : Memo κ β → α → Option (List β × Memo κ β)} {n : ℕ}
    (hends : ∀ memo done, memo.Sound key children own domain →
      Memo.Holds key children domain done memo → ∀ a ∈ domain,
        ((∃ result, walk memo a = some result) ↔ ∀ k, Descent children done a k → k ≤ n))
    (hafter : ∀ memo done, memo.Sound key children own domain →
      Memo.Holds key children domain done memo → ∀ a ∈ domain, ∀ xs after,
        walk memo a = some (xs, after) → after.Sound key children own domain ∧
          after.Holds key children domain (done ∪ below children [a]))
    {l : List α} (hl : ∀ a ∈ l, a ∈ domain) {memo : Memo κ β}
    (hsound : memo.Sound key children own domain) (hmemo : memo.Holds key children domain done) :
    (∃ result, collectAll walk memo l = some result) ↔
      ∀ before a after, l = before ++ a :: after →
        ∀ k, Descent children (done ∪ below children before) a k → k ≤ n := by
  induction l generalizing memo done with
  | nil => simp [collectAll]
  | cons a l ih =>
    have ha : a ∈ domain := hl a (by simp)
    have hrest : ∀ b ∈ l, b ∈ domain := fun b hb => hl b (by simp [hb])
    rw [forall_split_cons, ← hends memo done hsound hmemo a ha, collectAll_cons]
    constructor
    · rintro ⟨result, h⟩
      obtain ⟨⟨xs, between⟩, hhead, h⟩ := Option.bind_eq_some_iff.mp h
      obtain ⟨rest, hcollected, -⟩ := Option.map_eq_some_iff.mp h
      obtain ⟨hsound', hbetween⟩ := hafter memo done hsound hmemo a ha xs between hhead
      exact ⟨⟨_, hhead⟩, (ih hrest hsound' hbetween).mp ⟨rest, hcollected⟩⟩
    · rintro ⟨⟨⟨xs, between⟩, hhead⟩, htail⟩
      obtain ⟨hsound', hbetween⟩ := hafter memo done hsound hmemo a ha xs between hhead
      obtain ⟨rest, hcollected⟩ := (ih hrest hsound' hbetween).mpr htail
      exact ⟨_, Option.bind_eq_some_iff.mpr ⟨_, hhead, Option.map_eq_some_iff.mpr
        ⟨rest, hcollected, rfl⟩⟩⟩

variable (hparent : ∀ x, ∀ a ∈ domain, ∀ b ∈ domain,
  IsChild children x a → IsChild children x b → a = b) (hchildren : ∀ a, (children a).Nodup)

include hkey hclosed hparent hchildren in
/-- **A walk with so much room ends exactly when it has to go no deeper.** -/
theorem exists_collect_iff {n : ℕ} {memo : Memo κ β}
    (hsound : memo.Sound key children own domain) (hmemo : memo.Holds key children domain done)
    {a : α} (ha : a ∈ domain) :
    (∃ result, collect key children own n memo a = some result) ↔
      ∀ k, Descent children done a k → k ≤ n := by
  induction n generalizing memo done a with
  | zero =>
    refine ⟨fun ⟨_, h⟩ => by simp [collect] at h, fun h => ?_⟩
    exact absurd (h 1 (.here a)) (by omega)
  | succ n ih =>
    have hafter : ∀ (memo : Memo κ β) done, memo.Sound key children own domain →
        Memo.Holds key children domain done memo → ∀ a ∈ domain, ∀ xs after,
          collect key children own n memo a = some (xs, after) →
            after.Sound key children own domain ∧
              after.Holds key children domain (done ∪ below children [a]) :=
      fun _ _ hs hm _ hb _ _ h =>
        ⟨(collect_eq_some hkey hclosed hs hb h).2, collect_holds hkey hclosed hm hb h⟩
    have hends := exists_collectAll_iff (fun _ _ hs hm _ hb => ih hs hm hb) hafter
      (hclosed a ha) hsound hmemo
    rw [collect]
    cases hcached : memo (key a) with
    | some cached =>
      have hdone : a ∈ done := (hmemo.isSome_iff a ha).mp (by simp [hcached])
      refine ⟨fun _ k hk => ?_, fun _ => ⟨_, rfl⟩⟩
      cases hk with
      | here => exact Nat.le_add_left 1 n
      | down hfresh => exact absurd hdone hfresh
    | none =>
      have hfresh : a ∉ done := fun hin => by simpa [hcached] using (hmemo.isSome_iff a ha).mpr hin
      rw [forall_descent_succ_iff hfresh]
      constructor
      · rintro ⟨result, h⟩ b hb k hk
        obtain ⟨⟨xss, between⟩, hcollected, -⟩ := Option.bind_eq_some_iff.mp h
        obtain ⟨before, after, hsplit⟩ := List.append_of_mem hb
        -- What the children before this one have been through is not below it.
        refine hends.mp ⟨_, hcollected⟩ before b after hsplit k (hk.congr fun x hx hin => ?_)
        refine hin.resolve_right fun ⟨c, hc, hxc⟩ => ?_
        obtain ⟨hgathers, -⟩ := collectAll_spec
          (fun _ hm b hb _ _ => collect_eq_some hkey hclosed hm hb) (hclosed a ha) hsound hcollected
        obtain ⟨m, hm⟩ := exists_mapM_gather hgathers
        have hgather : gather children own (m + 1) a = some (own a ++ xss.flatten) := by
          rw [gather_succ, hm, Option.map_some]
        have hacyclic : ¬ Relation.TransGen (IsChild children) a a := not_transGen_of_gather hgather
        have hne : c ≠ b := by
          have hnodup := hchildren a
          rw [hsplit, List.nodup_append] at hnodup
          exact hnodup.2.2 c hc b (by simp)
        exact children_apart hclosed hparent ha hacyclic (hsplit ▸ by simp [hc]) hb hne hxc hx
      · intro h
        have hall : ∀ before b after, children a = before ++ b :: after →
            ∀ k, Descent children (done ∪ below children before) b k → k ≤ n :=
          fun before b after hsplit k hk =>
            h b (by simp [hsplit]) k (hk.anti Set.subset_union_left)
        obtain ⟨⟨xss, between⟩, hcollected⟩ := hends.mpr hall
        exact ⟨_, Option.bind_eq_some_iff.mpr ⟨_, hcollected, rfl⟩⟩

include hkey hclosed hparent hchildren in
/-- **The walks of a list, with an empty memo at first, end exactly when none of them has to go
deeper than there is room**, past what those before it have been through. -/
theorem exists_walks_iff {n : ℕ} {l : List α} (hl : ∀ a ∈ l, a ∈ domain) :
    (∃ result, collectAll (collect key children own n) (fun _ => none) l = some result) ↔
      ∀ before a after, l = before ++ a :: after →
        ∀ k, Descent children (below children before) a k → k ≤ n := by
  have hends := exists_collectAll_iff
    (fun _ _ hs hm _ hb => exists_collect_iff hkey hclosed hparent hchildren (n := n) hs hm hb)
    (fun _ _ hs hm _ hb _ _ h =>
      ⟨(collect_eq_some hkey hclosed hs hb h).2, collect_holds hkey hclosed hm hb h⟩)
    hl (Memo.sound_empty : Memo.Sound key children own domain _) Memo.holds_empty
  simpa only [Set.empty_union] using hends

end Depth

end MediaCenterSync.Subtree
