import MediaCenterSync.Auth.Correct.Sessions

/-!
# The last administrator

A role is written over what was read some steps earlier: by `update`, by `remove`, and by the sign-in
of a mirrored account, which saves the account as it read it.  Where no two of these overlap, a
gateway that has an administrator keeps one (`admin_remains`), whatever else runs meanwhile.
-/

namespace MediaCenterSync.Auth

open LabelledRun

section

variable {config : Config} {s s' : State} {call next : Call} {answer : Answer} {user : User}
  {action : Action} {id : ℕ}

/-! ### Counting administrators -/

structure State.Numbered (s : State) : Prop where
  ids : (s.users.map (·.id)).Nodup
  below : ∀ row ∈ s.users, row.id < s.nextUser

theorem length_filter_id_le (h : s.Numbered) (id : ℕ) :
    (s.users.filter (·.id = id)).length ≤ 1 := by
  have hcount := List.nodup_iff_count_le_one.mp h.ids id
  rw [List.count, List.countP_map, List.countP_eq_length_filter] at hcount
  have hsame : s.users.filter ((· == id) ∘ (·.id)) = s.users.filter (·.id = id) :=
    List.filter_congr fun row _ => rfl
  rwa [hsame] at hcount

/-- The administrators other than one account. -/
def State.countOthers (s : State) (id : ℕ) : ℕ :=
  s.users.countP fun row => row.role = .ADMIN ∧ row.id ≠ id

theorem countAdmins_le (h : s.Numbered) (id : ℕ) : s.countAdmins ≤ s.countOthers id + 1 := by
  have hsplit := List.countP_eq_countP_filter_add s.users (·.role = .ADMIN) (·.id = id)
  have hself : (s.users.filter (·.id = id)).countP (·.role = .ADMIN) ≤ 1 :=
    List.countP_le_length.trans (length_filter_id_le h id)
  have hothers : (s.users.filter fun row => !decide (row.id = id)).countP (·.role = .ADMIN) =
      s.countOthers id := by
    rw [List.countP_filter]
    exact List.countP_congr fun row _ => by simp
  unfold State.countAdmins
  omega

theorem countAdmins_of_notAdmin (h : ∀ row ∈ s.users, row.id = id → row.role ≠ .ADMIN) :
    s.countAdmins = s.countOthers id := by
  refine List.countP_congr fun row hrow => ?_
  simp only [decide_eq_true_eq]
  exact ⟨fun hadmin => ⟨hadmin, fun hid => h row hrow hid hadmin⟩, fun hboth => hboth.1⟩

/-- Losing the account leaves an administrator, if there is one. -/
def State.Spares (s : State) (id : ℕ) : Prop :=
  2 ≤ s.countAdmins ∨ ∀ row ∈ s.users, row.id = id → row.role ≠ .ADMIN

theorem State.Spares.countOthers_pos (hspares : s.Spares id) (h : s.Numbered)
    (hadmin : 0 < s.countAdmins) : 0 < s.countOthers id := by
  rcases hspares with htwo | hnone
  · have := countAdmins_le h id
    omega
  · rwa [countAdmins_of_notAdmin hnone] at hadmin

/-! ### One call at a time -/

/-- The call has read an account whose role it may write. -/
def Call.carried : Call → Option User
  | .saveMirror user | .countForUpdate user _ | .saveRole user _ | .countForRemove user
  | .revokeForRemove user | .deleteUser user => some user
  | _ => none

def Call.reads : Call → Bool
  | .findByProvider .. | .requireForUpdate .. | .requireForRemove .. => true
  | _ => false

/-- An account is read for its role only while no other call is between reading and writing. -/
def OneAtATime (s : State) : Action → Prop
  | .step index _ => (∃ call ∈ s.calls[index]?, call.reads = true) →
      ∀ other ∈ s.calls, other.carried = none
  | _ => True

instance (s : State) (action : Action) : Decidable (OneAtATime s action) :=
  match action with
  | .step .. => by dsimp only [OneAtATime]; infer_instance
  | .wait _ | .begin _ => .isTrue trivial

def Call.Safe (s : State) : Call → Prop
  | .saveMirror user => user.role = .ADMIN ∨ s.Spares user.id
  | .saveRole user role => role = .ADMIN ∨ s.Spares user.id
  | .revokeForRemove user | .deleteUser user => s.Spares user.id
  | _ => True

/-- What holds while accounts are written one at a time. -/
structure Orderly (s : State) : Prop extends s.Numbered where
  one : ∀ (i j : ℕ) (call other : Call), s.calls[i]? = some call → s.calls[j]? = some other →
    call.carried ≠ none → other.carried ≠ none → i = j
  known : ∀ call ∈ s.calls, ∀ user ∈ call.carried, user.id < s.nextUser
  safe : ∀ call ∈ s.calls, call.Safe s

/-! ### The tables -/

theorem numbered_createUser (h : s.Numbered) (hcreate : s.createUser user = some s') :
    s'.Numbered := by
  unfold State.createUser at hcreate
  split_ifs at hcreate with hfree
  cases hcreate
  have hnew : user.id ∉ s.users.map (·.id) := by
    intro hin
    obtain ⟨row, hrow, hid⟩ := List.mem_map.mp hin
    have hdistinct := List.all_eq_true.mp hfree row hrow
    simp [hid] at hdistinct
  constructor
  · show ((s.users ++ [user]).map (·.id)).Nodup
    rw [List.map_append]
    exact h.ids.append (List.nodup_singleton _) (by simpa using hnew)
  · intro row hrow
    show row.id < max s.nextUser (user.id + 1)
    rcases List.mem_append.mp hrow with hold | hlast
    · have := h.below row hold
      omega
    · obtain rfl := List.mem_singleton.mp hlast
      omega

theorem numbered_mapUsers (h : s.Numbered) (write : User → User)
    (hid : ∀ row, (write row).id = row.id) : { s with users := s.users.map write }.Numbered := by
  constructor
  · show ((s.users.map write).map (·.id)).Nodup
    have hsame : s.users.map ((·.id) ∘ write) = s.users.map (·.id) :=
      List.map_congr_left fun row _ => hid row
    rw [List.map_map, hsame]
    exact h.ids
  · intro row hrow
    obtain ⟨old, hold, rfl⟩ := List.mem_map.mp hrow
    rw [hid]
    exact h.below old hold

theorem numbered_deleteUser (h : s.Numbered) : (s.deleteUser id).Numbered :=
  ⟨(List.filter_sublist.map _).nodup h.ids, fun row hrow => h.below row (List.mem_filter.mp hrow).1⟩

theorem countAdmins_createUser (hcreate : s.createUser user = some s') :
    s'.countAdmins = s.countAdmins + if user.role = .ADMIN then 1 else 0 := by
  unfold State.createUser at hcreate
  split_ifs at hcreate
  all_goals
    cases hcreate
    show (s.users ++ [user]).countP (·.role = .ADMIN) = _
    simp_all [State.countAdmins, List.countP_append]

/-- A role written over an account: the others stay what they are. -/
theorem countOthers_le_setRole (id : ℕ) (role : UserRole) :
    s.countOthers id ≤ { s with users := s.users.map fun row : User =>
      if row.id = id then { row with role := role } else row }.countAdmins := by
  unfold State.countOthers State.countAdmins
  dsimp only
  rw [List.countP_map]
  refine List.countP_mono_left fun row _ hother => ?_
  simp only [decide_eq_true_eq] at hother
  simp [hother.2, hother.1]

theorem countOthers_eq_deleteUser (id : ℕ) : (s.deleteUser id).countAdmins = s.countOthers id := by
  unfold State.countOthers State.countAdmins State.deleteUser
  dsimp only
  rw [List.countP_filter]
  exact List.countP_congr fun row _ => by simp

theorem countAdmins_setPassword (id : ℕ) (hash : String) :
    (s.setPassword id hash).countAdmins = s.countAdmins := by
  unfold State.countAdmins State.setPassword
  dsimp only
  rw [List.countP_map]
  refine List.countP_congr fun row _ => ?_
  show decide ((if _ then _ else _ : User).role = _) = true ↔ _
  split_ifs <;> exact Iff.rfl

theorem countAdmins_saveUser {role : UserRole} (h : s.Numbered)
    (hsafe : role = .ADMIN ∨ s.Spares user.id) (hsave : s.saveUser user role = some s')
    (hadmin : 0 < s.countAdmins) : 0 < s'.countAdmins := by
  unfold State.saveUser at hsave
  split_ifs at hsave with hthere
  · cases hsave
    rcases hsafe with rfl | hspares
    · -- the account is an administrator now
      obtain ⟨row, hrow, hid⟩ := List.any_eq_true.mp hthere
      refine List.countP_pos_iff.mpr ⟨{ row with role := .ADMIN }, ?_, by simp⟩
      refine List.mem_map.mpr ⟨row, hrow, ?_⟩
      rw [if_pos (of_decide_eq_true hid)]
    · exact lt_of_lt_of_le (hspares.countOthers_pos h hadmin) (countOthers_le_setRole _ _)
  · rw [countAdmins_createUser hsave]
    omega

/-! ### A step of a call -/

/-- What a call does to the accounts, and where it comes to. -/
structure Kept (s s' : State) (next : Call) : Prop where
  numbered : s'.Numbered
  nextUser : s.nextUser ≤ s'.nextUser
  admin : 0 < s.countAdmins → 0 < s'.countAdmins
  known : ∀ user ∈ next.carried, user.id < s'.nextUser
  safe : next.Safe s'

theorem Kept.same (h : s.Numbered) (hknown : ∀ user ∈ next.carried, user.id < s.nextUser)
    (hsafe : next.Safe s) : Kept s s next :=
  ⟨h, le_rfl, fun hadmin => hadmin, hknown, hsafe⟩

theorem findUser_mem (h : s.findUser id = some user) : user ∈ s.users :=
  List.mem_of_find?_eq_some h

theorem findByProvider_mem {provider externalUserId : String}
    (h : s.findByProvider provider externalUserId = some user) : user ∈ s.users :=
  List.mem_of_find?_eq_some h

/-- Where identifiers are unique, what was read of an account is what its row says. -/
theorem spares_of_mem (h : s.Numbered) (huser : user ∈ s.users) (hrole : user.role ≠ .ADMIN) :
    s.Spares user.id :=
  .inr fun row hrow hid => by
    obtain rfl := List.inj_on_of_nodup_map h.ids hrow huser hid
    exact hrole

theorem kept_read (h : s.Numbered) (hknown : ∀ user ∈ call.carried, user.id < s.nextUser)
    (hread : call.read config s = some next) : Kept s s next := by
  cases call with
  -- An administrator found by a provider is one of the rows, and counts as such.
  | findByProvider provider identity =>
    cases hread
    cases hfound : s.findByProvider provider identity.externalUserId with
    | none => exact .same h (by simp [Call.carried]) trivial
    | some user =>
      have hmem := findByProvider_mem hfound
      refine .same h (by rintro _ ⟨⟩; exact h.below user hmem) ?_
      by_cases hrole : user.role = .ADMIN
      · exact .inl hrole
      · exact .inr (spares_of_mem h hmem hrole)
  | requireForUpdate userId role =>
    cases hread
    cases hfound : s.findUser userId with
    | none => exact .same h (by simp [Call.carried]) trivial
    | some user =>
      have hmem := findUser_mem hfound
      dsimp only
      split_ifs with hsame hnot
      · refine .same h (by rintro _ ⟨⟩; exact h.below user hmem) ?_
        by_cases hrole : user.role = .ADMIN
        · exact .inl (hsame.trans hrole)
        · exact .inr (spares_of_mem h hmem hrole)
      · refine .same h (by rintro _ ⟨⟩; exact h.below user hmem) ?_
        exact hnot.symm.imp id (spares_of_mem h hmem)
      · exact .same h (by rintro _ ⟨⟩; exact h.below user hmem) trivial
  | requireForRemove userId =>
    cases hread
    cases hfound : s.findUser userId with
    | none => exact .same h (by simp [Call.carried]) trivial
    | some user =>
      have hmem := findUser_mem hfound
      dsimp only
      split_ifs with hrole
      · exact .same h (by rintro _ ⟨⟩; exact h.below user hmem) (spares_of_mem h hmem hrole)
      · exact .same h (by rintro _ ⟨⟩; exact h.below user hmem) trivial
  -- The count is what the call goes on with: one other administrator is left.
  | countForUpdate user role =>
    cases hread
    split_ifs with hfew
    · exact .same h (by simp [Call.carried]) trivial
    · exact .same h hknown (.inr (.inl (by omega)))
  | countForRemove user =>
    cases hread
    split_ifs with hfew
    · exact .same h (by simp [Call.carried]) trivial
    · exact .same h hknown (.inl (by omega))
  -- From here on the call writes no role and removes no account.
  | findForAuthentication username password =>
    cases hread
    cases s.findForAuthentication username with
    | none => exact .same h (by simp [Call.carried]) trivial
    | some user => dsimp only; split_ifs <;> exact .same h (by simp [Call.carried]) trivial
  | findForPassword userId current =>
    cases hread
    cases s.findUser userId with
    | none => exact .same h (by simp [Call.carried]) trivial
    | some user => dsimp only; split_ifs <;> exact .same h (by simp [Call.carried]) trivial
  | findSpent hash =>
    cases hread
    unfold Call.racing
    cases s.findByHash hash with
    | none => exact .same h (by simp [Call.carried]) trivial
    | some spent =>
      cases hrevoked : spent.revokedAt with
      | none => simp only [hrevoked]; exact .same h (by simp [Call.carried]) trivial
      | some revokedAt =>
        simp only [hrevoked]
        split_ifs <;> exact .same h (by simp [Call.carried]) trivial
  | findValidByHash hash =>
    cases hread
    cases s.findValidByHash hash <;> exact .same h (by simp [Call.carried]) trivial
  | findOwner session =>
    cases hread
    cases s.findUser session.userId <;> exact .same h (by simp [Call.carried]) trivial
  | findRacer hash userId =>
    cases hread
    cases s.findUser userId <;> exact .same h (by simp [Call.carried]) trivial
  | reportReplay hash =>
    cases hread
    cases s.findByHash hash <;> exact .same h (by simp [Call.carried]) trivial
  | touchLastSeen user =>
    cases hread
    exact .same h (by simp [Call.carried]) trivial
  | comparePassword | compareCurrent =>
    cases hread
    split_ifs <;> exact .same h (by simp [Call.carried]) trivial
  | countUsers =>
    cases hread
    split_ifs <;> exact .same h (by simp [Call.carried]) trivial
  | _ => simp [Call.read] at hread

theorem kept_saved {result : Option State} {after : Call} (h : s.Numbered)
    (hcarried : after.carried = none) (hafter : ∀ s, after.Safe s)
    (hresult : ∀ s', result = some s' →
      s'.Numbered ∧ s.nextUser ≤ s'.nextUser ∧ (0 < s.countAdmins → 0 < s'.countAdmins))
    (hsaved : Call.saved s result after = (s', next)) : Kept s s' next := by
  unfold Call.saved at hsaved
  cases result with
  | none =>
    obtain ⟨rfl, rfl⟩ := Prod.mk.inj hsaved
    exact .same h (by simp [Call.carried]) trivial
  | some saved =>
    obtain ⟨rfl, rfl⟩ := Prod.mk.inj hsaved
    obtain ⟨hnumbered, hnext, hadmin⟩ := hresult _ rfl
    exact ⟨hnumbered, hnext, hadmin, by simp [hcarried], hafter _⟩

theorem nextUser_createUser (h : s.createUser user = some s') : s.nextUser ≤ s'.nextUser := by
  unfold State.createUser at h
  split_ifs at h
  cases h
  exact le_max_left _ _

theorem kept_createUser (h : s.Numbered) (hcreate : s.createUser user = some s') :
    s'.Numbered ∧ s.nextUser ≤ s'.nextUser ∧ (0 < s.countAdmins → 0 < s'.countAdmins) := by
  refine ⟨numbered_createUser h hcreate, nextUser_createUser hcreate, fun hadmin => ?_⟩
  rw [countAdmins_createUser hcreate]
  omega

theorem kept_saveUser {role : UserRole} (h : s.Numbered) (hsafe : role = .ADMIN ∨ s.Spares user.id)
    (hsave : s.saveUser user role = some s') :
    s'.Numbered ∧ s.nextUser ≤ s'.nextUser ∧ (0 < s.countAdmins → 0 < s'.countAdmins) := by
  refine ⟨?_, ?_, countAdmins_saveUser h hsafe hsave⟩ <;> unfold State.saveUser at hsave <;>
    split_ifs at hsave
  · cases hsave
    exact numbered_mapUsers h _ fun row => by split_ifs <;> rfl
  · exact numbered_createUser h hsave
  · cases hsave
    exact le_rfl
  · exact nextUser_createUser hsave

theorem kept_write (h : s.Numbered) (hknown : ∀ user ∈ call.carried, user.id < s.nextUser)
    (hsafe : call.Safe s) (hwrite : call.write config s answer = some (s', next)) :
    Kept s s' next := by
  generalize hresult : (s', next) = result at hwrite
  cases writes_of_write hwrite with
  | identified | refused =>
    cases hresult
    exact .same h (by simp [Call.carried]) trivial
  | saveMirror | saveRole =>
    refine kept_saved h ?_ ?_ (fun _ => kept_saveUser h hsafe) hresult.symm
    · rfl
    · exact fun _ => trivial
  | createMirror | createAdmin =>
    refine kept_saved h ?_ ?_ (fun _ => kept_createUser h) hresult.symm
    · rfl
    · exact fun _ => trivial
  | revoke | revokeReplayed | logout | revokeAfterPassword =>
    cases hresult
    exact ⟨⟨h.ids, h.below⟩, le_rfl, fun hadmin => hadmin, by simp [Call.carried], trivial⟩
  | savePassword hash =>
    cases hresult
    refine ⟨numbered_mapUsers h _ fun row => by split_ifs <;> rfl, le_rfl, fun hadmin => ?_,
      by simp [Call.carried], trivial⟩
    rwa [countAdmins_setPassword]
  | revokeForRemove =>
    cases hresult
    exact ⟨⟨h.ids, h.below⟩, le_rfl, fun hadmin => hadmin, hknown, hsafe⟩
  | deleteUser =>
    cases hresult
    refine ⟨numbered_deleteUser h, le_rfl, fun hadmin => ?_, by simp [Call.carried], trivial⟩
    rw [countOthers_eq_deleteUser]
    exact State.Spares.countOthers_pos hsafe h hadmin
  | issue hissue =>
    subst hresult
    obtain ⟨-, ⟨-, rfl, rfl⟩ | ⟨rfl, rfl⟩⟩ := issueStep_eq hissue
    · exact ⟨⟨h.ids, h.below⟩, le_rfl, fun hadmin => hadmin, by simp [Call.carried], trivial⟩
    · exact .same h (by simp [Call.carried]) trivial

theorem kept_step (h : s.Numbered) (hknown : ∀ user ∈ call.carried, user.id < s.nextUser)
    (hsafe : call.Safe s) (hstep : call.step config s answer = some (s', next)) :
    Kept s s' next := by
  unfold Call.step at hstep
  split at hstep
  · next hread =>
    cases hstep
    exact kept_read h hknown hread
  · exact kept_write h hknown hsafe hstep

/-! ### The other calls -/

theorem safe_of_carried (h : call.carried = none) (s : State) : call.Safe s := by
  cases call <;> trivial

theorem carried_of_isFirst (h : call.isFirst = true) : call.carried = none := by
  cases call <;> first | rfl | simp [Call.isFirst] at h

theorem carried_saved {result : Option State} {after : Call} (hafter : after.carried = none)
    (h : Call.saved s result after = (s', next)) : next.carried = none := by
  unfold Call.saved at h
  cases result with
  | none =>
    obtain ⟨-, rfl⟩ := Prod.mk.inj h
    rfl
  | some saved =>
    obtain ⟨-, rfl⟩ := Prod.mk.inj h
    exact hafter

theorem carried_next (hcarried : call.carried = none) (hreads : call.reads = false)
    (h : call.step config s answer = some (s', next)) : next.carried = none := by
  unfold Call.step at h
  cases call with
  -- These carry an account, or read one: both are excluded.
  | saveMirror | countForUpdate | saveRole | countForRemove | revokeForRemove | deleteUser =>
    simp [Call.carried] at hcarried
  | findByProvider | requireForUpdate | requireForRemove => simp [Call.reads] at hreads
  -- What is left goes on to a call that carries nothing.
  | createMirror =>
    cases answer <;> first | exact carried_saved rfl (Option.some.inj h) | simp [Call.write, Call.read] at h
  | createAdmin =>
    cases answer <;> first | exact carried_saved rfl (Option.some.inj h) | simp [Call.write, Call.read] at h
  | issue user =>
    cases answer with
    | token token => obtain ⟨-, ⟨-, rfl, -⟩ | ⟨rfl, -⟩⟩ := issueStep_eq h <;> rfl
    | _ => simp [Call.write, Call.read] at h
  | askService provider =>
    cases answer with
    | identity result => cases result <;> (cases h; rfl)
    | _ => simp [Call.write, Call.read] at h
  | revoke | revokeReplayed | logout | savePassword | revokeAfterPassword =>
    cases answer <;>
      first
      | (cases h; rfl)
      | simp [Call.write, Call.read] at h
  | answered | paired | failed => simp [Call.write, Call.read] at h
  | findForAuthentication username password =>
    cases h
    cases s.findForAuthentication username with
    | none => rfl
    | some user => dsimp only; split_ifs <;> rfl
  | findForPassword userId current =>
    cases h
    cases s.findUser userId with
    | none => rfl
    | some user => dsimp only; split_ifs <;> rfl
  | findSpent hash =>
    cases h
    unfold Call.racing
    cases s.findByHash hash with
    | none => rfl
    | some spent =>
      cases hrevoked : spent.revokedAt with
      | none => simp only [hrevoked]; rfl
      | some revokedAt => simp only [hrevoked]; split_ifs <;> rfl
  | findValidByHash hash =>
    cases h
    cases s.findValidByHash hash <;> rfl
  | findOwner session =>
    cases h
    cases s.findUser session.userId <;> rfl
  | findRacer hash userId =>
    cases h
    cases s.findUser userId <;> rfl
  | reportReplay hash =>
    cases h
    cases s.findByHash hash <;> rfl
  | touchLastSeen =>
    cases h
    rfl
  | comparePassword | compareCurrent | countUsers =>
    cases h
    split_ifs <;> rfl

/-- A new account is no other, and only adds to the administrators. -/
theorem spares_createUser (hspares : s.Spares id) (hid : id < s.nextUser)
    (huser : user.id = s.nextUser) (hcreate : s.createUser user = some s') : s'.Spares id := by
  rcases hspares with htwo | hnone
  · rw [State.Spares, countAdmins_createUser hcreate]
    exact .inl (by omega)
  · unfold State.createUser at hcreate
    split_ifs at hcreate
    cases hcreate
    refine .inr fun row hrow heq => ?_
    rcases List.mem_append.mp hrow with hold | hnew
    · exact hnone row hold heq
    · obtain rfl := List.mem_singleton.mp hnew
      omega

/-- A call that carries no account changes nothing about who may go. -/
theorem spares_write (hspares : s.Spares id) (hid : id < s.nextUser) (hcarried : call.carried = none)
    (h : call.write config s answer = some (s', next)) : s'.Spares id := by
  have hsaved {user : User} {after : Call} (huser : user.id = s.nextUser)
      (h : Call.saved s (s.createUser user) after = (s', next)) : s'.Spares id := by
    unfold Call.saved at h
    cases hcreate : s.createUser user with
    | none =>
      rw [hcreate] at h
      obtain ⟨rfl, -⟩ := Prod.mk.inj h
      exact hspares
    | some saved =>
      rw [hcreate] at h
      obtain ⟨rfl, -⟩ := Prod.mk.inj h
      exact spares_createUser hspares hid huser hcreate
  generalize hresult : (s', next) = result at h
  cases writes_of_write h with
  | identified | refused | revoke | revokeReplayed | logout | revokeAfterPassword =>
    cases hresult
    exact hspares
  | createMirror hnew | createAdmin hnew => exact hsaved hnew hresult.symm
  | savePassword hash =>
    cases hresult
    refine hspares.imp (fun htwo => ?_) fun hnone row hrow heq => ?_
    · rwa [countAdmins_setPassword]
    · obtain ⟨old, hold, rfl⟩ := List.mem_map.mp hrow
      split_ifs at heq ⊢ <;> exact hnone old hold heq
  | issue hissue =>
    subst hresult
    obtain ⟨-, ⟨-, -, rfl⟩ | ⟨-, rfl⟩⟩ := issueStep_eq hissue <;> exact hspares
  -- the others carry the account they write
  | saveMirror | saveRole | revokeForRemove | deleteUser => cases hcarried

theorem safe_step {other : Call} (hsafe : other.Safe s)
    (hknown : ∀ user ∈ other.carried, user.id < s.nextUser) (hcarried : call.carried = none)
    (h : call.step config s answer = some (s', next)) : other.Safe s' := by
  have hspares {id : ℕ} (hid : id < s.nextUser) (hspares : s.Spares id) : s'.Spares id := by
    unfold Call.step at h
    split at h
    · cases h
      exact hspares
    · exact spares_write hspares hid hcarried h
  cases other with
  | saveMirror user | saveRole user => exact hsafe.imp id (hspares (hknown user rfl))
  | revokeForRemove user | deleteUser user => exact hspares (hknown user rfl) hsafe
  | _ => trivial

/-! ### Runs -/

theorem orderly_start (now : ℕ) : Orderly (.start now) where
  ids := List.nodup_nil
  below := by simp [State.start]
  one := by simp [State.start]
  known := by simp [State.start]
  safe := by simp [State.start]

/-- A call goes on, of which nothing is known to any other that carries an account. -/
theorem orderly_step_call {index : ℕ} (h : Orderly s) (hcall : s.calls[index]? = some call)
    (hok : call.reads = true → ∀ other ∈ s.calls, other.carried = none)
    (hstep : call.step config s answer = some (s', next)) :
    Orderly { s' with calls := s'.calls.set index next } ∧
      (0 < s.countAdmins → 0 < s'.countAdmins) := by
  have hmem := List.mem_of_getElem? hcall
  have hkept := kept_step h.toNumbered (h.known call hmem) (h.safe call hmem) hstep
  have hcalls : s'.calls = s.calls := (change_step hstep).calls
  -- where the call carries an account afterwards, no other does
  have halone (hnext : next.carried ≠ none) :
      ∀ (j : ℕ) (other : Call), s.calls[j]? = some other → other.carried ≠ none → j = index := by
    intro j other hother hcarried
    by_cases hbefore : call.carried = none
    · by_cases hreads : call.reads = true
      · exact absurd (hok hreads other (List.mem_of_getElem? hother)) hcarried
      · exact absurd (carried_next hbefore (by simpa using hreads) hstep) hnext
    · exact h.one j index other call hother hcall hcarried hbefore
  have hget (j : ℕ) (other : Call) (hother : (s'.calls.set index next)[j]? = some other) :
      j = index ∧ other = next ∨ j ≠ index ∧ s.calls[j]? = some other := by
    rw [hcalls] at hother
    by_cases hj : j = index
    · subst hj
      rw [List.getElem?_set_self (List.getElem?_eq_some_iff.mp hcall).1] at hother
      exact .inl ⟨rfl, (Option.some.inj hother).symm⟩
    · rw [List.getElem?_set_ne (Ne.symm hj)] at hother
      exact .inr ⟨hj, hother⟩
  refine ⟨⟨⟨hkept.numbered.ids, hkept.numbered.below⟩, ?_, ?_, ?_⟩, hkept.admin⟩
  · intro i j first second hfirst hsecond hcarried hcarried'
    rcases hget i first hfirst with ⟨hi, rfl⟩ | ⟨hi, hold⟩ <;>
      rcases hget j second hsecond with ⟨hj, rfl⟩ | ⟨hj, hold'⟩
    · exact hi.trans hj.symm
    · exact absurd (halone hcarried j second hold' hcarried') hj
    · exact absurd (halone hcarried' i first hold hcarried) hi
    · exact h.one i j first second hold hold' hcarried hcarried'
  · intro other hother
    obtain ⟨j, hj⟩ := List.mem_iff_getElem?.mp hother
    rcases hget j other hj with ⟨-, rfl⟩ | ⟨-, hold⟩
    · exact hkept.known
    · exact fun user huser =>
        lt_of_lt_of_le (h.known other (List.mem_of_getElem? hold) user huser) hkept.nextUser
  · intro other hother
    obtain ⟨j, hj⟩ := List.mem_iff_getElem?.mp hother
    have hsame : ∀ call : Call, call.Safe s' → call.Safe { s' with calls := s'.calls.set index next } :=
      fun call hsafe => by cases call <;> exact hsafe
    refine hsame other ?_
    rcases hget j other hj with ⟨-, rfl⟩ | ⟨hne, hold⟩
    · exact hkept.safe
    · by_cases hcarried : call.carried = none
      · have hin := List.mem_of_getElem? hold
        exact safe_step (h.safe other hin) (h.known other hin) hcarried hstep
      · -- the call that goes on is the one that carries an account
        refine safe_of_carried ?_ s'
        by_contra hother
        exact hne (h.one j index other call hold hcall hother hcarried)

theorem orderly_step (h : Orderly s) (hok : OneAtATime s action)
    (hstep : step config s action = some s') :
    Orderly s' ∧ (0 < s.countAdmins → 0 < s'.countAdmins) := by
  have hsame {calls : List Call} {now : ℕ} {other : Call} (hsafe : other.Safe s) :
      other.Safe { s with calls := calls, now := now } := by
    cases other <;> exact hsafe
  rcases step_cases hstep with ⟨_, -, rfl⟩ | ⟨call, -, hfirst, rfl⟩ |
    ⟨index, answer, call, next, mid, rfl, hcall, hcallStep, rfl⟩
  · exact ⟨⟨⟨h.ids, h.below⟩, h.one, h.known, fun other hother => hsame (h.safe other hother)⟩,
      fun hadmin => hadmin⟩
  · have hnone := carried_of_isFirst hfirst
    have hget (j : ℕ) (other : Call) (hother : (s.calls ++ [call])[j]? = some other)
        (hcarried : other.carried ≠ none) : s.calls[j]? = some other := by
      rcases lt_or_ge j s.calls.length with hlt | hge
      · rwa [List.getElem?_append_left hlt] at hother
      · rw [List.getElem?_append_right hge] at hother
        obtain rfl := List.mem_singleton.mp (List.mem_of_getElem? hother)
        exact absurd hnone hcarried
    refine ⟨⟨⟨h.ids, h.below⟩, ?_, ?_, ?_⟩, fun hadmin => hadmin⟩
    · intro i j first second hfirst' hsecond hcarried hcarried'
      exact h.one i j first second (hget i first hfirst' hcarried)
        (hget j second hsecond hcarried') hcarried hcarried'
    · intro other hother
      rcases List.mem_append.mp hother with hold | hnew
      · exact h.known other hold
      · obtain rfl := List.mem_singleton.mp hnew
        simp [hnone]
    · intro other hother
      rcases List.mem_append.mp hother with hold | hnew
      · exact hsame (h.safe other hold)
      · obtain rfl := List.mem_singleton.mp hnew
        exact safe_of_carried hnone _
  · refine orderly_step_call h hcall (fun hreads => hok ⟨call, hcall, hreads⟩) hcallStep

/-- **An administrator remains.**  Where roles are read and written one call at a time, a gateway that
has an administrator has one in every state it comes to, in whatever order sign-ins, refreshes,
changes of password, updates and removals run. -/
theorem admin_remains {start : ℕ} {as bs : List Action}
    (h₀ : Run (step config) OneAtATime (.start start) as s)
    (h : Run (step config) OneAtATime s bs s') (hadmin : 0 < s.countAdmins) : 0 < s'.countAdmins := by
  have horderly : Orderly s :=
    h₀.invariant (fun _ _ _ hI hok hstep => (orderly_step hI hok hstep).1) (orderly_start start)
  have hend : Orderly s' ∧ 0 < s'.countAdmins :=
    h.invariant (I := fun s => Orderly s ∧ 0 < s.countAdmins)
      (fun _ _ _ hI hok hstep =>
        ⟨(orderly_step hI.1 hok hstep).1, (orderly_step hI.1 hok hstep).2 hI.2⟩) ⟨horderly, hadmin⟩
  exact hend.2

/-- The only administrator is to be removed, while somebody is about to sign out. -/
def removal : List Action := [.begin (.requireForRemove 0), .step 2 .plain, .step 1 .plain]

theorem admin_remains_removal : 0 < (reached (setUp ++ removal)).countAdmins := by
  have h₀ : Run (step plainConfig) OneAtATime (.start 0) setUp (reached setUp) := .ofExec rfl
  have h : Run (step plainConfig) OneAtATime (reached setUp) removal (reached (setUp ++ removal)) :=
    .ofExec rfl
  exact admin_remains h₀ h (by decide)

end

end MediaCenterSync.Auth
