import MediaCenterSync.Auth.Manager

/-!
# What becomes of a session

A session is made once, for one account, and every step leaves it as it was, revokes it or drops it
(`Later`).  So an access token that was refused once is refused forever (`validate_of_later`); a
sign-out lasts until somebody signs in or a token that was only just spent is presented
(`signed_out`); and a token that is presented later than that costs the account all of its sessions,
whatever runs meanwhile (`replay_revokes`).
-/

namespace MediaCenterSync.Auth

open LabelledRun

section

variable {config : Config} {s s' s'' : State} {call next : Call} {answer : Answer} {user : User}
  {meant : Session → Bool} {session : Session} {action : Action} {as : List Action}

/-! ### One table after another -/

/-- The sessions of `s'` are those of `s`, some of them revoked or gone, and newer ones. -/
structure Later (s s' : State) : Prop where
  now : s.now ≤ s'.now
  nextUser : s.nextUser ≤ s'.nextUser
  nextSession : s.nextSession ≤ s'.nextSession
  drawn : ∀ hash ∈ s.drawn, hash ∈ s'.drawn
  rows : ∀ row ∈ s'.sessions, row.id < s.nextSession → ∃ old ∈ s.sessions, old.id = row.id ∧
    old.userId = row.userId ∧ old.refreshTokenHash = row.refreshTokenHash ∧
      old.expiresAt = row.expiresAt ∧
        (old.revokedAt = row.revokedAt ∨ old.revokedAt = none ∧ row.revokedAt ≠ none)
  newer : ∀ row ∈ s'.sessions, s.nextSession ≤ row.id → row.refreshTokenHash ∉ s.drawn

theorem Later.refl (h : ∀ row ∈ s.sessions, row.id < s.nextSession) : Later s s where
  now := le_rfl
  nextUser := le_rfl
  nextSession := le_rfl
  drawn _ hin := hin
  rows row hrow _ := ⟨row, hrow, rfl, rfl, rfl, rfl, .inl rfl⟩
  newer row hrow hge := absurd (h row hrow) (by omega)

theorem Later.trans (h : Later s s') (h' : Later s' s'') : Later s s'' where
  now := h.now.trans h'.now
  nextUser := h.nextUser.trans h'.nextUser
  nextSession := h.nextSession.trans h'.nextSession
  drawn hash hin := h'.drawn hash (h.drawn hash hin)
  rows row hrow hlt := by
    obtain ⟨mid, hmid, hid, huser, hhash, hexp, hrev⟩ :=
      h'.rows row hrow (lt_of_lt_of_le hlt h.nextSession)
    obtain ⟨old, hold, hid', huser', hhash', hexp', hrev'⟩ := h.rows mid hmid (hid ▸ hlt)
    refine ⟨old, hold, hid'.trans hid, huser'.trans huser, hhash'.trans hhash, hexp'.trans hexp, ?_⟩
    rcases hrev' with heq | ⟨hnone, hsome⟩
    · rw [heq]
      exact hrev
    · rcases hrev with heq | ⟨hmid, -⟩
      · exact .inr ⟨hnone, heq ▸ hsome⟩
      · exact absurd hmid hsome
  newer row hrow hge := by
    by_cases hlt : row.id < s'.nextSession
    · obtain ⟨mid, hmid, hid, -, hhash, -⟩ := h'.rows row hrow hlt
      exact hhash ▸ h.newer mid hmid (hid ▸ hge)
    · exact fun hin => h'.newer row hrow (by omega) (h.drawn _ hin)

/-- What the tables keep. -/
structure State.Consistent (s : State) : Prop where
  ids : (s.sessions.map (·.id)).Nodup
  below : ∀ row ∈ s.sessions, row.id < s.nextSession
  hashes : (s.sessions.map (·.refreshTokenHash)).Nodup
  drawn : ∀ row ∈ s.sessions, row.refreshTokenHash ∈ s.drawn
  owned : ∀ row ∈ s.sessions, ∃ owner ∈ s.users, owner.id = row.userId
  users : ∀ row ∈ s.users, row.id < s.nextUser

/-- What a step of a call does to the tables. -/
inductive Change (call : Call) (s : State) : State → Prop
  | users {s' : State} : s'.sessions = s.sessions → s'.nextSession = s.nextSession →
      s'.drawn = s.drawn → s'.now = s.now → s'.calls = s.calls → s.nextUser ≤ s'.nextUser →
      (∀ row ∈ s.users, ∃ row' ∈ s'.users, row'.id = row.id) →
      ((∀ row ∈ s.users, row.id < s.nextUser) → ∀ row ∈ s'.users, row.id < s'.nextUser) →
      Change call s s'
  | revoke (meant : Session → Bool) : Change call s (s.revokeWhere meant)
  | issue {session : Session} {user : User} : call = .issue user → session.userId = user.id →
      session.id = s.nextSession → session.refreshTokenHash ∉ s.drawn →
      (∃ owner ∈ s.users, owner.id = session.userId) → Change call s (s.insertSession session)
  | delete (userId : ℕ) : Change call s (s.deleteUser userId)

theorem Change.same (call : Call) (s : State) : Change call s s :=
  .users rfl rfl rfl rfl rfl le_rfl (fun row hrow => ⟨row, hrow, rfl⟩) id

theorem change_createUser (h : s.createUser user = some s') : Change call s s' := by
  unfold State.createUser at h
  split_ifs at h
  cases h
  refine .users rfl rfl rfl rfl rfl (le_max_left _ _) (fun row hrow => ⟨row, by simp [hrow], rfl⟩) ?_
  intro hbelow row hrow
  show row.id < max s.nextUser (user.id + 1)
  rcases List.mem_append.mp hrow with hold | hnew
  · have := hbelow row hold
    omega
  · obtain rfl := List.mem_singleton.mp hnew
    omega

theorem change_mapUsers (write : User → User) (hid : ∀ row, (write row).id = row.id) :
    Change call s { s with users := s.users.map write } := by
  refine .users rfl rfl rfl rfl rfl le_rfl ?_ ?_
  · intro row hrow
    exact ⟨write row, List.mem_map_of_mem hrow, hid row⟩
  · intro hbelow row hrow
    obtain ⟨old, hold, rfl⟩ := List.mem_map.mp hrow
    rw [hid]
    exact hbelow old hold

theorem change_saveUser {role : UserRole} (h : s.saveUser user role = some s') : Change call s s' := by
  unfold State.saveUser at h
  split_ifs at h
  · cases h
    exact change_mapUsers _ fun row => by split_ifs <;> rfl
  · exact change_createUser h

theorem change_saved {result : Option State} {after : Call} (hresult : ∀ s', result = some s' → Change call s s')
    (h : Call.saved s result after = (s', next)) :
    Change call s s' := by
  unfold Call.saved at h
  cases result with
  | none =>
    obtain ⟨rfl, -⟩ := Prod.mk.inj h
    exact .same _ _
  | some saved =>
    obtain ⟨rfl, -⟩ := Prod.mk.inj h
    exact hresult _ rfl

theorem issueStep_eq {token : String}
    (h : Call.issueStep config s user token = some (s', next)) :
    config.hashToken token ∉ s.drawn ∧
      ((∃ owner ∈ s.users, owner.id = user.id) ∧ next = .paired ⟨user.id, s.nextSession, token⟩ ∧
          s' = s.insertSession ⟨s.nextSession, user.id, config.hashToken token,
            s.now + config.refreshTtl, none⟩ ∨
        next = .failed .DATABASE ∧ s' = s) := by
  unfold Call.issueStep at h
  split_ifs at h with hdrawn hthere
  · cases h
    obtain ⟨owner, howner, hid⟩ := List.any_eq_true.mp hthere
    exact ⟨hdrawn, .inl ⟨⟨owner, howner, of_decide_eq_true hid⟩, rfl, rfl⟩⟩
  · cases h
    exact ⟨hdrawn, .inr ⟨rfl, rfl⟩⟩

/-- The writes of a call, each with what it needs. -/
inductive Writes (config : Config) (s : State) : Call → State × Call → Prop
  | identified {provider : String} (identity : ExternalIdentity) :
      Writes config s (.askService provider) (s, .findByProvider provider identity)
  | refused {provider : String} (failure : Failure) :
      Writes config s (.askService provider) (s, .failed failure)
  | saveMirror {user : User} : Writes config s (.saveMirror user)
      (Call.saved s (s.saveUser user user.role) (.touchLastSeen user))
  | createMirror {provider : String} {identity : ExternalIdentity} {user : User} :
      user.id = s.nextUser → Writes config s (.createMirror provider identity)
        (Call.saved s (s.createUser user) (.touchLastSeen user))
  | revoke {session : Session} {user : User} :
      Writes config s (.revoke session user) (s.revoke session.id, .issue user)
  | revokeReplayed {userId : ℕ} : Writes config s (.revokeReplayed userId)
      (s.revokeAllForUser userId, .failed .AUTH_SESSION_EXPIRED)
  | logout {userId : ℕ} : Writes config s (.logout userId) (s.revokeAllForUser userId, .answered)
  | savePassword {user : User} (hash : String) :
      Writes config s (.savePassword user) (s.setPassword user.id hash, .revokeAfterPassword user)
  | revokeAfterPassword {user : User} :
      Writes config s (.revokeAfterPassword user) (s.revokeAllForUser user.id, .answered)
  | createAdmin {username : String} {user : User} : user.id = s.nextUser →
      Writes config s (.createAdmin username) (Call.saved s (s.createUser user) (.issue user))
  | saveRole {user : User} {role : UserRole} :
      Writes config s (.saveRole user role) (Call.saved s (s.saveUser user role) .answered)
  | revokeForRemove {user : User} :
      Writes config s (.revokeForRemove user) (s.revokeAllForUser user.id, .deleteUser user)
  | deleteUser {user : User} :
      Writes config s (.deleteUser user) (s.deleteUser user.id, .answered)
  | issue {user : User} {token : String} {result : State × Call} :
      Call.issueStep config s user token = some result → Writes config s (.issue user) result

theorem writes_of_write {result : State × Call} (h : call.write config s answer = some result) :
    Writes config s call result := by
  cases call with
  | askService provider =>
    cases answer with
    | identity answer =>
      cases answer with
      | ok identity => cases h; exact .identified identity
      | error failure => cases h; exact .refused failure
    | _ => cases h
  | createMirror provider identity =>
    cases answer with
    | account username => cases h; exact .createMirror rfl
    | _ => cases h
  | createAdmin username =>
    cases answer with
    | passwordHash hash => cases h; exact .createAdmin rfl
    | _ => cases h
  | issue user =>
    cases answer with
    | token token => exact .issue h
    | _ => cases h
  | _ => cases answer <;> cases h <;> constructor

theorem change_write (h : call.write config s answer = some (s', next)) : Change call s s' := by
  generalize hresult : (s', next) = result at h
  cases writes_of_write h with
  | identified | refused =>
    cases hresult
    exact .same _ _
  | saveMirror | saveRole => exact change_saved (fun _ => change_saveUser) hresult.symm
  | createMirror | createAdmin => exact change_saved (fun _ => change_createUser) hresult.symm
  | revoke | revokeReplayed | logout | revokeAfterPassword | revokeForRemove =>
    cases hresult
    exact .revoke _
  | savePassword hash =>
    cases hresult
    exact change_mapUsers _ fun row => by split_ifs <;> rfl
  | deleteUser =>
    cases hresult
    exact .delete _
  | issue hissue =>
    subst hresult
    obtain ⟨hdrawn, ⟨howner, -, rfl⟩ | ⟨-, rfl⟩⟩ := issueStep_eq hissue
    · exact .issue rfl rfl rfl hdrawn howner
    · exact .same _ _

theorem change_step (h : call.step config s answer = some (s', next)) : Change call s s' := by
  unfold Call.step at h
  split at h
  · cases h
    exact .same _ _
  · exact change_write h

theorem mem_revokeWhere {row : Session} : row ∈ (s.revokeWhere meant).sessions ↔
    ∃ old ∈ s.sessions, (if meant old ∧ old.revokedAt = none then
      { old with revokedAt := some s.now } else old) = row := by
  exact List.mem_map

theorem revokeWhere_map {α : Type*} (f : Session → α)
    (hf : ∀ row revokedAt, f { row with revokedAt := revokedAt } = f row) :
    (s.revokeWhere meant).sessions.map f = s.sessions.map f := by
  unfold State.revokeWhere
  rw [List.map_map]
  refine List.map_congr_left fun row _ => ?_
  show f (if _ then _ else _) = f row
  split_ifs
  · exact hf row _
  · rfl

theorem Change.calls (h : Change call s s') : s'.calls = s.calls := by
  cases h with
  | users _ _ _ _ hcalls => exact hcalls
  | revoke | issue | delete => rfl

theorem Change.later (h : Change call s s') (hs : s.Consistent) : Later s s' := by
  cases h with
  | users hsessions hnext hdrawn hnow _ huser =>
    refine ⟨hnow.ge, huser, hnext.ge, fun hash hin => hdrawn ▸ hin, ?_, ?_⟩ <;> rw [hsessions]
    · exact (Later.refl hs.below).rows
    · exact (Later.refl hs.below).newer
  | revoke meant =>
    refine ⟨le_rfl, le_rfl, le_rfl, fun _ hin => hin, ?_, ?_⟩
    · intro row hrow _
      obtain ⟨old, hold, rfl⟩ := mem_revokeWhere.mp hrow
      refine ⟨old, hold, ?_⟩
      split_ifs with hmeant
      · exact ⟨rfl, rfl, rfl, rfl, .inr ⟨hmeant.2, by simp⟩⟩
      · exact ⟨rfl, rfl, rfl, rfl, .inl rfl⟩
    · intro row hrow hge
      obtain ⟨old, hold, rfl⟩ := mem_revokeWhere.mp hrow
      have hbelow := hs.below old hold
      split_ifs at hge <;> exact absurd hge (by simpa using hbelow)
  | @issue session _ _ _ hid hdrawn _ =>
    refine ⟨le_rfl, le_rfl, Nat.le_succ _, fun hash hin => List.mem_cons_of_mem _ hin, ?_, ?_⟩
    · intro row hrow hlt
      rcases List.mem_append.mp hrow with hold | hnew
      · exact ⟨row, hold, rfl, rfl, rfl, rfl, .inl rfl⟩
      · obtain rfl := List.mem_singleton.mp hnew
        omega
    · intro row hrow hge
      rcases List.mem_append.mp hrow with hold | hnew
      · have := hs.below row hold
        omega
      · obtain rfl := List.mem_singleton.mp hnew
        exact hdrawn
  | delete userId =>
    refine ⟨le_rfl, le_rfl, le_rfl, fun _ hin => hin, ?_, ?_⟩
    · intro row hrow _
      exact ⟨row, (List.mem_filter.mp hrow).1, rfl, rfl, rfl, rfl, .inl rfl⟩
    · intro row hrow hge
      have := hs.below row (List.mem_filter.mp hrow).1
      omega

theorem Change.consistent (h : Change call s s') (hs : s.Consistent) : s'.Consistent := by
  cases h with
  | users hsessions hnext hdrawn _ _ _ hkept hbelow =>
    refine ⟨hsessions ▸ hs.ids, ?_, hsessions ▸ hs.hashes, ?_, ?_, hbelow hs.users⟩
    · rw [hsessions, hnext]
      exact hs.below
    · rw [hsessions, hdrawn]
      exact hs.drawn
    · rw [hsessions]
      intro row hrow
      obtain ⟨owner, howner, hid⟩ := hs.owned row hrow
      obtain ⟨owner', howner', hid'⟩ := hkept owner howner
      exact ⟨owner', howner', hid'.trans hid⟩
  | revoke meant =>
    refine ⟨?_, ?_, ?_, ?_, ?_, hs.users⟩
    · rw [revokeWhere_map _ fun _ _ => rfl]
      exact hs.ids
    · intro row hrow
      obtain ⟨old, hold, rfl⟩ := mem_revokeWhere.mp hrow
      split_ifs <;> exact hs.below old hold
    · rw [revokeWhere_map _ fun _ _ => rfl]
      exact hs.hashes
    · intro row hrow
      obtain ⟨old, hold, rfl⟩ := mem_revokeWhere.mp hrow
      split_ifs <;> exact hs.drawn old hold
    · intro row hrow
      obtain ⟨old, hold, rfl⟩ := mem_revokeWhere.mp hrow
      split_ifs <;> exact hs.owned old hold
  | @issue session _ _ _ hid hdrawn howner =>
    unfold State.insertSession
    -- The identifier is above all the others, and the hash was never drawn.
    have hnewId : session.id ∉ s.sessions.map (·.id) := by
      intro hin
      obtain ⟨row, hrow, heq⟩ := List.mem_map.mp hin
      have := hs.below row hrow
      omega
    have hnewHash : session.refreshTokenHash ∉ s.sessions.map (·.refreshTokenHash) := by
      intro hin
      obtain ⟨row, hrow, heq⟩ := List.mem_map.mp hin
      exact hdrawn (heq ▸ hs.drawn row hrow)
    constructor
    · show ((s.sessions ++ [session]).map (·.id)).Nodup
      rw [List.map_append]
      exact hs.ids.append (List.nodup_singleton _) (by simpa using hnewId)
    · intro row hrow
      show row.id < s.nextSession + 1
      rcases List.mem_append.mp hrow with hold | hnew
      · have := hs.below row hold
        omega
      · obtain rfl := List.mem_singleton.mp hnew
        omega
    · show ((s.sessions ++ [session]).map (·.refreshTokenHash)).Nodup
      rw [List.map_append]
      exact hs.hashes.append (List.nodup_singleton _) (by simpa using hnewHash)
    · intro row hrow
      show row.refreshTokenHash ∈ session.refreshTokenHash :: s.drawn
      rcases List.mem_append.mp hrow with hold | hnew
      · exact List.mem_cons_of_mem _ (hs.drawn row hold)
      · obtain rfl := List.mem_singleton.mp hnew
        exact List.mem_cons_self
    · intro row hrow
      rcases List.mem_append.mp hrow with hold | hnew
      · exact hs.owned row hold
      · obtain rfl := List.mem_singleton.mp hnew
        exact howner
    · exact hs.users
  -- The sessions go with their owner, so every one that is left has its own.
  | delete userId =>
    unfold State.deleteUser
    constructor
    · exact (List.filter_sublist.map _).nodup hs.ids
    · exact fun row hrow => hs.below row (List.mem_filter.mp hrow).1
    · exact (List.filter_sublist.map _).nodup hs.hashes
    · exact fun row hrow => hs.drawn row (List.mem_filter.mp hrow).1
    · intro row hrow
      obtain ⟨hold, hother⟩ := List.mem_filter.mp hrow
      obtain ⟨owner, howner, hid⟩ := hs.owned row hold
      refine ⟨owner, List.mem_filter.mpr ⟨howner, ?_⟩, hid⟩
      rw [hid]
      exact hother
    · exact fun row hrow => hs.users row (List.mem_filter.mp hrow).1

/-! ### Runs -/

/-- A step of the gateway: time passes, a call comes in, or a call goes on. -/
theorem step_cases (h : step config s action = some s') :
    (∃ milliseconds, action = .wait milliseconds ∧ s' = { s with now := s.now + milliseconds }) ∨
    (∃ call, action = .begin call ∧ call.isFirst = true ∧ s' = { s with calls := s.calls ++ [call] }) ∨
    ∃ index answer call next mid, action = .step index answer ∧ s.calls[index]? = some call ∧
      call.step config s answer = some (mid, next) ∧
        s' = { mid with calls := mid.calls.set index next } := by
  cases action with
  | wait milliseconds => exact .inl ⟨milliseconds, rfl, (Option.some.inj h).symm⟩
  | begin call =>
    simp only [step, Option.ite_none_right_eq_some] at h
    exact .inr (.inl ⟨call, rfl, h.1, (Option.some.inj h.2).symm⟩)
  | step index answer =>
    obtain ⟨call, hcall, hrest⟩ := Option.bind_eq_some_iff.mp h
    obtain ⟨⟨mid, next⟩, hstep, hs'⟩ := Option.bind_eq_some_iff.mp hrest
    exact .inr (.inr ⟨index, answer, call, next, mid, rfl, hcall, hstep, (Option.some.inj hs').symm⟩)

theorem State.Consistent.setCalls (hs : s.Consistent) (calls : List Call) (now : ℕ) :
    { s with calls := calls, now := now }.Consistent :=
  ⟨hs.ids, hs.below, hs.hashes, hs.drawn, hs.owned, hs.users⟩

theorem Later.setCalls {calls : List Call} {now : ℕ} (h : Later s s') (hnow : s'.now ≤ now) :
    Later s { s' with calls := calls, now := now } :=
  ⟨h.now.trans hnow, h.nextUser, h.nextSession, h.drawn, h.rows, h.newer⟩

theorem later_step (hs : s.Consistent) (h : step config s action = some s') :
    s'.Consistent ∧ Later s s' := by
  rcases step_cases h with ⟨_, -, rfl⟩ | ⟨call, -, -, rfl⟩ | ⟨_, _, call, next, mid, -, -, hstep, rfl⟩
  · exact ⟨hs.setCalls _ _, (Later.refl hs.below).setCalls (Nat.le_add_right _ _)⟩
  · exact ⟨hs.setCalls _ _, (Later.refl hs.below).setCalls le_rfl⟩
  · have hchange := change_step hstep
    exact ⟨(hchange.consistent hs).setCalls _ _, (hchange.later hs).setCalls le_rfl⟩

variable {ok : State → Action → Prop}

theorem later_run (hs : s.Consistent) (h : Run (step config) ok s as s') :
    s'.Consistent ∧ Later s s' := by
  induction h with
  | nil s => exact ⟨hs, .refl hs.below⟩
  | cons _ hstep _ ih =>
    obtain ⟨hmid, hlater⟩ := later_step hs hstep
    obtain ⟨hend, hrest⟩ := ih hmid
    exact ⟨hend, hlater.trans hrest⟩

/-! ### An access token -/

/-- A gateway nobody has an account of yet. -/
def State.start (now : ℕ) : State := ⟨now, [], [], 0, 0, [], []⟩

theorem consistent_start (now : ℕ) : (State.start now).Consistent := by
  constructor <;> simp [State.start]

theorem findValidById_eq_some {sid : ℕ} {row : Session} (h : s.findValidById sid = some row) :
    row ∈ s.sessions ∧ row.id = sid ∧ row.revokedAt = none ∧ s.now < row.expiresAt := by
  have hmeant := List.find?_some h
  simp only [Session.isValid, Bool.decide_and, Bool.and_eq_true, decide_eq_true_eq] at hmeant
  exact ⟨List.mem_of_find?_eq_some h, hmeant.1, hmeant.2.1, hmeant.2.2⟩

/-- Where identifiers are unique, a row that is valid is the one that is found. -/
theorem findValidById_of_mem (hs : s.Consistent) {row : Session} (hrow : row ∈ s.sessions)
    (hvalid : row.isValid s.now = true) : s.findValidById row.id = some row := by
  cases hfound : s.findValidById row.id with
  | none =>
    have hnone := List.find?_eq_none.mp hfound row hrow
    simp [hvalid] at hnone
  | some found =>
    obtain ⟨hmem, hid, -⟩ := findValidById_eq_some hfound
    exact congrArg some (List.inj_on_of_nodup_map hs.ids hmem hrow hid)

theorem findUser_of_mem {owner : User} (h : owner ∈ s.users) :
    ∃ user, s.findUser owner.id = some user ∧ user ∈ s.users ∧ user.id = owner.id := by
  have hsome : (s.users.find? (·.id = owner.id)).isSome := by
    rw [List.find?_isSome]
    exact ⟨owner, h, by simp⟩
  obtain ⟨user, huser⟩ := Option.isSome_iff_exists.mp hsome
  have hid := List.find?_some huser
  exact ⟨user, huser, List.mem_of_find?_eq_some huser, by simpa using hid⟩

/-- A token is accepted exactly while its session is there, valid, and of the account it names. -/
theorem validate_isOk_iff (hs : s.Consistent) {sub sid : ℕ} :
    (∃ user, validate s sub sid = .ok user) ↔
      ∃ row ∈ s.sessions, row.id = sid ∧ row.userId = sub ∧ row.isValid s.now = true := by
  constructor
  · rintro ⟨user, hok⟩
    unfold validate at hok
    split at hok
    · cases hok
    · next row hfound =>
      obtain ⟨hmem, hid, hrevoked, hexpires⟩ := findValidById_eq_some hfound
      split_ifs at hok with howner
      exact ⟨row, hmem, hid, not_not.mp howner, by simp [Session.isValid, hrevoked, hexpires]⟩
  · rintro ⟨row, hrow, rfl, rfl, hvalid⟩
    obtain ⟨owner, howner, hid⟩ := hs.owned row hrow
    obtain ⟨user, huser, -⟩ := findUser_of_mem howner
    rw [hid] at huser
    refine ⟨user, ?_⟩
    simp [validate, findValidById_of_mem hs hrow hvalid, huser]

/-- **Once refused, always refused.**  An access token of a session there has been, which is refused
now, is refused whatever happens next: nothing brings a session back that was signed out, expired or
dropped, and no account gets another's. -/
theorem refused_forever {start : ℕ} {bs : List Action} {sub sid : ℕ}
    (h₀ : Run (step config) Free (.start start) as s) (h : Run (step config) Free s bs s')
    (hissued : sid < s.nextSession) (hrefused : ¬ ∃ user, validate s sub sid = .ok user) :
    ¬ ∃ user, validate s' sub sid = .ok user := by
  obtain ⟨hs, -⟩ := later_run (consistent_start start) h₀
  obtain ⟨hs', hlater⟩ := later_run hs h
  rw [validate_isOk_iff hs'] at *
  rw [validate_isOk_iff hs] at hrefused
  rintro ⟨row, hrow, hid, hsub, hvalid⟩
  obtain ⟨old, hold, hid', hsub', -, hexpires, hrevoked⟩ := hlater.rows row hrow (hid ▸ hissued)
  simp only [Session.isValid, decide_eq_true_eq] at hvalid
  refine hrefused ⟨old, hold, hid'.trans hid, hsub'.trans hsub, ?_⟩
  have hnone : old.revokedAt = none := by
    rcases hrevoked with heq | ⟨hnone, -⟩
    · exact heq.trans hvalid.1
    · exact hnone
  have hnow := hlater.now
  simp only [Session.isValid, hnone, hexpires, decide_eq_true_eq, true_and]
  omega

def plainConfig : Config := ⟨fun password hash => password = hash, id, 100000⟩

/-- Where some actions lead a new gateway. -/
def reached (as : List Action) : State :=
  (exec (step plainConfig) Free (.start 0) as).getD (.start 0)

/-- The first account is made, and gets the session 0; it is about to sign out. -/
def setUp : List Action :=
  [.begin (.countUsers "ada" "password"), .step 0 .plain, .step 0 (.passwordHash "password"),
    .step 0 (.token "first"), .begin (.logout 0)]

def signedOut : List Action := setUp ++ [.step 1 .plain]

/-- The session is signed out, and time passes. -/
theorem refused_forever_signedOut :
    ¬ ∃ user, validate (reached (signedOut ++ [.wait 5])) 0 0 = .ok user := by
  have h₀ : Run (step plainConfig) Free (.start 0) signedOut (reached signedOut) := .ofExec rfl
  have h : Run (step plainConfig) Free (reached signedOut) [.wait 5]
      (reached (signedOut ++ [.wait 5])) := .ofExec rfl
  refine refused_forever h₀ h (by decide) ?_
  rintro ⟨user, hok⟩
  cases hok

/-! ### Signing out -/

/-- The call is about to sign the account in. -/
def Call.bringsIn (userId : ℕ) : Call → Prop
  | .saveMirror user | .touchLastSeen user | .revoke _ user | .issue user => user.id = userId
  | .findOwner session => session.userId = userId
  | .findRacer _ owner => owner = userId
  | _ => False

/-- Nobody signs in to the account, or presents a token of it that was spent only just now. -/
def Call.Apart (config : Config) (s : State) (userId : ℕ) : Call → Prop
  | .comparePassword user password =>
    user.id = userId → user.passwordHash.any (config.compare password) = false
  | .findByProvider provider identity =>
    ∀ user ∈ s.findByProvider provider identity.externalUserId, user.id ≠ userId
  | .findSpent hash => ∀ row ∈ s.findByHash hash, row.userId = userId →
      ∀ revokedAt ∈ row.revokedAt, REFRESH_RACE_MS < s.now - revokedAt
  | _ => True

/-- A step that leaves an account alone. -/
def Apart (config : Config) (userId : ℕ) (s : State) : Action → Prop
  | .step index _ => ∀ call ∈ s.calls[index]?, call.Apart config s userId
  | _ => True

instance (config : Config) (s : State) (userId : ℕ) (call : Call) :
    Decidable (call.Apart config s userId) := by
  unfold Call.Apart
  split <;> infer_instance

instance (config : Config) (userId : ℕ) (s : State) (action : Action) :
    Decidable (Apart config userId s action) :=
  match action with
  | .step .. => by dsimp only [Apart]; infer_instance
  | .wait _ | .begin _ => .isTrue trivial

/-- The account is signed out, and no call is about to sign it in. -/
structure SignedOut (userId : ℕ) (s : State) : Prop where
  revoked : ∀ row ∈ s.sessions, row.userId = userId → row.revokedAt ≠ none
  calls : ∀ call ∈ s.calls, ¬ call.bringsIn userId
  known : userId < s.nextUser

variable {userId : ℕ}

theorem findValidByHash_eq_some {hash : String} {row : Session}
    (h : s.findValidByHash hash = some row) :
    row ∈ s.sessions ∧ row.refreshTokenHash = hash ∧ row.isValid s.now = true := by
  have hmeant := List.find?_some h
  simp only [Bool.decide_and, Bool.decide_eq_true, Bool.and_eq_true, decide_eq_true_eq] at hmeant
  exact ⟨List.mem_of_find?_eq_some h, hmeant.1, hmeant.2⟩

theorem findUser_eq_some {id : ℕ} (h : s.findUser id = some user) : user.id = id := by
  have hmeant := List.find?_some h
  simpa using hmeant

theorem findByHash_eq_some {hash : String} {row : Session} (h : s.findByHash hash = some row) :
    row ∈ s.sessions ∧ row.refreshTokenHash = hash := by
  have hmeant := List.find?_some h
  exact ⟨List.mem_of_find?_eq_some h, by simpa using hmeant⟩

/-- Reading brings a call to an account only along the ways of `Apart`. -/
theorem bringsIn_read (hout : ∀ row ∈ s.sessions, row.userId = userId → row.revokedAt ≠ none)
    (hnot : ¬ call.bringsIn userId) (hapart : call.Apart config s userId)
    (h : call.read config s = some next) : ¬ next.bringsIn userId := by
  cases call with
  -- The three ways in, each shut by the condition: password, provider and a raced token.
  | comparePassword user password =>
    cases h
    split_ifs with hcompare
    · intro hid
      exact absurd hcompare (by simp [hapart hid])
    · exact id
  | findByProvider provider identity =>
    cases h
    cases hfound : s.findByProvider provider identity.externalUserId with
    | some user => exact hapart user hfound
    | none => exact id
  -- A token that is valid is not revoked, and all of the account's are.
  | findValidByHash hash =>
    cases h
    cases hfound : s.findValidByHash hash with
    | none => exact id
    | some session =>
      obtain ⟨hmem, -, hvalid⟩ := findValidByHash_eq_some hfound
      intro howner
      refine hout session hmem howner ?_
      simp only [Session.isValid, decide_eq_true_eq] at hvalid
      exact hvalid.1
  -- The owner of a session that was found is who the call was about.
  | findOwner session =>
    cases h
    cases hfound : s.findUser session.userId with
    | none => exact id
    | some user =>
      intro hid
      exact hnot ((findUser_eq_some hfound).symm.trans hid)
  | findSpent hash =>
    cases h
    unfold Call.racing
    cases hfound : s.findByHash hash with
    | none => exact id
    | some spent =>
      cases hrevoked : spent.revokedAt with
      | none => simp only [hrevoked]; exact id
      | some revokedAt =>
        simp only [hrevoked]
        split_ifs with hlate
        · exact id
        · intro howner
          exact hlate (hapart spent hfound howner revokedAt hrevoked)
  | findRacer hash owner =>
    cases h
    cases hfound : s.findUser owner with
    | none => exact id
    | some user =>
      intro hid
      exact hnot ((findUser_eq_some hfound).symm.trans hid)
  | touchLastSeen user =>
    cases h
    exact hnot
  | findForAuthentication username password =>
    cases h
    cases s.findForAuthentication username with
    | none => exact id
    | some user => dsimp only; split_ifs <;> exact id
  | reportReplay hash =>
    cases h
    cases s.findByHash hash <;> exact id
  | findForPassword userId' current =>
    cases h
    cases s.findUser userId' with
    | none => exact id
    | some user => dsimp only; split_ifs <;> exact id
  | requireForUpdate userId' role =>
    cases h
    cases s.findUser userId' with
    | none => exact id
    | some user => dsimp only; split_ifs <;> exact id
  | requireForRemove userId' =>
    cases h
    cases s.findUser userId' with
    | none => exact id
    | some user => dsimp only; split_ifs <;> exact id
  | compareCurrent | countUsers | countForUpdate | countForRemove =>
    cases h
    split_ifs <;> exact id
  | _ => simp [Call.read] at h

theorem bringsIn_saved {result : Option State} {after : Call} (hafter : ¬ after.bringsIn userId)
    (h : Call.saved s result after = (s', next)) : ¬ next.bringsIn userId := by
  unfold Call.saved at h
  cases result with
  | none =>
    obtain ⟨-, rfl⟩ := Prod.mk.inj h
    exact id
  | some saved =>
    obtain ⟨-, rfl⟩ := Prod.mk.inj h
    exact hafter

theorem bringsIn_write (hknown : userId < s.nextUser) (hnot : ¬ call.bringsIn userId)
    (h : call.write config s answer = some (s', next)) : ¬ next.bringsIn userId := by
  generalize hresult : (s', next) = result at h
  cases writes_of_write h with
  | saveMirror =>
    refine bringsIn_saved ?_ hresult.symm
    exact hnot
  | createMirror hid | createAdmin hid =>
    -- a new account has an identifier nobody has
    refine bringsIn_saved ?_ hresult.symm
    exact fun hsame => hknown.ne' (hid.symm.trans hsame)
  | saveRole => exact bringsIn_saved id hresult.symm
  | revoke =>
    cases hresult
    exact hnot
  | issue hissue =>
    subst hresult
    obtain ⟨-, ⟨-, rfl, -⟩ | ⟨rfl, -⟩⟩ := issueStep_eq hissue <;> exact id
  | _ =>
    cases hresult
    exact id

theorem bringsIn_step (h : SignedOut userId s) (hnot : ¬ call.bringsIn userId)
    (hapart : call.Apart config s userId) (hstep : call.step config s answer = some (s', next)) :
    ¬ next.bringsIn userId := by
  unfold Call.step at hstep
  split at hstep
  · next hread =>
    cases hstep
    exact bringsIn_read h.revoked hnot hapart hread
  · exact bringsIn_write h.known hnot hstep

/-- A call that is not about to sign an account in makes no session of it that is valid. -/
theorem revoked_change (hout : ∀ row ∈ s.sessions, row.userId = userId → row.revokedAt ≠ none)
    (hnot : ¬ call.bringsIn userId) (h : Change call s s') :
    ∀ row ∈ s'.sessions, row.userId = userId → row.revokedAt ≠ none := by
  cases h with
  | users hsessions =>
    rw [hsessions]
    exact hout
  | revoke meant =>
    intro row hrow howner
    obtain ⟨old, hold, rfl⟩ := mem_revokeWhere.mp hrow
    split_ifs at howner ⊢
    · simp
    · exact hout old hold howner
  | issue hcall hsession =>
    intro row hrow howner
    rcases List.mem_append.mp hrow with hold | hnew
    · exact hout row hold howner
    · obtain rfl := List.mem_singleton.mp hnew
      subst hcall
      exact absurd (hsession.symm.trans howner) hnot
  | delete _ => exact fun row hrow => hout row (List.mem_filter.mp hrow).1

theorem not_bringsIn_of_isFirst (h : call.isFirst = true) : ¬ call.bringsIn userId := by
  cases call <;> first | exact id | simp [Call.isFirst] at h

theorem signedOut_step (hs : s.Consistent) (h : SignedOut userId s)
    (hapart : Apart config userId s action) (hstep : step config s action = some s') :
    SignedOut userId s' := by
  have hlater := (later_step hs hstep).2
  rcases step_cases hstep with ⟨_, -, rfl⟩ | ⟨call, -, hfirst, rfl⟩ |
    ⟨index, answer, call, next, mid, rfl, hcall, hcallStep, rfl⟩
  · exact ⟨h.revoked, h.calls, h.known⟩
  · refine ⟨h.revoked, fun other hother => ?_, h.known⟩
    rcases List.mem_append.mp hother with hold | hnew
    · exact h.calls other hold
    · obtain rfl := List.mem_singleton.mp hnew
      exact not_bringsIn_of_isFirst hfirst
  · have hchange := change_step hcallStep
    have hnot := h.calls call (List.mem_of_getElem? hcall)
    have hrevoked := revoked_change h.revoked hnot hchange
    refine ⟨hrevoked, fun other hother => ?_,
      lt_of_lt_of_le h.known hlater.nextUser⟩
    rcases List.mem_or_eq_of_mem_set hother with hold | rfl
    · exact h.calls other (hchange.calls ▸ hold)
    · exact bringsIn_step h hnot (hapart call hcall) hcallStep

/-- Everything of the account is revoked when the update of a sign-out is done. -/
theorem revoked_revokeAllForUser : ∀ row ∈ (s.revokeAllForUser userId).sessions,
    row.userId = userId → row.revokedAt ≠ none := by
  intro row hrow howner
  obtain ⟨old, hold, rfl⟩ := mem_revokeWhere.mp hrow
  split_ifs at howner ⊢ with hmeant
  · simp
  · simp only [howner, decide_true, true_and] at hmeant
    exact hmeant

/-- **Signed out.**  When `logout` has done its update while no call was about to sign the account
in, no access token is accepted for the account any more, in no order of the calls that run, as long
as nobody signs in to it or presents a token of it that was spent at most `REFRESH_RACE_MS` ago. -/
theorem signed_out {start index : ℕ} {bs : List Action}
    (h₀ : Run (step config) Free (.start start) as s)
    (hlogout : s.calls[index]? = some (.logout userId)) (hknown : userId < s.nextUser)
    (hnone : ∀ call ∈ s.calls, ¬ call.bringsIn userId)
    (hstep : step config s (.step index .plain) = some s')
    (h : Run (step config) (Apart config userId) s' bs s'') (sid : ℕ) :
    ¬ ∃ user, validate s'' userId sid = .ok user := by
  obtain ⟨hs, -⟩ := later_run (consistent_start start) h₀
  obtain ⟨hs', hlater⟩ := later_step hs hstep
  have hout : SignedOut userId s' := by
    rcases step_cases hstep with ⟨_, heq, -⟩ | ⟨_, heq, -, -⟩ |
      ⟨_, _, call, next, mid, heq, hcall, hcallStep, rfl⟩
    · cases heq
    · cases heq
    · obtain ⟨rfl, rfl⟩ := Action.step.inj heq
      obtain rfl := Option.some.inj (hlogout.symm.trans hcall)
      cases hcallStep
      refine ⟨revoked_revokeAllForUser, fun other hother => ?_, hknown⟩
      rcases List.mem_or_eq_of_mem_set hother with hold | rfl
      · exact hnone other hold
      · exact id
  have hend : s''.Consistent ∧ SignedOut userId s'' :=
    h.invariant (I := fun s => s.Consistent ∧ SignedOut userId s)
      (fun s action s' hI hok hstep =>
        ⟨(later_step hI.1 hstep).1, signedOut_step hI.1 hI.2 hok hstep⟩) ⟨hs', hout⟩
  rw [validate_isOk_iff hend.1]
  rintro ⟨row, hrow, -, howner, hvalid⟩
  simp only [Session.isValid, decide_eq_true_eq] at hvalid
  exact hend.2.revoked row hrow howner hvalid.1

/-- The token comes back eleven seconds after the session was signed out. -/
def comesBack : List Action :=
  signedOut ++ [.wait 11000, .begin (.findValidByHash "first")]

/-- It is found spent, and taken for a thief's; then somebody tries a password. -/
def late : List Action :=
  [.wait 11000, .begin (.findValidByHash "first"), .step 2 .plain, .step 2 .plain, .step 2 .plain,
    .step 2 .plain, .begin (.findForAuthentication "ada" "guess"), .step 3 .plain, .step 3 .plain]

theorem signed_out_late : ¬ ∃ user, validate (reached (signedOut ++ late)) 0 0 = .ok user := by
  have h₀ : Run (step plainConfig) Free (.start 0) setUp (reached setUp) := .ofExec rfl
  have hcalls : (reached setUp).calls = [.paired ⟨0, 0, "first"⟩, .logout 0] := rfl
  have h : Run (step plainConfig) (Apart plainConfig 0) (reached signedOut) late
      (reached (signedOut ++ late)) := .ofExec rfl
  have hlogout : (reached setUp).calls[1]? = some (.logout 0) := rfl
  have hstep : step plainConfig (reached setUp) (.step 1 .plain) = some (reached signedOut) := rfl
  refine signed_out h₀ hlogout (by decide) ?_ hstep h 0
  rw [hcalls]
  simp [Call.bringsIn]

/-! ### A token that is presented again -/

def Call.isOver : Call → Bool
  | .answered | .paired _ | .failed _ => true
  | _ => false

/-- The token of a row that was spent too long ago. -/
def Spent (hash : String) (userId : ℕ) (s : State) : Prop :=
  ∀ row ∈ s.sessions, row.refreshTokenHash = hash → row.userId = userId ∧
    ∃ revokedAt, row.revokedAt = some revokedAt ∧ REFRESH_RACE_MS < s.now - revokedAt

/-- The account has none of its first `count` sessions any more. -/
def AllRevoked (userId count : ℕ) (s : State) : Prop :=
  ∀ row ∈ s.sessions, row.id < count → row.userId = userId → row.revokedAt ≠ none

/-- How far a call has come that was given such a token, when there had been `count` sessions. -/
structure Replayed (hash : String) (userId count index : ℕ) (s : State) : Prop where
  spent : Spent hash userId s
  drawn : hash ∈ s.drawn
  known : count ≤ s.nextSession
  /-- The row goes with the account, and so do its other sessions. -/
  row : (∃ row ∈ s.sessions, row.refreshTokenHash = hash) ∨ AllRevoked userId count s
  call : s.calls[index]? = some (.findValidByHash hash) ∨ s.calls[index]? = some (.findSpent hash) ∨
    s.calls[index]? = some (.reportReplay hash) ∨
      s.calls[index]? = some (.revokeReplayed userId) ∨
        s.calls[index]? = some (.failed .AUTH_SESSION_EXPIRED) ∧ AllRevoked userId count s

variable {hash : String} {count index : ℕ}

theorem Spent.later (h : Spent hash userId s) (hdrawn : hash ∈ s.drawn) (hlater : Later s s') :
    Spent hash userId s' := by
  intro row hrow hhash
  by_cases hlt : row.id < s.nextSession
  · obtain ⟨old, hold, -, howner, hhash', -, hrevoked⟩ := hlater.rows row hrow hlt
    obtain ⟨howner', revokedAt, hat, hlate⟩ := h old hold (hhash'.trans hhash)
    refine ⟨howner.symm.trans howner', revokedAt, ?_, ?_⟩
    · rcases hrevoked with heq | ⟨hnone, -⟩
      · exact heq.symm.trans hat
      · exact absurd (hat.symm.trans hnone) (by simp)
    · have := hlater.now
      omega
  · exact absurd hdrawn (hhash ▸ hlater.newer row hrow (by omega))

theorem AllRevoked.later (h : AllRevoked userId count s) (hcount : count ≤ s.nextSession)
    (hlater : Later s s') : AllRevoked userId count s' := by
  intro row hrow hlt howner
  obtain ⟨old, hold, hid, howner', -, -, hrevoked⟩ := hlater.rows row hrow (by omega)
  have hgone := h old hold (hid ▸ hlt) (howner'.trans howner)
  rcases hrevoked with heq | ⟨-, hsome⟩
  · exact heq ▸ hgone
  · exact hsome

/-- A row is dropped with its account, and then with every session of it. -/
theorem row_change (h : Change call s s') (hspent : Spent hash userId s)
    (hrow : (∃ row ∈ s.sessions, row.refreshTokenHash = hash)) :
    (∃ row ∈ s'.sessions, row.refreshTokenHash = hash) ∨
      ∀ row ∈ s'.sessions, row.userId ≠ userId := by
  obtain ⟨row, hmem, hhash⟩ := hrow
  cases h with
  | users hsessions =>
    rw [hsessions]
    exact .inl ⟨row, hmem, hhash⟩
  | revoke meant =>
    refine .inl ⟨_, mem_revokeWhere.mpr ⟨row, hmem, rfl⟩, ?_⟩
    split_ifs <;> exact hhash
  | issue => exact .inl ⟨row, List.mem_append_left _ hmem, hhash⟩
  | delete other =>
    by_cases howner : row.userId = other
    · refine .inr fun row' hrow' heq => ?_
      have hother := (List.mem_filter.mp hrow').2
      rw [heq, ← howner, (hspent row hmem hhash).1] at hother
      simp at hother
    · exact .inl ⟨row, List.mem_filter.mpr ⟨hmem, by simpa using howner⟩, hhash⟩

theorem Replayed.row_step (h : Replayed hash userId count index s) (hs : s.Consistent)
    (hstep : step config s action = some s') :
    (∃ row ∈ s'.sessions, row.refreshTokenHash = hash) ∨ AllRevoked userId count s' := by
  have hlater := (later_step hs hstep).2
  rcases h.row with hrow | hall
  · rcases step_cases hstep with ⟨_, -, rfl⟩ | ⟨_, -, -, rfl⟩ | ⟨_, _, _, _, mid, -, -, hcall, rfl⟩
    · exact .inl hrow
    · exact .inl hrow
    · refine (row_change (change_step hcall) h.spent hrow).imp_right fun hnone => ?_
      exact fun row hmem _ howner => absurd howner (hnone row hmem)
  · exact .inr (hall.later h.known hlater)

theorem replayed_next (h : Replayed hash userId count index s)
    (hcall : s.calls[index]? = some call) (hstep : call.step config s answer = some (s', next)) :
    next = .findSpent hash ∨ next = .reportReplay hash ∨ next = .revokeReplayed userId ∨
      next = .failed .AUTH_SESSION_EXPIRED ∧ AllRevoked userId count s' := by
  have hover : ∀ failure, (Call.failed failure).step config s answer = none := fun _ => rfl
  rcases h.call with heq | heq | heq | heq | ⟨heq, -⟩ <;> rw [hcall] at heq <;>
    cases heq
  · cases hstep
    cases hfound : s.findValidByHash hash with
    | none => exact .inl rfl
    | some row =>
      -- a spent row is not valid
      obtain ⟨hmem, hhash, hvalid⟩ := findValidByHash_eq_some hfound
      obtain ⟨-, revokedAt, hat, -⟩ := h.spent row hmem hhash
      simp [Session.isValid, hat] at hvalid
  · cases hstep
    refine .inr (.inl ?_)
    unfold Call.racing
    cases hfound : s.findByHash hash with
    | none => rfl
    | some row =>
      obtain ⟨hmem, hhash⟩ := findByHash_eq_some hfound
      obtain ⟨-, revokedAt, hat, hlate⟩ := h.spent row hmem hhash
      simp [hat, hlate]
  · cases hstep
    cases hfound : s.findByHash hash with
    | none =>
      refine .inr (.inr (.inr ⟨rfl, ?_⟩))
      refine h.row.resolve_left fun ⟨row, hmem, hhash⟩ => ?_
      have hnone := List.find?_eq_none.mp hfound row hmem
      simp [hhash] at hnone
    | some row =>
      obtain ⟨hmem, hhash⟩ := findByHash_eq_some hfound
      exact .inr (.inr (.inl (congrArg Call.revokeReplayed (h.spent row hmem hhash).1)))
  · cases answer with
    | plain =>
      cases hstep
      exact .inr (.inr (.inr ⟨rfl, fun row hrow _ => revoked_revokeAllForUser row hrow⟩))
    | _ => simp [Call.step, Call.read, Call.write] at hstep
  · exact absurd hstep (by simp [hover])

theorem replayed_step (h : Replayed hash userId count index s) (hs : s.Consistent)
    (hstep : step config s action = some s') : Replayed hash userId count index s' := by
  have hlater := (later_step hs hstep).2
  refine ⟨h.spent.later h.drawn hlater, hlater.drawn _ h.drawn, h.known.trans hlater.nextSession,
    h.row_step hs hstep, ?_⟩
  -- the other calls leave this one where it is
  have hstays (hsame : s'.calls[index]? = s.calls[index]?) :
      s'.calls[index]? = some (.findValidByHash hash) ∨ s'.calls[index]? = some (.findSpent hash) ∨
        s'.calls[index]? = some (.reportReplay hash) ∨
          s'.calls[index]? = some (.revokeReplayed userId) ∨
            s'.calls[index]? = some (.failed .AUTH_SESSION_EXPIRED) ∧ AllRevoked userId count s' := by
    rw [hsame]
    refine h.call.imp_right (Or.imp_right (Or.imp_right (Or.imp_right fun hfailed => ?_)))
    exact ⟨hfailed.1, hfailed.2.later h.known hlater⟩
  have hlength : index < s.calls.length := by
    rcases h.call with heq | heq | heq | heq | ⟨heq, -⟩ <;> exact (List.getElem?_eq_some_iff.mp heq).1
  rcases step_cases hstep with ⟨_, -, rfl⟩ | ⟨call, -, -, rfl⟩ |
    ⟨other, answer, call, next, mid, rfl, hcall, hcallStep, rfl⟩
  · exact hstays rfl
  · exact hstays (List.getElem?_append_left hlength)
  · have hcalls : mid.calls = s.calls := (change_step hcallStep).calls
    by_cases hother : other = index
    · subst hother
      have hget : (mid.calls.set other next)[other]? = some next := by
        rw [List.getElem?_set_self (hcalls ▸ hlength)]
      show (mid.calls.set other next)[other]? = _ ∨ (mid.calls.set other next)[other]? = _ ∨
        (mid.calls.set other next)[other]? = _ ∨ (mid.calls.set other next)[other]? = _ ∨
          (mid.calls.set other next)[other]? = _ ∧ AllRevoked userId count mid
      rw [hget]
      rcases replayed_next h hcall hcallStep with rfl | rfl | rfl | ⟨rfl, hall⟩
      · exact .inr (.inl rfl)
      · exact .inr (.inr (.inl rfl))
      · exact .inr (.inr (.inr (.inl rfl)))
      · exact .inr (.inr (.inr (.inr ⟨rfl, hall⟩)))
    · refine hstays ?_
      show (mid.calls.set other next)[index]? = _
      rw [List.getElem?_set_ne hother, hcalls]

/-- **A token that comes back late costs the account its sessions.**  When a refresh begins with a
token that was spent more than `REFRESH_RACE_MS` ago, then, whatever runs meanwhile, it can only end
in `AUTH_SESSION_EXPIRED`, and none of the sessions the account had is left. -/
theorem replay_revokes {start revokedAt : ℕ} {bs : List Action} {row : Session}
    (h₀ : Run (step config) Free (.start start) as s)
    (hcall : s.calls[index]? = some (.findValidByHash row.refreshTokenHash)) (hrow : row ∈ s.sessions)
    (hrevoked : row.revokedAt = some revokedAt) (hlate : REFRESH_RACE_MS < s.now - revokedAt)
    (h : Run (step config) Free s bs s') (hend : s'.calls[index]? = some call)
    (hover : call.isOver = true) :
    call = .failed .AUTH_SESSION_EXPIRED ∧ ∀ other ∈ s'.sessions, other.id < s.nextSession →
      other.userId = row.userId → other.revokedAt ≠ none := by
  obtain ⟨hs, -⟩ := later_run (consistent_start start) h₀
  have hspent : Spent row.refreshTokenHash row.userId s := by
    intro other hother hhash
    obtain rfl := List.inj_on_of_nodup_map hs.hashes hother hrow hhash
    exact ⟨rfl, revokedAt, hrevoked, hlate⟩
  have hreplayed : s'.Consistent ∧ Replayed row.refreshTokenHash row.userId s.nextSession index s' :=
    h.invariant
      (I := fun m => m.Consistent ∧ Replayed row.refreshTokenHash row.userId s.nextSession index m)
      (fun m action m' hI _ hstep => ⟨(later_step hI.1 hstep).1, replayed_step hI.2 hI.1 hstep⟩)
      ⟨hs, hspent, hs.drawn row hrow, le_rfl, .inl ⟨row, hrow, rfl⟩, .inl hcall⟩
  rcases hreplayed.2.call with heq | heq | heq | heq | ⟨heq, hall⟩ <;> rw [hend] at heq <;>
    cases heq
  · simp [Call.isOver] at hover
  · simp [Call.isOver] at hover
  · simp [Call.isOver] at hover
  · simp [Call.isOver] at hover
  · exact ⟨rfl, hall⟩

def ends : List Action := [.step 2 .plain, .step 2 .plain, .step 2 .plain, .step 2 .plain]

theorem replay_revokes_late :
    (reached (comesBack ++ ends)).calls[2]? = some (.failed .AUTH_SESSION_EXPIRED) ∧
      ∀ other ∈ (reached (comesBack ++ ends)).sessions,
        other.id < 1 → other.userId = 0 → other.revokedAt ≠ none := by
  have h₀ : Run (step plainConfig) Free (.start 0) comesBack (reached comesBack) := .ofExec rfl
  have h : Run (step plainConfig) Free (reached comesBack) ends (reached (comesBack ++ ends)) :=
    .ofExec rfl
  have hrow : (⟨0, 0, "first", 100000, some 0⟩ : Session) ∈ (reached comesBack).sessions :=
    List.mem_cons_self
  have hcall : (reached comesBack).calls[2]? = some (.findValidByHash "first") := rfl
  have hend : (reached (comesBack ++ ends)).calls[2]? = some (.failed .AUTH_SESSION_EXPIRED) := rfl
  exact ⟨hend, (replay_revokes h₀ hcall hrow rfl (by decide) h hend rfl).2⟩

/-! ### A refresh that runs alone -/

/-- A call goes on, and no other does. -/
inductive Alone (config : Config) : State → Call → State → Call → Prop
  | refl (s : State) (call : Call) : Alone config s call s call
  | step {s m s' : State} {call next last : Call} {answer : Answer} :
      call.step config s answer = some (m, next) → Alone config m next s' last →
        Alone config s call s' last

variable {last : Call}

theorem alone_read (hread : call.read config s = some next) (hnot : call.isOver = false)
    (h : Alone config s call s' last) (hover : last.isOver = true) : Alone config s next s' last := by
  cases h with
  | refl => exact absurd hover (by simp [hnot])
  | step hstep hrest =>
    unfold Call.step at hstep
    rw [hread] at hstep
    cases hstep
    exact hrest

theorem alone_write (hread : call.read config s = none) (hnot : call.isOver = false)
    (h : Alone config s call s' last) (hover : last.isOver = true) :
    ∃ m next answer, call.write config s answer = some (m, next) ∧ Alone config m next s' last := by
  cases h with
  | refl => exact absurd hover (by simp [hnot])
  | @step _ m _ _ next _ answer hstep hrest =>
    unfold Call.step at hstep
    rw [hread] at hstep
    exact ⟨m, next, answer, hstep, hrest⟩

theorem alone_of_isOver (hnone : ∀ answer, call.step config s answer = none)
    (h : Alone config s call s' last) : s' = s ∧ last = call := by
  cases h with
  | refl => exact ⟨rfl, rfl⟩
  | step hstep => exact absurd hstep (by simp [hnone])

theorem alone_issue (howner : ∃ owner ∈ s.users, owner.id = user.id)
    (h : Alone config s (.issue user) s' last) (hover : last.isOver = true) :
    ∃ pair, last = .paired pair := by
  obtain ⟨m, next, answer, hwrite, hrest⟩ := alone_write rfl rfl h hover
  cases answer with
  | token token =>
    obtain ⟨-, ⟨-, rfl, -⟩ | ⟨-, rfl⟩⟩ := issueStep_eq hwrite
    · exact ⟨_, (alone_of_isOver (fun _ => rfl) hrest).2⟩
    · -- the account is there, so the row is
      obtain ⟨owner, hmem, hid⟩ := howner
      have hthere : m.users.any (·.id = user.id) = true :=
        List.any_eq_true.mpr ⟨owner, hmem, by simp [hid]⟩
      simp only [Call.write, Call.issueStep, hthere, if_true] at hwrite
      split_ifs at hwrite
      obtain ⟨-, rfl⟩ := Prod.mk.inj (Option.some.inj hwrite)
      exact ⟨_, (alone_of_isOver (fun _ => rfl) hrest).2⟩
  | _ => simp [Call.write] at hwrite

theorem alone_revokeReplayed (h : Alone config s (.revokeReplayed userId) s' last)
    (hover : last.isOver = true) :
    last = .failed .AUTH_SESSION_EXPIRED ∧ s' = s.revokeAllForUser userId := by
  obtain ⟨m, next, answer, hwrite, hrest⟩ := alone_write rfl rfl h hover
  cases answer with
  | plain =>
    cases hwrite
    obtain ⟨rfl, rfl⟩ := alone_of_isOver (fun _ => rfl) hrest
    exact ⟨rfl, rfl⟩
  | _ => simp [Call.write] at hwrite

theorem findByHash_of_mem (hs : s.Consistent) {row : Session} (hrow : row ∈ s.sessions) :
    s.findByHash row.refreshTokenHash = some row := by
  cases hfound : s.findByHash row.refreshTokenHash with
  | none =>
    have hnone := List.find?_eq_none.mp hfound row hrow
    simp at hnone
  | some found =>
    obtain ⟨hmem, hhash⟩ := findByHash_eq_some hfound
    exact congrArg some (List.inj_on_of_nodup_map hs.hashes hmem hrow hhash)

theorem findOwner_of_mem (hs : s.Consistent) {row : Session} (hrow : row ∈ s.sessions) :
    ∃ user ∈ s.users, s.findUser row.userId = some user := by
  obtain ⟨owner, howner, hid⟩ := hs.owned row hrow
  obtain ⟨user, huser, hmem, -⟩ := findUser_of_mem howner
  exact ⟨user, hmem, hid ▸ huser⟩

/-- What a refresh token buys: its session is valid, or was revoked only just now. -/
def Session.buys (now : ℕ) (row : Session) : Prop :=
  row.isValid now = true ∨ ∃ revokedAt, row.revokedAt = some revokedAt ∧
    now - revokedAt ≤ REFRESH_RACE_MS

theorem alone_buys (hs : s.Consistent) {row : Session} (hrow : row ∈ s.sessions)
    (hbuys : row.buys s.now)
    (h : Alone config s (.findValidByHash row.refreshTokenHash) s' last) (hover : last.isOver = true) :
    ∃ pair, last = .paired pair := by
  obtain ⟨user, huser, howner⟩ := findOwner_of_mem hs hrow
  have hfirst := alone_read rfl rfl h hover
  cases hfound : s.findValidByHash row.refreshTokenHash with
  | some found =>
    obtain ⟨hmem, hhash, -⟩ := findValidByHash_eq_some hfound
    obtain rfl := List.inj_on_of_nodup_map hs.hashes hmem hrow hhash
    simp only [hfound] at hfirst
    have hsecond := alone_read rfl rfl hfirst hover
    simp only [howner] at hsecond
    obtain ⟨m, next, answer, hwrite, hrest⟩ := alone_write rfl rfl hsecond hover
    cases answer with
    | plain =>
      cases hwrite
      have hthere : ∃ owner ∈ (s.revoke found.id).users, owner.id = user.id := ⟨user, huser, rfl⟩
      exact alone_issue hthere hrest hover
    | _ => simp [Call.write] at hwrite
  | none =>
    have hinvalid := List.find?_eq_none.mp hfound row hrow
    obtain ⟨revokedAt, hat, hrace⟩ := hbuys.resolve_left fun hvalid => by simp [hvalid] at hinvalid
    simp only [hfound] at hfirst
    have hsecond := alone_read rfl rfl hfirst hover
    simp only [Call.racing, findByHash_of_mem hs hrow, hat, if_neg (not_lt.mpr hrace)] at hsecond
    have hthird := alone_read rfl rfl hsecond hover
    simp only [howner] at hthird
    exact alone_issue ⟨user, huser, rfl⟩ hthird hover

theorem alone_refused (hs : s.Consistent) {row : Session} (hrow : row ∈ s.sessions)
    (hnot : ¬ row.buys s.now)
    (h : Alone config s (.findValidByHash row.refreshTokenHash) s' last) (hover : last.isOver = true) :
    last = .failed .AUTH_SESSION_EXPIRED ∧ s' = s.revokeAllForUser row.userId := by
  have hreported : Alone config s (.reportReplay row.refreshTokenHash) s' last := by
    have hfirst := alone_read rfl rfl h hover
    have hfound : s.findValidByHash row.refreshTokenHash = none := by
      refine List.find?_eq_none.mpr fun other hother hmeant => ?_
      simp only [Bool.decide_and, Bool.decide_eq_true, Bool.and_eq_true, decide_eq_true_eq] at hmeant
      obtain rfl := List.inj_on_of_nodup_map hs.hashes hother hrow hmeant.1
      exact hnot (.inl hmeant.2)
    simp only [hfound] at hfirst
    have hsecond := alone_read rfl rfl hfirst hover
    simp only [Call.racing, findByHash_of_mem hs hrow] at hsecond
    cases hrevoked : row.revokedAt with
    | none => simpa only [hrevoked] using hsecond
    | some revokedAt =>
      have hlate : REFRESH_RACE_MS < s.now - revokedAt := by
        by_contra hrace
        exact hnot (.inr ⟨revokedAt, hrevoked, not_lt.mp hrace⟩)
      simpa only [hrevoked, if_pos hlate] using hsecond
  have hnext := alone_read rfl rfl hreported hover
  simp only [findByHash_of_mem hs hrow] at hnext
  exact alone_revokeReplayed hnext hover

/-- **What a refresh token buys.**  A refresh that runs alone to its end issues a pair exactly when its
token belongs to a session that is valid, or that was revoked at most `REFRESH_RACE_MS` ago, by
whatever it was revoked: a sign-out as well as another refresh.  With the token of any other session,
one that has merely expired included, it signs the account out everywhere. -/
theorem refresh_alone {start : ℕ} (h₀ : Run (step config) Free (.start start) as s)
    (h : Alone config s (.findValidByHash hash) s' last) (hover : last.isOver = true) :
    ((∃ pair, last = .paired pair) ↔
      ∃ row ∈ s.sessions, row.refreshTokenHash = hash ∧ row.buys s.now) ∧
    ∀ row ∈ s.sessions, row.refreshTokenHash = hash → ¬ row.buys s.now →
      ∀ other ∈ s'.sessions, other.userId = row.userId → other.revokedAt ≠ none := by
  obtain ⟨hs, -⟩ := later_run (consistent_start start) h₀
  refine ⟨⟨fun ⟨pair, hpair⟩ => ?_, ?_⟩, ?_⟩
  · by_contra hnot
    by_cases hthere : ∃ row ∈ s.sessions, row.refreshTokenHash = hash
    · obtain ⟨row, hrow, rfl⟩ := hthere
      have hbuys : ¬ row.buys s.now := fun hbuys => hnot ⟨row, hrow, rfl, hbuys⟩
      have hfailed := (alone_refused hs hrow hbuys h hover).1
      exact absurd (hpair.symm.trans hfailed) (by simp)
    · -- nobody was ever given that token
      have hnone : s.findByHash hash = none :=
        List.find?_eq_none.mpr fun row hrow => by simpa using fun heq => hthere ⟨row, hrow, heq⟩
      have hinvalid : s.findValidByHash hash = none := by
        refine List.find?_eq_none.mpr fun row hrow hmeant => ?_
        simp only [Bool.decide_and, Bool.and_eq_true, decide_eq_true_eq] at hmeant
        exact hthere ⟨row, hrow, hmeant.1⟩
      have hfirst := alone_read rfl rfl h hover
      simp only [hinvalid] at hfirst
      have hsecond := alone_read rfl rfl hfirst hover
      simp only [Call.racing, hnone] at hsecond
      have hthird := alone_read rfl rfl hsecond hover
      simp only [hnone] at hthird
      have hfailed := (alone_of_isOver (fun _ => rfl) hthird).2
      exact absurd (hpair.symm.trans hfailed) (by simp)
  · rintro ⟨row, hrow, rfl, hbuys⟩
    exact alone_buys hs hrow hbuys h hover
  · rintro row hrow rfl hbuys
    obtain ⟨-, rfl⟩ := alone_refused hs hrow hbuys h hover
    exact revoked_revokeAllForUser

/-- A session that is signed out this very moment still buys another. -/
theorem refresh_alone_race : ∃ row ∈ (reached signedOut).sessions, row.refreshTokenHash = "first" ∧
    row.buys (reached signedOut).now := by
  have h₀ : Run (step plainConfig) Free (.start 0) signedOut (reached signedOut) := .ofExec rfl
  have hissued : Alone plainConfig (reached signedOut) (.issue ⟨0, "ada", .ADMIN, INTERNAL_PROVIDER,
      none, some "password"⟩) _ _ := @Alone.step _ _ _ _ _ _ _ (.token "second") rfl (.refl _ _)
  have h : Alone plainConfig (reached signedOut) (.findValidByHash "first") _ _ :=
    @Alone.step _ _ _ _ _ _ _ .plain rfl (@Alone.step _ _ _ _ _ _ _ .plain rfl
      (@Alone.step _ _ _ _ _ _ _ .plain rfl hissued))
  exact (refresh_alone h₀ h rfl).1.mp ⟨_, rfl⟩

end

end MediaCenterSync.Auth
