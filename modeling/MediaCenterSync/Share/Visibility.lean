import Mathlib.Data.List.Nodup
import MediaCenterSync.Peers.Entity

/-!
# Who sees what

Every read starts from the libraries: the stored policy of a library, or the gateway's default where
nobody wrote one, resolves to one visibility, and the lists of the policy make exceptions to it for
single peers.  `visiblePolicies` is what every answer to a peer goes through.
-/

namespace MediaCenterSync.Share

open Peers

inductive LibraryKind where
  | MOVIES
  | SHOWS
  | MUSIC
  | MIXED
  | OTHER
deriving DecidableEq

structure Library where
  id : String
  serviceId : String
  /-- Its identifier at the media server, the paths it reports and where we write the same files. -/
  externalId : String
  paths : List String
  localPath : Option String
  /-- Its name at the media server, and what we call it here. -/
  name : String
  «alias» : Option String
  kind : LibraryKind
  itemCount : ℕ
deriving DecidableEq

/-- A registered media server, or the server a peer is to us. -/
structure MediaService where
  id : String
  type : String
  baseUrl : String
  token : Option String
  username : Option String
  password : Option String
  peerId : Option String
  shared : Bool

structure SharePolicy where
  libraryId : String
  visibility : ShareVisibility
  allowedPeerIds : List String
  deniedPeerIds : List String
  rateLimit : ℕ

structure UpdateSharePolicyRequest where
  visibility : Option ShareVisibility := none
  allowedPeerIds : Option (List String) := none
  deniedPeerIds : Option (List String) := none
  rateLimit : Option ℕ := none

/-- The tables the manager reads. -/
structure Shares where
  libraries : List Library
  services : List MediaService
  policies : List SharePolicy
  settings : Settings
  libraryIds : (libraries.map (·.id)).Nodup
  serviceIds : (services.map (·.id)).Nodup
  policyIds : (policies.map (·.libraryId)).Nodup

/-- `effectiveVisibility`: a stored policy always wins. -/
def effectiveVisibility (policy : Option SharePolicy) (shared : Bool) (settings : Settings) :
    ShareVisibility :=
  match policy with
  | some policy => policy.visibility
  | none => if shared then settings.defaultShareVisibility else .PRIVATE

/-- What the catalogue decides on: a policy as it was resolved. -/
structure CataloguePolicy where
  libraryId : String
  visibility : ShareVisibility
  allowedPeerIds : List String
  deniedPeerIds : List String
  rateLimit : ℕ

/-- `PeerCatalogueService.isVisible` -/
def isVisible (policy : CataloguePolicy) (peer : Peer) : Bool :=
  if peer.id ∈ policy.deniedPeerIds then false
  else if peer.id ∈ policy.allowedPeerIds then true
  else
    match policy.visibility with
    | .PRIVATE => false
    -- A friend of a friend is not a friend.
    | .FRIENDS => peer.trust = .FRIEND
    | .FRIENDS_OF_FRIENDS => true

/-! ### Rows that are known by a key -/

def overwrite {Row : Type*} (key : Row → String) (rows : List Row) (saved : Row) : List Row :=
  rows.map fun row => if key row = key saved then saved else row

theorem map_overwrite {Row : Type*} (key : Row → String) (rows : List Row) (saved : Row) :
    (overwrite key rows saved).map key = rows.map key := by
  unfold overwrite
  rw [List.map_map]
  refine List.map_congr_left fun row _ => ?_
  rw [Function.comp_apply]
  split
  · next hsame => exact hsame.symm
  · rfl

theorem nodup_map_concat {Row : Type*} {key : Row → String} {rows : List Row} {row : Row}
    (h : (rows.map key).Nodup) (hrow : key row ∉ rows.map key) :
    ((rows ++ [row]).map key).Nodup := by
  rw [List.map_append]
  refine List.nodup_append.mpr ⟨h, List.nodup_singleton _, ?_⟩
  rintro id hid _ hadded rfl
  obtain rfl := List.mem_singleton.mp hadded
  exact hrow hid

/-! ### The manager -/

namespace Shares

variable (g : Shares)

def findByLibrary (libraryId : String) : Option SharePolicy :=
  g.policies.find? (·.libraryId = libraryId)

/-- The services whose libraries the gateway default reaches. -/
def sharing : List String :=
  (g.services.filter fun service => service.shared ∧ service.peerId = none).map (·.id)

/-- `_resolve`, for one library. -/
def resolve (library : Library) : CataloguePolicy :=
  let policy := g.findByLibrary library.id
  { libraryId := library.id
    visibility := effectiveVisibility policy (library.serviceId ∈ g.sharing) g.settings
    allowedPeerIds := (policy.map (·.allowedPeerIds)).getD []
    deniedPeerIds := (policy.map (·.deniedPeerIds)).getD []
    rateLimit := (policy.map (·.rateLimit)).getD 0 }

def visiblePolicies (peer : Peer) : List CataloguePolicy :=
  if peer.readingForbidden then []
  else (g.libraries.map g.resolve).filter (isVisible · peer)

/-- What `put` makes of the stored policy. -/
def patched (library : Library) (patch : UpdateSharePolicyRequest) : SharePolicy :=
  let policy := (g.findByLibrary library.id).getD
    { libraryId := library.id
      visibility := effectiveVisibility none (library.serviceId ∈ g.sharing) g.settings
      allowedPeerIds := []
      deniedPeerIds := []
      rateLimit := 0 }
  { policy with
    libraryId := library.id
    visibility := patch.visibility.getD policy.visibility
    allowedPeerIds := patch.allowedPeerIds.getD policy.allowedPeerIds
    deniedPeerIds := patch.deniedPeerIds.getD policy.deniedPeerIds
    rateLimit := patch.rateLimit.getD policy.rateLimit }

/-- `save`: the row of the library is replaced, or inserted. -/
def save (saved : SharePolicy) : Shares :=
  if h : saved.libraryId ∈ g.policies.map (·.libraryId) then
    { g with
      policies := overwrite (·.libraryId) g.policies saved
      policyIds := (map_overwrite (·.libraryId) g.policies saved).symm ▸ g.policyIds }
  else
    { g with
      policies := g.policies ++ [saved]
      policyIds := nodup_map_concat g.policyIds h }

/-- `put`: writes the policy of one library, creating it if there was none. -/
def put (libraryId : String) (patch : UpdateSharePolicyRequest) : Except ErrorKey Shares :=
  match g.libraries.find? (·.id = libraryId) with
  | none => .error .LIBRARY_NOT_FOUND
  | some library => .ok (g.save (g.patched library patch))

/-- `remove`: hands the library back to the gateway default. -/
def remove (libraryId : String) : Shares :=
  { g with
    policies := g.policies.filter (·.libraryId ≠ libraryId)
    policyIds := g.policyIds.sublist (List.filter_sublist.map _) }

end Shares

/-! ### What changes the tables -/

/-- An edit of the policies, of the settings, or of the services and their libraries. -/
inductive Edit where
  | put (libraryId : String) (patch : UpdateSharePolicyRequest)
  | remove (libraryId : String)
  | configure (settings : Settings)
  /-- A service is registered, by hand or because a peer was linked. -/
  | register (service : MediaService)
  /-- The row of a registered service is written again. -/
  | update (service : MediaService)
  | unregister (serviceId : String)
  /-- A library a probe reported is written, for the first time or again. -/
  | adopt (library : Library)
  | abandon (libraryId : String)

/-- The tables after an edit; `none` where it is refused. -/
def Shares.edit (g : Shares) : Edit → Option Shares
  | .put libraryId patch => (g.put libraryId patch).toOption
  | .remove libraryId => some (g.remove libraryId)
  | .configure settings => some { g with settings := settings }
  | .register service =>
    -- An identifier is never given twice, so nothing refers to it yet.
    if h : service.id ∉ g.services.map (·.id) ∧ service.id ∉ g.libraries.map (·.serviceId) then
      some { g with
        services := g.services ++ [service]
        serviceIds := nodup_map_concat g.serviceIds h.1 }
    else none
  | .update service =>
    -- A peer's registration is not editable, and no other becomes a peer's.
    if service.peerId = none ∧ ∀ row ∈ g.services, row.id = service.id → row.peerId = none then
      some { g with
        services := overwrite (·.id) g.services service
        serviceIds := (map_overwrite (·.id) g.services service).symm ▸ g.serviceIds }
    else none
  | .unregister serviceId =>
    some { g with
      services := g.services.filter (·.id ≠ serviceId)
      libraries := g.libraries.filter (·.serviceId ≠ serviceId)
      serviceIds := g.serviceIds.sublist (List.filter_sublist.map _)
      libraryIds := g.libraryIds.sublist (List.filter_sublist.map _) }
  | .adopt library =>
    if h : library.id ∈ g.libraries.map (·.id) then
      if ∀ row ∈ g.libraries, row.id = library.id → row.serviceId = library.serviceId then
        some { g with
          libraries := overwrite (·.id) g.libraries library
          libraryIds := (map_overwrite (·.id) g.libraries library).symm ▸ g.libraryIds }
      else none
    else if library.id ∉ g.policies.map (·.libraryId) then
      some { g with
        libraries := g.libraries ++ [library]
        libraryIds := nodup_map_concat g.libraryIds h }
    else none
  | .abandon libraryId =>
    some { g with
      libraries := g.libraries.filter (·.id ≠ libraryId)
      libraryIds := g.libraryIds.sublist (List.filter_sublist.map _) }

end MediaCenterSync.Share
