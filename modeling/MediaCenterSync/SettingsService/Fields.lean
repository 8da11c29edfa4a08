import MediaCenterSync.Naming.Service

/-!
# The fields of the settings

The settings of a gateway, what each of them is before anybody has configured it, the bounds of the
numeric ones, and the shape a stored value must have.
-/

namespace MediaCenterSync.SettingsService

open Naming (NamingScheme)

/-! ### Values -/

/-- What `JSON.parse` makes of a text. -/
inductive Json where
  | null
  | bool (value : Bool)
  /-- What is written, of which `JSON.parse` makes the nearest double. -/
  | number (value : ℚ)
  | string (value : String)
  | array (items : List Json)
  /-- Each key once. -/
  | object (members : List (String × Json))

/-- Half a step past the largest double; from here on the nearest is infinite. -/
@[irreducible] def INFINITE_FROM : ℕ := 2 ^ 1024 - 2 ^ 970

/-- `Number.isFinite` -/
def isFinite (value : ℚ) : Bool := -INFINITE_FROM < value && value < INFINITE_FROM

def Json.typeOf : Json → String
  | .bool _ => "boolean"
  | .number _ => "number"
  | .string _ => "string"
  | .null | .array _ | .object _ => "object"

/-- `Array.isArray` -/
def Json.isArray : Json → Bool
  | .array _ => true
  | _ => false

def Json.isNull : Json → Bool
  | .null => true
  | _ => false

/-- `===`, between values that do not come from one place: two objects are never the same. -/
def Json.strictEquals : Json → Json → Bool
  | .null, .null => true
  | .bool a, .bool b => a = b
  | .number a, .number b => a = b
  | .string a, .string b => a = b
  | _, _ => false

/-! ### Fields -/

/-- `keyof Settings` -/
inductive Field where
  | placement
  | fixedPath
  | categoryTargets
  | defaultTargetLibraryId
  | namingOrder
  | pullMetadata
  | writeNfo
  | preferSourceMetadata
  | maxParallelTransfers
  | queuePaused
  | diskReserveBytes
  | maxConnectionsPerSource
  | chunkSize
  | downloadRateLimit
  | uploadRateLimit
  | matchThreshold
  | peerMaxDepth
  | keepDiscoveredPeers
  | relayForPeers
  | allowSwarm
  | defaultShareVisibility
  | instanceName
  | publicUrl
  | defaultTargetPath
  | releasePreferences
  | indexer
  | downloadClient
  | requestSource
  | transferHistoryDays
  | failedHistoryDays
  | refreshIntervalMinutes
  | episodeWatchHours
  | fullScanCron
  | cacheTtlSeconds
  | dismissedLibraryHints
deriving DecidableEq

/-- `Object.keys(DEFAULT_SETTINGS)` -/
def FIELDS : List Field :=
  [.placement, .fixedPath, .categoryTargets, .defaultTargetLibraryId, .namingOrder, .pullMetadata,
    .writeNfo, .preferSourceMetadata, .maxParallelTransfers, .queuePaused, .diskReserveBytes,
    .maxConnectionsPerSource, .chunkSize, .downloadRateLimit, .uploadRateLimit, .matchThreshold,
    .peerMaxDepth, .keepDiscoveredPeers, .relayForPeers, .allowSwarm, .defaultShareVisibility,
    .instanceName, .publicUrl, .defaultTargetPath, .releasePreferences, .indexer, .downloadClient,
    .requestSource, .transferHistoryDays, .failedHistoryDays, .refreshIntervalMinutes,
    .episodeWatchHours, .fullScanCron, .cacheTtlSeconds, .dismissedLibraryHints]

instance : Fintype Field where
  elems := ⟨FIELDS, by decide⟩
  complete field := by cases field <;> decide

def Field.key : Field → String
  | .placement => "placement"
  | .fixedPath => "fixedPath"
  | .categoryTargets => "categoryTargets"
  | .defaultTargetLibraryId => "defaultTargetLibraryId"
  | .namingOrder => "namingOrder"
  | .pullMetadata => "pullMetadata"
  | .writeNfo => "writeNfo"
  | .preferSourceMetadata => "preferSourceMetadata"
  | .maxParallelTransfers => "maxParallelTransfers"
  | .queuePaused => "queuePaused"
  | .diskReserveBytes => "diskReserveBytes"
  | .maxConnectionsPerSource => "maxConnectionsPerSource"
  | .chunkSize => "chunkSize"
  | .downloadRateLimit => "downloadRateLimit"
  | .uploadRateLimit => "uploadRateLimit"
  | .matchThreshold => "matchThreshold"
  | .peerMaxDepth => "peerMaxDepth"
  | .keepDiscoveredPeers => "keepDiscoveredPeers"
  | .relayForPeers => "relayForPeers"
  | .allowSwarm => "allowSwarm"
  | .defaultShareVisibility => "defaultShareVisibility"
  | .instanceName => "instanceName"
  | .publicUrl => "publicUrl"
  | .defaultTargetPath => "defaultTargetPath"
  | .releasePreferences => "releasePreferences"
  | .indexer => "indexer"
  | .downloadClient => "downloadClient"
  | .requestSource => "requestSource"
  | .transferHistoryDays => "transferHistoryDays"
  | .failedHistoryDays => "failedHistoryDays"
  | .refreshIntervalMinutes => "refreshIntervalMinutes"
  | .episodeWatchHours => "episodeWatchHours"
  | .fullScanCron => "fullScanCron"
  | .cacheTtlSeconds => "cacheTtlSeconds"
  | .dismissedLibraryHints => "dismissedLibraryHints"

/-- The settings.  A field that is `undefined` has no value. -/
abbrev Settings := Field → Option Json

/-! ### Placement and naming -/

/-- `Object.values(PlacementStrategy)` -/
def PLACEMENT_STRATEGIES : List String := ["beside_existing", "default_library", "fixed_path"]

def schemeValue : NamingScheme → String
  | .SOURCE => "source"
  | .LOCAL => "local"
  | .STANDARD => "standard"
  | .DOTTED => "dotted"

def schemeOf : Json → Option NamingScheme
  | .string "source" => some .SOURCE
  | .string "local" => some .LOCAL
  | .string "standard" => some .STANDARD
  | .string "dotted" => some .DOTTED
  | _ => none

def NAMING_CONVENTIONS : List NamingScheme := [.STANDARD, .DOTTED]

def isNamingConvention (step : NamingScheme) : Bool := step ∈ NAMING_CONVENTIONS

def DEFAULT_NAMING_ORDER : List NamingScheme := [.SOURCE, .LOCAL, .STANDARD]

def orderJson (order : List NamingScheme) : Json :=
  .array (order.map fun step => .string (schemeValue step))

/-! ### Defaults and bounds -/

def DEFAULT_PEER_MAX_DEPTH : ℚ := 3

def MAX_PEER_MAX_DEPTH : ℚ := 6

def DEFAULT_RELEASE_PREFERENCES : Json :=
  .object [("global", .object [("ranks", .array [])]), ("byCategory", .object [])]

def DEFAULT_SETTINGS : Field → Json
  | .placement => .string "beside_existing"
  | .fixedPath => .null
  | .categoryTargets => .object []
  | .defaultTargetLibraryId => .null
  | .namingOrder => orderJson DEFAULT_NAMING_ORDER
  | .pullMetadata => .bool true
  | .writeNfo => .bool false
  | .preferSourceMetadata => .bool false
  | .maxParallelTransfers => .number 3
  | .queuePaused => .bool false
  | .diskReserveBytes => .number (5 * 1024 * 1024 * 1024)
  | .maxConnectionsPerSource => .number 4
  | .chunkSize => .number (8 * 1024 * 1024)
  | .downloadRateLimit => .number 0
  | .uploadRateLimit => .number 0
  | .matchThreshold => .number (8 / 10)
  | .peerMaxDepth => .number DEFAULT_PEER_MAX_DEPTH
  | .keepDiscoveredPeers => .bool false
  | .relayForPeers => .bool false
  | .allowSwarm => .bool true
  | .defaultShareVisibility => .string "friends_of_friends"
  | .instanceName => .null
  | .publicUrl => .null
  | .defaultTargetPath => .null
  | .releasePreferences => DEFAULT_RELEASE_PREFERENCES
  | .indexer => .null
  | .downloadClient => .null
  | .requestSource => .null
  | .transferHistoryDays => .number 30
  | .failedHistoryDays => .number 180
  | .refreshIntervalMinutes => .number 15
  | .episodeWatchHours => .number 6
  | .fullScanCron => .string "0 4 * * *"
  | .cacheTtlSeconds => .number 60
  | .dismissedLibraryHints => .array []

structure Bounds where
  min : ℚ
  max : ℚ

/-- `Number.MAX_SAFE_INTEGER` -/
def MAX_SAFE_INTEGER : ℚ := 9007199254740991

/-- Bounds that keep a typo from taking the gateway, or the media server, down. -/
def NUMERIC_BOUNDS : List (Field × Bounds) :=
  [(.maxParallelTransfers, ⟨1, 32⟩),
    (.diskReserveBytes, ⟨0, 1024 * 1024 * 1024 * 1024⟩),
    (.maxConnectionsPerSource, ⟨1, 16⟩),
    (.chunkSize, ⟨64 * 1024, 256 * 1024 * 1024⟩),
    (.downloadRateLimit, ⟨0, MAX_SAFE_INTEGER⟩),
    (.uploadRateLimit, ⟨0, MAX_SAFE_INTEGER⟩),
    (.matchThreshold, ⟨0, 1⟩),
    (.transferHistoryDays, ⟨0, 3650⟩),
    (.failedHistoryDays, ⟨0, 3650⟩),
    (.refreshIntervalMinutes, ⟨1, 1440⟩),
    (.episodeWatchHours, ⟨1, 168⟩),
    (.cacheTtlSeconds, ⟨1, 3600⟩),
    (.peerMaxDepth, ⟨1, MAX_PEER_MAX_DEPTH⟩)]

def boundsOf (field : Field) : Option Bounds := NUMERIC_BOUNDS.lookup field

def NULLABLE_OBJECT_SETTINGS : List Field := [.indexer, .downloadClient, .requestSource]

/-- Is a stored value the shape its default says it should be? -/
def fitsTheShapeOf (value fallback : Json) (key : Field) : Bool :=
  if fallback.isArray then value.isArray
  else if !fallback.isNull && fallback.typeOf = "object" then
    value.typeOf = "object" && !value.isNull && !value.isArray
  else if value.isNull then true
  else if fallback.isNull then
    if key ∈ NULLABLE_OBJECT_SETTINGS then value.typeOf = "object" && !value.isArray
    else value.typeOf = "string"
  else value.typeOf = fallback.typeOf

end MediaCenterSync.SettingsService
