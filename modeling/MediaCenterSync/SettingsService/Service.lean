import MediaCenterSync.Lib.Copies
import MediaCenterSync.SettingsService.Fields

/-!
# The settings service

The settings as rows of a table with the defaults filled in, and the copy of them in memory.

Everything runs on one thread, which gives way at each `await`.  `get` awaits the rows, `update`
awaits `get` and then its write, and a repository call is one step.  An action of the model is what
runs between two of these: a call up to its first `await`, a repository call, the rest of a call
once it is resumed.  The environment chooses the order.

Three things are for the statements only and nothing reads them: how often the table was written,
how many of these writes a copy has seen (`Copy`), and the value each field was last written.

`URL` is a parameter: `newUrl text` is what `new URL(text)` answers, none when it throws.
-/

namespace MediaCenterSync.SettingsService

open Naming (NamingScheme)
open Quality (trim)

/-! ### What is refused -/

inductive ErrorKey where
  | SETTINGS_INVALID
  | SETTINGS_PINNED
  | SETTINGS_PUBLIC_URL_INVALID
  | SETTINGS_TARGET_PATH_INVALID

inductive Refusal where
  | badRequest (key : ErrorKey) (field : Field)
  /-- A `TypeError`: the value has no `trim`. -/
  | typeError

/-! ### Texts -/

/-- What the service reads of a `URL`. -/
structure Url where
  protocol : String
  origin : String

/-- An empty box is somebody clearing the setting. -/
def cleared (value : Option String) : Option String :=
  value.bind fun value => if trim value = "" then none else some (trim value)

/-- `isAbsolute` of `node:path` -/
def isAbsolute (path : String) : Bool := path.toList.head? = some '/'

/-- `replace(/\/+$/, '') || '/'`, for what is longer than one character. -/
def withoutSlashes (path : String) : String :=
  if 1 < path.toList.length then
    if path.toList.rdropWhile (· = '/') = [] then "/"
    else .ofList (path.toList.rdropWhile (· = '/'))
  else path

/-- An absolute path with no trailing slash and no way out of itself. -/
def normaliseTargetPath (value : Option String) : Except Refusal (Option String) :=
  match cleared value with
  | none => .ok none
  | some candidate =>
    let segments := candidate.toList.splitOn '/'
    if !isAbsolute candidate ∨ ['.', '.'] ∈ segments ∨ Char.ofNat 0 ∈ candidate.toList then
      .error (.badRequest .SETTINGS_TARGET_PATH_INVALID .defaultTargetPath)
    else .ok (some (withoutSlashes candidate))

section

variable (newUrl : String → Option Url)

def normalisePublicUrl (value : Option String) : Except Refusal (Option String) :=
  match cleared value with
  | none => .ok none
  | some candidate =>
    match newUrl candidate with
    | none => .error (.badRequest .SETTINGS_PUBLIC_URL_INVALID .publicUrl)
    | some parsed =>
      if parsed.protocol ≠ "http:" ∧ parsed.protocol ≠ "https:" then
        .error (.badRequest .SETTINGS_PUBLIC_URL_INVALID .publicUrl)
      else .ok (some parsed.origin)

/-- The text settings that are stored in a shape rather than as typed. -/
def TEXT_NORMALISERS : Field → Option (Option String → Except Refusal (Option String))
  | .publicUrl => some (normalisePublicUrl newUrl)
  | .defaultTargetPath => some normaliseTargetPath
  | .defaultTargetLibraryId => some fun value => .ok (cleared value)
  | _ => none

def asText : Option Json → Except Refusal (Option String)
  | none | some .null => .ok none
  | some (.string text) => .ok (some text)
  | _ => .error .typeError

def ofText (text : Option String) : Json := (text.map Json.string).getD .null

def normalise (field : Field) (value : Option Json) : Except Refusal (Option Json) :=
  match TEXT_NORMALISERS newUrl field with
  | none => .ok value
  | some normaliser => do
    let text ← asText value
    return some (ofText (← normaliser text))

end

/-! ### The naming order -/

/-- The naming order as the rest of the application is allowed to assume it is. -/
def checkedNamingOrder : Option Json → Option (List NamingScheme)
  | some (.array steps) => do
    let order ← steps.mapM schemeOf
    let last ← order.getLast?
    if order.Nodup ∧ isNamingConvention last ∧ !order.dropLast.any isNamingConvention then order
    else none
  | _ => none

/-- The order a gateway that chose one of the old exclusive schemes should keep. -/
def namingOrderFromScheme : Option Json → Option (List NamingScheme)
  | some (.string "source") => some DEFAULT_NAMING_ORDER
  | some (.string "local") => some [.LOCAL, .STANDARD]
  | some (.string "standard") => some [.STANDARD]
  | _ => none

/-! ### Pins -/

/-- What the environment has taken out of the hands of the interface. -/
structure Pins where
  peerMaxDepth : Option ℚ

/-- `Math.trunc` -/
def trunc (value : ℚ) : ℤ := if 0 ≤ value then ⌊value⌋ else ⌈value⌉

/-- `_resolvePins`, of the `maxDepth` the environment gives. -/
def resolvePins (maxDepth : Option ℚ) : Pins where
  peerMaxDepth := maxDepth.map fun depth => min (max (trunc depth : ℚ) 1) MAX_PEER_MAX_DEPTH

/-- `_pinned` -/
def Pins.value (pins : Pins) : Field → Option Json
  | .peerMaxDepth => pins.peerMaxDepth.map .number
  | _ => none

def applyPins (pins : Pins) (settings : Settings) : Settings :=
  fun key => (pins.value key).or (settings key)

def pinnedFields (pins : Pins) : List Field := FIELDS.filter fun key => (pins.value key).isSome

/-! ### Reading -/

section

variable (newUrl : String → Option Url) (pins : Pins)

/-- `_clamp`, of one field. -/
def clampField (key : Field) (value : Option Json) : Option Json :=
  match boundsOf key with
  | some bounds =>
    match value with
    | some (.number n) =>
      if isFinite n then some (.number (min (max n bounds.min) bounds.max))
      else some (DEFAULT_SETTINGS key)
    | _ => some (DEFAULT_SETTINGS key)
  | none =>
    if key = .namingOrder then
      if checkedNamingOrder value = none then some (orderJson DEFAULT_NAMING_ORDER) else value
    else
      match normalise newUrl key value with
      | .ok value => value
      | .error _ => some (DEFAULT_SETTINGS key)

/-- Bring a stored value back inside its bounds instead of refusing to boot. -/
def clamp (settings : Settings) : Settings := fun key => clampField newUrl key (settings key)

def overDefaults (stored : Field → Option Json) (naming : Option Json) : Settings := fun key =>
  match stored key with
  | some value =>
    if fitsTheShapeOf value (DEFAULT_SETTINGS key) key then some value
    else some (DEFAULT_SETTINGS key)
  | none =>
    if key = .namingOrder then
      some (((namingOrderFromScheme naming).map orderJson).getD (DEFAULT_SETTINGS key))
    else some (DEFAULT_SETTINGS key)

def merge (stored : Field → Option Json) (naming : Option Json) : Settings :=
  applyPins pins (clamp newUrl (overDefaults stored naming))

end

/-! ### Writing -/

section

variable (newUrl : String → Option Url) (pins : Pins)

def textOf : Option Json → Option String
  | some (.string text) => some text
  | _ => none

def checkFixedPath (candidate : Settings) : Except Refusal Unit :=
  if textOf (candidate .placement) = some "fixed_path" then do
    if cleared (← asText (candidate .fixedPath)) = none then
      throw (.badRequest .SETTINGS_INVALID .fixedPath)
  else pure ()

def checkPlacement (candidate : Settings) : Except Refusal Unit :=
  if ∃ text ∈ textOf (candidate .placement), text ∈ PLACEMENT_STRATEGIES then pure ()
  else throw (.badRequest .SETTINGS_INVALID .placement)

def checkOrder (candidate : Settings) : Except Refusal Unit :=
  if checkedNamingOrder (candidate .namingOrder) = none then
    throw (.badRequest .SETTINGS_INVALID .namingOrder)
  else pure ()

def checkNumber (candidate : Settings) (entry : Field × Bounds) : Except Refusal Unit :=
  match candidate entry.1 with
  | some (.number value) =>
    if value < entry.2.min ∨ entry.2.max < value then
      throw (.badRequest .SETTINGS_INVALID entry.1)
    else pure ()
  | _ => throw (.badRequest .SETTINGS_INVALID entry.1)

def checkBounds (candidate : Settings) : Except Refusal Settings := do
  checkFixedPath candidate
  checkPlacement candidate
  checkOrder candidate
  NUMERIC_BOUNDS.forM (checkNumber candidate)
  return candidate

def validate (candidate : Settings) : Except Refusal Settings := do
  let publicUrl ← normalise newUrl .publicUrl (candidate .publicUrl)
  let defaultTargetPath ← normalise newUrl .defaultTargetPath (candidate .defaultTargetPath)
  let library ← normalise newUrl .defaultTargetLibraryId (candidate .defaultTargetLibraryId)
  checkBounds fun
    | .publicUrl => publicUrl
    | .defaultTargetPath => defaultTargetPath
    | .defaultTargetLibraryId => library
    | key => candidate key

/-- A property of a patch. -/
inductive Sent where
  | missing
  | undefined
  | value (value : Json)

/-- `UpdateSettingsRequest` -/
abbrev Patch := Field → Sent

/-- `{ ...current, ...patch }` -/
def spread (current : Settings) (patch : Patch) : Settings := fun key =>
  match patch key with
  | .missing => current key
  | .undefined => none
  | .value value => some value

def checkPin (patch : Patch) (current : Settings) (field : Field) : Except Refusal Unit :=
  match patch field with
  | .value submitted =>
    if (current field).any submitted.strictEquals then pure ()
    else throw (.badRequest .SETTINGS_PINNED field)
  | _ => pure ()

/-- `update`, from the settings it found to the ones it writes. -/
def prepare (patch : Patch) (current : Settings) : Except Refusal Settings := do
  (pinnedFields pins).forM (checkPin patch current)
  validate newUrl (spread current patch)

/-- The rows `update` writes: the fields that were sent. -/
def rowsOf (patch : Patch) (next : Settings) : Field → Option Json := fun key =>
  match patch key with
  | .value _ => next key
  | _ => none

end

/-! ### The table -/

/-- The row of each field, the row `naming` older versions wrote, and a row of the one other key that
is not read past.  A text that does not parse is none. -/
structure Table where
  rows : Field → Option (Option Json)
  naming : Option (Option Json)
  /-- The row `__proto__`. -/
  proto : Option (Option Json)

namespace Table

variable (table : Table)

/-- What `stored` has of a key it was given no value for.  It is a plain object, and an object that
is assigned to its `__proto__` becomes its prototype. -/
def inherited (key : String) : Option Json :=
  match table.proto.join with
  | some (.object members) => members.lookup key
  | _ => none

/-- `stored[key]` -/
def row (key : Field) : Option Json := (table.rows key).join.or (table.inherited key.key)

/-- `stored.naming` -/
def legacy : Option Json := table.naming.join.or (table.inherited "naming")

end Table

example : Table.row ⟨fun _ => none, none, some (some (.object [("chunkSize", .null)]))⟩ .chunkSize =
    some .null := rfl

/-- What `get` makes of the table. -/
def Table.read (newUrl : String → Option Url) (pins : Pins) (table : Table) : Settings :=
  merge newUrl pins table.row table.legacy

/-- One statement, which leaves every other row alone. -/
def Table.putMany (table : Table) (values : Field → Option Json) : Table :=
  { table with rows := fun key => ((values key).map some).or (table.rows key) }

/-! ### Calls -/

/-- A call under way, and where it is. -/
inductive Call where
  /-- The rows were asked for, by a `get` or by the `get` of an update. -/
  | reading (patch : Option Patch)
  | read (rows : Copy Table) (patch : Option Patch)
  /-- An update that awaited `get`. -/
  | pictured (patch : Patch) (current : Copy Settings)
  | writing (patch : Patch) (next : Copy Settings)
  | written (next : Copy Settings)

structure Service where
  table : Table
  writes : ℕ
  cached : Option (Copy Settings)
  calls : List Call
  /-- What each field was last written. -/
  saved : Field → Option Json

inductive Act where
  | get
  | update (patch : Patch)
  /-- The repository call the `i`-th call waits for is made. -/
  | repository (i : ℕ)
  | throws (i : ℕ)
  /-- The `i`-th call goes on. -/
  | resume (i : ℕ)
  | invalidate
  /-- The process stops where it is, and starts again. -/
  | restart

namespace Service

def boot (table : Table) : Service where
  table := table
  writes := 0
  cached := none
  calls := []
  saved _ := none

section

variable (newUrl : String → Option Url) (pins : Pins)

/-- What a `get` that meets no other call answers. -/
def answer (e : Service) : Settings := (e.cached.map (·.value)).getD (e.table.read newUrl pins)

/-- The process stops where it is, and starts again. -/
def restart (e : Service) : Service := { e with cached := none, calls := [] }

/-- The repository call the `i`-th call waits for. -/
def repository (e : Service) (i : ℕ) : Call → Option Service
  | .reading patch => some { e with calls := e.calls.set i (.read ⟨e.table, e.writes⟩ patch) }
  | .writing patch next =>
    some { e with
      table := e.table.putMany (rowsOf patch next.value)
      writes := e.writes + 1
      calls := e.calls.set i (.written ⟨next.value, next.seen + 1⟩)
      saved := fun key => (rowsOf patch next.value key).or (e.saved key) }
  | _ => none

/-- The `i`-th call goes on. -/
def resume (e : Service) (i : ℕ) : Call → Option Service
  | .read rows patch =>
    let merged := rows.map (Table.read newUrl pins)
    some { e with
      cached := some merged
      calls := match patch with
        | none => e.calls.eraseIdx i
        | some patch => e.calls.set i (.pictured patch merged) }
  | .pictured patch current =>
    match prepare newUrl pins patch current.value with
    | .error _ => some { e with calls := e.calls.eraseIdx i }
    | .ok next =>
      -- `putMany` makes no statement of no rows.
      if ∃ key, (rowsOf patch next key).isSome then
        some { e with calls := e.calls.set i (.writing patch ⟨next, current.seen⟩) }
      else some { e with calls := e.calls.set i (.written ⟨next, current.seen⟩) }
  | .written next =>
    some { e with cached := some (next.map (applyPins pins)), calls := e.calls.eraseIdx i }
  | _ => none

def step (e : Service) : Act → Option Service
  | .get =>
    match e.cached with
    | some _ => some e
    | none => some { e with calls := e.calls ++ [.reading none] }
  | .update patch =>
    match e.cached with
    | some copy => some { e with calls := e.calls ++ [.pictured patch copy] }
    | none => some { e with calls := e.calls ++ [.reading (some patch)] }
  | .repository i => e.calls[i]?.bind (e.repository i)
  | .throws i =>
    match e.calls[i]? with
    | some (.reading _) | some (.writing _ _) => some { e with calls := e.calls.eraseIdx i }
    | _ => none
  | .resume i => e.calls[i]?.bind (e.resume newUrl pins i)
  | .invalidate => some { e with cached := none }
  | .restart => some e.restart

end

end Service

end MediaCenterSync.SettingsService
