import Mathlib.Data.List.Basic
import Mathlib.Data.Option.Basic

/-!
# The indexing passes of a service

A pass is asked for by a scan, by a refresh, and by the timer that a landing in one of the service's
libraries sets, where the server was asked to look.  It runs detached from whoever asked: it walks
the service, a second time where the server had moved, and is forgotten a moment after it is over.

Each asynchronous step is one action.  How a walk goes, whether the server moved and whether the
service asked for is known are the environment's, so they are part of the action.  `log` is what
happened so far, oldest first; nothing reads it.
-/

namespace MediaCenterSync.ServiceManager.Indexing

inductive Request where
  | scan
  | refresh
  /-- The timer a landing set. -/
  | rescan

def Request.full : Request → Bool
  | .scan => true
  | .refresh | .rescan => false

inductive Stage where
  | walking
  /-- The server did not answer, and a directory is asked where it went. -/
  | relocating
  /-- The walk after a move. -/
  | walkingAgain
  /-- Over, and not yet forgotten. -/
  | over
deriving DecidableEq

structure Pass where
  full : Bool
  stage : Stage

inductive Walked where
  | done
  /-- The server could not be reached. -/
  | unavailable
  | failed

/-- `_announce`: what asking the server to look at a file that landed comes to. -/
inductive Announced where
  /-- There is no library or no service to ask, or the answer could not be saved. -/
  | nobody
  | LIBRARY
  | SERVER
  | UNSUPPORTED
  | failed

/-- Whether our own index is to be read again. -/
def Announced.settles : Announced → Bool
  | .nobody | .UNSUPPORTED => false
  | .LIBRARY | .SERVER | .failed => true

inductive Event where
  | accepted (request : Request)
  | landed (announced : Announced)
  | started (full : Bool)
  | ended

structure State where
  passes : List Pass := []
  /-- `_indexing` has the service. -/
  indexing : Bool := false
  settling : Bool := false
  log : List Event := []

namespace State

variable (s : State)

def start (full : Bool) : State :=
  if s.indexing then s
  else
    { s with
      passes := s.passes ++ [⟨full, .walking⟩]
      indexing := true
      log := s.log ++ [.started full] }

def request (r : Request) : State :=
  State.start { s with log := s.log ++ [.accepted r] } r.full

end State

/-- `_index`: what a pass does when its walk ends. -/
def Pass.afterWalk (pass : Pass) (walked : Walked) : Option Pass :=
  match pass.stage, walked with
  | .walking, .unavailable => some { pass with stage := .relocating }
  | .walking, _ | .walkingAgain, _ => some { pass with stage := .over }
  | _, _ => none

/-- `_index`: what a pass does when the directory has answered. -/
def Pass.afterRelocate (pass : Pass) (moved : Bool) : Option Pass :=
  match pass.stage with
  | .relocating => some { pass with stage := if moved then .walkingAgain else .over }
  | _ => none

inductive Action where
  /-- `scan`, where the service is known or is not. -/
  | scan (known : Bool)
  | refresh (known : Bool)
  /-- A transfer into one of the libraries is done. -/
  | land (announced : Announced)
  /-- The timer fires. -/
  | fire
  | walk (i : ℕ) (walked : Walked)
  | relocate (i : ℕ) (moved : Bool)
  /-- A pass that is over is forgotten. -/
  | forget (i : ℕ)

def step (s : State) : Action → Option State
  | .scan known => some (if known then s.request .scan else s)
  | .refresh known => some (if known then s.request .refresh else s)
  -- The timer of an earlier landing is replaced.
  | .land announced =>
    some { s with
      settling := s.settling || announced.settles
      log := s.log ++ [.landed announced] }
  | .fire => if s.settling then some (State.request { s with settling := false } .rescan) else none
  | .walk i walked => do
    let pass ← s.passes[i]?
    let pass ← pass.afterWalk walked
    some { s with passes := s.passes.set i pass }
  | .relocate i moved => do
    let pass ← s.passes[i]?
    let pass ← pass.afterRelocate moved
    some { s with passes := s.passes.set i pass }
  | .forget i => do
    let pass ← s.passes[i]?
    if pass.stage = .over then
      some
        { s with
          passes := s.passes.eraseIdx i
          indexing := false
          log := s.log ++ [.ended] }
    else none

end MediaCenterSync.ServiceManager.Indexing
