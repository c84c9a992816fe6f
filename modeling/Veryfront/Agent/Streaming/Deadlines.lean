import Veryfront.Agent.Streaming.StreamOutcome

/-!
# The deadlines of a stream attempt

One deadline runs while the runner waits for the provider. It is chosen from the snapshot, and only
the time of waiting counts. A status of the tool inputs that are still open is due at intervals, and
the attempt as a whole has a limit.
-/

namespace Veryfront.Agent.Streaming

inductive StreamProviderDeadlineKind
  | firstProgress | semanticIdle | toolInputIdle | toolCommitGrace
deriving DecidableEq, Repr

/-- The clock is what the events of a run carry. -/
structure StreamLifecyclePolicy where
  firstProgressTimeoutMs : Int := 60000
  semanticIdleTimeoutMs : Int := 15000
  toolInputIdleTimeoutMs : Int := 15000
  toolCommitGraceMs : Int := 250
  statusIntervalMs : Int := 5000
  attemptTimeoutMs : Int := 300000
  requireProviderFinish : Bool := false
  streamRequiresFinish : Bool := false

/-! ## A read of the provider -/

inductive IteratorResult (Part : Type)
  | value (part : Part)
  | done

/-- A read may throw `undefined`, which is no error to the classifier. -/
inductive ReadSettlement (Part : Type)
  | result (result : IteratorResult Part)
  | error (error : Option ThrownStreamError)

structure TrackedProviderRead (Part : Type) where
  settled : Option (Int × ReadSettlement Part) := none

inductive StreamReadRace (Part : Type)
  | part (result : IteratorResult Part)
  | readError (error : Option ThrownStreamError)
  | status (toolCallIds : List JsText)
  | providerDeadline (deadline : StreamProviderDeadlineKind)
  | attemptTimeout
  | cancelled

/-! ## The controller -/

structure StreamDeadlineController where
  attemptDeadlineMs : Int := 0
  activeKind : Option StreamProviderDeadlineKind := none
  remainingMs : Int := 0
  deadlineAbsMs : Option Int := none
  statusDueMs : Option Int := none
  statusEmitted : Bool := false
  statusToolIds : List JsText := []
  waitStartMs : Option Int := none
  waiting : Bool := false
  disposed : Bool := false

section
variable (policy : StreamLifecyclePolicy)

def localTools (snapshot : StreamSnapshot) : List StreamToolSnapshot :=
  snapshot.tools.filter fun tool => tool.providerExecuted ≠ some true

def selectKind (snapshot : StreamSnapshot) : Option StreamProviderDeadlineKind :=
  match snapshot.phase with
  | .completed | .failed | .cancelled | .toolHandoff => none
  | _ =>
    if policy.streamRequiresFinish then none
    else if (localTools snapshot).any fun tool => tool.phase = .inputReady then
      if policy.requireProviderFinish then some .semanticIdle else some .toolCommitGrace
    else if (localTools snapshot).any fun tool => tool.phase = .inputOpen || tool.phase = .inputStreaming then
      some .toolInputIdle
    else if !snapshot.hasSemanticProgress then some .firstProgress
    else some .semanticIdle

def budgetFor : StreamProviderDeadlineKind → Int
  | .firstProgress => policy.firstProgressTimeoutMs
  | .semanticIdle => policy.semanticIdleTimeoutMs
  | .toolInputIdle => policy.toolInputIdleTimeoutMs
  | .toolCommitGrace => policy.toolCommitGraceMs

def statusTargets (snapshot : StreamSnapshot) : List JsText :=
  (snapshot.tools.filter isPendingLocalInput).map StreamToolSnapshot.id

namespace StreamDeadlineController

/-- The budget starts anew. -/
def arm (kind : Option StreamProviderDeadlineKind) (c : StreamDeadlineController) : StreamDeadlineController :=
  { c with activeKind := kind, remainingMs := (kind.map (budgetFor policy)).getD 0 }

def resumeProviderWait (now : Int) (snapshot : StreamSnapshot) (c : StreamDeadlineController) : StreamDeadlineController :=
  let kind := selectKind policy snapshot
  let c := if kind = c.activeKind then c else c.arm policy kind
  let ids := statusTargets snapshot
  { c with
    statusToolIds := ids
    statusDueMs :=
      if ids = [] then none
      else if c.statusDueMs = none ∨ c.statusEmitted then some (now + policy.statusIntervalMs)
      else c.statusDueMs
    statusEmitted := false
    deadlineAbsMs := c.activeKind.map fun _ => now + c.remainingMs
    waitStartMs := some now
    waiting := true }

def pauseProviderWait (now : Int) (c : StreamDeadlineController) : StreamDeadlineController :=
  match c.waiting, c.waitStartMs with
  | true, some start =>
    { c with remainingMs := max 0 (c.remainingMs - (now - start)), waiting := false, waitStartMs := none, deadlineAbsMs := none }
  | _, _ => c

def noteSemanticProgress (now : Int) (snapshot : StreamSnapshot) (c : StreamDeadlineController) : StreamDeadlineController :=
  let c := c.arm policy (selectKind policy snapshot)
  let ids := statusTargets snapshot
  { c with
    statusToolIds := ids
    statusDueMs := if ids = [] then none else some (now + policy.statusIntervalMs)
    statusEmitted := if ids = [] then c.statusEmitted else false }

/-- A result counts unless it came after the deadline. -/
def inTime (c : StreamDeadlineController) (settledAtMs : Int) : Bool :=
  c.deadlineAbsMs.all fun deadline => settledAtMs ≤ deadline

def raceOfSettlement {Part : Type} : ReadSettlement Part → StreamReadRace Part
  | .result result => .part result
  | .error error => .readError error

def raceDue {Part : Type} (now : Int) (c : StreamDeadlineController) :
    Option (StreamReadRace Part × StreamDeadlineController) :=
  match c.deadlineAbsMs, c.activeKind with
  | some deadline, some kind =>
    if deadline ≤ now then some (.providerDeadline kind, c) else status
  | _, _ => status
where
  status :=
    if c.statusDueMs.any fun due => due ≤ now then some (.status c.statusToolIds, { c with statusEmitted := true }) else none

/-- One round of the race; `none` when it waits for the clock, the read or the signal. -/
def raceProviderRead {Part : Type} (now : Int) (read : TrackedProviderRead Part) (aborted : Bool)
    (c : StreamDeadlineController) : Option (StreamReadRace Part × StreamDeadlineController) :=
  if c.disposed || aborted then some (.cancelled, c)
  else if c.attemptDeadlineMs ≤ now then some (.attemptTimeout, c)
  else match read.settled with
    | some (settledAtMs, settlement) =>
      if c.inTime settledAtMs then some (raceOfSettlement settlement, c) else c.raceDue now
    | none => c.raceDue now

def dispose (c : StreamDeadlineController) : StreamDeadlineController := { c with disposed := true }

end StreamDeadlineController

end

end Veryfront.Agent.Streaming
