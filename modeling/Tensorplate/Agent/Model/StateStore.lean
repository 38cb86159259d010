import Tensorplate.Agent.Model.AgentState

/-!
# The state store and its two files

`StateStore` keeps the agent state in memory and in two files, the
primary and a backup. A write goes through a temporary file, a rename and
a directory sync for each of the two, in an order the state's version
picks. Renames are atomic; every step may fail, and the process may be
killed at any of them. The JSON encoding is the parameter `StateCodec`.
-/

namespace Tensorplate

namespace Agent

/-- `DecodeError`. -/
inductive DecodeError
  | malformed (reason : String)
  | missingSchemaVersion
  | unsupportedSchemaVersion (got : String)
  | invalidPayload (reason : String)
  deriving DecidableEq, Repr

/-- `AgentError`. The refusals of bundle checks, of the platform and of
the worker control are one kind, with the code and the recoverability
`to_record` gives them. -/
inductive AgentError
  | busy (transactionId : String)
  | unavailable (reason : String)
  | corruptState (reason : String)
  | stateIndeterminate (reason : String)
  | invalidTransition (reason : String)
  | stopping
  | deploymentDescriptor (code : ErrorCode) (message : String)
  | internal (reason : String)
  | io (reason : String)
  | serialization (reason : String)
  | refusal (code : ErrorCode) (message : String) (recoverable : Bool)
  deriving DecidableEq, Repr

/-- The error's text. -/
def AgentError.display : AgentError → String
  | .busy id => "a concurrent transaction is already in flight (id=" ++ id ++ ")"
  | .unavailable reason => "requested operation is unavailable: " ++ reason
  | .corruptState reason => "durable state file is corrupt or malformed: " ++ reason
  | .stateIndeterminate reason =>
    "durable state write outcome is indeterminate (" ++ reason ++
      "); the state store refuses further writes until the agent restarts"
  | .invalidTransition reason => "invalid transaction transition: " ++ reason
  | .stopping => "the agent is stopping"
  | .deploymentDescriptor _ message => "deployment descriptor " ++ message
  | .internal reason => "internal agent error: " ++ reason
  | .io reason => reason
  | .serialization reason => "serialization error: " ++ reason
  | .refusal _ message _ => message

/-- Whether the error is `StateIndeterminate`. -/
def AgentError.isIndeterminate : AgentError → Bool
  | .stateIndeterminate _ => true
  | _ => false

/-! ## Encoding -/

/-- The code points Rust's `trim` strips: Unicode `White_Space`. -/
def isWhiteSpace (c : Char) : Bool :=
  let n := c.toNat
  (0x09 ≤ n && n ≤ 0x0D) || n == 0x20 || n == 0x85 || n == 0xA0 || n == 0x1680 ||
    (0x2000 ≤ n && n ≤ 0x200A) || n == 0x2028 || n == 0x2029 || n == 0x202F || n == 0x205F ||
    n == 0x3000

/-- `raw.trim().is_empty()`. -/
def isBlank (raw : String) : Bool := raw.toList.all isWhiteSpace

/-- **The JSON encoding of a state**: the `serde_json` writer, and the
reader up to `validate_payload`. The reader finds no value in blank text. -/
structure StateCodec where
  encode : AgentState → Except String String
  parse : String → Except DecodeError AgentState
  parse_blank : ∀ raw s, isBlank raw = true → parse raw ≠ .ok s

/-- `decode_agent_state`. -/
def StateCodec.decode (codec : StateCodec) (raw : String) : Except DecodeError AgentState :=
  match codec.parse raw with
  | .error e => .error e
  | .ok s => if s.valid then .ok s else .error (.invalidPayload "AgentState")

/-- `encode_checked`: the encoding, once it reads back as the state. -/
def StateCodec.encodeChecked (codec : StateCodec) (s : AgentState) : Except AgentError String :=
  match codec.encode s with
  | .error e => .error (.serialization e)
  | .ok text =>
    match codec.decode text with
    | .ok decoded =>
      if decoded = s then .ok text
      else .error
        (.internal "state update refused: the encoded state does not read back unchanged")
    | .error _ => .error (.internal "state update refused")

/-! ## The two files -/

/-- What a path of the state directory holds. -/
inductive StateFile
  | missing
  /-- Something `read_to_string` fails on. -/
  | unreadable
  | text (raw : String)
  deriving DecidableEq, Repr

/-- The state directory: `state.json` and `state.json.bak`. -/
structure StateDir where
  primary : StateFile
  backup : StateFile
  deriving DecidableEq, Repr

/-- `LoadFailure`. -/
inductive LoadFailure
  | io
  | decode (error : DecodeError)
  deriving DecidableEq, Repr

/-- `LoadFailure::allows_backup`: only damage lets the backup stand in. -/
def LoadFailure.allowsBackup : LoadFailure → Bool
  | .io => false
  | .decode (.unsupportedSchemaVersion _) => false
  | .decode _ => true

/-- `impl From<LoadFailure> for AgentError`. -/
def LoadFailure.toAgentError : LoadFailure → AgentError
  | .io => .io "read"
  | .decode _ => .corruptState "decode"

/-- `load_one`. -/
def loadOne (codec : StateCodec) : StateFile → Except LoadFailure (Option AgentState)
  | .missing => .ok none
  | .unreadable => .error .io
  | .text raw =>
    if isBlank raw then .ok none
    else
      match codec.decode raw with
      | .ok s => .ok (some s)
      | .error e => .error (.decode e)

/-- `StateStore`, with the directory it is rooted at. -/
structure StateStore where
  files : StateDir
  inner : AgentState
  /-- The next start reads the primary. -/
  primaryIsRead : Bool
  /-- A write failed at or after its commit rename. -/
  indeterminate : Bool := false
  deriving DecidableEq, Repr

/-- What a start reads of a directory: the state, and whether the primary
decoded. -/
def readFiles (codec : StateCodec) (dir : StateDir) : Except AgentError (AgentState × Bool) :=
  match loadOne codec dir.primary with
  | .ok (some s) => .ok (s, true)
  | .ok none =>
    match loadOne codec dir.backup with
    | .ok (some s) => .ok (s, false)
    | .ok none => .ok (AgentState.fresh, false)
    | .error e => .error e.toAgentError
  | .error e =>
    if e.allowsBackup then
      match loadOne codec dir.backup with
      | .ok (some s) => .ok (s, false)
      | _ => .error e.toAgentError
    else .error e.toAgentError

namespace StateStore

/-- `StateStore::open`. -/
def openAt (codec : StateCodec) (dir : StateDir) : Except AgentError StateStore :=
  match readFiles codec dir with
  | .ok (inner, primaryIsRead) => .ok ⟨dir, inner, primaryIsRead, false⟩
  | .error e => .error e

/-! ## Writing -/

/-- `WriteStep`: one file of the pair. -/
inductive WriteStep
  | primary
  | backup
  deriving DecidableEq, Repr

/-- How one step of a write ends. -/
inductive StepEnd
  | done
  | fails
  /-- The process is killed at this step, before it takes effect. -/
  | killed
  deriving DecidableEq, Repr

/-- How the three steps of one file's write end: the temporary file, the
rename, the directory sync. -/
structure FileSteps where
  write : StepEnd := .done
  rename : StepEnd := .done
  sync : StepEnd := .done
  deriving DecidableEq, Repr

/-- How a call ends: it returns, or the process is killed in it. -/
inductive CallEnd (α : Type) where
  | returned (result : Except AgentError α)
  | killed

/-- `write_order`. -/
def writeOrder (s : AgentState) : List WriteStep :=
  if s.schemaVersion = .legacy then [.primary, .backup] else [.backup, .primary]

/-- `rename` of the temporary file over its target. -/
def StateDir.renamed (dir : StateDir) (encoded : String) : WriteStep → StateDir
  | .primary => { dir with primary := .text encoded }
  | .backup => { dir with backup := .text encoded }

/-- `failed`: past its commit rename a write cannot tell which state
survives, and the store refuses later writes. -/
def failed (store : StateStore) (committed : Bool) (e : AgentError) :
    CallEnd Unit × StateStore :=
  if committed then
    (.returned (.error (.stateIndeterminate e.display)), { store with indeterminate := true })
  else (.returned (.error e), store)

/-- The loop of `write_state_files`. -/
def writeSteps (encoded : String) (syncsRequired : Bool) (commit : WriteStep) :
    List (WriteStep × FileSteps) → Bool → StateStore → CallEnd Unit × StateStore
  | [], _, store => (.returned (.ok ()), store)
  | (step, ends) :: rest, committed, store =>
    match ends.write with
    | .killed => (.killed, store)
    | .fails => store.failed committed (.io "write")
    | .done =>
      match ends.rename with
      | .killed => (.killed, store)
      | .fails => store.failed committed (.io "rename")
      | .done =>
        let store := { store with files := StateDir.renamed store.files encoded step }
        let committed := committed || step == commit
        match ends.sync with
        | .killed => (.killed, store)
        | .fails =>
          if syncsRequired then store.failed committed (.io "sync")
          else writeSteps encoded syncsRequired commit rest committed store
        | .done => writeSteps encoded syncsRequired commit rest committed store

/-- `write_state_files`. `linux` is `cfg!(target_os = "linux")`. -/
def writeStateFiles (linux : Bool) (store : StateStore) (encoded : String)
    (order : List WriteStep) (ends : FileSteps × FileSteps) : CallEnd Unit × StateStore :=
  let backupFirst := order.head? == some .backup
  let commit := if backupFirst && !store.primaryIsRead then WriteStep.backup else .primary
  writeSteps encoded (backupFirst && linux) commit (order.zip [ends.1, ends.2]) false store

/-- **An update closure.** Only the store itself builds the error
`StateIndeterminate`; no closure returns it. -/
structure StateUpdate (α : Type) where
  run : AgentState → Except AgentError (α × AgentState)
  own_error : ∀ s e, run s = .error e → e.isIndeterminate = false

/-- The version stamps `update` puts on the closure's result. -/
def stamp (s : AgentState) : AgentState :=
  { s with
    -- a saturating `u64` sum
    storeVersion := min (s.storeVersion + 1) (2 ^ 64 - 1)
    schemaVersion := s.requiredSchemaVersion }

/-- What `update` is about to write: the closure's outcome, the stamped
state and its encoding. -/
def checked {α : Type} (codec : StateCodec) (store : StateStore) (f : StateUpdate α) :
    Except AgentError (α × AgentState × String) :=
  match f.run store.inner with
  | .error e => .error e
  | .ok (outcome, changed) =>
    let next := stamp changed
    match store.inner.validateSuccessor next with
    | .error _ => .error (.internal "state update refused")
    | .ok () =>
      match codec.encodeChecked next with
      | .error e => .error e
      | .ok encoded => .ok (outcome, next, encoded)

/-- `update`. `ends` says how the steps of its write end. -/
def update {α : Type} (codec : StateCodec) (linux : Bool) (store : StateStore) (f : StateUpdate α)
    (ends : FileSteps × FileSteps) : CallEnd α × StateStore :=
  if store.indeterminate then
    (.returned (.error (.stateIndeterminate
      "an earlier write failed at or after its commit rename")), store)
  else
    match store.checked codec f with
    | .error e => (.returned (.error e), store)
    | .ok (outcome, next, encoded) =>
      match store.writeStateFiles linux encoded (writeOrder next) ends with
      | (.killed, store) => (.killed, store)
      | (.returned (.error e), store) => (.returned (.error e), store)
      | (.returned (.ok ()), store) =>
        (.returned (.ok outcome), { store with inner := next, primaryIsRead := true })

end StateStore

/-! ## The reader of an older agent -/

/-- `load_one` of an agent through 0.2.1: it decodes version 0.1 only. -/
def legacyLoadOne (codec : StateCodec) (file : StateFile) :
    Except Unit (Option AgentState) :=
  match loadOne codec file with
  | .ok none => .ok none
  | .ok (some s) => if s.schemaVersion = .legacy then .ok (some s) else .error ()
  | .error _ => .error ()

/-- `open` of an agent through 0.2.1: the primary when it decodes, else
the backup, whatever is wrong with the primary. -/
def legacyOpen (codec : StateCodec) (dir : StateDir) : Except Unit AgentState :=
  match legacyLoadOne codec dir.primary with
  | .ok (some s) => .ok s
  | .ok none =>
    match legacyLoadOne codec dir.backup with
    | .ok (some s) => .ok s
    | .ok none => .ok AgentState.fresh
    | .error _ => .error ()
  | .error _ =>
    match legacyLoadOne codec dir.backup with
    | .ok (some s) => .ok s
    | _ => .error ()

end Agent

end Tensorplate
