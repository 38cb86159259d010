import Tensorplate.Session.Model.Limits

/-!
# Tombstones

What is remembered of a session once its slot was released, for telling
a late report about an ended session from an unknown key.
-/

namespace Tensorplate

namespace Serving

/-- `SessionTombstone`. -/
structure SessionTombstone where
  sessionKey : ℕ
  generation : ℕ
  state : LogicalSessionState
  code : Option ErrorCode
  reason : String
  endedAt : TimePoint
  deriving DecidableEq, Repr

namespace SessionTombstones

def kCapacity : ℕ := 1024

def kLifetime : Duration := seconds 60

def kMaxReasonBytes : ℕ := 64

/-- `expired`. -/
def expired (entry : SessionTombstone) (now : TimePoint) : Bool :=
  now - entry.endedAt ≥ kLifetime

/-- `bounded`: the longest run of whole characters within the bound. -/
def bounded (reason : String) : String :=
  if reason.utf8ByteSize ≤ kMaxReasonBytes then reason
  else String.ofList (fitting kMaxReasonBytes reason.toList)
where
  /-- The characters that fit in `room` bytes. -/
  fitting (room : ℕ) : List Char → List Char
    | [] => []
    | c :: rest => if c.utf8Size ≤ room then c :: fitting (room - c.utf8Size) rest else []

/-- `record`. -/
def record (entries : List SessionTombstone) (sessionKey generation : ℕ)
    (state : LogicalSessionState) (cause : Option Error) (now : TimePoint) :
    List SessionTombstone :=
  let kept := entries.dropWhile fun entry => expired entry now
  let kept := if kept.length = kCapacity then kept.drop 1 else kept
  kept ++ [{
    sessionKey := sessionKey
    generation := generation
    state := state
    code := cause.map (·.code)
    reason := ((cause.bind (·.context)).map bounded).getD ""
    endedAt := now }]

/-- `find`. -/
def find (entries : List SessionTombstone) (sessionKey : ℕ) (now : TimePoint) :
    Option SessionTombstone :=
  entries.find? fun entry => entry.sessionKey == sessionKey && !expired entry now

end SessionTombstones

end Serving

end Tensorplate
