/-
# The rate limiter (`zerver/lib/rate_limiter.lua`, `zerver/lib/rate_limiter.py`)

A script that Redis runs as one step.  For each rule there is a field with the theoretical arrival
time of its meter.  A request is let through if no meter overflows, and only then the fields are
written.  The key of the fields expires when all meters have drained.  Numbers are exact, and what a
division by zero makes infinite is `none`.
-/
import GrowTeam.Gcra
import GrowTeam.History
import Mathlib.Data.Rat.Floor

namespace GrowTeam.RateLimiter

open Gcra History

/-- A rule: so many requests in a window of seconds. -/
structure Rule where
  window : ℕ
  limit : ℕ
  window_pos : 0 < window

/-- `window .. ':' .. limit` -/
def Rule.field (rule : Rule) : ℕ × ℕ := (rule.window, rule.limit)

/-- A number of seconds, or infinity. -/
abbrev Seconds := Option ℚ

/-- `a > b` -/
def exceeds : Seconds → Seconds → Bool
  | none, none => false
  | none, some _ => true
  | some _, none => false
  | some a, some b => decide (b < a)

/-- The keys of an entity: the hash of arrival times, with the time when it expires, and the key of
a manual block, which may expire as well. -/
structure Store where
  tats : ℕ × ℕ → Option ℚ
  expiresAt : Option ℚ
  blockedUntil : Option (Option ℚ)

/-- There are no keys. -/
def Store.empty : Store := ⟨fun _ => none, none, none⟩

variable (gone : ℚ → ℚ → Bool)

/-- The store as a script finds it.  Redis tells which keys are gone, of those that have expired. -/
def Store.find (now : ℚ) (s : Store) : Store where
  tats := if s.expiresAt.any (gone · now) then fun _ => none else s.tats
  expiresAt := if s.expiresAt.any (gone · now) then none else s.expiresAt
  blockedUntil :=
    if s.blockedUntil.any fun deadline => deadline.any (gone · now) then none else s.blockedUntil

/-- What the script returns. -/
structure Reply where
  ratelimited : Bool
  secsToFreedom : Seconds
  callsRemaining : ℕ
  secsToReset : ℚ

/-! ## The rules -/

/-- `emission_interval`: the time between requests at the pace of the rule. -/
def Rule.emissionInterval (rule : Rule) : Seconds :=
  if rule.limit = 0 then none else some ((rule.window : ℚ) / rule.limit)

/-- `new_tat`: a stored time that lies in the past counts as now. -/
def Rule.newTat (rule : Rule) (s : Store) (now : ℚ) : Seconds :=
  rule.emissionInterval.map fun interval =>
    later ((s.tats rule.field).getD now) now + interval

/-- The variables of the first loop. -/
structure Scan where
  newTats : List ((ℕ × ℕ) × Seconds)
  maxTtl : Seconds
  limited : Bool
  secsToFreedom : Seconds

/-- One turn of the first loop. -/
def scanRule (s : Store) (now : ℚ) (scan : Scan) (rule : Rule) : Scan :=
  let newTat := rule.newTat s now
  let overflows := exceeds newTat (some (now + rule.window))
  let freedom := newTat.map fun tat => tat - rule.window - now
  let remaining := newTat.map fun tat => tat - now
  { newTats := scan.newTats ++ [(rule.field, newTat)]
    maxTtl := if exceeds remaining scan.maxTtl then remaining else scan.maxTtl
    limited := scan.limited || overflows
    secsToFreedom :=
      if overflows && exceeds freedom scan.secsToFreedom then freedom else scan.secsToFreedom }

variable (rules : List Rule)

def scan (s : Store) (now : ℚ) : Scan :=
  rules.foldl (scanRule s now) ⟨[], some 0, false, some 0⟩

/-- The second loop, of `HSET`.  A request that gets here has only finite times. -/
def hset (tats : ℕ × ℕ → Option ℚ) (newTats : List ((ℕ × ℕ) × Seconds)) : ℕ × ℕ → Option ℚ :=
  newTats.foldl (fun tats e => Function.update tats e.1 e.2) tats

/-- `EXPIRE`, in whole seconds. -/
def expire (now : ℚ) (maxTtl : Seconds) (expiresAt : Option ℚ) : Option ℚ :=
  match maxTtl with
  | none => expiresAt
  | some maxTtl => if 0 < ⌈maxTtl⌉ then some (now + (⌈maxTtl⌉ : ℤ)) else expiresAt

/-- `calls_remaining` and `secs_to_reset`, of the last rule. -/
def allowed (now : ℚ) (rule : Rule) (maxTat : Seconds) : Reply :=
  let maxTat := maxTat.getD now
  ⟨false, some 0, ⌊(now + rule.window - maxTat) * rule.limit / rule.window⌋.toNat, maxTat - now⟩

/-- The time that a manual block still lasts, in whole milliseconds. -/
def pttl (now : ℚ) (deadline : Option ℚ) : ℤ :=
  match deadline with
  | none => 1000
  | some deadline =>
    if ⌊(deadline - now) * 1000⌋ < 0 then 1000 else ⌊(deadline - now) * 1000⌋

/-- The script, for a list of rules that ends with `last`. -/
def script (last : Rule) (now : ℚ) (s : Store) : Reply × Store :=
  match s.blockedUntil with
  | some deadline => (⟨true, some ((pttl now deadline : ℤ) / 1000), 0, 0⟩, s)
  | none =>
    let scan := scan rules s now
    if scan.limited then (⟨true, scan.secsToFreedom, 0, 0⟩, s)
    else
      (allowed now last (last.newTat s now),
        { s with
          tats := hset s.tats scan.newTats
          expiresAt := expire now scan.maxTtl s.expiresAt })

/-- `RedisRateLimiterBackend.rate_limit_entity`, which asserts that there are rules. -/
def rateLimitEntity (now : ℚ) (s : Store) : Option Reply × Store :=
  match rules.getLast? with
  | none => (none, s)
  | some last =>
    let result := script rules last now (s.find gone now)
    (some result.1, result.2)

/-! ## Sequences of requests -/

/-- The keys after some requests. -/
def stateAfter (times : List ℚ) : Store :=
  run (rateLimitEntity gone rules) Store.empty times

/-- The times of some requests, each with its reply. -/
def decisions (s : Store) (times : List ℚ) : List (ℚ × Option Reply) :=
  (history (rateLimitEntity gone rules) s times).map fun e => (e.input, e.answer)

/-- The times of the requests that were let through. -/
def acceptedTimes (decisions : List (ℚ × Option Reply)) : List ℚ :=
  (decisions.filter fun d => d.2.any fun reply => !reply.ratelimited).map Prod.fst

end GrowTeam.RateLimiter
