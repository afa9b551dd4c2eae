import Takyonic.Types

/-! Advisory locks. The session and the transaction levels of a lock share one counter, and the transaction levels are
counted once more, to be released when the transaction ends. -/

namespace Takyonic.Sql

open Multiset

inductive LockMode where
  | exclusive
  | shared
  deriving DecidableEq, Repr

abbrev Hold : Type := LockMode × Nat × Int

/-- Each level of a lock is one element of `held`, a transaction level also one of `xactOwned`. -/
structure AdvisoryLocks where
  held : Multiset Hold
  xactOwned : Multiset Hold

namespace AdvisoryLocks

variable (locks : AdvisoryLocks) (hold : Hold) (session : Nat)

def pgTryAdvisoryLock : Option AdvisoryLocks :=
  -- a key is held in one mode only, and exclusively by one session
  if ∀ other ∈ locks.held, other.2.2 = hold.2.2 → other.1 = hold.1 ∧ (hold.1 = .exclusive → other.2.1 = hold.2.1) then
    -- the count of levels saturates
    some { locks with held := if locks.held.count hold < 2 ^ 32 - 1 then hold ::ₘ locks.held else locks.held }
  else none

def pgTryAdvisoryXactLock : Option AdvisoryLocks :=
  (locks.pgTryAdvisoryLock hold).map fun locks => { locks with
    -- the count of transaction levels wraps around
    xactOwned := if locks.xactOwned.count hold < 2 ^ 32 - 1 then hold ::ₘ locks.xactOwned
      else locks.xactOwned.filter (· ≠ hold) }

def pgAdvisoryUnlock : Option AdvisoryLocks :=
  if hold ∈ locks.held then some { locks with held := locks.held.erase hold } else none

def pgAdvisoryUnlockAll : AdvisoryLocks :=
  ⟨locks.held.filter (·.2.1 ≠ session), locks.xactOwned.filter (·.2.1 ≠ session)⟩

def pgAdvisoryXactUnlockAll : AdvisoryLocks :=
  ⟨locks.held - locks.xactOwned.filter (·.2.1 = session), locks.xactOwned.filter (·.2.1 ≠ session)⟩

end AdvisoryLocks

inductive AdvisoryCall where
  | lock (hold : Hold)
  | xactLock (hold : Hold)
  | unlock (hold : Hold)
  | unlockAll (session : Nat)
  | xactUnlockAll (session : Nat)

structure AdvisoryRun where
  locks : AdvisoryLocks
  session : Multiset Hold
  xact : Multiset Hold

namespace AdvisoryRun

open AdvisoryLocks

variable (run : AdvisoryRun)

def step : AdvisoryCall → AdvisoryRun
  | .lock hold =>
    (run.locks.pgTryAdvisoryLock hold).elim run fun locks => { run with locks, session := hold ::ₘ run.session }
  | .xactLock hold =>
    (run.locks.pgTryAdvisoryXactLock hold).elim run fun locks => { run with locks, xact := hold ::ₘ run.xact }
  | .unlock hold =>
    (run.locks.pgAdvisoryUnlock hold).elim run fun locks => { run with locks, session := run.session.erase hold }
  | .unlockAll session =>
    ⟨run.locks.pgAdvisoryUnlockAll session, run.session.filter (·.2.1 ≠ session), run.xact.filter (·.2.1 ≠ session)⟩
  | .xactUnlockAll session =>
    { run with locks := run.locks.pgAdvisoryXactUnlockAll session, xact := run.xact.filter (·.2.1 ≠ session) }

def after (calls : List AdvisoryCall) : AdvisoryRun := calls.foldl step ⟨⟨0, 0⟩, 0, 0⟩

/-- The counter has room, and an explicit unlock meets a session level where there are transaction levels. -/
def admits : AdvisoryCall → Bool
  | .lock hold | .xactLock hold => run.locks.held.count hold < 2 ^ 32 - 1
  | .unlock hold => hold ∈ run.xact → hold ∈ run.session
  | _ => true

def careful (run : AdvisoryRun) : List AdvisoryCall → Bool
  | [] => true
  | call :: calls => run.admits call && careful (run.step call) calls

def Balanced : Prop :=
  run.locks.held = run.session + run.xact ∧ run.locks.xactOwned = run.xact

variable {run}

theorem pgTryAdvisoryLock_eq {hold : Hold} {next : AdvisoryLocks} (room : run.locks.held.count hold < 2 ^ 32 - 1)
    (granted : run.locks.pgTryAdvisoryLock hold = some next) :
    next = ⟨hold ::ₘ run.locks.held, run.locks.xactOwned⟩ := by
  rw [pgTryAdvisoryLock] at granted
  split at granted <;> cases granted
  rfl

theorem Balanced.ended (balanced : run.Balanced) (session : Nat) :
    (run.locks.pgAdvisoryXactUnlockAll session).held = run.session + run.xact.filter (·.2.1 ≠ session) := by
  rw [pgAdvisoryXactUnlockAll, balanced.1, balanced.2]
  nth_rewrite 1 [← filter_add_not (·.2.1 = session) run.xact]
  rw [add_left_comm, add_tsub_cancel_left]

theorem Balanced.step (balanced : run.Balanced) {call : AdvisoryCall} (admitted : run.admits call) :
    (run.step call).Balanced := by
  obtain ⟨held, owned⟩ := id balanced
  cases call with
  | lock hold =>
    dsimp only [AdvisoryRun.step]
    cases granted : run.locks.pgTryAdvisoryLock hold with
    | none => exact balanced
    | some next =>
      rw [pgTryAdvisoryLock_eq (of_decide_eq_true admitted) granted]
      exact ⟨by simp [held], owned⟩
  | xactLock hold =>
    dsimp only [AdvisoryRun.step, pgTryAdvisoryXactLock]
    cases granted : run.locks.pgTryAdvisoryLock hold with
    | none => exact balanced
    | some next =>
      have room := of_decide_eq_true admitted
      have owns : run.locks.xactOwned.count hold < 2 ^ 32 - 1 := by
        rw [held, count_add, ← owned] at room
        omega
      rw [pgTryAdvisoryLock_eq room granted, Option.map_some, if_pos owns]
      exact ⟨by simp [held], by simp [owned]⟩
  | unlock hold =>
    dsimp only [AdvisoryRun.step, pgAdvisoryUnlock]
    split
    · rename_i inside
      rw [held, mem_add] at inside
      have inside := inside.elim id (of_decide_eq_true admitted)
      exact ⟨by simp [held, erase_add_left_pos _ inside], owned⟩
    · exact balanced
  | unlockAll session =>
    dsimp only [AdvisoryRun.step, pgAdvisoryUnlockAll]
    exact ⟨by simp [held], by simp [owned]⟩
  | xactUnlockAll session => exact ⟨balanced.ended session, congrArg _ owned⟩

theorem Balanced.runs (balanced : run.Balanced) {calls : List AdvisoryCall} (careful : run.careful calls) :
    (calls.foldl AdvisoryRun.step run).Balanced := by
  induction calls generalizing run with
  | nil => exact balanced
  | cons call calls ih =>
    obtain ⟨admitted, careful⟩ := Bool.and_eq_true_iff.mp careful
    exact ih (balanced.step admitted) careful

/-- Transaction levels stay until the transaction ends, and then the session levels stay. -/
theorem advisory_levels_kept (calls : List AdvisoryCall) (careful : AdvisoryRun.careful ⟨⟨0, 0⟩, 0, 0⟩ calls)
    (hold : Hold) :
    (after calls).locks.held.count hold = (after calls).session.count hold + (after calls).xact.count hold ∧
      ((after calls).locks.pgAdvisoryXactUnlockAll hold.2.1).held.count hold = (after calls).session.count hold := by
  have balanced : (after calls).Balanced := Balanced.runs ⟨rfl, rfl⟩ careful
  exact ⟨by rw [balanced.1, count_add], by simp [balanced.ended]⟩

theorem advisory_levels_kept_mixed :
    let hold : Hold := (.exclusive, 1, 7)
    let calls := [.lock hold, .xactLock hold, .unlock hold, .lock hold]
    AdvisoryRun.careful ⟨⟨0, 0⟩, 0, 0⟩ calls ∧ (after calls).xact.count hold = 1 ∧
      ((after calls).locks.pgAdvisoryXactUnlockAll 1).held.count hold = (after calls).session.count hold := by
  intro hold calls
  have careful : AdvisoryRun.careful ⟨⟨0, 0⟩, 0, 0⟩ calls := by decide
  exact ⟨careful, by decide, (advisory_levels_kept calls careful hold).2⟩

theorem explicit_unlock_takes_xact_level :
    let hold : Hold := (.exclusive, 1, 7)
    let first := after [.xactLock hold, .unlock hold]
    let last := after [.xactLock hold, .unlock hold, .lock hold, .xactUnlockAll 1]
    hold ∈ first.xact ∧ hold ∉ first.locks.held ∧ hold ∈ last.session ∧ hold ∉ last.locks.held := by
  decide

end AdvisoryRun

end Takyonic.Sql
