import Takyonic.Twopc.Coordinator

namespace Takyonic

open TcDecisionLog

inductive Visits {σ : Type} (visit : σ → ShardBranch → σ × Except TakyonicError Unit) :
    List ShardBranch → Site σ → Site σ → Prop
  | done (site : Site σ) : Visits visit [] site site
  | next {branch rest site after} (answer : (visit (site.shards branch.shardId) branch).2 = .ok ())
      (later : Visits visit rest (site.setShard branch.shardId (visit (site.shards branch.shardId) branch).1) after) :
      Visits visit (branch :: rest) site after

namespace Visits

variable {σ : Type} {visit : σ → ShardBranch → σ × Except TakyonicError Unit} {branches : List ShardBranch}
  {site after : Site σ}

variable (visits : Visits visit branches site after)
include visits

theorem coordinator : after.coordinator = site.coordinator := by
  induction visits with
  | done site => rfl
  | next answer later ih => exact ih

theorem other {shardId : Nat} (apart : shardId ∉ branches.map ShardBranch.shardId) :
    after.shards shardId = site.shards shardId := by
  induction visits with
  | done site => rfl
  | next answer later ih =>
    rw [List.map_cons, List.mem_cons, not_or] at apart
    exact (ih apart.2).trans (Function.update_of_ne apart.1 _ _)

theorem shard (distinct : (branches.map ShardBranch.shardId).Nodup) {branch : ShardBranch}
    (member : branch ∈ branches) :
    (visit (site.shards branch.shardId) branch).2 = .ok () ∧
      after.shards branch.shardId = (visit (site.shards branch.shardId) branch).1 := by
  induction visits with
  | done site => cases member
  | next answer later ih =>
    rename_i first rest site after
    obtain ⟨apart, distinct⟩ := List.nodup_cons.mp distinct
    rcases List.mem_cons.mp member with rfl | inRest
    · refine ⟨answer, (later.other apart).trans ?_⟩
      exact Function.update_self _ _ _
    have different : branch.shardId ≠ first.shardId := by
      intro same
      exact apart (same ▸ List.mem_map_of_mem inRest)
    have before : (site.setShard first.shardId (visit (site.shards first.shardId) first).1).shards branch.shardId =
        site.shards branch.shardId := Function.update_of_ne different _ _
    have here := ih distinct inRest
    rwa [before] at here

end Visits

namespace CommitCall

variable {σ : Type} (library : Library) (participant : ShardParticipant σ) (append : AppendResult)

def perform : Nat → Site σ → CommitCall → Site σ × (CommitCall ⊕ Except TakyonicError DistTxnOutcome)
  | 0, site, call => (site, .inl call)
  | actions + 1, site, call =>
    match call.advance library participant append site with
    | (site, .inl call) => perform actions site call
    | (site, .inr result) => (site, .inr result)

def vote (call : CommitCall) (shard : σ) (branch : ShardBranch) : σ × Except TakyonicError Unit :=
  participant.prepare shard call.txnId call.request.readTs branch.writes branch.reads

def apply (txnId commitTs : Nat) (shard : σ) (_ : ShardBranch) : σ × Except TakyonicError Unit :=
  participant.commit shard txnId commitTs

variable {library participant append} {call next : CommitCall} {site after : Site σ}
  {actions id commitTs ts txnId : Nat} {result : Except TakyonicError DistTxnOutcome} {rest : List ShardBranch}
  {prepared votes shards : List Nat}

theorem perform_pos (returned : call.perform library participant append actions site = (after, .inr result)) :
    ∃ left, actions = left + 1 := by
  cases actions with
  | zero => cases returned
  | succ left => exact ⟨left, rfl⟩

theorem perform_abandoned (abandoned : (∃ rest reason, call.phase = .aborting rest reason) ∨
      ∃ reason, call.phase = .recordingAbort reason) :
    (call.perform library participant append actions site).2 ≠ .inr (.ok (.committed id commitTs)) := by
  induction actions generalizing call site with
  | zero => exact nofun
  | succ actions ih =>
    obtain ⟨txnId, request, shards, phase⟩ := call
    rcases abandoned with ⟨rest, reason, rfl⟩ | ⟨reason, rfl⟩
    · cases rest with
      | nil => exact ih (.inr ⟨reason, rfl⟩)
      | cons shardId rest => exact ih (.inl ⟨rest, reason, rfl⟩)
    · exact nofun

theorem perform_applying
    (returned : perform library participant append actions site { call with phase := .applying ts rest } =
      (after, .inr (.ok (.committed id commitTs)))) :
    commitTs = ts ∧ Visits (apply participant call.txnId ts) rest site after := by
  induction rest generalizing site actions with
  | nil =>
    obtain ⟨left, rfl⟩ := perform_pos returned
    cases returned
    exact ⟨rfl, .done _⟩
  | cons branch rest ih =>
    obtain ⟨left, rfl⟩ := perform_pos returned
    dsimp only [perform, advance] at returned
    cases answer : (participant.commit (site.shards branch.shardId) call.txnId ts).2 with
    | error error =>
      rw [answer] at returned
      cases returned
    | ok _ =>
      rw [answer] at returned
      obtain ⟨same, later⟩ := ih returned
      exact ⟨same, .next answer later⟩

theorem perform_preparing
    (returned : perform library participant append actions site { call with phase := .preparing rest prepared } =
      (after, .inr (.ok (.committed id commitTs)))) :
    ∃ middle votes left, Visits (vote participant call) rest site middle ∧
      perform library participant append left middle { call with phase := .preparing [] votes } =
        (after, .inr (.ok (.committed id commitTs))) := by
  induction rest generalizing site actions prepared with
  | nil => exact ⟨site, prepared, actions, .done site, returned⟩
  | cons branch rest ih =>
    obtain ⟨left, rfl⟩ := perform_pos returned
    dsimp only [perform, advance] at returned
    by_cases missing : branch.shardId ∉ call.shards
    · rw [if_pos missing] at returned
      exact absurd (congrArg Prod.snd returned) (perform_abandoned (.inl ⟨_, _, rfl⟩))
    rw [if_neg missing] at returned
    cases answer : (participant.prepare (site.shards branch.shardId) call.txnId call.request.readTs branch.writes
        branch.reads).2 with
    | error error =>
      rw [answer] at returned
      exact absurd (congrArg Prod.snd returned) (perform_abandoned (.inl ⟨_, _, rfl⟩))
    | ok _ =>
      rw [answer] at returned
      obtain ⟨middle, votes, left, later, finished⟩ := ih returned
      exact ⟨middle, votes, left, .next answer later, finished⟩

theorem perform_deciding
    (returned : perform library participant append actions site { call with phase := .preparing [] votes } =
      (after, .inr (.ok (.committed id commitTs)))) :
    ∃ (decided : Site σ) (left : Nat), decided.shards = site.shards ∧
      perform library participant append left decided
        { call with phase := .applying site.coordinator.clock call.request.branches } =
          (after, .inr (.ok (.committed id commitTs))) := by
  obtain ⟨ticked, rfl⟩ := perform_pos returned
  dsimp only [perform, advance, TransactionCoordinator.tick] at returned
  obtain ⟨remembered, rfl⟩ := perform_pos returned
  dsimp only [perform, advance] at returned
  obtain ⟨recorded, rfl⟩ := perform_pos returned
  dsimp only [perform, advance] at returned
  cases appended : appendDecision library.xxh3 append site.file
      (.ofDecision call.txnId (.committed site.coordinator.clock)) with
  | mk file result =>
    rw [appended] at returned
    cases result with
    | error error => cases returned
    | ok _ =>
      obtain ⟨left, rfl⟩ := perform_pos returned
      dsimp only [perform, advance] at returned
      split at returned
      · rename_i resumed
        split at resumed
        · cases resumed
        · cases resumed
          refine ⟨_, left, ?_, returned⟩
          rfl
      · rename_i crashed
        cases returned
        split at crashed
        · cases crashed
        · cases crashed

theorem perform_committed {request : DistTxnRequest}
    (returned : (start txnId request shards).perform library participant append actions site =
      (after, .inr (.ok (.committed id commitTs)))) :
    commitTs = site.coordinator.clock ∧ ∃ middle decided : Site σ,
      Visits (vote participant (start txnId request shards)) request.branches site middle ∧
      decided.shards = middle.shards ∧ Visits (apply participant txnId commitTs) request.branches decided after := by
  by_cases empty : request.branches = []
  · have abandoned : (start txnId request shards).phase = .aborting [] "empty branches" := if_pos empty
    exact absurd (congrArg Prod.snd returned) (perform_abandoned (.inl ⟨_, _, abandoned⟩))
  have preparing : start txnId request shards =
      { start txnId request shards with phase := .preparing request.branches [] } := by
    unfold start
    rw [if_neg empty]
  rw [preparing] at returned
  obtain ⟨middle, votes, left, voted, returned⟩ := perform_preparing returned
  obtain ⟨decided, left, shards, returned⟩ := perform_deciding returned
  obtain ⟨stamp, applied⟩ := perform_applying returned
  rw [voted.coordinator] at stamp
  subst stamp
  rw [voted.coordinator] at applied
  exact ⟨rfl, middle, decided, voted, shards, applied⟩

end CommitCall

end Takyonic
