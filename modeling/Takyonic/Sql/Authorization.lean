import Takyonic.Foundation.Gather
import Takyonic.Sql.Plan
import Takyonic.Types

namespace Takyonic.Sql

open List

inductive Privilege where
  | select
  | insert
  | update
  | delete
  deriving DecidableEq, Repr

namespace Privilege

def asStr : Privilege → String
  | .select => "SELECT"
  | .insert => "INSERT"
  | .update => "UPDATE"
  | .delete => "DELETE"

def rank : Privilege → Nat
  | .select => 0
  | .insert => 1
  | .update => 2
  | .delete => 3

end Privilege

abbrev Need : Type := String × Privilege

def Need.le (first second : Need) : Prop :=
  first.1 < second.1 ∨ first.1 = second.1 ∧ first.2.rank ≤ second.2.rank

instance : DecidableRel Need.le := fun _ _ => inferInstanceAs (Decidable (_ ∨ _))

structure AuthContext where
  roles : List String
  isSuperuser : Bool
  deriving DecidableEq, Repr

/-- The table grants of the catalog, by grantee and table. -/
structure AuthCatalog where
  grants : String → String → List Privilege

namespace AuthCatalog

def hasPrivilege (catalog : AuthCatalog) (ctx : AuthContext) (table : String) (privilege : Privilege) : Bool :=
  ctx.isSuperuser || ctx.roles.any fun role => (catalog.grants role table).contains privilege

end AuthCatalog

namespace LogicalPlan

def walkPrivs : LogicalPlan → List Need
  | .select table _ _ => [(table, .select)]
  | .insert table _ _ _ _ _ => [(table, .insert)]
  | .update table _ selection _ => (table, .update) :: if selection.isSome then [(table, .select)] else []
  | .delete table selection _ => (table, .delete) :: if selection.isSome then [(table, .select)] else []
  | .truncate table _ => [(table, .delete)]
  | .copy table _ outward => if outward then [(table, .select)] else [(table, .insert)]
  | .join left right _ _ | .distributedJoin left right _ _ | .union left right _ _ => left.walkPrivs ++ right.walkPrivs
  | .aggregate input _ _ | .distributedAggregate input _ _ | .sort input _ | .limit input _ _ _ _ | .filter input _
  | .project input _ | .distinct input | .distinctOn input _ | .subqueryAlias _ input => input.walkPrivs
  | .explain plan => plan.walkPrivs
  | _ => []

def requiredPrivileges (plan : LogicalPlan) : List Need :=
  (plan.walkPrivs.insertionSort Need.le).destutter (· ≠ ·)

end LogicalPlan

def Command.reserved : Command → Bool
  | .createIndex | .dropIndex | .createTable | .alterTable | .dropTable | .createRole | .dropRole | .grant | .revoke
  | .grantSchema | .revokeSchema | .grantColumn | .revokeColumn | .grantRole | .analyze | .vacuum | .rebalance => true
  | .begin | .commit | .rollback | .set | .show | .comment | .listen | .unlisten | .notify | .createSequence
  | .dropSequence | .alterSequence => false

namespace AuthorizationManager

def checkNeeds (catalog : AuthCatalog) (ctx : AuthContext) : List Need → Except TakyonicError Unit
  | [] => .ok ()
  | (table, privilege) :: rest =>
    if catalog.hasPrivilege ctx table privilege then checkNeeds catalog ctx rest
    else
      let text := privilege.asStr
      .error (.permissionDenied s!"permission denied for table `{table}` ({text})")

def authorize (catalog : AuthCatalog) (ctx : AuthContext) : LogicalPlan → Except TakyonicError Unit
  | .command kind =>
    if ctx.isSuperuser then .ok ()
    else if kind.reserved then .error (.permissionDenied "permission denied: SUPERUSER required")
    else if kind = .comment then .error (.permissionDenied "permission denied: SUPERUSER required for COMMENT")
    else .ok ()
  | .createTableAs _ _ =>
    if ctx.isSuperuser then .ok () else .error (.permissionDenied "permission denied: SUPERUSER required")
  | .explain plan => authorize catalog ctx plan
  | plan => if ctx.isSuperuser then .ok () else checkNeeds catalog ctx plan.requiredPrivileges

end AuthorizationManager

mutual

def Expression.needs : Expression → List Need
  | .column _ | .outerRef _ | .literal _ | .parameter _ => []
  | .binaryOp left _ right | .and left right | .or left right | .arith left _ right | .vectorDistance left right _
  | .arrayIndex left right | .like left right _ _ _ _ | .similarTo left right _ _ | .regexMatch left right _ _
  | .atTimeZone left right | .isDistinctFrom left right _ | .quantifiedCmp left _ right _ | .nullIf left right =>
    left.needs ++ right.needs
  | .aggregateFunction _ args filter _ orderBy => needsOfList args ++ needsOfOption filter ++ needsOfSorts orderBy
  | .inSubquery expr subquery _ _ _ => expr.needs ++ subquery.needs
  | .exists subquery _ _ | .scalarSubquery subquery _ _ => subquery.needs
  | .inList expr _ _ | .isNull expr _ | .isBoolTest expr _ _ | .cast expr _ _ | .not expr => expr.needs
  | .array args | .coalesce args | .scalarFunction _ args => needsOfList args
  | .case whenThen elseResult => needsOfArms whenThen ++ needsOfOption elseResult

def SortExpr.needs : SortExpr → List Need
  | .mk expr _ _ => expr.needs

def WindowCall.needs : WindowCall → List Need
  | .mk _ partitionBy orderBy value defaultValue filter =>
    needsOfList partitionBy ++ needsOfSorts orderBy ++ needsOfOption value ++ needsOfOption defaultValue ++
      needsOfOption filter

/-- `RETURNING` reads rows of the table that was changed. -/
def Returning.needs (table : String) : Returning → List Need
  | .star => [(table, .select)]
  | .list columns => (table, .select) :: needsOfColumns columns

/-- `DO UPDATE` changes rows that are there already, and its `WHERE` reads them. -/
def OnConflict.needs (table : String) : OnConflict → List Need
  | .doNothing => []
  | .doUpdate assignments selection =>
    (table, .update) :: (if selection.isSome then [(table, .select)] else []) ++ needsOfColumns assignments ++
      needsOfOption selection

def LogicalPlan.needs : LogicalPlan → List Need
  | .command _ | .generateSeries => []
  | .select table _ predicate => (table, .select) :: needsOfOption predicate
  | .project input columns => input.needs ++ needsOfColumns columns
  | .window input calls => input.needs ++ needsOfCalls calls
  | .insert table _ values query onConflict returning =>
    (table, .insert) :: needsOfRows values ++ needsOfQuery query ++ needsOfConflict table onConflict ++
      needsOfReturning table returning
  | .update table assignments selection returning =>
    (table, .update) :: (if selection.isSome then [(table, .select)] else []) ++ needsOfColumns assignments ++
      needsOfOption selection ++ needsOfReturning table returning
  | .delete table selection returning =>
    (table, .delete) :: (if selection.isSome then [(table, .select)] else []) ++ needsOfOption selection ++
      needsOfReturning table returning
  | .truncate table _ => [(table, .delete)]
  | .copy table _ outward => if outward then [(table, .select)] else [(table, .insert)]
  | .join left right on _ | .distributedJoin left right on _ => left.needs ++ right.needs ++ on.needs
  | .aggregate input groupExprs aggrExprs | .distributedAggregate input groupExprs aggrExprs =>
    input.needs ++ needsOfList groupExprs ++ needsOfList aggrExprs
  | .sort input exprs => input.needs ++ needsOfSorts exprs
  | .limit input _ _ _ tiesOrder => input.needs ++ needsOfSorts tiesOrder
  | .createTableAs _ query => query.needs
  | .explain plan => plan.needs
  | .filter input predicate => input.needs ++ predicate.needs
  | .subqueryAlias _ input | .distinct input => input.needs
  | .union left right _ _ => left.needs ++ right.needs
  | .distinctOn input exprs => input.needs ++ needsOfList exprs
  | .values _ rows => needsOfRows rows
  | .unnest expr | .jsonArrayElements expr | .jsonEach expr | .jsonObjectKeys expr => expr.needs
  | .regexpSplitToTable string pattern flags | .regexpMatches string pattern flags =>
    string.needs ++ pattern.needs ++ needsOfOption flags

def needsOfList : List Expression → List Need
  | [] => []
  | expr :: rest => expr.needs ++ needsOfList rest

def needsOfOption : Option Expression → List Need
  | none => []
  | some expr => expr.needs

def needsOfSorts : List SortExpr → List Need
  | [] => []
  | sort :: rest => sort.needs ++ needsOfSorts rest

def needsOfArms : List (Expression × Expression) → List Need
  | [] => []
  | (condition, result) :: rest => condition.needs ++ result.needs ++ needsOfArms rest

def needsOfColumns : List (String × Expression) → List Need
  | [] => []
  | (_, expr) :: rest => expr.needs ++ needsOfColumns rest

def needsOfRows : List (List Expression) → List Need
  | [] => []
  | row :: rest => needsOfList row ++ needsOfRows rest

def needsOfCalls : List WindowCall → List Need
  | [] => []
  | call :: rest => call.needs ++ needsOfCalls rest

def needsOfQuery : Option LogicalPlan → List Need
  | none => []
  | some query => query.needs

def needsOfConflict (table : String) : Option OnConflict → List Need
  | none => []
  | some onConflict => onConflict.needs table

def needsOfReturning (table : String) : Option Returning → List Need
  | none => []
  | some returning => returning.needs table

end

namespace LogicalPlan

/-- The plans at the ends of the inputs of joins, set operations and the operators on one input. -/
def spine : LogicalPlan → List LogicalPlan
  | .join left right _ _ | .distributedJoin left right _ _ | .union left right _ _ => left.spine ++ right.spine
  | .aggregate input _ _ | .distributedAggregate input _ _ | .sort input _ | .limit input _ _ _ _ | .filter input _
  | .project input _ | .distinct input | .distinctOn input _ | .subqueryAlias _ input | .explain input => input.spine
  | plan => [plan]

def demands : LogicalPlan → List Need
  | .select table _ _ => [(table, .select)]
  | .insert table _ _ _ _ _ => [(table, .insert)]
  | .update table _ selection _ => (table, .update) :: if selection.isSome then [(table, .select)] else []
  | .delete table selection _ => (table, .delete) :: if selection.isSome then [(table, .select)] else []
  | .truncate table _ => [(table, .delete)]
  | .copy table _ outward => if outward then [(table, .select)] else [(table, .insert)]
  | _ => []

/-- What the plan needs off its spine: in its expressions, below a window, in the source of an `INSERT`, in its
    `ON CONFLICT` clause, and in `RETURNING`. -/
def hidden : LogicalPlan → List Need
  | .select _ _ predicate => needsOfOption predicate
  | .insert table _ rows query onConflict returning =>
    needsOfRows rows ++ needsOfQuery query ++ needsOfConflict table onConflict ++ needsOfReturning table returning
  | .update table assignments selection returning =>
    needsOfColumns assignments ++ needsOfOption selection ++ needsOfReturning table returning
  | .delete table selection returning => needsOfOption selection ++ needsOfReturning table returning
  | .join left right on _ | .distributedJoin left right on _ => left.hidden ++ right.hidden ++ on.needs
  | .aggregate input groupExprs aggrExprs | .distributedAggregate input groupExprs aggrExprs =>
    input.hidden ++ needsOfList groupExprs ++ needsOfList aggrExprs
  | .sort input exprs => input.hidden ++ needsOfSorts exprs
  | .limit input _ _ _ tiesOrder => input.hidden ++ needsOfSorts tiesOrder
  | .filter input predicate => input.hidden ++ predicate.needs
  | .project input columns => input.hidden ++ needsOfColumns columns
  | .distinct input | .subqueryAlias _ input | .explain input => input.hidden
  | .distinctOn input exprs => input.hidden ++ needsOfList exprs
  | .union left right _ _ => left.hidden ++ right.hidden
  | .truncate _ _ | .copy _ _ _ => []
  | plan => plan.needs

/-- The plan is a statement that only a superuser may run, or an `EXPLAIN` of one. -/
def Reserved : LogicalPlan → Prop
  | .command kind => kind.reserved = true ∨ kind = .comment
  | .createTableAs _ _ => True
  | .explain plan => plan.Reserved
  | _ => False

theorem walkPrivs_eq : (plan : LogicalPlan) → plan.walkPrivs = plan.spine.flatMap demands
  | .join left right _ _ | .distributedJoin left right _ _ | .union left right _ _ => by
    show left.walkPrivs ++ right.walkPrivs = (left.spine ++ right.spine).flatMap demands
    rw [walkPrivs_eq left, walkPrivs_eq right, flatMap_append]
  | .aggregate input _ _ | .distributedAggregate input _ _ | .sort input _ | .limit input _ _ _ _ | .filter input _
  | .project input _ | .distinct input | .distinctOn input _ | .subqueryAlias _ input | .explain input =>
    walkPrivs_eq input
  | .command _ | .generateSeries | .select _ _ _ | .window _ _ | .insert _ _ _ _ _ _ | .update _ _ _ _ | .delete _ _ _
  | .truncate _ _ | .copy _ _ _ | .createTableAs _ _ | .values _ _ | .unnest _ | .jsonArrayElements _ | .jsonEach _
  | .jsonObjectKeys _ | .regexpSplitToTable _ _ _ | .regexpMatches _ _ _ => (flatMap_singleton ..).symm

section Split

variable {need : Need} {all all' hid hid' : List Need} {leaves leaves' : List LogicalPlan}

theorem split_more (split : need ∈ all ↔ need ∈ leaves.flatMap demands ∨ need ∈ hid) (more : List Need) :
    need ∈ all ++ more ↔ need ∈ leaves.flatMap demands ∨ need ∈ hid ++ more := by
  rw [mem_append, mem_append, split, or_assoc]

theorem split_both (left : need ∈ all ↔ need ∈ leaves.flatMap demands ∨ need ∈ hid)
    (right : need ∈ all' ↔ need ∈ leaves'.flatMap demands ∨ need ∈ hid') :
    need ∈ all ++ all' ↔ need ∈ (leaves ++ leaves').flatMap demands ∨ need ∈ hid ++ hid' := by
  rw [flatMap_append, mem_append, mem_append, mem_append, left, right, or_or_or_comm]

theorem split_leaf (leaf : LogicalPlan) : need ∈ leaf.demands ↔ need ∈ [leaf].flatMap demands ∨ need ∈ [] := by
  rw [flatMap_singleton, or_iff_left not_mem_nil]

theorem split_hidden (all : List Need) : need ∈ all ↔ need ∈ [] ∨ need ∈ all :=
  (or_iff_right not_mem_nil).symm

end Split

theorem mem_needs (need : Need) : (plan : LogicalPlan) →
    (need ∈ plan.needs ↔ need ∈ plan.spine.flatMap demands ∨ need ∈ plan.hidden)
  | .join left right _ _ | .distributedJoin left right _ _ =>
    split_more (split_both (mem_needs need left) (mem_needs need right)) _
  | .union left right _ _ => split_both (mem_needs need left) (mem_needs need right)
  | .aggregate input _ _ | .distributedAggregate input _ _ => split_more (split_more (mem_needs need input) _) _
  | .sort input _ | .limit input _ _ _ _ | .filter input _ | .project input _ | .distinctOn input _ =>
    split_more (mem_needs need input) _
  | .distinct input | .subqueryAlias _ input | .explain input => mem_needs need input
  | .select table filters predicate => split_more (split_leaf (.select table filters predicate)) _
  | .insert table columns rows query onConflict returning =>
    split_more (split_more (split_more (split_more
      (split_leaf (.insert table columns rows query onConflict returning)) _) _) _) _
  | .update table assignments selection returning =>
    split_more (split_more (split_more (split_leaf (.update table assignments selection returning)) _) _) _
  | .delete table selection returning => split_more (split_more (split_leaf (.delete table selection returning)) _) _
  | .truncate table ifExists => split_leaf (.truncate table ifExists)
  | .copy table columns outward => split_leaf (.copy table columns outward)
  | .command _ | .generateSeries | .window _ _ | .createTableAs _ _ | .values _ _ | .unnest _ | .jsonArrayElements _
  | .jsonEach _ | .jsonObjectKeys _ | .regexpSplitToTable _ _ _ | .regexpMatches _ _ _ => split_hidden _

end LogicalPlan

namespace AuthorizationManager

variable {catalog : AuthCatalog} {ctx : AuthContext}

theorem checkNeeds_ok (needs : List Need) : checkNeeds catalog ctx needs = .ok () ↔
    ∀ need ∈ needs, catalog.hasPrivilege ctx need.1 need.2 = true := by
  induction needs with
  | nil => simp [checkNeeds]
  | cons need rest ih =>
    obtain ⟨table, privilege⟩ := need
    unfold checkNeeds
    rw [forall_mem_cons]
    split
    · rename_i held
      rw [ih]
      exact (and_iff_right held).symm
    · rename_i missing
      exact iff_of_false nofun fun both => missing both.1

theorem mem_requiredPrivileges (plan : LogicalPlan) (need : Need) :
    need ∈ plan.requiredPrivileges ↔ need ∈ plan.spine.flatMap LogicalPlan.demands := by
  unfold LogicalPlan.requiredPrivileges
  rw [Foundation.mem_destutter, (perm_insertionSort _ _).mem_iff, LogicalPlan.walkPrivs_eq]

theorem authorize_walked (ordinary : ctx.isSuperuser = false) {plan : LogicalPlan} (unreserved : ¬ plan.Reserved)
    (walked : authorize catalog ctx plan =
      if ctx.isSuperuser then .ok () else checkNeeds catalog ctx plan.requiredPrivileges) :
    authorize catalog ctx plan = .ok () ↔ ¬ plan.Reserved ∧
      ∀ need ∈ plan.spine.flatMap LogicalPlan.demands, catalog.hasPrivilege ctx need.1 need.2 = true := by
  rw [walked, if_neg (by simp [ordinary]), checkNeeds_ok, and_iff_right unreserved]
  simp only [mem_requiredPrivileges]

theorem authorize_command (ordinary : ctx.isSuperuser = false) (kind : Command) :
    authorize catalog ctx (.command kind) = .ok () ↔ ¬ (LogicalPlan.command kind).Reserved ∧
      ∀ need ∈ (LogicalPlan.command kind).spine.flatMap LogicalPlan.demands,
        catalog.hasPrivilege ctx need.1 need.2 = true := by
  show (if ctx.isSuperuser then _ else if kind.reserved then _ else if kind = .comment then _ else _) = _ ↔
    ¬ (kind.reserved = true ∨ kind = .comment) ∧ ∀ need ∈ [], _
  rw [if_neg (by simp [ordinary])]
  by_cases reserved : kind.reserved = true
  · rw [if_pos reserved]
    exact iff_of_false nofun fun both => both.1 (.inl reserved)
  rw [if_neg reserved]
  by_cases comment : kind = .comment
  · rw [if_pos comment]
    exact iff_of_false nofun fun both => both.1 (.inr comment)
  · rw [if_neg comment]
    exact iff_of_true rfl ⟨not_or.mpr ⟨reserved, comment⟩, nofun⟩

theorem authorize_ok (ordinary : ctx.isSuperuser = false) : (plan : LogicalPlan) →
    (authorize catalog ctx plan = .ok () ↔ ¬ plan.Reserved ∧
      ∀ need ∈ plan.spine.flatMap LogicalPlan.demands, catalog.hasPrivilege ctx need.1 need.2 = true)
  | .command kind => authorize_command ordinary kind
  | .createTableAs _ _ => by
    show (if ctx.isSuperuser then _ else _) = _ ↔ ¬ True ∧ _
    rw [if_neg (by simp [ordinary])]
    exact iff_of_false nofun fun both => both.1 trivial
  | .explain plan => authorize_ok ordinary plan
  | .generateSeries | .select _ _ _ | .window _ _ | .insert _ _ _ _ _ _ | .update _ _ _ _ | .delete _ _ _
  | .truncate _ _ | .copy _ _ _ | .values _ _ | .unnest _ | .jsonArrayElements _ | .jsonEach _ | .jsonObjectKeys _
  | .regexpSplitToTable _ _ _ | .regexpMatches _ _ _ | .join _ _ _ _ | .distributedJoin _ _ _ _ | .union _ _ _ _
  | .aggregate _ _ _ | .distributedAggregate _ _ _ | .sort _ _ | .limit _ _ _ _ _ | .filter _ _ | .project _ _
  | .distinct _ | .distinctOn _ _ | .subqueryAlias _ _ => authorize_walked ordinary id rfl

def granting (role : String) (needs : List Need) : AuthCatalog where
  grants grantee table :=
    if grantee = role then (needs.filter fun need => need.1 = table).map Prod.snd else []

theorem hasPrivilege_granting (role : String) (needs : List Need) (need : Need) :
    (granting role needs).hasPrivilege ⟨[role], false⟩ need.1 need.2 = true ↔ need ∈ needs := by
  simp [AuthCatalog.hasPrivilege, granting]

/-- A plan is safe to let through for every catalog and every ordinary user exactly when it is reserved, or all that
    is needed off its spine is demanded on the spine too. -/
theorem authorize_sound_iff (plan : LogicalPlan) :
    (∀ (catalog : AuthCatalog) (ctx : AuthContext), ctx.isSuperuser = false → authorize catalog ctx plan = .ok () →
      ∀ need ∈ plan.needs, catalog.hasPrivilege ctx need.1 need.2 = true) ↔
    plan.Reserved ∨ ∀ need ∈ plan.hidden, ∃ leaf ∈ plan.spine, need ∈ leaf.demands := by
  constructor
  · intro sound
    by_cases reserved : plan.Reserved
    · exact .inl reserved
    right
    intro need needed
    have held := sound (granting "reader" (plan.spine.flatMap LogicalPlan.demands)) ⟨["reader"], false⟩ rfl
      ((authorize_ok rfl plan).mpr ⟨reserved, fun need => (hasPrivilege_granting _ _ need).mpr⟩)
      need ((LogicalPlan.mem_needs need plan).mpr (.inr needed))
    exact mem_flatMap.mp ((hasPrivilege_granting _ _ need).mp held)
  · intro covered catalog ctx ordinary passed need needed
    obtain ⟨unreserved, granted⟩ := (authorize_ok ordinary plan).mp passed
    apply granted
    rcases (LogicalPlan.mem_needs need plan).mp needed with onSpine | offSpine
    · exact onSpine
    · exact mem_flatMap.mpr ((covered.resolve_left unreserved) need offSpine)

/-- `INSERT INTO inbox SELECT … FROM salaries` is let through for a user who may insert into `inbox` only. -/
theorem insert_reads_unauthorized : ∃ (catalog : AuthCatalog) (ctx : AuthContext) (plan : LogicalPlan),
    ctx.isSuperuser = false ∧ authorize catalog ctx plan = .ok () ∧ ("salaries", Privilege.select) ∈ plan.needs ∧
      catalog.hasPrivilege ctx "salaries" .select = false :=
  ⟨granting "clerk" [("inbox", .insert)], ⟨["clerk"], false⟩,
    .insert "inbox" ["id"] [] (some (.select "salaries" [] none)) none none, rfl, by decide +kernel,
    by decide +kernel, by decide +kernel⟩

end AuthorizationManager

end Takyonic.Sql
