import Mathlib

/-! The grammar of logical plans and of the expressions in them. -/

namespace Takyonic.Sql

inductive Value where
  | null
  | int (number : Int64)
  | float (number : Float)
  | string (text : String)
  | bool (truth : Bool)
  deriving DecidableEq, Repr

inductive FilterOp where
  | eq
  | ne
  | gt
  | gte
  | lt
  | lte
  deriving DecidableEq, Repr

inductive ArithOp where
  | add
  | sub
  | mul
  | div
  deriving DecidableEq, Repr

inductive BoolTest where
  | true
  | false
  | unknown
  deriving DecidableEq, Repr

inductive Quantifier where
  | any
  | all
  deriving DecidableEq, Repr

inductive CastTarget where
  | text
  | int
  | float
  | bool
  | json
  deriving DecidableEq, Repr

inductive DistanceMetric where
  | euclidean
  | cosine
  deriving DecidableEq, Repr

inductive JoinType where
  | inner
  | left
  | right
  | full
  | semi
  | anti
  deriving DecidableEq, Repr

inductive SetOpKind where
  | union
  | intersect
  | except
  deriving DecidableEq, Repr

/-- A conjunct of a `WHERE` clause that compares a column with a literal. -/
structure Filter where
  column : String
  op : FilterOp
  value : String
  deriving DecidableEq, Repr

inductive Command where
  | begin
  | commit
  | rollback
  | createIndex
  | createTable
  | alterTable
  | dropIndex
  | dropTable
  | analyze
  | vacuum
  | rebalance
  | createRole
  | dropRole
  | grant
  | revoke
  | grantSchema
  | revokeSchema
  | grantColumn
  | revokeColumn
  | grantRole
  | set
  | show
  | comment
  | listen
  | unlisten
  | notify
  | createSequence
  | dropSequence
  | alterSequence
  deriving DecidableEq, Repr

mutual

inductive Expression where
  | column (name : String)
  | outerRef (name : String)
  | literal (text : String)
  | parameter (index : Nat)
  | binaryOp (left : Expression) (op : FilterOp) (right : Expression)
  | and (left right : Expression)
  | or (left right : Expression)
  | arith (left : Expression) (op : ArithOp) (right : Expression)
  | aggregateFunction (name : String) (args : List Expression) (filter : Option Expression) (distinct : Bool)
      (orderBy : List SortExpr)
  | inSubquery (expr : Expression) (subquery : LogicalPlan) (valueColumn : String) (negated correlated : Bool)
  | exists (subquery : LogicalPlan) (negated correlated : Bool)
  | scalarSubquery (subquery : LogicalPlan) (valueColumn : String) (correlated : Bool)
  | inList (expr : Expression) (list : List Value) (negated : Bool)
  | vectorDistance (left right : Expression) (metric : DistanceMetric)
  | array (items : List Expression)
  | arrayIndex (array index : Expression)
  | like (expr pattern : Expression) (caseInsensitive negated any : Bool) (escape : Option Char)
  | similarTo (expr pattern : Expression) (negated : Bool) (escape : Option Char)
  | regexMatch (expr pattern : Expression) (caseInsensitive negated : Bool)
  | atTimeZone (timestamp timeZone : Expression)
  | case (whenThen : List (Expression × Expression)) (elseResult : Option Expression)
  | isNull (expr : Expression) (negated : Bool)
  | isBoolTest (expr : Expression) (test : BoolTest) (negated : Bool)
  | isDistinctFrom (left right : Expression) (negated : Bool)
  | quantifiedCmp (left : Expression) (op : FilterOp) (right : Expression) (quantifier : Quantifier)
  | coalesce (args : List Expression)
  | cast (expr : Expression) (target : CastTarget) (tryCast : Bool)
  | nullIf (left right : Expression)
  | scalarFunction (name : String) (args : List Expression)
  | not (expr : Expression)

inductive SortExpr where
  | mk (expr : Expression) (asc nullsFirst : Bool)

/-- The expressions of a window call; its frame and its kind are left out. -/
inductive WindowCall where
  | mk (outputColumn : String) (partitionBy : List Expression) (orderBy : List SortExpr) (value : Option Expression)
      (defaultValue : Option Expression) (filter : Option Expression)

inductive Returning where
  | star
  | list (columns : List (String × Expression))

inductive OnConflict where
  | doNothing
  | doUpdate (assignments : List (String × Expression)) (selection : Option Expression)

inductive LogicalPlan where
  | command (kind : Command)
  | select (table : String) (filters : List Filter) (predicate : Option Expression)
  | project (input : LogicalPlan) (columns : List (String × Expression))
  | window (input : LogicalPlan) (calls : List WindowCall)
  | insert (table : String) (columns : List String) (values : List (List Expression)) (query : Option LogicalPlan)
      (onConflict : Option OnConflict) (returning : Option Returning)
  | update (table : String) (assignments : List (String × Expression)) (selection : Option Expression)
      (returning : Option Returning)
  | delete (table : String) (selection : Option Expression) (returning : Option Returning)
  | truncate (table : String) (ifExists : Bool)
  | copy (table : String) (columns : List String) (outward : Bool)
  | join (left right : LogicalPlan) (on : Expression) (joinType : JoinType)
  | aggregate (input : LogicalPlan) (groupExprs aggrExprs : List Expression)
  | distributedAggregate (input : LogicalPlan) (groupExprs aggrExprs : List Expression)
  | distributedJoin (left right : LogicalPlan) (on : Expression) (joinType : JoinType)
  | sort (input : LogicalPlan) (exprs : List SortExpr)
  | limit (input : LogicalPlan) (skip : Nat) (fetch : Option Nat) (withTies : Bool) (tiesOrder : List SortExpr)
  | createTableAs (name : String) (query : LogicalPlan)
  | explain (plan : LogicalPlan)
  | filter (input : LogicalPlan) (predicate : Expression)
  | subqueryAlias (aliasName : String) (input : LogicalPlan)
  | union (left right : LogicalPlan) (op : SetOpKind) (all : Bool)
  | distinct (input : LogicalPlan)
  | distinctOn (input : LogicalPlan) (exprs : List Expression)
  | values (columns : List String) (rows : List (List Expression))
  | generateSeries
  | unnest (array : Expression)
  | jsonArrayElements (doc : Expression)
  | jsonEach (doc : Expression)
  | jsonObjectKeys (doc : Expression)
  | regexpSplitToTable (string pattern : Expression) (flags : Option Expression)
  | regexpMatches (string pattern : Expression) (flags : Option Expression)

end

end Takyonic.Sql
