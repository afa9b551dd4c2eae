import Takyonic.Storage.Engine

namespace Takyonic

open Foundation List TxnM Option Std.TreeMap

namespace TxnM

variable {α β : Type}

def exec (method : TxnM α) (session : Session) : Except TakyonicError α × Session := method.run.run session

theorem exec_bind (method : TxnM α) (next : α → TxnM β) (session : Session) :
    (method >>= next).exec session = match method.exec session with
      | (.ok value, after) => (next value).exec after
      | (.error error, after) => (.error error, after) := by
  show (match method.exec session with
      | (first, after) => (ExceptT.bindCont next first).run after) = _
  rcases method.exec session with ⟨_ | _, after⟩
  · rfl
  · rfl

@[simp] theorem exec_pure (value : α) (session : Session) :
    (pure value : TxnM α).exec session = (.ok value, session) := rfl

@[simp] theorem exec_throw (error : TakyonicError) (session : Session) :
    (throw error : TxnM α).exec session = (.error error, session) := rfl

@[simp] theorem exec_get (session : Session) :
    (getThe Session : TxnM Session).exec session = (.ok session, session) := rfl

@[simp] theorem exec_modify (change : Session → Session) (session : Session) :
    (modifyThe Session change : TxnM PUnit).exec session = (.ok ⟨⟩, change session) := rfl

@[simp] theorem exec_ofExcept (answer : Except TakyonicError α) (session : Session) :
    (ofExcept answer).exec session = (answer, session) := rfl

end TxnM

structure Session.Extends (before after : Session) : Prop where
  txnId : after.txn.txnId = before.txn.txnId
  readTs : after.txn.readTs = before.txn.readTs
  isolation : after.txn.isolation = before.txn.isolation
  finished : after.txn.finished = before.txn.finished
  reads : ∀ key ∈ before.txn.reads, key ∈ after.txn.reads
  writes : ∀ key ∈ before.txn.writes, key ∈ after.txn.writes

open Session.Extends

namespace Session.Extends

theorem refl (session : Session) : session.Extends session :=
  ⟨rfl, rfl, rfl, rfl, fun _ member => member, fun _ member => member⟩

theorem trans {first second third : Session} (one : first.Extends second) (two : second.Extends third) :
    first.Extends third :=
  ⟨two.txnId.trans one.txnId, two.readTs.trans one.readTs, two.isolation.trans one.isolation,
    two.finished.trans one.finished, fun key member => two.reads key (one.reads key member),
    fun key member => two.writes key (one.writes key member)⟩

theorem observe (session : Session) (key : Key) (seenTs : Nat) : session.Extends (session.observe key seenTs) :=
  ⟨rfl, rfl, rfl, rfl, fun _ member => mem_insertIfNew.mpr (.inr member), fun _ member => member⟩

theorem buffer (session : Session) (key : Key) (op : Option Value) : session.Extends (session.buffer key op) :=
  ⟨rfl, rfl, rfl, rfl, fun _ member => member, fun _ member => mem_insert.mpr (.inr member)⟩

end Session.Extends

def TxnM.Extending {α : Type} (method : TxnM α) : Prop :=
  ∀ session : Session, session.Extends (method.exec session).2

namespace TxnM.Extending

variable {α β : Type}

theorem bind {method : TxnM α} {next : α → TxnM β} (first : method.Extending)
    (second : ∀ value, (next value).Extending) : (method >>= next).Extending := by
  intro session
  have here := first session
  rw [exec_bind]
  rcases result : method.exec session with ⟨_ | value, after⟩
  · rw [result] at here
    exact here
  · rw [result] at here
    exact here.trans (second value after)

theorem get : (getThe Session : TxnM Session).Extending := refl

theorem ofExcept (answer : Except TakyonicError α) : (TxnM.ofExcept answer).Extending := refl

end TxnM.Extending

structure Session.Alike (first second : Session) : Prop where
  writes : first.txn.writes = second.txn.writes
  finished : first.txn.finished = second.txn.finished

namespace Session.Alike

variable {first second third : Session}

theorem refl (session : Session) : session.Alike session := ⟨rfl, rfl⟩

theorem symm (one : first.Alike second) : second.Alike first := ⟨one.writes.symm, one.finished.symm⟩

theorem trans (one : first.Alike second) (two : second.Alike third) : first.Alike third :=
  ⟨one.writes.trans two.writes, one.finished.trans two.finished⟩

end Session.Alike

def TxnM.Follows {α : Type} (agree : Key → Prop) (method other : TxnM α) : Prop :=
  ∀ session session' : Session, session.Alike session' → (∀ key ∈ (method.exec session).2.txn.reads, agree key) →
    (method.exec session).1 = (other.exec session').1 ∧ (method.exec session).2.Alike (other.exec session').2

namespace TxnM.Follows

variable {α β : Type} {agree : Key → Prop}

theorem bind {method other : TxnM α} {next next' : α → TxnM β} (first : method.Follows agree other)
    (extending : ∀ value, (next value).Extending) (second : ∀ value, (next value).Follows agree (next' value)) :
    (method >>= next).Follows agree (other >>= next') := by
  intro session session' alike covered
  have here := first session session' alike
  simp only [exec_bind] at covered ⊢
  rcases result : method.exec session with ⟨_ | value, after⟩
  · simp only [result] at here covered ⊢
    obtain ⟨same, alike⟩ := here covered
    rcases result' : other.exec session' with ⟨_ | value', after'⟩
    · rw [result'] at same alike
      exact ⟨congrArg Except.error (Except.error.inj same), alike⟩
    · rw [result'] at same
      cases same
  · simp only [result] at here covered ⊢
    obtain ⟨same, alike⟩ := here (fun key member => covered key ((extending value after).reads key member))
    rcases result' : other.exec session' with ⟨_ | value', after'⟩
    · rw [result'] at same
      cases same
    · rw [result'] at same alike
      obtain rfl := Except.ok.inj same
      exact second value after after' alike covered

end TxnM.Follows

/-- The method keeps what the transaction has noted, and follows its copy over a store that is `alike`. -/
structure TxnM.Tracks {α : Type} (alike : Prop) (agree : Key → Prop) (method other : TxnM α) : Prop where
  extending : method.Extending
  follows : alike → method.Follows agree other

namespace TxnM.Tracks

variable {α β : Type} {alike holds : Prop} {agree : Key → Prop}

theorem bind {method other : TxnM α} {next next' : α → TxnM β} (first : method.Tracks alike agree other)
    (second : ∀ value, (next value).Tracks alike agree (next' value)) :
    (method >>= next).Tracks alike agree (other >>= next') where
  extending := first.extending.bind (fun value => (second value).extending)
  follows similar := (first.follows similar).bind (fun value => (second value).extending)
    (fun value => (second value).follows similar)

theorem imp {method other : TxnM α} (tracks : method.Tracks alike agree other)
    (given : holds → alike) : method.Tracks holds agree other :=
  ⟨tracks.extending, fun known => tracks.follows (given known)⟩

theorem pure (value : α) : (Pure.pure value : TxnM α).Tracks alike agree (Pure.pure value) :=
  ⟨refl, fun _ _ _ similar _ => ⟨rfl, similar⟩⟩

theorem throw (error : TakyonicError) :
    (MonadExcept.throw error : TxnM α).Tracks alike agree (MonadExcept.throw error) :=
  ⟨refl, fun _ _ _ similar _ => ⟨rfl, similar⟩⟩

theorem ofExcept {answer answer' : Except TakyonicError α} (same : alike → answer = answer') :
    (TxnM.ofExcept answer).Tracks alike agree (TxnM.ofExcept answer') :=
  ⟨refl, fun holds _ _ similar _ => ⟨same holds, similar⟩⟩

theorem get {next next' : Session → TxnM β} (second : ∀ session session' : Session, session.Alike session' →
      (next session).Tracks alike agree (next' session')) :
    (getThe Session >>= next : TxnM β).Tracks alike agree (getThe Session >>= next') := by
  refine ⟨fun session => (second session session (.refl _)).extending session, ?_⟩
  intro holds session session' similar covered
  exact (second session session' similar).follows holds session session' similar covered

end TxnM.Tracks

structure Reader.Alike (reader other : Reader) (agree : Key → Prop) : Prop where
  total : ∀ key, ∃ answer, reader.get key = .ok answer
  total' : ∀ key, ∃ answer, other.get key = .ok answer
  same : ∀ key, agree key → (reader.get key).map Prod.fst = (other.get key).map Prod.fst
  tableSchema : reader.tableSchema = other.tableSchema

open Reader

namespace Transaction

theorem buffer_exec {reader : Reader} (total : ∀ key, ∃ answer, reader.get key = .ok answer) (key : Key)
    (op : Option Value) (session : Session) : ∃ seen : Session, seen.Alike session ∧
      (buffer reader key op).exec session = if session.txn.finished then
        (.error (.engine "transaction already finished"), session) else (.ok (), seen.buffer key op) := by
  obtain ⟨⟨value, seenTs⟩, found⟩ := total key
  by_cases finished : session.txn.finished = true
  · refine ⟨session, ⟨rfl, rfl⟩, ?_⟩
    simp only [buffer, ensureOpen, exec_bind, exec_get, finished, if_true, exec_throw]
  by_cases known : session.txn.reads.contains key = true
  · refine ⟨session, ⟨rfl, rfl⟩, ?_⟩
    simp only [buffer, ensureOpen, exec_bind, exec_get, finished, Bool.false_eq_true, if_false,
      exec_pure, known, not_true_eq_false, exec_modify]
  · refine ⟨session.observe key seenTs, ⟨rfl, rfl⟩, ?_⟩
    simp only [buffer, ensureOpen, observe, exec_bind, exec_get, finished, Bool.false_eq_true, if_false,
      exec_pure, known, not_false_eq_true, if_true, exec_ofExcept, found, exec_modify]

section Following

variable (reader other : Reader) (agree : Key → Prop)

theorem ensureOpen_tracks (alike : Prop) : ensureOpen.Tracks alike agree ensureOpen := by
  apply Tracks.get
  intro session session' similar
  rw [similar.finished]
  split
  · exact .throw _
  · exact .pure _

theorem observe_tracks (key : Key) :
    (observe reader key).Tracks (reader.Alike other agree) agree (observe other key) where
  extending := by
    apply (Extending.ofExcept _).bind
    exact fun ⟨value, seenTs⟩ session => Session.Extends.observe session key seenTs
  follows alike session session' similar covered := by
    obtain ⟨⟨value, seenTs⟩, found⟩ := alike.total key
    obtain ⟨⟨value', seenTs'⟩, found'⟩ := alike.total' key
    have run : (observe reader key).exec session = (.ok value, session.observe key seenTs) := by
      simp only [observe, exec_bind, exec_ofExcept, found]
      rfl
    have run' : (observe other key).exec session' = (.ok value', session'.observe key seenTs') := by
      simp only [observe, exec_bind, exec_ofExcept, found']
      rfl
    rw [run] at covered ⊢
    rw [run']
    have same := alike.same key (covered key (mem_insertIfNew_self))
    rw [found, found'] at same
    exact ⟨same, similar.writes, similar.finished⟩

theorem get_tracks (key : Key) : (get reader key).Tracks (reader.Alike other agree) agree (get other key) := by
  apply (ensureOpen_tracks agree _).bind
  intro _
  apply Tracks.get
  intro session session' similar
  rw [similar.writes]
  cases session'.txn.writes[key]? with
  | some op => exact .pure op
  | none => exact observe_tracks reader other agree key

theorem buffer_tracks (key : Key) (op : Option Value) :
    (buffer reader key op).Tracks (reader.Alike other agree) agree (buffer other key op) where
  extending := by
    have write : (modifyThe Session (·.buffer key op) : TxnM PUnit).Extending :=
      fun session => Session.Extends.buffer session key op
    apply (ensureOpen_tracks agree True).extending.bind
    intro _
    apply Extending.get.bind
    intro session
    split
    · exact (observe_tracks reader other agree key).extending.bind (fun _ => write)
    · exact write
  follows alike session session' similar _ := by
    obtain ⟨seen, before, run⟩ := buffer_exec alike.total key op session
    obtain ⟨seen', before', run'⟩ := buffer_exec alike.total' key op session'
    rw [run, run', similar.finished]
    split
    · exact ⟨rfl, similar⟩
    · refine ⟨rfl, ?_, (before.trans (similar.trans before'.symm)).finished⟩
      show seen.txn.writes.insert key op = seen'.txn.writes.insert key op
      rw [before.writes, similar.writes, before'.writes]

variable (table : String)

theorem deleteIndexKeys_tracks (old : Record) (pk : String) (indexes : List IndexDef) :
    (deleteIndexKeys reader table old pk indexes).Tracks (reader.Alike other agree) agree
      (deleteIndexKeys other table old pk indexes) := by
  induction indexes with
  | nil => exact .pure ()
  | cons index rest ih =>
    unfold deleteIndexKeys
    split
    · cases old.get index.column with
      | some value => exact (buffer_tracks reader other agree _ none).bind (fun _ => ih)
      | none => exact ih
    · exact ih

theorem putIndexKeys_tracks (record : Record) (pk : String) (indexes : List IndexDef) :
    (putIndexKeys reader table record pk indexes).Tracks (reader.Alike other agree) agree
      (putIndexKeys other table record pk indexes) := by
  induction indexes with
  | nil => exact .pure ()
  | cons index rest ih =>
    unfold putIndexKeys
    cases record.get index.column with
    | none => exact .throw _
    | some value =>
      dsimp only
      split
      · exact (buffer_tracks reader other agree _ _).bind (fun _ => ih)
      · exact ih

theorem putRow_tracks (record : Record) (pk : String) (indexes : List IndexDef) :
    (putRow reader table record pk indexes).Tracks (reader.Alike other agree) agree
      (putRow other table record pk indexes) := by
  have write : ∀ key, (put reader key record.encode >>= fun _ =>
      putIndexKeys reader table record pk indexes).Tracks (reader.Alike other agree) agree
        (put other key record.encode >>= fun _ => putIndexKeys other table record pk indexes) :=
    fun key => (buffer_tracks reader other agree key _).bind
      (fun _ => putIndexKeys_tracks reader other agree table record pk indexes)
  apply (get_tracks reader other agree _).bind
  intro value
  cases value with
  | some value =>
    apply (Tracks.ofExcept (fun _ => rfl)).bind
    intro old
    exact (deleteIndexKeys_tracks reader other agree table old pk indexes).bind (fun _ => write _)
  | none => exact write _

theorem putRecord_tracks (record : Record) :
    (putRecord reader table record).Tracks (reader.Alike other agree) agree (putRecord other table record) := by
  apply (ensureOpen_tracks agree _).bind
  intro _
  apply (Tracks.ofExcept (fun alike => congrFun alike.tableSchema table)).bind
  intro schema
  cases record.get schema.primaryKey with
  | none => exact .throw _
  | some pk => exact putRow_tracks reader other agree table record pk schema.indexes

theorem readRows_extending (keys : List Key) (rows : List Record) : (readRows reader keys rows).Extending := by
  induction keys generalizing rows with
  | nil => exact refl
  | cons key rest ih =>
    apply (get_tracks reader reader (fun _ => True) key).extending.bind
    intro value
    cases value with
    | some value => exact (Extending.ofExcept _).bind (fun record => ih (rows ++ [record]))
    | none => exact ih rows

theorem scanTableRecords_extending : (scanTableRecords reader table).Extending := by
  apply (ensureOpen_tracks (fun _ => True) True).extending.bind
  intro _
  apply (Extending.ofExcept _).bind
  intro _
  apply (Extending.ofExcept _).bind
  intro keys
  apply Extending.get.bind
  exact fun session => readRows_extending reader _ []

end Following

end Transaction

def Reader.value (reader : Reader) (key : Key) : Option Value := (reader.get key).toOption.bind Prod.fst

def Reader.overlaid (reader : Reader) (writes : Std.TreeMap Key (Option Value)) (key : Key) : Option Value :=
  writes[key]?.getD (reader.value key)

theorem Reader.Alike.value {reader other : Reader} {agree : Key → Prop} (alike : reader.Alike other agree) {key : Key}
    (agreed : agree key) : reader.value key = other.value key := by
  have same := alike.same key agreed
  obtain ⟨answer, found⟩ := alike.total key
  obtain ⟨answer', found'⟩ := alike.total' key
  rw [found, found'] at same
  have same : answer.1 = answer'.1 := Except.ok.inj same
  simp only [Reader.value, found, found', Except.toOption, bind_some, same]

namespace Transaction

variable {reader other : Reader} {agree : Key → Prop} {session session' : Session} {dead keys keys' : List Key}

theorem get_exec (total : ∀ key, ∃ answer, reader.get key = .ok answer) (key : Key)
    (unfinished : session.txn.finished = false) : ∃ seen : Session, session.Alike seen ∧
      (session.txn.writes[key]? = none → key ∈ seen.txn.reads) ∧
      (get reader key).exec session = (.ok (reader.overlaid session.txn.writes key), seen) := by
  obtain ⟨⟨value, seenTs⟩, found⟩ := total key
  cases buffered : session.txn.writes[key]? with
  | some op =>
    refine ⟨session, ⟨rfl, rfl⟩, nofun, ?_⟩
    simp only [get, ensureOpen, exec_bind, exec_get, unfinished, Bool.false_eq_true, if_false,
      exec_pure, buffered, Reader.overlaid, getD_some]
  | none =>
    refine ⟨session.observe key seenTs, ⟨rfl, rfl⟩, fun _ => mem_insertIfNew_self, ?_⟩
    simp only [get, ensureOpen, observe, exec_bind, exec_get, unfinished, Bool.false_eq_true, if_false,
      exec_pure, buffered, exec_ofExcept, found, exec_modify, Reader.overlaid, Reader.value,
      getD_none]
    rfl

theorem readRows_skip (total : ∀ key, ∃ answer, reader.get key = .ok answer)
    (unfinished : session.txn.finished = false) (rest : List Key) (rows : List Record)
    (none : ∀ key ∈ dead, reader.overlaid session.txn.writes key = Option.none) : ∃ seen : Session, session.Alike seen ∧
      (readRows reader (dead ++ rest) rows).exec session = (readRows reader rest rows).exec seen := by
  induction dead generalizing session with
  | nil => exact ⟨session, ⟨rfl, rfl⟩, rfl⟩
  | cons key dead ih =>
    obtain ⟨seen, alike, -, run⟩ := get_exec total key unfinished
    rw [none key mem_cons_self] at run
    have later : ∀ key ∈ dead, reader.overlaid seen.txn.writes key = Option.none := by
      rw [← alike.writes]
      exact fun other member => none other (mem_cons_of_mem _ member)
    obtain ⟨last, similar, rest⟩ := ih (alike.finished ▸ unfinished) later
    refine ⟨last, alike.trans similar, ?_⟩
    rw [cons_append, readRows, exec_bind, run]
    exact rest

/-- The loop keeps what it has observed, so both stores agree on its first key. -/
theorem readRows_agreed {key : Key} {rest : List Key} {rows : List Record} (alike : reader.Alike other agree)
    (unfinished : session.txn.finished = false)
    (covered : ∀ read ∈ ((readRows reader (key :: rest) rows).exec session).2.txn.reads, agree read) :
    reader.overlaid session.txn.writes key = other.overlaid session.txn.writes key := by
  obtain ⟨seen, -, observed, run⟩ := get_exec alike.total key unfinished
  cases buffered : session.txn.writes[key]? with
  | some op => simp only [overlaid, buffered, getD_some]
  | none =>
    have kept : key ∈ ((readRows reader (key :: rest) rows).exec session).2.txn.reads := by
      rw [readRows, exec_bind, run]
      cases reader.overlaid session.txn.writes key with
      | none => exact (readRows_extending reader rest rows seen).reads key (observed buffered)
      | some value =>
        have extending : (TxnM.ofExcept (Record.decode value) >>= fun record =>
            readRows reader rest (rows ++ [record])).Extending :=
          (Extending.ofExcept _).bind (fun record => readRows_extending reader rest _)
        exact (extending seen).reads key (observed buffered)
    rw [overlaid, overlaid, buffered]
    exact alike.value (covered key kept)

theorem readRows_follows (alike : reader.Alike other agree) (ascending : keys.Pairwise (· < ·))
    (ascending' : keys'.Pairwise (· < ·)) (rows : List Record)
    (similar : session.Alike session') (unfinished : session.txn.finished = false)
    (known : ∀ key ∈ keys', other.overlaid session.txn.writes key ≠ none → key ∈ keys)
    (known' : ∀ key ∈ keys, other.overlaid session.txn.writes key ≠ none → key ∈ keys')
    (covered : ∀ key ∈ ((readRows reader keys rows).exec session).2.txn.reads, agree key) :
    ((readRows reader keys rows).exec session).1 = ((readRows other keys' rows).exec session').1 ∧
      ((readRows reader keys rows).exec session).2.Alike ((readRows other keys' rows).exec session').2 := by
  have unfinished' : session'.txn.finished = false := similar.finished ▸ unfinished
  induction keys generalizing keys' rows session session' with
  | nil =>
    have dead : ∀ key ∈ keys', other.overlaid session'.txn.writes key = none := by
      intro key member
      by_contra live
      exact absurd (known key member (similar.writes ▸ live)) (by simp)
    obtain ⟨seen, after, run⟩ := readRows_skip alike.total' unfinished' [] rows dead
    rw [append_nil] at run
    rw [run]
    exact ⟨rfl, similar.trans after⟩
  | cons key rest ih =>
    obtain ⟨least, ascendingRest⟩ := pairwise_cons.mp ascending
    obtain ⟨seen, before, -, run⟩ := get_exec alike.total key unfinished
    have unfinishedSeen : seen.txn.finished = false := before.finished ▸ unfinished
    have agreed := readRows_agreed alike unfinished covered
    have later : ∀ other' ∈ keys', other.overlaid session.txn.writes other' ≠ none → other' ≠ key → other' ∈ rest :=
      fun key' member live different => (mem_cons.mp (known key' member live)).resolve_left different
    rw [readRows, exec_bind, run] at covered ⊢
    cases visible : reader.overlaid session.txn.writes key with
    | none =>
      rw [visible] at covered agreed
      have seenSimilar : seen.Alike session' := before.symm.trans similar
      apply ih ascendingRest ascending' rows seenSimilar unfinishedSeen _ _ covered unfinished'
      · rw [← before.writes]
        intro key' member live
        apply later key' member live
        rintro rfl
        exact live agreed.symm
      · rw [← before.writes]
        exact fun key' member => known' key' (mem_cons_of_mem _ member)
    | some value =>
      rw [visible] at covered agreed
      have live : other.overlaid session.txn.writes key ≠ none := by rw [← agreed]; exact some_ne_none value
      obtain ⟨dead, post, rfl⟩ := append_of_mem (known' key mem_cons_self live)
      obtain ⟨-, ascendingPost, across⟩ := pairwise_append.mp ascending'
      obtain ⟨leastPost, ascendingPost⟩ := pairwise_cons.mp ascendingPost
      have none : ∀ key' ∈ dead, other.overlaid session'.txn.writes key' = Option.none := by
        intro key' member
        by_contra live
        rw [← similar.writes] at live
        have less := across key' member key mem_cons_self
        have inside := later key' (mem_append_left _ member) live (ne_of_lt less)
        exact absurd (least key' inside) (lt_asymm less)
      obtain ⟨first, firstAlike, skipped⟩ := readRows_skip alike.total' unfinished' (key :: post) rows none
      have unfinishedFirst : first.txn.finished = false := firstAlike.finished ▸ unfinished'
      obtain ⟨second, secondAlike, -, run'⟩ := get_exec alike.total' key unfinishedFirst
      rw [← firstAlike.writes, ← similar.writes, ← agreed] at run'
      have seenSimilar : seen.Alike second := before.symm.trans (similar.trans (firstAlike.trans secondAlike))
      have there : (readRows other (dead ++ key :: post) rows).exec session' =
          (TxnM.ofExcept (Record.decode value) >>=
            fun record => readRows other post (rows ++ [record])).exec second := by
        rw [skipped, readRows, exec_bind, run']
      rw [there]
      simp only [exec_bind, exec_ofExcept] at covered ⊢
      cases decoded : Record.decode value with
      | error error => exact ⟨rfl, seenSimilar⟩
      | ok record =>
        rw [decoded] at covered
        apply ih ascendingRest ascendingPost _ seenSimilar unfinishedSeen _ _ covered
        · rw [← secondAlike.finished]
          exact unfinishedFirst
        · rw [← before.writes]
          intro key' member live
          apply later key' (mem_append_right _ (mem_cons_of_mem _ member)) live
          exact ne_of_gt (leastPost key' member)
        · rw [← before.writes]
          intro key' member live
          have less := least key' member
          rcases mem_append.mp (known' key' (mem_cons_of_mem _ member) live) with early | late
          · exact absurd less (lt_asymm (across key' early key mem_cons_self))
          · exact (mem_cons.mp late).resolve_left (ne_of_gt less)

section Overlay

variable {start : Bytes} {keys others : List Key} {key : Key}

theorem overlay_other {writes : List (Key × Option Value)} (absent : ∀ write ∈ writes, write.1 ≠ key) :
    key ∈ overlay start writes keys ↔ key ∈ keys := by
  induction writes generalizing keys with
  | nil => exact Iff.rfl
  | cons write writes ih =>
    have different : write.1 ≠ key := absent write mem_cons_self
    rw [overlay, foldl_cons]
    rw [← overlay, ih (fun other member => absent other (mem_cons_of_mem _ member))]
    dsimp only
    split
    · rfl
    · split
      · split
        · rfl
        · simp [Ne.symm different]
      · simp [Ne.symm different]

theorem mem_overlay (writes : Std.TreeMap Key (Option Value)) : key ∈ overlay start writes.toList keys ↔
    match writes[key]? with
    | some op => if key.startsWith start then op.isSome else key ∈ keys
    | none => key ∈ keys := by
  cases buffered : writes[key]? with
  | none =>
    apply overlay_other
    rintro ⟨other, op⟩ member rfl
    rw [mem_toList_iff_getElem?_eq_some, buffered] at member
    cases member
  | some op =>
    obtain ⟨first, last, split⟩ := append_of_mem (mem_toList_iff_getElem?_eq_some.mpr buffered)
    have distinct : (writes.toList.map Prod.fst).Nodup := by
      rw [map_fst_toList_eq_keys]
      exact distinct_keys.imp (fun different same => different (compare_eq_iff_eq.mpr same))
    rw [split, map_append, map_cons] at distinct
    obtain ⟨-, later, across⟩ := nodup_append.mp distinct
    have before : ∀ write ∈ first, write.1 ≠ key :=
      fun write member => across _ (mem_map_of_mem member) _ mem_cons_self
    have after : ∀ write ∈ last, write.1 ≠ key := by
      intro write member same
      exact (nodup_cons.mp later).1 (mem_map.mpr ⟨write, member, same⟩)
    rw [split, overlay, foldl_append, foldl_cons]
    rw [← overlay, ← overlay, overlay_other after]
    have unchanged : key ∈ overlay start first keys ↔ key ∈ keys := overlay_other before
    by_cases inside : key.startsWith start = true
    · cases op with
      | some value =>
        simp only [inside, not_true_eq_false, if_false, isSome_some, if_true, iff_true]
        split
        · assumption
        · exact mem_append_right _ (mem_singleton_self key)
      | none => simp [inside]
    · simp [inside, unchanged]

theorem overlay_transfer {writes : Std.TreeMap Key (Option Value)}
    (inside : key.startsWith start = true) (unbuffered : writes[key]? = none → key ∈ others)
    (member : key ∈ overlay start writes.toList keys) : key ∈ overlay start writes.toList others := by
  rw [mem_overlay] at member ⊢
  cases buffered : writes[key]? with
  | none => exact unbuffered buffered
  | some op =>
    simp only [buffered, inside, if_true] at member ⊢
    exact member

theorem overlay_keeps (writes : List (Key × Option Value)) (distinct : keys.Nodup)
    (under : ∀ key ∈ keys, key.startsWith start = true) : (overlay start writes keys).Nodup ∧
      ∀ key ∈ overlay start writes keys, key.startsWith start = true := by
  induction writes generalizing keys with
  | nil => exact ⟨distinct, under⟩
  | cons write writes ih =>
    rw [overlay, foldl_cons]
    dsimp only
    split
    · exact ih distinct under
    rename_i inside
    split
    · split
      · exact ih distinct under
      rename_i absent
      apply ih
      · exact nodup_append.mpr ⟨distinct, nodup_singleton _,
          fun key member other new same => absent (mem_singleton.mp new ▸ same ▸ member)⟩
      · refine forall_mem_append.mpr ⟨under, forall_mem_singleton.mpr ?_⟩
        simpa using inside
    · exact ih (distinct.filter _) (fun key member => under key (mem_of_mem_filter member))

end Overlay

structure ScanAlike (reader other : Reader) (agree : Key → Prop) (start : Bytes) : Prop where
  scanned : ∃ keys, reader.scanPrefixKeys start = .ok keys ∧ keys.Nodup ∧
    (∀ key ∈ keys, key.startsWith start = true) ∧
    ∀ key, key.startsWith start = true → reader.value key ≠ none → key ∈ keys
  scanned' : ∃ keys, other.scanPrefixKeys start = .ok keys ∧ keys.Nodup ∧
    (∀ key ∈ keys, key.startsWith start = true) ∧
    ∀ key, key.startsWith start = true → other.value key ≠ none → key ∈ keys
  undisputed : ∀ key, key.startsWith start = true → other.value key ≠ none → agree key

theorem ascending_insertionSort (distinct : keys.Nodup) :
    (keys.insertionSort (· ≤ ·)).Pairwise (· < ·) := by
  have sorted := pairwise_insertionSort (· ≤ ·) keys
  have nodup : (keys.insertionSort (· ≤ ·)).Nodup := (perm_insertionSort _ keys).nodup_iff.mpr distinct
  exact (pairwise_and_iff.mpr ⟨sorted, nodup⟩).imp (fun both => lt_of_le_of_ne both.1 both.2)

theorem scanTableRecords_follows (alike : reader.Alike other agree) (table : String)
    (scan : ScanAlike reader other agree (Schema.dataTablePrefix table)) :
    (scanTableRecords reader table).Follows agree (scanTableRecords other table) := by
  obtain ⟨keys, found, distinct, under, live⟩ := scan.scanned
  obtain ⟨keys', found', distinct', under', live'⟩ := scan.scanned'
  intro session session' similar covered
  by_cases finished : session.txn.finished = true
  · have finished' : session'.txn.finished = true := similar.finished ▸ finished
    simp only [scanTableRecords, ensureOpen, exec_bind, exec_get, finished, finished', if_true, exec_throw]
    exact ⟨trivial, similar⟩
  · have finished' : ¬ session'.txn.finished = true := similar.finished ▸ finished
    simp only [scanTableRecords, ensureOpen, exec_bind, exec_get, finished, finished', Bool.false_eq_true,
      if_false, exec_pure, exec_ofExcept, found, found', alike.tableSchema] at covered ⊢
    cases schema : other.tableSchema table with
    | error error => exact ⟨rfl, similar⟩
    | ok schema =>
      simp only [schema] at covered ⊢
      have agreed : ∀ key, key.startsWith (Schema.dataTablePrefix table) = true → other.value key ≠ none →
          reader.value key ≠ none :=
        fun key inside alive => alike.value (scan.undisputed key inside alive) ▸ alive
      have kept := overlay_keeps session.txn.writes.toList distinct under
      have kept' := overlay_keeps session'.txn.writes.toList distinct' under'
      apply readRows_follows alike (ascending_insertionSort kept.1) (ascending_insertionSort kept'.1) [] similar
        (by simpa using finished) _ _ covered
      · intro key member alive
        rw [mem_insertionSort] at member ⊢
        have inside := kept'.2 key member
        rw [← similar.writes] at member
        exact overlay_transfer inside (fun unbuffered => live key inside
          (agreed key inside (by rwa [overlaid, unbuffered] at alive))) member
      · intro key member alive
        rw [mem_insertionSort] at member ⊢
        have inside := kept.2 key member
        rw [← similar.writes]
        exact overlay_transfer inside (fun unbuffered => live' key inside
          (by rwa [overlaid, unbuffered] at alive)) member

theorem perform_tracks (reader other : Reader) (agree : Key → Prop) (op : TxnOp) :
    (perform reader op).Tracks (reader.Alike other agree ∧ ∀ table, op = .scanTableRecords table →
      ScanAlike reader other agree (Schema.dataTablePrefix table)) agree (perform other op) := by
  cases op with
  | get key => exact ((get_tracks reader other agree key).imp And.left).bind (fun _ => .pure _)
  | put key _ | delete key => exact ((buffer_tracks reader other agree key _).imp And.left).bind (fun _ => .pure _)
  | putRecord table record =>
    exact ((putRecord_tracks reader other agree table record).imp And.left).bind (fun _ => .pure _)
  | scanTableRecords table =>
    apply Tracks.bind _ (fun _ => .pure _)
    exact ⟨scanTableRecords_extending reader table,
      fun both => scanTableRecords_follows both.1 table (both.2 table rfl)⟩

theorem perform_extends {session after : Session} (result : (perform reader op).exec session = (reply, after)) :
    session.Extends after := by
  have extended := (perform_tracks reader reader (fun _ => True) op).extending session
  rwa [result] at extended

theorem perform_follows (alike : reader.Alike other agree) (op : TxnOp) (scan : ∀ table,
    op = .scanTableRecords table → ScanAlike reader other agree (Schema.dataTablePrefix table)) :
    (perform reader op).Follows agree (perform other op) :=
  (perform_tracks reader other agree op).follows ⟨alike, scan⟩

end Transaction

end Takyonic
