import Std.Data.TreeMap.Lemmas
import Takyonic.Storage.Schema
import Takyonic.Storage.Store

namespace Takyonic

open Foundation List Std.TreeMap Entry Option

instance Key.lawfulEqCmp : Std.LawfulEqCmp (compare : Key → Key → Ordering) := ⟨fun same => compare_eq_iff_eq.mp same⟩

def Key.startsWith (key : Key) (start : Bytes) : Bool := start.isPrefixOf key.bytes

def visibleVersions (start : Bytes) (readTs : Nat) (stop : Bool) : Option Key → Bool → List Entry → List Entry
  | _, _, [] => []
  | current, resolved, entry :: rest =>
    if ¬ entry.key.startsWith start then
      if stop ∧ (⟨start⟩ : Key) < entry.key then [] else visibleVersions start readTs stop current resolved rest
    else
      let resolved := resolved && decide (current = some entry.key)
      if resolved ∨ readTs < entry.seq then visibleVersions start readTs stop (some entry.key) resolved rest
      else entry :: visibleVersions start readTs stop (some entry.key) true rest

def Memtable.scanPrefixAt (memtable : Memtable) (start : Bytes) (readTs : Nat) : List Entry :=
  (visibleVersions start readTs true none false memtable.entries).filter (¬ ·.tombstone)

open Memtable

def BTreeStorage.scanAt (store : BTreeStorage) (start : Bytes) (readTs : Nat) : List Entry :=
  (visibleVersions start readTs true none false store.entries).filter (¬ ·.tombstone)

def scanEntry (best : Std.TreeMap Key Entry) (entry : Entry) : Std.TreeMap Key Entry :=
  if best[entry.key]?.any (entry.seq ≤ ·.seq) then best
  else if ¬ entry.tombstone then best.insert entry.key entry
  else best.erase entry.key

namespace SstManager

def scanFile (manager : SstManager) (start : Bytes) (readTs level : Nat) (info : SstMeta) : List Entry :=
  if 0 < level ∧ info.largest < ⟨start⟩ then []
  else if 0 < level ∧ ¬ info.smallest.startsWith start ∧ ¬ info.largest.startsWith start ∧ ⟨start⟩ < info.smallest then
    []
  else (manager.pin info.id).elim [] fun file => visibleVersions start readTs false none false file.sst.entries

def scanPrefix (manager : SstManager) (start : Bytes) (readTs : Nat) (best : Std.TreeMap Key Entry) :
    Std.TreeMap Key Entry :=
  manager.readOrder.foldl (fun best (level, info) => (manager.scanFile start readTs level info).foldl scanEntry best)
    best

end SstManager

def Store.scanPrefixKeys (store : Store) (start : Bytes) (readTs : Nat) : List Key :=
  let best := (store.node.memtable.scanPrefixAt start readTs).foldl
    (fun best entry => best.insert entry.key entry) (∅ : Std.TreeMap Key Entry)
  (store.manager.scanPrefix start readTs best).keys

/-- `collect_versions_prefix`: of two versions in one slot the one in the memtable stays, then the first one
    in the order of the files. -/
def Store.collectVersionsPrefix (store : Store) (start : Bytes) : List Entry :=
  let inFiles := store.manager.allFiles.flatMap store.manager.versionsOf
  (store.node.memtable.entries ++ inFiles).foldl
    (fun collected entry => if entry.key.startsWith start then insertVersion false entry collected else collected) []

theorem prefix_of_between {α : Type*} [LinearOrder α] {start first last : List α} (low : start ≤ first)
    (high : first ≤ last) (inside : start <+: last) : start <+: first := by
  rw [← not_lt] at low high
  induction start generalizing first last with
  | nil => exact nil_prefix
  | cons item start ih =>
    cases last with
    | nil => simp at inside
    | cons next last =>
      cases first with
      | nil => exact absurd (nil_lt_cons item start) low
      | cons other first =>
        obtain ⟨rfl, within⟩ := cons_prefix_cons.mp inside
        rw [cons_lt_cons_iff, not_or] at low high
        obtain rfl : item = other := le_antisymm (not_lt.mp low.1) (not_lt.mp high.1)
        apply cons_prefix_cons.mpr
        exact ⟨rfl, ih (fun less => low.2 ⟨rfl, less⟩) (fun less => high.2 ⟨rfl, less⟩) within⟩

namespace Key

variable {start : Bytes} {first last key : Key}

theorem startsWith_iff : key.startsWith start = true ↔ start.map UInt8.toNat <+: key.bytes.map UInt8.toNat := by
  have injective : Function.Injective UInt8.toNat := fun _ _ same => UInt8.toNat.inj same
  rw [startsWith, isPrefixOf_iff_prefix, prefix_map_iff_of_injective injective]

theorem startsWith_of_between (low : (⟨start⟩ : Key) ≤ first) (high : first ≤ last)
    (inside : last.startsWith start = true) : first.startsWith start = true :=
  startsWith_iff.mpr (prefix_of_between low high (startsWith_iff.mp inside))

theorem le_of_startsWith (inside : key.startsWith start = true) : (⟨start⟩ : Key) ≤ key := by
  exact not_lt.mp (startsWith_iff.mp inside).le

end Key

section Visible

variable {start : Bytes} {readTs : Nat} {stop : Bool} {entries : List Entry} {entry : Entry}

/-- Of the versions of one key the first one within the bound is the newest. -/
theorem Ordered.isNewest_cons {first : Entry} {rest : List Entry} {key : Key} (ordered : Ordered (first :: rest)) :
    stamp.IsNewest (first :: rest) key readTs (some entry) ↔
      if first.key = key ∧ first.seq ≤ readTs then entry = first
      else stamp.IsNewest rest key readTs (some entry) := by
  have older : ∀ other ∈ rest, other.key = first.key → other.seq < first.seq := by
    intro other member same
    rcases internalKey_lt.mp ((pairwise_cons.mp ordered).1 other member) with less | ⟨-, older⟩
    · exact absurd same (ne_of_gt less)
    · exact older
  split
  · rename_i here
    obtain ⟨rfl, inside⟩ := here
    constructor
    · rintro ⟨member, ofKey, -, above⟩
      refine (mem_cons.mp member).resolve_right fun member => ?_
      exact absurd (above first mem_cons_self rfl inside) (not_le.mpr (older entry member ofKey))
    · rintro rfl
      refine ⟨mem_cons_self, rfl, inside, fun other member ofKey _ => ?_⟩
      rcases mem_cons.mp member with rfl | member
      · exact le_rfl
      · exact le_of_lt (older other member ofKey)
  · rename_i skipped
    constructor
    · rintro ⟨member, ofKey, inside, above⟩
      refine ⟨?_, ofKey, inside, fun other member => above other (mem_cons_of_mem _ member)⟩
      rcases mem_cons.mp member with rfl | member
      · exact absurd ⟨ofKey, inside⟩ skipped
      · exact member
    · rintro ⟨member, ofKey, inside, above⟩
      refine ⟨mem_cons_of_mem _ member, ofKey, inside, fun other member ofKey' inside' => ?_⟩
      rcases mem_cons.mp member with rfl | member
      · exact absurd ⟨ofKey', inside'⟩ skipped
      · exact above other member ofKey' inside'

theorem mem_visibleVersions_from (ordered : Ordered entries) {current : Option Key} {resolved : Bool}
    (before : ∀ key ∈ current, ∀ entry ∈ entries, key ≤ entry.key) :
    entry ∈ visibleVersions start readTs stop current resolved entries ↔
      entry.key.startsWith start = true ∧ stamp.IsNewest entries entry.key readTs (some entry) ∧
        ¬ (resolved = true ∧ current = some entry.key) := by
  induction entries generalizing current resolved with
  | nil => simp [visibleVersions, Stamp.IsNewest]
  | cons first rest ih =>
    have orderedRest := (pairwise_cons.mp ordered).2
    have later : ∀ key ∈ some first.key, ∀ entry ∈ rest, key ≤ entry.key := by
      rintro key ⟨⟩ entry member
      exact ordered.key_le (mem_cons_of_mem _ member)
    rw [ordered.isNewest_cons]
    unfold visibleVersions
    by_cases under : first.key.startsWith start = true
    · rw [if_neg (by simpa using under)]
      by_cases same : first.key = entry.key
      · rw [same] at under later ⊢
        by_cases seen : resolved = true ∧ current = some entry.key
        · simp [seen, ih orderedRest later]
        · by_cases hidden : readTs < first.seq
          · simp [seen, hidden, not_le.mpr hidden, ih orderedRest later]
          · simp [seen, hidden, not_lt.mp hidden, under, ih orderedRest later]
      · have unseen : stamp.IsNewest rest entry.key readTs (some entry) → current ≠ some entry.key := by
          intro newest found
          have low := before entry.key found first mem_cons_self
          exact same (le_antisymm (ordered.key_le (mem_cons_of_mem _ newest.1)) low)
        have different : entry ≠ first := fun here => same (congrArg key here.symm)
        dsimp only
        split
        all_goals
          simp only [mem_cons, different, false_or, ih orderedRest later, some.injEq, same, and_false, not_false_eq_true, and_true]
          exact and_congr_right fun _ => (and_iff_left_of_imp fun newest seen => unseen newest seen.2).symm
    · rw [if_pos (by simpa using under)]
      have other : entry.key.startsWith start = true → first.key ≠ entry.key := fun inside same => under (same ▸ inside)
      split
      · rename_i behind
        simp only [not_mem_nil, false_iff, not_and]
        intro inside newest
        rw [if_neg (fun here => other inside here.1)] at newest
        have low := ordered.key_le (mem_cons_of_mem _ newest.1)
        exact absurd (Key.startsWith_of_between (le_of_lt behind.2) low inside) under
      · rw [ih orderedRest (fun key found entry member => before key found entry (mem_cons_of_mem _ member))]
        apply and_congr_right
        intro inside
        rw [if_neg (fun here => other inside here.1)]

theorem mem_visibleVersions (stop : Bool) (ordered : Ordered entries) :
    entry ∈ visibleVersions start readTs stop none false entries ↔
      entry.key.startsWith start = true ∧ stamp.IsNewest entries entry.key readTs (some entry) := by
  rw [mem_visibleVersions_from ordered (fun key found => by cases found)]
  simp

theorem visibleVersions_sublist (entries : List Entry) (current : Option Key) (resolved : Bool) :
    (visibleVersions start readTs stop current resolved entries).Sublist entries := by
  induction entries generalizing current resolved with
  | nil => exact List.Sublist.refl _
  | cons first rest ih =>
    unfold visibleVersions
    dsimp only
    split
    · split
      · exact nil_sublist _
      · exact (ih _ _).cons first
    · split
      · exact (ih _ _).cons first
      · exact (ih _ _).cons_cons first

theorem visibleVersions_ascending (ordered : Ordered entries) :
    (visibleVersions start readTs stop none false entries).Pairwise (fun first second => first.key < second.key) := by
  apply (ordered.sublist (visibleVersions_sublist entries none false)).imp_of_mem
  intro first second inFirst inSecond before
  rcases internalKey_lt.mp before with less | ⟨same, older⟩
  · exact less
  · obtain ⟨-, member, -, inside, -⟩ := (mem_visibleVersions stop ordered).mp inFirst
    obtain ⟨-, -, -, -, above⟩ := (mem_visibleVersions stop ordered).mp inSecond
    exact absurd (above first member same inside) (not_le.mpr older)

end Visible

structure Scanned (versions : List Entry) (start : Bytes) (readTs : Nat) (keys : List Key) : Prop where
  ascending : keys.Pairwise (· < ·)
  under : ∀ key ∈ keys, key.startsWith start = true ∧ ∃ version ∈ versions,
    version.key = key ∧ version.seq ≤ readTs ∧ version.tombstone = false
  live : ∀ version, stamp.IsNewest versions version.key readTs (some version) → version.tombstone = false →
    version.key.startsWith start = true → version.key ∈ keys

theorem BTreeStorage.scanAt_scanned (store : BTreeStorage) (start : Bytes) (readTs : Nat) :
    Scanned store.entries start readTs ((store.scanAt start readTs).map key) := by
  have found : ∀ version, version ∈ store.scanAt start readTs ↔ (version.key.startsWith start = true ∧
      stamp.IsNewest store.entries version.key readTs (some version)) ∧ version.tombstone = false := by
    intro version
    rw [scanAt, mem_filter, mem_visibleVersions true store.ordered]
    simp
  refine ⟨?_, fun key member => ?_, fun version newest alive inside => ?_⟩
  · apply pairwise_map.mpr
    exact (visibleVersions_ascending store.ordered).sublist filter_sublist
  · obtain ⟨version, inScan, rfl⟩ := mem_map.mp member
    obtain ⟨⟨inside, newest⟩, alive⟩ := (found version).mp inScan
    exact ⟨inside, version, newest.1, rfl, newest.2.2.1, alive⟩
  · exact mem_map_of_mem ((found version).mpr ⟨⟨inside, newest⟩, alive⟩)

section Files

variable {top entry : Entry} {best : Std.TreeMap Key Entry} {entries : List Entry} {key : Key}

theorem scanEntry_getElem? (best : Std.TreeMap Key Entry) (entry : Entry) (key : Key) : (scanEntry best entry)[key]? =
    if entry.key = key ∧ ¬ best[entry.key]?.any (entry.seq ≤ ·.seq) then
      if entry.tombstone then none else some entry
    else best[key]? := by
  unfold scanEntry
  by_cases same : entry.key = key
  · subst same
    by_cases older : best[entry.key]?.any (entry.seq ≤ ·.seq) = true
    · simp [older]
    · by_cases dead : entry.tombstone = true
      · simp [older, dead]
      · simp [older, dead]
  · have elsewhere : ¬ (entry.key = key ∧ ¬ best[entry.key]?.any (entry.seq ≤ ·.seq)) := fun here => same here.1
    split
    · rfl
    · split
      · rw [Std.TreeMap.getElem?_insert, if_neg (fun here => same (compare_eq_iff_eq.mp here))]
      · rw [getElem?_erase, if_neg (fun here => same (compare_eq_iff_eq.mp here))]

def Bounded (top entry : Entry) : Prop :=
  entry.key = top.key → entry.seq ≤ top.seq ∧ (entry.seq = top.seq → entry = top)

theorem scanEntries_keep (alive : top.tombstone = false) (bounded : ∀ entry ∈ entries, Bounded top entry)
    (below : ∀ found, best[top.key]? = some found → found.key = top.key ∧ Bounded top found) :
    (∀ found, (entries.foldl scanEntry best)[top.key]? = some found → found.key = top.key ∧ Bounded top found) ∧
      (best[top.key]? = some top ∨ top ∈ entries → (entries.foldl scanEntry best)[top.key]? = some top) := by
  induction entries generalizing best with
  | nil => exact ⟨below, fun found => found.resolve_right (by simp)⟩
  | cons first rest ih =>
    have bound := bounded first mem_cons_self
    have step : ∀ found, (scanEntry best first)[top.key]? = some found → found.key = top.key ∧ Bounded top found := by
      intro found same
      rw [scanEntry_getElem?] at same
      split at same
      · rename_i here
        split at same
        · cases same
        · obtain rfl := some.inj same
          exact ⟨here.1, bound⟩
      · exact below found same
    have kept : best[top.key]? = some top ∨ top = first → (scanEntry best first)[top.key]? = some top := by
      intro found
      rw [scanEntry_getElem?]
      split
      · rename_i here
        rcases found with stored | rfl
        · have older := (bound here.1).1
          rw [here.1, stored] at here
          simp [older] at here
        · rw [alive]
          rfl
      · rename_i skipped
        rcases found with stored | rfl
        · exact stored
        · have older : best[top.key]?.any (top.seq ≤ ·.seq) = true := by
            by_contra newer
            exact skipped ⟨rfl, newer⟩
          obtain ⟨found, stored, le⟩ := (any_eq_true _ _).mp older
          obtain ⟨ofKey, bound⟩ := below found stored
          have same := (bound ofKey).2 (le_antisymm (bound ofKey).1 (of_decide_eq_true le))
          rw [stored, same]
    obtain ⟨after, last⟩ := ih (fun entry member => bounded entry (mem_cons_of_mem _ member)) step
    refine ⟨after, fun found => last ?_⟩
    rcases found with stored | member
    · exact .inl (kept (.inl stored))
    · exact (mem_cons.mp member).imp (fun here => kept (.inr here)) id

theorem scanEntries_found {P : Entry → Prop} (each : ∀ entry ∈ entries, P entry)
    (before : ∀ key found, best[key]? = some found → found.key = key ∧ P found ∧ found.tombstone = false)
    {found : Entry} (stored : (entries.foldl scanEntry best)[key]? = some found) :
    found.key = key ∧ P found ∧ found.tombstone = false := by
  induction entries generalizing best with
  | nil => exact before key found stored
  | cons first rest ih =>
    apply ih (fun entry member => each entry (mem_cons_of_mem _ member)) _ stored
    intro key found same
    rw [scanEntry_getElem?] at same
    split at same
    · rename_i here
      split at same
      · cases same
      · rename_i alive
        obtain rfl := some.inj same
        exact ⟨here.1, each _ mem_cons_self, by simpa using alive⟩
    · exact before key found same

theorem insertEntries_getElem? :
    (entries.foldl (fun best entry => best.insert entry.key entry) best)[key]? =
      (entries.reverse.find? (·.key = key)).or best[key]? := by
  induction entries generalizing best with
  | nil => simp
  | cons first rest ih =>
    rw [foldl_cons, ih, reverse_cons, List.find?_append, Std.TreeMap.getElem?_insert]
    by_cases same : first.key = key
    · simp [same]
    · simp [same]

end Files

namespace SstManager

variable {manager : SstManager} {pending : List SstMeta} {promised : List SstId} {start : Bytes} {readTs : Nat}
  {entry : Entry} {info : SstMeta} {level : Nat}

theorem scanPrefix_eq (manager : SstManager) (start : Bytes) (readTs : Nat) (best : Std.TreeMap Key Entry) :
    manager.scanPrefix start readTs best =
      (manager.readOrder.flatMap fun place => manager.scanFile start readTs place.1 place.2).foldl scanEntry best := by
  rw [scanPrefix, foldl_flatMap]

theorem mem_scanFile {file : SstFile} (pinned : manager.pin info.id = some file) (same : file.info = info) :
    entry ∈ manager.scanFile start readTs level info ↔
      entry.key.startsWith start = true ∧ stamp.IsNewest file.sst.entries entry.key readTs (some entry) := by
  subst same
  have out : ∀ member : entry ∈ file.sst.entries, entry.key.startsWith start = true →
      ¬ file.info.largest < ⟨start⟩ ∧
        (file.info.smallest.startsWith start = true ∨ ¬ ⟨start⟩ < file.info.smallest) := by
    intro member inside
    constructor
    · intro behind
      exact absurd (le_trans (Key.le_of_startsWith inside) (file.sst.le_largest member)) (not_le_of_gt behind)
    · by_contra neither
      obtain ⟨outside, before⟩ := not_or.mp neither
      have before := le_of_lt (not_not.mp before)
      exact outside (Key.startsWith_of_between before (file.sst.smallest_le member) inside)
  unfold scanFile
  split
  · rename_i behind
    constructor
    · intro member
      cases member
    · exact fun found => absurd behind.2 (out found.2.1 found.1).1
  · split
    · rename_i outside
      constructor
      · intro member
        cases member
      · intro found
        rcases (out found.2.1 found.1).2 with begins | early
        · exact absurd begins outside.2.1
        · exact absurd outside.2.2.2 early
    · rw [pinned]
      exact mem_visibleVersions false file.sst.ordered

variable (catalogued : manager.Catalogued pending promised)
include catalogued

theorem Catalogued.placed_pin (member : (level, info) ∈ manager.readOrder) :
    ∃ file, manager.pin info.id = some file ∧ file.info = info ∧ file.sst.entries ⊆ manager.contents := by
  obtain ⟨inside, member⟩ := mem_readOrder.mp member
  have inCatalog : info ∈ manager.allFiles := mem_flatMap.mpr ⟨level, mem_range.mpr inside, member⟩
  obtain ⟨file, pinned, active, same⟩ := catalogued.pinned (mem_append_left pending inCatalog)
  refine ⟨file, pinned, same, fun entry found => ?_⟩
  exact catalogued.mem_contents.mpr ⟨file, active, same ▸ inCatalog, found⟩

theorem Catalogued.mem_scanned
    (member : entry ∈ manager.readOrder.flatMap fun place => manager.scanFile start readTs place.1 place.2) :
    entry ∈ manager.contents ∧ entry.key.startsWith start = true ∧ entry.seq ≤ readTs := by
  obtain ⟨⟨level, info⟩, inOrder, found⟩ := mem_flatMap.mp member
  obtain ⟨file, pinned, same, inContents⟩ := catalogued.placed_pin inOrder
  obtain ⟨under, inFile, -, inside, -⟩ := (mem_scanFile pinned same).mp found
  exact ⟨inContents inFile, under, inside⟩

theorem Catalogued.newest_scanned (under : entry.key.startsWith start = true)
    (newest : stamp.IsNewest manager.contents entry.key readTs (some entry)) :
    entry ∈ manager.readOrder.flatMap fun place => manager.scanFile start readTs place.1 place.2 := by
  obtain ⟨member, -, inside, above⟩ := newest
  obtain ⟨file, active, inCatalog, found⟩ := catalogued.mem_contents.mp member
  obtain ⟨level, inRange, inLevel⟩ := mem_flatMap.mp inCatalog
  have inOrder : (level, file.info) ∈ manager.readOrder := mem_readOrder.mpr ⟨mem_range.mp inRange, inLevel⟩
  have pinned : manager.pin file.info.id = some file := (pin_eq_some catalogued.distinct).mpr ⟨active, rfl⟩
  refine mem_flatMap.mpr ⟨_, inOrder, (mem_scanFile pinned rfl).mpr ⟨under, found, rfl, inside, ?_⟩⟩
  intro other inFile
  exact above other (catalogued.mem_contents.mpr ⟨file, active, inCatalog, inFile⟩)

end SstManager

variable {readTs : Nat} {entry : Entry}

theorem isNewest_part {versions part : List Entry} {key : Key}
    (newest : stamp.IsNewest versions key readTs (some entry)) (subset : part ⊆ versions)
    (member : entry ∈ part) : stamp.IsNewest part key readTs (some entry) :=
  ⟨member, newest.2.1, newest.2.2.1, fun other inPart => newest.2.2.2 other (subset inPart)⟩

theorem Memtable.mem_scanPrefixAt {memtable : Memtable} {start : Bytes} :
    entry ∈ memtable.scanPrefixAt start readTs ↔ (entry.key.startsWith start = true ∧
      stamp.IsNewest memtable.entries entry.key readTs (some entry)) ∧ entry.tombstone = false := by
  rw [scanPrefixAt, mem_filter, mem_visibleVersions true memtable.ordered]
  simp

theorem Store.scanPrefixKeys_scanned {store : Store} {pending : List SstMeta} {promised : List SstId}
    (catalogued : store.manager.Catalogued pending promised)
    (determined : stamp.Determined (store.node.memtable.entries ++ store.manager.contents))
    (start : Bytes) (readTs : Nat) :
    Scanned (store.node.memtable.entries ++ store.manager.contents) start readTs
      (store.scanPrefixKeys start readTs) := by
  unfold Store.scanPrefixKeys
  dsimp only
  rw [SstManager.scanPrefix_eq]
  generalize initial : (store.node.memtable.scanPrefixAt start readTs).foldl
    (fun best entry => best.insert entry.key entry) (∅ : Std.TreeMap Key Entry) = best
  have started : ∀ key found, best[key]? = some found →
      found ∈ store.node.memtable.scanPrefixAt start readTs ∧ found.key = key := by
    intro key found stored
    rw [← initial, insertEntries_getElem?] at stored
    simp only [getElem?_emptyc, or_none] at stored
    exact ⟨mem_reverse.mp (mem_of_find?_eq_some stored), by simpa using List.find?_some stored⟩
  refine ⟨?_, fun key member => ?_, fun version newest alive inside => ?_⟩
  · exact ordered_keys.imp (fun less => compare_lt_iff_lt.mp less)
  · have inBest := mem_iff_isSome_getElem?.mp (mem_keys.mp member)
    obtain ⟨found, stored⟩ := isSome_iff_exists.mp inBest
    have before : ∀ key found, best[key]? = some found → found.key = key ∧
        (found ∈ store.node.memtable.entries ++ store.manager.contents ∧ found.key.startsWith start = true ∧
          found.seq ≤ readTs) ∧ found.tombstone = false := by
      intro key found stored
      obtain ⟨inScan, ofKey⟩ := started key found stored
      obtain ⟨⟨under, inMemtable, -, inside, -⟩, alive⟩ := mem_scanPrefixAt.mp inScan
      exact ⟨ofKey, ⟨mem_append_left _ inMemtable, under, inside⟩, alive⟩
    obtain ⟨rfl, ⟨inside, under, visible⟩, alive⟩ := scanEntries_found (fun entry member =>
      (catalogued.mem_scanned member).imp_left (mem_append_right _)) before stored
    exact ⟨under, found, inside, rfl, visible, alive⟩
  · have bounded : ∀ entry ∈ store.node.memtable.entries ++ store.manager.contents, entry.seq ≤ readTs →
        Bounded version entry := by
      intro entry member visible ofKey
      exact ⟨newest.2.2.2 entry member ofKey visible,
        fun same => determined entry member version newest.1 ofKey same⟩
    have inFiles : ∀ entry ∈ store.manager.readOrder.flatMap
        (fun place => store.manager.scanFile start readTs place.1 place.2), Bounded version entry := by
      intro entry member
      obtain ⟨inContents, -, visible⟩ := catalogued.mem_scanned member
      exact bounded entry (mem_append_right _ inContents) visible
    have inBest : ∀ found, best[version.key]? = some found → found.key = version.key ∧ Bounded version found := by
      intro found stored
      obtain ⟨inScan, ofKey⟩ := started _ found stored
      obtain ⟨⟨-, inMemtable, -, visible, -⟩, -⟩ := mem_scanPrefixAt.mp inScan
      exact ⟨ofKey, bounded found (mem_append_left _ inMemtable) visible⟩
    apply Std.TreeMap.mem_keys.mpr
    apply mem_iff_isSome_getElem?.mpr
    rw [(scanEntries_keep alive inFiles inBest).2 _]
    · rfl
    · rcases mem_append.mp newest.1 with inMemtable | inFiles
      · left
        have here := isNewest_part newest (subset_append_left _ _) inMemtable
        have inScan := mem_scanPrefixAt.mpr ⟨⟨inside, here⟩, alive⟩
        have stored : best[version.key]?.isSome := by
          rw [← initial, insertEntries_getElem?]
          simp only [getElem?_emptyc, or_none]
          apply List.find?_isSome.mpr
          exact ⟨version, mem_reverse.mpr inScan, by simp⟩
        obtain ⟨found, stored⟩ := isSome_iff_exists.mp stored
        obtain ⟨inScan', ofKey⟩ := started _ found stored
        obtain ⟨⟨-, newest'⟩, -⟩ := mem_scanPrefixAt.mp inScan'
        rw [ofKey] at newest'
        rw [stored]
        exact newest'.unique (determined.subset (subset_append_left _ _)) here
      · right
        exact catalogued.newest_scanned inside (isNewest_part newest (subset_append_right _ _) inFiles)

end Takyonic
