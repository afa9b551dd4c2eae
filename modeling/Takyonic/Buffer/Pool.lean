import Takyonic.Foundation.Trace
import Takyonic.Types

namespace Takyonic

open Foundation Function

def invalidPageId : Nat := 2 ^ 64 - 1

/-- A page frame. `pinCount` is an unsigned number of 32 bits. -/
structure Page where
  pageId : Nat
  data : Bytes
  pinCount : Nat
  dirty : Bool
  deriving DecidableEq, Repr

namespace Page

def zeros (pageSize : Nat) : Bytes := List.replicate pageSize 0

def newAligned (pageSize : Nat) : Page := ⟨invalidPageId, zeros pageSize, 0, false⟩

def reset (page : Page) : Page := ⟨invalidPageId, zeros page.data.length, 0, false⟩

def isOccupied (page : Page) : Bool := page.pageId ≠ invalidPageId

def pin (page : Page) : Page := { page with pinCount := min (page.pinCount + 1) (2 ^ 32 - 1) }

end Page

def isFileCachePage (pageId : Nat) : Bool := pageId ≠ invalidPageId ∧ pageId / 2 ^ 32 ≠ 0

structure DiskManager where
  pageSize : Nat
  file : SparseFile UInt8
  nextPageId : Nat
  files : Nat → Option (SparseFile UInt8)

namespace DiskManager

def openLocal (file : SparseFile UInt8) (pageSize : Nat) : Except TakyonicError DiskManager :=
  if pageSize = 0 ∨ ¬ pageSize.isPowerOfTwo then
    .error (.config "disk manager page_size must be a non-zero power of two")
  else .ok ⟨pageSize, file, min (file.length / pageSize) (2 ^ 32 - 1), fun _ => none⟩

variable (disk : DiskManager)

def allocatePage : Nat × DiskManager :=
  (disk.nextPageId, { disk with nextPageId := (disk.nextPageId + 1) % 2 ^ 64 })

def readRegisteredPage (fileId pageIndex : Nat) (page : Page) : Except TakyonicError Page :=
  match disk.files fileId with
  | none => .error (.engine s!"unknown disk file id {fileId}")
  | some file =>
    let offset := pageIndex * disk.pageSize
    let count := min (file.length - offset) disk.pageSize
    let data := file.read offset count ++ Page.zeros (disk.pageSize - count)
    .ok { page with pageId := fileId * 2 ^ 32 + pageIndex, data, dirty := false }

def readPage (pageId : Nat) (page : Page) : Except TakyonicError Page :=
  if page.data.length ≠ disk.pageSize then .error (.engine "page frame size mismatch for disk read")
  else if isFileCachePage pageId then disk.readRegisteredPage (pageId / 2 ^ 32) (pageId % 2 ^ 32) page
  else if 2 ^ 64 ≤ pageId * disk.pageSize then .error (.engine "page offset overflow")
  else
    let offset := pageId * disk.pageSize
    if offset + disk.pageSize ≤ disk.file.length then
      .ok { page with pageId, data := disk.file.read offset disk.pageSize, dirty := false }
    else .ok { page with pageId, data := Page.zeros disk.pageSize, dirty := false }

def writePageLocal (pageId : Nat) (data : Bytes) : Except TakyonicError DiskManager :=
  if 2 ^ 64 ≤ pageId * disk.pageSize then .error (.engine "page offset overflow")
  else
    let offset := pageId * disk.pageSize
    let need := offset + disk.pageSize
    let file := if disk.file.length < need then
        disk.file.setLen 0 ((need + disk.pageSize - 1) / disk.pageSize * disk.pageSize)
      else disk.file
    .ok { disk with file := file.write offset data }

/-- `write_page_snapshots_coalesced` without a remote tier. What was written before a refused page stays. -/
def writePageSnapshots (disk : DiskManager) : List (Nat × Bytes) → DiskManager × Except TakyonicError Unit
  | [] => (disk, .ok ())
  | (pageId, data) :: rest =>
    if pageId = invalidPageId then (disk, .error (.engine "cannot write invalid page id"))
    else if isFileCachePage pageId then disk.writePageSnapshots rest
    else if data.length ≠ disk.pageSize then (disk, .error (.engine "page frame size mismatch for disk write"))
    else match disk.writePageLocal pageId data with
      | .error error => (disk, .error error)
      | .ok disk => disk.writePageSnapshots rest

def writePage (page : Page) : DiskManager × Except TakyonicError Unit :=
  if page.data.length ≠ disk.pageSize then (disk, .error (.engine "page frame size mismatch for disk write"))
  else disk.writePageSnapshots [(page.pageId, page.data)]

end DiskManager

structure Frame where
  page : Page
  history : List Nat
  deriving DecidableEq, Repr

structure BufferPoolManager where
  disk : DiskManager
  k : Nat
  frames : List Frame
  pageTable : Nat → Option Nat
  freeList : List Nat
  clock : Nat

structure PageGuard where
  pageId : Nat
  frame : Nat
  deriving DecidableEq, Repr

namespace BufferPoolManager

def new (disk : DiskManager) (poolSize k : Nat) : Except TakyonicError BufferPoolManager :=
  if poolSize = 0 then .error (.config "buffer pool size must be > 0")
  else if k = 0 then .error (.config "LRU-K k must be > 0")
  else .ok ⟨disk, k, List.replicate poolSize ⟨Page.newAligned disk.pageSize, []⟩, fun _ => none,
    List.range poolSize, 1⟩

variable (pool : BufferPoolManager)

def frameAt (index : Nat) : Frame := pool.frames.getD index ⟨Page.newAligned pool.disk.pageSize, []⟩

def setFrame (index : Nat) (frame : Frame) : BufferPoolManager := { pool with frames := pool.frames.set index frame }

def remember (pageId frame : Nat) : BufferPoolManager :=
  { pool with pageTable := update pool.pageTable pageId (some frame) }

def forget (pageId : Nat) : BufferPoolManager :=
  { pool with pageTable := update pool.pageTable pageId none }

/-- The frame after `record_access`, and the clock. -/
def recordAccess (index : Nat) (frame : Frame) : BufferPoolManager :=
  let kept := if frame.history.length = pool.k then frame.history.drop 1 else frame.history
  { pool with
    frames := pool.frames.set index { frame with history := kept ++ [pool.clock] }
    clock := (pool.clock + 1) % 2 ^ 64 }

def claim (index : Nat) (page : Page) : BufferPoolManager := pool.setFrame index ⟨{ page with pinCount := 1 }, []⟩

def popFree : List Nat → Option Nat × List Nat
  | [] => (none, [])
  | index :: rest =>
    let page := (pool.frameAt index).page
    if page.pinCount = 0 ∧ ¬ page.isOccupied then (some index, rest) else popFree rest

def backwardKDistance (history : List Nat) (k now : Nat) : Nat :=
  match history with
  | [] => 2 ^ 64 - 1
  | oldest :: _ => if history.length < k then 2 ^ 64 - 1 else now - oldest

inductive Victim where
  | free (index : Nat)
  | best (found : Option (Nat × Nat))
  deriving DecidableEq, Repr

def findVictim (k now : Nat) : Nat → Option (Nat × Nat) → List Frame → Victim
  | _, best, [] => .best best
  | index, best, frame :: rest =>
    if 0 < frame.page.pinCount then findVictim k now (index + 1) best rest
    else if ¬ frame.page.isOccupied then .free index
    else
      let distance := backwardKDistance frame.history k now
      let replace := match best with
        | some (_, old) => decide (old < distance)
        | none => true
      findVictim k now (index + 1) (if replace then some (index, distance) else best) rest

def evictVictim : BufferPoolManager × Except TakyonicError Nat :=
  match findVictim pool.k pool.clock 0 none pool.frames with
  | .free index => (pool.claim index (pool.frameAt index).page, .ok index)
  | .best none => (pool, .error (.engine "buffer pool exhausted: all pages are pinned"))
  | .best (some (victim, _)) =>
    let page := (pool.frameAt victim).page
    let pool := if page.pageId ≠ invalidPageId then pool.forget page.pageId else pool
    if page.dirty ∧ ¬ isFileCachePage page.pageId then
      match pool.disk.writePage page with
      | (disk, .error error) => ({ pool with disk }, .error error)
      | (disk, .ok ()) => ({ pool with disk }.claim victim page.reset, .ok victim)
    else (pool.claim victim page.reset, .ok victim)

def allocateFrame : BufferPoolManager × Except TakyonicError Nat :=
  match pool.popFree pool.freeList with
  | (some index, freeList) => ({ pool with freeList }.claim index (pool.frameAt index).page, .ok index)
  | (none, freeList) => { pool with freeList }.evictVictim

/-- One turn of the loop of `fetch_page`: an answer, or the pool to try again with. -/
def fetchTurn (pageId : Nat) : BufferPoolManager × Option (Except TakyonicError PageGuard) :=
  match pool.pageTable pageId with
  | some index =>
    let frame := pool.frameAt index
    if frame.page.pageId ≠ pageId then (pool.forget pageId, none)
    else (pool.recordAccess index { frame with page := frame.page.pin }, some (.ok ⟨pageId, index⟩))
  | none =>
    match pool.allocateFrame with
    | (pool, .error error) => (pool, some (.error error))
    | (pool, .ok index) =>
      match pool.disk.readPage pageId (pool.frameAt index).page with
      | .error error => (pool, some (.error error))
      | .ok page =>
        let pool := pool.recordAccess index ⟨{ page with pinCount := 1, dirty := false }, []⟩
        if (pool.pageTable pageId).isSome then
          ({ pool.setFrame index ⟨page.reset, []⟩ with freeList := pool.freeList ++ [index] }, none)
        else (pool.remember pageId index, some (.ok ⟨pageId, index⟩))

def fetchLoop : Nat → BufferPoolManager → Nat → BufferPoolManager × Option (Except TakyonicError PageGuard)
  | 0, pool, _ => (pool, none)
  | turns + 1, pool, pageId =>
    match pool.fetchTurn pageId with
    | (pool, none) => fetchLoop turns pool pageId
    | answered => answered

/-- `fetch_page` for at most `turns` turns of its loop. -/
def fetchPage (turns pageId : Nat) : BufferPoolManager × Option (Except TakyonicError PageGuard) :=
  if pageId = invalidPageId then (pool, some (.error (.engine "cannot fetch invalid page id")))
  else fetchLoop turns pool pageId

def newPage : BufferPoolManager × Except TakyonicError PageGuard :=
  let (pageId, disk) := pool.disk.allocatePage
  match { pool with disk }.allocateFrame with
  | (pool, .error error) => (pool, .error error)
  | (pool, .ok index) =>
    let page := { (pool.frameAt index).page.reset with pageId, pinCount := 1, dirty := true }
    ((pool.recordAccess index ⟨page, []⟩).remember pageId index, .ok ⟨pageId, index⟩)

def unpin (pageId : Nat) : BufferPoolManager × Except TakyonicError Unit :=
  match pool.pageTable pageId with
  | none => (pool, .error (.engine s!"unpin: page {pageId} not in buffer pool"))
  | some index =>
    let frame := pool.frameAt index
    if frame.page.pageId ≠ pageId then (pool, .error (.engine "buffer pool page table desync"))
    else if frame.page.pinCount = 0 then
      (pool, .error (.engine s!"unpin: page {pageId} already has pin_count 0"))
    else (pool.setFrame index { frame with page := { frame.page with pinCount := frame.page.pinCount - 1 } }, .ok ())

def markDirty (pageId : Nat) : BufferPoolManager :=
  match pool.pageTable pageId with
  | none => pool
  | some index =>
    let frame := pool.frameAt index
    if frame.page.pageId = pageId then
      pool.setFrame index { frame with page := { frame.page with dirty := true } }
    else pool

def flushAll : BufferPoolManager × Except TakyonicError Unit :=
  let snaps := (pool.frames.filter fun frame => frame.page.isOccupied ∧ frame.page.dirty).map fun frame =>
    (frame.page.pageId, frame.page.data)
  match pool.disk.writePageSnapshots snaps with
  | (disk, .error error) => ({ pool with disk }, .error error)
  | (disk, .ok ()) =>
    ({ pool with
      disk
      frames := pool.frames.map fun frame => { frame with page := { frame.page with dirty := false } } }, .ok ())

def flushPage (pageId : Nat) : BufferPoolManager × Except TakyonicError Unit :=
  match pool.pageTable pageId with
  | none => (pool, .ok ())
  | some index =>
    let frame := pool.frameAt index
    if frame.page.pageId ≠ pageId ∨ ¬ frame.page.dirty then (pool, .ok ())
    else match pool.disk.writePage frame.page with
      | (disk, .error error) => ({ pool with disk }, .error error)
      | (disk, .ok ()) =>
        ({ pool with disk }.setFrame index { frame with page := { frame.page with dirty := false } }, .ok ())

def mutate (change : Bytes → Bytes) (data : Bytes) : Bytes :=
  (change data).take data.length ++ data.drop (change data).length

def guardWrite (guard : PageGuard) (change : Bytes → Bytes) : BufferPoolManager :=
  let pool := pool.markDirty guard.pageId
  let frame := pool.frameAt guard.frame
  pool.setFrame guard.frame { frame with page := { frame.page with data := mutate change frame.page.data } }

def guardRead (guard : PageGuard) : Bytes := (pool.frameAt guard.frame).page.data

end BufferPoolManager

structure PoolSession where
  pool : BufferPoolManager
  guards : List PageGuard
  written : Nat → Option Bytes

inductive PoolOp where
  | newPage
  | fetchPage (pageId : Nat)
  | write (index : Nat) (change : Bytes → Bytes)
  | drop (index : Nat)
  | flushPage (pageId : Nat)
  | flushAll

namespace PoolSession

def start (pool : BufferPoolManager) : PoolSession := ⟨pool, [], fun _ => none⟩

/-- The turns of the loop of `fetch_page` that a run allows for. -/
def fetchTurns : Nat := 2

def step (session : PoolSession) : PoolOp → PoolSession
  | .newPage =>
    match session.pool.newPage with
    | (pool, .error _) => { session with pool }
    | (pool, .ok guard) =>
      ⟨pool, session.guards ++ [guard], update session.written guard.pageId (some (Page.zeros pool.disk.pageSize))⟩
  | .fetchPage pageId =>
    match session.pool.fetchPage fetchTurns pageId with
    | (pool, some (.ok guard)) => { session with pool, guards := session.guards ++ [guard] }
    | (pool, _) => { session with pool }
  | .write index change =>
    match session.guards[index]? with
    | none => session
    | some guard =>
      { session with
        pool := session.pool.guardWrite guard change
        written := update session.written guard.pageId
          ((session.written guard.pageId).map (BufferPoolManager.mutate change)) }
  | .drop index =>
    match session.guards[index]? with
    | none => session
    | some guard =>
      { session with pool := (session.pool.unpin guard.pageId).1, guards := session.guards.eraseIdx index }
  | .flushPage pageId => { session with pool := (session.pool.flushPage pageId).1 }
  | .flushAll => { session with pool := session.pool.flushAll.1 }

end PoolSession

end Takyonic
