/-
# `Muduo.MemPool.Model` — mem_pool.h, mem_pool.cpp

A `mem_pool` serves requests of up to `kMax_Bytes` from one free list per size
class and from a reserve `[begin_free, end_free)`; larger ones go to
`master_alloc`.  The links of the free lists lie in the free nodes themselves,
so the model has the memory: `mem p` is the pointer stored at `p`
(`obj::next`), and what a client writes into its block goes to the same memory.

What the system answers to a request for memory is an argument (`Answer`): also to that
of `allocated_area` for a list node, which throws when there is none.
`areas` is the system's side of it, and no field of the source: the areas
`::malloc` has handed out and `::free` has not got back.  Addresses are `ℕ`;
`0` is `nullptr`.

A loop owns its pool (`loop_->AssertInLoopThread()`), so there is one thread.
`size_t` is `ℕ`: the sizes here are sums of areas that lie apart in one address
space; where the source subtracts one from a quotient that can be zero the
subtraction wraps.
-/
import Mathlib.Algebra.Ring.Nat
import Mathlib.Logic.Function.Basic
import Muduo.Basic
import Muduo.Lib.Tiling

namespace Muduo

open Tiling

/-- `std::bad_alloc`. -/
inductive BadAlloc where
  | badAlloc
deriving DecidableEq, Repr

/-- What the system answers when `chunk_alloc` or `master_alloc` ask for memory. -/
structure Answer where
  /-- `::malloc` in `chunk_alloc` -/
  chunk : ℕ
  /-- whether `allocated_area.push_back` gets a node for what that returned -/
  node : Bool
  /-- `::malloc` in `malloc_alloc::allocate` -/
  master : ℕ
  /-- `::malloc` after each call of `mmo_handler`; the handler is null after the last -/
  retries : List ℕ
deriving DecidableEq, Repr

def kAlign : ℕ := 8

def kMaxBytes : ℕ := 512

def kFreeListsNum : ℕ := kMaxBytes / kAlign

/-- `ROUND_UP`: `& ~(kALIGN - 1)` takes the remainder off. -/
def roundUp (bytes : ℕ) : ℕ := (bytes + kAlign - 1) / kAlign * kAlign

/-- `GET_FREELIST_INDEX`, a `size_t`. -/
def getFreelistIndex (bytes : ℕ) : ℕ := ((bytes + kAlign - 1) / kAlign + (2 ^ 64 - 1)) % 2 ^ 64

/-- `class mem_pool`, with the memory it works in. -/
structure MemPool where
  mem : ℕ → ℕ
  freeLists : ℕ → ℕ
  beginFree : ℕ
  endFree : ℕ
  heapSize : ℕ
  allocatedArea : List ℕ
  areas : List Piece

namespace MemPool

/-- A pool as it is constructed. -/
def init (mem : ℕ → ℕ) : MemPool :=
  { mem, freeLists := fun _ => 0, beginFree := 0, endFree := 0, heapSize := 0,
    allocatedArea := [], areas := [] }

/-! ## The system's allocator -/

/-- `::malloc(n)` answered with `p`. -/
def malloc (s : MemPool) (n : ℕ) (p : ℕ) : MemPool :=
  if p = 0 then s else { s with areas := (p, n) :: s.areas }

/-- `::free(p)`. -/
def free (s : MemPool) (p : ℕ) : Option MemPool :=
  if p = 0 then some s
  else do
    assert (p ∈ s.areas.map Prod.fst)
    return { s with areas := s.areas.filter fun b => b.1 ≠ p }

/-- `malloc_alloc::oom_malloc`. -/
def oomMalloc (s : MemPool) (n : ℕ) : List ℕ → MemPool × Except BadAlloc ℕ
  | [] => (s, .error .badAlloc)
  | p :: ps => if p ≠ 0 then (s.malloc n p, .ok p) else oomMalloc s n ps

/-- `malloc_alloc::allocate`. -/
def masterAllocate (s : MemPool) (n : ℕ) (a : Answer) : MemPool × Except BadAlloc ℕ :=
  if a.master = 0 then s.oomMalloc n a.retries else (s.malloc n a.master, .ok a.master)

/-! ## The free lists -/

/-- `p->next`. -/
def loadNext (s : MemPool) (p : ℕ) : Option ℕ := do
  assert (p ≠ 0 ∧ p % kAlign = 0)
  return s.mem p

/-- `p->next = q`. -/
def storeNext (s : MemPool) (p q : ℕ) : Option MemPool := do
  assert (p ≠ 0 ∧ p % kAlign = 0)
  return { s with mem := Function.update s.mem p q }

/-- `free_lists[k]`. -/
def getList (s : MemPool) (k : ℕ) : Option ℕ := do
  assert (k < kFreeListsNum)
  return s.freeLists k

/-- `free_lists[k] = p`. -/
def setList (s : MemPool) (k : ℕ) (p : ℕ) : Option MemPool := do
  assert (k < kFreeListsNum)
  return { s with freeLists := Function.update s.freeLists k p }

/-- `p->next = *target_list; *target_list = p`. -/
def pushFront (s : MemPool) (k : ℕ) (p : ℕ) : Option MemPool := do
  let q ← s.getList k
  let s ← s.storeNext p q
  s.setList k p

/-- `*target_list = p->next`. -/
def popFront (s : MemPool) (k : ℕ) (p : ℕ) : Option MemPool := do
  let q ← s.loadNext p
  s.setList k q

/-! ## chunk_alloc -/

/-- `end_free - begin_free`: both point into one area, in this order. -/
def leftSize (s : MemPool) : Option ℕ := do
  assert (s.beginFree ≤ s.endFree)
  return s.endFree - s.beginFree

/-- What is left of the reserve goes to the list of its size. -/
def keepLeft (s : MemPool) (left : ℕ) : Option MemPool :=
  if 0 < left then do
    assert (left % kAlign = 0)
    s.pushFront (getFreelistIndex left) s.beginFree
  else some s

/-- The first list of chunks of at least `i` bytes that is not empty: the size
of its chunks and its first node. -/
def searchLoop (s : MemPool) : ℕ → ℕ → Option (Option (ℕ × ℕ))
  | 0, _ => none
  | fuel + 1, i =>
      if i ≤ kMaxBytes then do
        let p ← s.getList (getFreelistIndex i)
        if p ≠ 0 then some (some (i, p)) else s.searchLoop fuel (i + kAlign)
      else some none

def bytesToGet (s : MemPool) (totalSize : ℕ) : ℕ := 2 * totalSize + roundUp (s.heapSize / 16)

/-- The reserve becomes the area at `p`. -/
def grow (s : MemPool) (n : ℕ) (p : ℕ) : MemPool :=
  { s with beginFree := p, heapSize := s.heapSize + n, endFree := p + n }

/-- A new reserve: an area from the system, else a chunk out of the list of its
size or a larger one, else an area from `master_alloc`. -/
def getReserve (s : MemPool) (size n : ℕ) (a : Answer) :
    Option (MemPool × Except BadAlloc Unit) := do
  let s := s.malloc n a.chunk
  if a.node then
    let s := { s with allocatedArea := s.allocatedArea ++ [a.chunk], beginFree := a.chunk }
    if s.beginFree = 0 then
      match ← s.searchLoop (kFreeListsNum + 1) size with
      | some (i, p) =>
          let s ← s.popFront (getFreelistIndex i) p
          return ({ s with beginFree := p, endFree := p + i }, .ok ())
      | none =>
          let s := { s with endFree := 0 }
          match s.masterAllocate n a with
          | (s, .ok p) => return (s.grow n p, .ok ())
          | (s, .error e) => return (s, .error e)
    else return (s.grow n s.beginFree, .ok ())
  -- `push_back` throws, and the reserve still is what it was
  else return (s, .error .badAlloc)

/-- `chunk_alloc`: the address of the chunks and how many they are.  Each time
it calls itself it has used up one answer of the system. -/
def chunkAlloc (size : ℕ) : List Answer → MemPool → ℕ →
    Option (MemPool × Except BadAlloc (ℕ × ℕ))
  | answers, s, nObjs => do
      let totalSize := size * nObjs
      let left ← s.leftSize
      if left ≥ totalSize then
        return ({ s with beginFree := s.beginFree + totalSize }, .ok (s.beginFree, nObjs))
      else if left ≥ size then
        let nObjs := left / size
        let totalSize := size * nObjs
        return ({ s with beginFree := s.beginFree + totalSize }, .ok (s.beginFree, nObjs))
      else
        match answers with
        | [] => none
        | a :: answers =>
            let s ← s.keepLeft left
            match ← s.getReserve size (s.bytesToGet totalSize) a with
            | (s, .ok ()) => chunkAlloc size answers s nObjs
            | (s, .error e) => return (s, .error e)

/-! ## refill, allocate, deallocate -/

/-- The loop of `refill`: the chunks from `cur` on are linked to a list. -/
def linkLoop (n nObjs : ℕ) : ℕ → ℕ → ℕ → MemPool → Option MemPool
  | 0, _, _, _ => none
  | fuel + 1, i, cur, s =>
      if nObjs = i + 1 then s.storeNext cur 0
      else do
        let s ← s.storeNext cur (cur + n)
        linkLoop n nObjs fuel (i + 1) (cur + n) s

def refill (s : MemPool) (n : ℕ) (a : Answer) : Option (MemPool × Except BadAlloc ℕ) := do
  match ← chunkAlloc n [a] s 20 with
  | (s, .error e) => return (s, .error e)
  | (s, .ok (chunk, nObjs)) =>
      if nObjs = 1 then return (s, .ok chunk)
      else
        let s ← s.setList (getFreelistIndex n) (chunk + n)
        let s ← linkLoop n nObjs nObjs 1 (chunk + n) s
        return (s, .ok chunk)

def allocate (s : MemPool) (n : ℕ) (a : Answer) : Option (MemPool × Except BadAlloc ℕ) :=
  if n > kMaxBytes then some (s.masterAllocate n a)
  else do
    let result ← s.getList (getFreelistIndex n)
    if result = 0 then s.refill (roundUp n) a
    else
      let s ← s.popFront (getFreelistIndex n) result
      return (s, .ok result)

def deallocate (s : MemPool) (ptr : ℕ) (n : ℕ) : Option MemPool :=
  if n > kMaxBytes then s.free ptr
  else s.pushFront (getFreelistIndex n) ptr

end MemPool

/-! ## A pool and its clients -/

/-- A pool and the blocks handed out and not returned, each with the size it
was requested with. -/
structure PoolSession where
  pool : MemPool
  live : List Piece

inductive PoolOp where
  | allocate (n : ℕ) (a : Answer)
  | deallocate (p : ℕ) (n : ℕ)
  /-- the owner of block `b` writes `v` at `x` -/
  | write (b : Piece) (x v : ℕ)
deriving DecidableEq, Repr

namespace PoolSession

def init (mem : ℕ → ℕ) : PoolSession := ⟨.init mem, []⟩

def exec (s : PoolSession) : PoolOp → Option PoolSession
  | .allocate n a => do
      match ← s.pool.allocate n a with
      | (pool, .ok p) => return ⟨pool, (p, n) :: s.live⟩
      | (pool, .error _) => return { s with pool }
  | .deallocate p n => do
      let pool ← s.pool.deallocate p n
      return ⟨pool, s.live.erase (p, n)⟩
  | .write _ x v => some { s with pool.mem := Function.update s.pool.mem x v }

/-- `::malloc(n)` returns null, or an area of its own aligned for an `obj`. -/
def Fresh (pool : MemPool) (n : ℕ) (p : ℕ) : Prop :=
  p ≠ 0 → p % kAlign = 0 ∧ ∀ b ∈ pool.areas, Apart (p, n) b

instance (pool : MemPool) (n : ℕ) (p : ℕ) : Decidable (Fresh pool n p) :=
  inferInstanceAs (Decidable (_ → _))

/-- Sizes from 1 to `kMax_Bytes`; each block is returned once, with the size it
was requested with, and its owner writes nowhere else; the system hands out fresh areas. -/
def Valid (s : PoolSession) : PoolOp → Prop
  | .allocate n a => 1 ≤ n ∧ n ≤ kMaxBytes ∧
      ∀ p ∈ a.chunk :: a.master :: a.retries,
        Fresh s.pool (s.pool.bytesToGet (roundUp n * 20)) p
  | .deallocate p n => (p, n) ∈ s.live
  | .write b x _ => b ∈ s.live ∧ Within b x

instance (s : PoolSession) : (op : PoolOp) → Decidable (s.Valid op)
  | .allocate _ _ => inferInstanceAs (Decidable (_ ∧ _))
  | .deallocate _ _ => inferInstanceAs (Decidable (_ ∈ _))
  | .write _ _ _ => inferInstanceAs (Decidable (_ ∧ _))

/-- The blocks in use as the pool cuts them. -/
def blocks (s : PoolSession) : List Piece := s.live.map fun b => (b.1, roundUp b.2)

end PoolSession

end Muduo
