import Nachos.Lib.LinkedList

/-!
# The hash table of `lib/hash.cc`

An array of lists, and the list that an item is on is the hash of its key modulo the number of
lists. When there are more than three items a bucket the table is built again with four times as
many, and every item is taken from the front of its old list and appended to a new one.

The lists are those of `lib/list.cc`, all in one memory. A list object is its pointers and its
count; an operation of `List` runs on one of them and on the memory. Deleting the old lists does
nothing to the memory, for `~List` frees no element. The allocator is a function of the memory that
comes with each call. Counts and indices are far from where an `int` wraps: there is no room for
that many items.
-/

namespace Nachos

open Base (Heap Node)
open LinkedList (ListM Fault)

/-- What a list has in its own fields. -/
structure ListObject where
  first : Option Nat
  last : Option Nat
  numInList : Int
  deriving DecidableEq, Repr

/-- `HashTable`, with the memory its lists live in. -/
structure HashTable (α : Type) where
  heap : Heap (ListElement α)
  buckets : List ListObject
  numBuckets : Nat
  numItems : Int

namespace HashTable

variable {α κ β : Type} [DecidableEq α] [DecidableEq κ]

/-- A program over a hash table. -/
abbrev HashM (α : Type) := EStateM Fault (HashTable α)

/-- `ASSERT`. -/
def assert (c : Prop) [Decidable c] : HashM α Unit := if c then pure () else throw .assertion

/-- `InitialBuckets`. -/
def initialBuckets : Nat := 4

/-- `ResizeRatio`: the items a bucket at which the table is built again. -/
def resizeRatio : Int := 3

/-- `IncreaseSizeBy`: how many times more buckets it has then. -/
def increaseSizeBy : Nat := 4

/-! ## Lists -/

/-- An operation on one list. -/
def onList (o : ListObject) (op : ListM α β) : HashM α (β × ListObject) := do
  let t ← get
  match op ⟨t.heap, o.first, o.last, o.numInList⟩ with
  | .ok r l => do
      set { t with heap := l.heap }
      pure (r, ⟨l.first, l.last, l.numInList⟩)
  | .error e l => do
      set { t with heap := l.heap }
      throw e

/-- An operation on `buckets[j]`. -/
def onBucket (j : Nat) (op : ListM α β) : HashM α β := do
  let t ← get
  match t.buckets[j]? with
  | none => throw .pointer
  | some o => do
      let p ← onList o op
      modify fun t => { t with buckets := t.buckets.set j p.2 }
      pure p.1

/-- `InitBuckets`. -/
def initBuckets (size : Nat) : HashM α Unit :=
  modify fun t => { t with buckets := List.replicate size ⟨none, none, 0⟩, numBuckets := size }

/-- The constructor, in a memory in which other things are. -/
def new (heap : Heap (ListElement α)) : HashTable α where
  heap := heap
  buckets := List.replicate initialBuckets ⟨none, none, 0⟩
  numBuckets := initialBuckets
  numItems := 0

section Hash

variable (hash : κ → BitVec 32) (getKey : α → κ)

/-- The hash is unsigned, so only one half of the assertion can fail. -/
def hashValue (key : κ) : HashM α Nat := do
  let t ← get
  assert ((hash key).toNat % t.numBuckets < t.numBuckets)
  pure ((hash key).toNat % t.numBuckets)

/-! ## Looking -/

/-- The loop of `FindInBucket` at `current`. -/
def findFrom (key : κ) : Nat → Option Nat → ListM α (Option α)
  | _, none => pure none
  | 0, some _ => throw .forever
  | k + 1, some a => do
      let e ← LinkedList.deref (some a)
      if key = getKey e.item then pure (some e.item) else findFrom key k e.next

/-- `FindInBucket`, on the list of the bucket. -/
def findInList (key : κ) : ListM α (Option α) := do
  let l ← get
  findFrom getKey key (l.heap.top + 1) l.first

/-- `FALSE`, with `NULL` for the item, is `none`. -/
def findInBucket (bucket : Nat) (key : κ) : HashM α (Option α) :=
  onBucket bucket (findInList getKey key)

/-- `Find`. -/
def find (key : κ) : HashM α (Option α) := do
  let bucket ← hashValue hash key
  findInBucket getKey bucket key

/-- `IsInTable`. -/
def isInTable (key : κ) : HashM α Bool := do
  let found ← find hash getKey key
  pure found.isSome

/-! ## Checking -/

/-- The inner loop of `SanityCheck` at `current`, in bucket `i` of `n`. -/
def checkFrom (i n : Nat) : Nat → Option Nat → ListM α Unit
  | _, none => pure ()
  | 0, some _ => throw .forever
  | k + 1, some a => do
      let e ← LinkedList.deref (some a)
      LinkedList.assert ((hash (getKey e.item)).toNat % n < n)
      LinkedList.assert (i = (hash (getKey e.item)).toNat % n)
      checkFrom i n k e.next

/-- The inner loop, after the `SanityCheck` of the list itself. -/
def checkList (i n : Nat) : ListM α Int := do
  LinkedList.sanityCheck
  let l ← get
  checkFrom hash getKey i n (l.heap.top + 1) l.first
  pure l.numInList

/-- The outer loop of `SanityCheck` from bucket `i`, with `k` to go. -/
def checkBuckets : Nat → Nat → Int → HashM α Int
  | _, 0, numFound => pure numFound
  | i, k + 1, numFound => do
      let t ← get
      let found ← onBucket i (checkList hash getKey i t.numBuckets)
      checkBuckets (i + 1) k (numFound + found)

/-- `SanityCheck`: every item is in the bucket of its hash, and the counts agree. -/
def sanityCheck : HashM α Unit := do
  let t ← get
  let numFound ← checkBuckets hash getKey 0 t.numBuckets 0
  assert (t.numItems = numFound)

/-! ## Changing -/

variable (pick : Heap (ListElement α) → Nat)

/-- `buckets[HashValue(getKey(item))]->Append(item)`. -/
def place (item : α) : HashM α Unit := do
  let bucket ← hashValue hash (getKey item)
  let t ← get
  onBucket bucket (LinkedList.append (pick t.heap) item)

/-- The inner loop of `ReHash`: the list is emptied from its front. -/
def moveAll : Nat → ListObject → HashM α Unit
  | 0, o => if o.numInList = 0 then pure () else throw .forever
  | k + 1, o =>
      if o.numInList = 0 then pure ()
      else do
        let p ← onList o LinkedList.removeFront
        place hash getKey pick p.1
        moveAll k p.2

/-- The outer loop of `ReHash`. -/
def moveTables : List ListObject → HashM α Unit
  | [] => pure ()
  | o :: oldTable => do
      moveAll hash getKey pick o.numInList.toNat o
      moveTables oldTable

/-- `ReHash`. -/
def reHash : HashM α Unit := do
  let t ← get
  sanityCheck hash getKey
  -- from here on `t` has the old table, and the new lists are empty
  initBuckets (t.numBuckets * increaseSizeBy)
  moveTables hash getKey pick t.buckets
  sanityCheck hash getKey

/-- `ReHash`, when the table has become too full. -/
def grow : HashM α Unit := do
  let t ← get
  if t.numItems.tdiv t.numBuckets ≥ resizeRatio then reHash hash getKey pick else pure ()

/-- `Insert`. The key must not be there. -/
def insert (item : α) : HashM α Unit := do
  let there ← isInTable hash getKey (getKey item)
  assert (there = false)
  -- the item itself is not counted yet when the table grows
  grow hash getKey pick
  place hash getKey pick item
  modify fun t => { t with numItems := t.numItems + 1 }
  let there ← isInTable hash getKey (getKey item)
  assert (there = true)

/-- `Remove`. The key must be there. -/
def remove (key : κ) : HashM α α := do
  let bucket ← hashValue hash key
  let found ← findInBucket getKey bucket key
  match found with
  | none => throw .assertion
  | some item => do
      onBucket bucket (LinkedList.remove item)
      modify fun t => { t with numItems := t.numItems - 1 }
      let there ← isInTable hash getKey key
      assert (there = false)
      pure item

/-! ## Calls -/

/-- What can be asked of a hash table. -/
inductive Call (α κ : Type) where
  | insert (pick : Heap (ListElement α) → Nat) (item : α)
  | remove (key : κ)
  | find (key : κ)

/-- What it answers. -/
inductive Answer (α : Type) where
  | done
  | item (x : α)
  | found (x : Option α)
  deriving DecidableEq, Repr

/-- A call, and its answer. -/
def call : Call α κ → HashM α (Answer α)
  | .insert pick item => do insert hash getKey pick item; pure .done
  | .remove key => do let x ← remove hash getKey key; pure (.item x)
  | .find key => do let x ← find hash getKey key; pure (.found x)

end Hash

/-! ## Iterators -/

/-- `HashIterator`: a bucket, and where its `ListIterator` is when there is one. -/
structure HashIterator where
  bucket : Nat
  bucketIter : Option (Option Nat)
  deriving DecidableEq, Repr

/-- `*ptr`. -/
def deref (ptr : Option Nat) : HashM α (ListElement α) := do
  let t ← get
  match ptr.bind t.heap.cell with
  | some e => pure e
  | none => throw .pointer

/-- `buckets[j]`. -/
def bucketAt (j : Nat) : HashM α ListObject := do
  let t ← get
  match t.buckets[j]? with
  | some o => pure o
  | none => throw .pointer

/-- The loop of `FindNextFullBucket` at `bucket`, with `k` to go. -/
def findNextFrom : Nat → Nat → HashM α Nat
  | 0, bucket => pure bucket
  | k + 1, bucket => do
      let o ← bucketAt bucket
      if o.numInList ≠ 0 then pure bucket else findNextFrom k (bucket + 1)

/-- `FindNextFullBucket`: `numBuckets` when there is none. -/
def findNextFullBucket (bucket : Nat) : HashM α Nat := do
  let t ← get
  findNextFrom (t.numBuckets - bucket) bucket

/-- An iterator at the first full bucket from `bucket` on. -/
def enter (bucket : Nat) : HashM α HashIterator := do
  let b ← findNextFullBucket bucket
  let t ← get
  if b < t.numBuckets then do
    let o ← bucketAt b
    pure ⟨b, some o.first⟩
  else pure ⟨b, none⟩

/-- The constructor of `HashIterator`. -/
def iterator : HashM α HashIterator := enter 0

/-- `IsDone`. -/
def isDone (it : HashIterator) : HashM α Bool := do
  let t ← get
  pure (it.bucket == t.numBuckets)

/-- `Item`. -/
def item (it : HashIterator) : HashM α α := do
  let done ← isDone it
  assert (done = false)
  match it.bucketIter with
  | none => throw .pointer
  | some current => do
      assert (current ≠ none)
      let e ← deref current
      pure e.item

/-- `Next`. At the end of a list it goes on in the next bucket that is not empty. -/
def next (it : HashIterator) : HashM α HashIterator :=
  match it.bucketIter with
  | none => throw .pointer
  | some current => do
      let e ← deref current
      if e.next = none then enter (it.bucket + 1) else pure { it with bucketIter := some e.next }

/-- `for (; !iter.IsDone(); iter.Next())`, with the items on the way; it goes on for ever when it is
not done after `k` of them. -/
def collect : Nat → HashIterator → HashM α (List α)
  | 0, it => do
      let done ← isDone it
      if done then pure [] else throw .forever
  | k + 1, it => do
      let done ← isDone it
      if done then pure []
      else do
        let x ← item it
        let it' ← next it
        let xs ← collect k it'
        pure (x :: xs)

/-- The walk of an iterator from its constructor on. -/
def iterate (k : Nat) : HashM α (List α) := do
  let it ← iterator
  collect k it

end HashTable

end Nachos
