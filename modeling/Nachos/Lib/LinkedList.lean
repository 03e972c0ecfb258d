import Nachos.Base.Chain
import Nachos.Base.Objects
import Nachos.Lib.SortedList

/-!
# The linked lists of `lib/list.cc`

`List` keeps a chain of `ListElement`s with pointers to its first and last one and a count, and
`SortedList` inserts into the middle of it. Here the elements are cells of a heap that the list
shares with everything else: `new` puts an element where the allocator likes, perhaps where one was
deleted before, and `delete` gives the cell back. A pointer that is `NULL`, or whose element has
been deleted, stops whoever follows it.

The loops run along `next` until they find what they look for. A loop that has passed more elements
than there are addresses has passed one of them twice and goes on for ever, which is how the model
stops it. The count is an `int` and cannot wrap: there is no room for that many elements.
-/

namespace Nachos

open Base (Heap Node)

/-- `ListElement`. -/
abbrev ListElement (α : Type) := Node α

/-- `List`, with the memory it lives in. -/
structure LinkedList (α : Type) where
  heap : Heap (ListElement α)
  first : Option Nat
  last : Option Nat
  numInList : Int

namespace LinkedList

/-- Why a call does not return. -/
inductive Fault where
  | assertion
  | pointer
  | forever
  deriving DecidableEq, Repr

variable {α : Type} [DecidableEq α]

/-- A program over a list. -/
abbrev ListM (α : Type) := EStateM Fault (LinkedList α)

/-- `ASSERT`. -/
def assert (c : Prop) [Decidable c] : ListM α Unit := if c then pure () else throw .assertion

/-! ## Elements -/

/-- `*ptr`. -/
def deref (ptr : Option Nat) : ListM α (ListElement α) := do
  let l ← get
  match ptr.bind l.heap.cell with
  | some e => pure e
  | none => throw .pointer

/-- `ptr->next = next`. -/
def setNext (ptr next : Option Nat) : ListM α Unit :=
  match ptr with
  | none => throw .pointer
  | some a => do
      let e ← deref (some a)
      modify fun l => { l with heap := l.heap.write a { e with next := next } }

/-- `new ListElement(item)`, put where the allocator likes. -/
def newElement (wish : Nat) (item : α) : ListM α (Option Nat) := do
  let l ← get
  set { l with heap := l.heap.alloc wish ⟨item, none⟩ }
  pure (some (l.heap.place wish))

/-- `delete ptr`. -/
def delete (ptr : Option Nat) : ListM α Unit :=
  match ptr with
  | none => pure ()
  | some a => do
      let _ ← deref (some a)
      modify fun l => { l with heap := l.heap.free a }

/-! ## `List` -/

/-- `List()`, in a memory in which other things are. -/
def new (heap : Heap (ListElement α)) : LinkedList α where
  heap := heap
  first := none
  last := none
  numInList := 0

/-- `IsEmpty`. -/
def isEmpty (l : LinkedList α) : Bool := l.numInList == 0

/-- The loop of `IsInList` at `ptr`. -/
def isInListFrom (item : α) : Nat → Option Nat → ListM α Bool
  | _, none => pure false
  | 0, some _ => throw .forever
  | k + 1, some a => do
      let e ← deref (some a)
      if item = e.item then pure true else isInListFrom item k e.next

/-- `IsInList`. There are no more elements than addresses in use. -/
def isInList (item : α) : ListM α Bool := do
  let l ← get
  isInListFrom item (l.heap.top + 1) l.first

/-- The beginning of `Append`, `Prepend` and `Insert`: the new element of an item that is not
there. -/
def begin (wish : Nat) (item : α) : ListM α (Option Nat) := do
  let element ← newElement wish item
  let there ← isInList item
  assert (there = false)
  pure element

/-- Their end. -/
def finish (item : α) : ListM α Unit := do
  modify fun l => { l with numInList := l.numInList + 1 }
  let there ← isInList item
  assert (there = true)

/-- The two cases of `Append`. -/
def linkLast (element : Option Nat) : ListM α Unit := do
  let l ← get
  if l.isEmpty then
    modify fun l => { l with first := element, last := element }
  else do
    setNext l.last element
    modify fun l => { l with last := element }

/-- `Append`. -/
def append (wish : Nat) (item : α) : ListM α Unit := do
  let element ← begin wish item
  linkLast element
  finish item

/-- The two cases of `Prepend`. -/
def linkFirst (element : Option Nat) : ListM α Unit := do
  let l ← get
  if l.isEmpty then
    modify fun l => { l with first := element, last := element }
  else do
    setNext element l.first
    modify fun l => { l with first := element }

/-- `Prepend`. -/
def prepend (wish : Nat) (item : α) : ListM α Unit := do
  let element ← begin wish item
  linkFirst element
  finish item

/-- The two cases of `RemoveFront`. -/
def unlinkFront : ListM α Unit := do
  let l ← get
  if l.first = l.last then
    modify fun l => { l with first := none, last := none }
  else do
    let element ← deref l.first
    modify fun l => { l with first := element.next }

/-- `RemoveFront`. -/
def removeFront : ListM α α := do
  let l ← get
  assert (l.isEmpty = false)
  let thing ← deref l.first
  unlinkFront
  modify fun l => { l with numInList := l.numInList - 1 }
  delete l.first
  pure thing.item

/-- `if (prev->next == NULL) last = prev`. -/
def fixLast (prev : Option Nat) : ListM α Unit := do
  let p ← deref prev
  if p.next = none then modify fun l => { l with last := prev } else pure ()

/-- The loop of `Remove` with `ptr` behind `prev`: where `ptr` is when the loop is left. -/
def removeFrom (item : α) : Nat → Option Nat → Option Nat → ListM α (Option Nat)
  | _, _, none => pure none
  | 0, _, some _ => throw .forever
  | k + 1, prev, some a => do
      let e ← deref (some a)
      if item = e.item then do
        -- `ptr` is unlinked before it is deleted
        setNext prev e.next
        fixLast prev
        delete (some a)
        modify fun l => { l with numInList := l.numInList - 1 }
        pure (some a)
      else removeFrom item k (some a) e.next

/-- The two cases of `Remove`. -/
def unlink (item : α) : ListM α Unit := do
  let l ← get
  let front ← deref l.first
  if item = front.item then do
    let removed ← removeFront
    assert (item = removed)
  else do
    let ptr ← removeFrom item (l.heap.top + 1) l.first front.next
    assert (ptr ≠ none)

/-- `Remove`. -/
def remove (item : α) : ListM α Unit := do
  let there ← isInList item
  assert (there = true)
  unlink item
  let there ← isInList item
  assert (there = false)

/-- The loop of `SanityCheck` at `ptr`: the elements found up to `last`. -/
def sanityFrom (numInList : Int) (last : Option Nat) : Nat → Int → Option Nat → ListM α Int
  | 0, _, _ => throw .forever
  | k + 1, numFound, ptr =>
      if ptr = last then pure numFound
      else do
        assert (numFound + 1 ≤ numInList)
        let e ← deref ptr
        sanityFrom numInList last k (numFound + 1) e.next

/-- `SanityCheck`: the pointers and the count describe the same list. -/
def sanityCheck : ListM α Unit := do
  let l ← get
  if l.first = none then
    assert (l.numInList = 0 ∧ l.last = none)
  else if l.first = l.last then do
    assert (l.numInList = 1)
    let e ← deref l.last
    assert (e.next = none)
  else do
    -- the assertion in the loop stops it after `numInList` turns
    let numFound ← sanityFrom l.numInList l.last (l.numInList.toNat + 1) 1 l.first
    assert (numFound = l.numInList)
    let e ← deref l.last
    assert (e.next = none)

/-! ## `SortedList` -/

/-- The loop of `Insert` at `ptr`: whether `element` has been put behind one of the elements. -/
def insertFrom (compare : α → α → Int) (item : α) (element : Option Nat) :
    Nat → Option Nat → ListM α Bool
  | 0, _ => throw .forever
  | k + 1, ptr => do
      let p ← deref ptr
      match p.next with
      | none => pure false
      | some b => do
          let q ← deref (some b)
          if compare item q.item < 0 then do
            setNext element (some b)
            setNext ptr element
            modify fun l => { l with numInList := l.numInList + 1 }
            pure true
          else insertFrom compare item element k (some b)

/-- `Insert`. The return from the middle of the loop passes by the end. -/
def insert (compare : α → α → Int) (wish : Nat) (item : α) : ListM α Unit := do
  let element ← begin wish item
  let l ← get
  if l.isEmpty then do
    modify fun l => { l with first := element, last := element }
    finish item
  else do
    let front ← deref l.first
    if compare item front.item < 0 then do
      setNext element l.first
      modify fun l => { l with first := element }
      finish item
    else do
      let placed ← insertFrom compare item element (l.heap.top + 1) l.first
      -- the source returns from inside the loop here, without its last checks
      if placed then pure ()
      else do
        setNext l.last element
        modify fun l => { l with last := element }
        finish item

/-- The loop of `SortedList::SanityCheck` with `ptr` behind `prev`. -/
def sortedFrom (compare : α → α → Int) : Nat → Option Nat → Option Nat → ListM α Unit
  | _, _, none => pure ()
  | 0, _, some _ => throw .forever
  | k + 1, prev, some a => do
      let p ← deref prev
      let e ← deref (some a)
      assert (compare p.item e.item ≤ 0)
      sortedFrom compare k (some a) e.next

/-- `SortedList::SanityCheck`. -/
def sortedSanityCheck (compare : α → α → Int) : ListM α Unit := do
  sanityCheck
  let l ← get
  if l.first ≠ l.last then do
    let e ← deref l.first
    sortedFrom compare (l.heap.top + 1) l.first e.next
  else pure ()

/-! ## Calls -/

/-- What can be asked of a list. -/
inductive Call (α : Type) where
  | append (wish : Nat) (item : α)
  | prepend (wish : Nat) (item : α)
  | removeFront
  | remove (item : α)
  | isInList (item : α)
  deriving DecidableEq, Repr

/-- What can be asked of a sorted list. -/
inductive SortedCall (α : Type) where
  | insert (wish : Nat) (item : α)
  | removeFront
  | remove (item : α)
  | isInList (item : α)
  deriving DecidableEq, Repr

/-- What they answer. -/
inductive Answer (α : Type) where
  | done
  | item (x : α)
  | bool (b : Bool)
  deriving DecidableEq, Repr

/-- A call, and its answer. -/
def call : Call α → ListM α (Answer α)
  | .append wish item => do append wish item; pure .done
  | .prepend wish item => do prepend wish item; pure .done
  | .removeFront => do let x ← removeFront; pure (.item x)
  | .remove item => do remove item; pure .done
  | .isInList item => do let b ← isInList item; pure (.bool b)

/-- The same for a sorted list. -/
def sortedCall (compare : α → α → Int) : SortedCall α → ListM α (Answer α)
  | .insert wish item => do insert compare wish item; pure .done
  | .removeFront => do let x ← removeFront; pure (.item x)
  | .remove item => do remove item; pure .done
  | .isInList item => do let b ← isInList item; pure (.bool b)

end LinkedList

end Nachos
