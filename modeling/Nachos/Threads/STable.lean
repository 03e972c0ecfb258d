import Nachos.Base.System
import Nachos.Lib.Bitmap
import Nachos.Threads.Semaphore

/-!
# Named semaphores: `threads/stable.cc`

`CreateSemaphore`, `Wait` and `Signal` go through a table of ten slots in which a
semaphore is found by its name. Only `Wait` can take long: it finds its slot and then
goes round the loop of `P` there. Nothing ever leaves the table.

The names are at most 33 characters long, so each fits the array of 50 it is copied to.
-/

namespace Nachos

open Base (upd upd_self upd_ne upd_apply)

/-- A string of C: its characters, without the zero that ends it. -/
abbrev CString := List UInt8

/-- `MAX_SEMAPHORE`. -/
def maxSemaphore : Nat := 10

/-- The size of `Sem::name`. -/
def semNameSize : Nat := 50

/-- A semaphore and its name. -/
structure Sem where
  name : CString
  sem : Semaphore
  deriving DecidableEq

/-- The table of named semaphores. -/
structure STable where
  /-- `bm`, the slots in use. -/
  bm : Bitmap
  semTab : Nat → Option Sem
  /-- There is a bit for each slot. -/
  slots : bm.numBits = maxSemaphore
  /-- A slot in use is not `NULL`. -/
  filled : ∀ i, bm.test i = true → (semTab i).isSome = true

namespace STable

/-- The constructor. -/
def new : STable where
  bm := Bitmap.new maxSemaphore (by decide)
  semTab := fun _ => none
  slots := Bitmap.numBits_new _ _
  filled := by
    intro i hi
    rw [Bitmap.test_new] at hi
    exact absurd hi (by simp)

/-- The loop that all three operations begin with: the first slot in use that has the name. -/
def find (t : STable) (name : CString) : Option Nat :=
  (List.range maxSemaphore).find? fun i =>
    t.bm.test i && decide ((t.semTab i).map Sem.name = some name)

theorem test_findAndSet {b : Bitmap} {i : Nat} (h : b.findAndSet.2.test i = true) :
    b.test i = true ∨ (i : Int) = b.findAndSet.1 := by
  rw [Bitmap.findAndSet_eq] at h ⊢
  cases hc : b.clearBits with
  | nil => rw [hc] at h; exact Or.inl h
  | cons j js =>
      rw [hc] at h
      have hj : j < b.numBits := (Bitmap.mem_clearBits.mp (hc ▸ List.mem_cons_self)).1
      rw [Bitmap.test_mark hj] at h
      rcases Bool.or_eq_true_iff.mp h with hij | hij
      · exact Or.inr (congrArg Int.ofNat (of_decide_eq_true hij))
      · exact Or.inl hij

theorem numBits_findAndSet (b : Bitmap) : b.findAndSet.2.numBits = b.numBits := by
  rw [Bitmap.findAndSet_eq]
  cases b.clearBits with
  | nil => rfl
  | cons j js => rfl

/-- `semTab[id] = new Sem(name, init)` in the slot that `FindFreeSlot` marked. -/
def put (t : STable) (name : CString) (init : Int) : STable where
  bm := t.bm.findAndSet.2
  semTab := upd t.semTab t.bm.findAndSet.1.toNat (some ⟨name, Semaphore.new init⟩)
  slots := (numBits_findAndSet t.bm).trans t.slots
  filled := by
    intro i hi
    rw [upd_apply]
    split
    · rfl
    · rename_i hne
      rcases test_findAndSet hi with hb | hb
      · exact t.filled i hb
      · exact absurd (by rw [← hb]; rfl) hne

/-- `Create`: -1 for a name that is there, or when all slots are taken. -/
def create (t : STable) (name : CString) (init : Int) : Int × STable :=
  match t.find name with
  | some _ => (-1, t)
  -- a full table is left as it is
  | none => if t.bm.findAndSet.1 < 0 then (-1, t) else (0, t.put name init)

/-- The table with the semaphore of slot `i` replaced. -/
def setSem (t : STable) (i : Nat) (q : Semaphore) : STable where
  bm := t.bm
  semTab := upd t.semTab i ((t.semTab i).map fun s => { s with sem := q })
  slots := t.slots
  filled := by
    intro j hj
    rw [upd_apply]
    split
    · rename_i hji
      rw [Option.isSome_map]
      exact t.filled i (hji ▸ hj)
    · exact t.filled j hj

/-- The semaphore of slot `i`. -/
def semAt (t : STable) (i : Nat) : Semaphore :=
  ((t.semTab i).map Sem.sem).getD (Semaphore.new 0)

/-- `Signal`: -1 for a name that is not there. -/
def signal (t : STable) (name : CString) : Int × STable :=
  match t.find name with
  | some i => (0, t.setSem i (t.semAt i).V.1)
  | none => (-1, t)

end STable

/-! ## The table and the threads that use it -/

/-- Where a thread is. -/
inductive STablePC where
  /-- Outside, with what its last call returned. -/
  | out (ret : Option Int)
  /-- `Wait`, in the loop of `P` of slot `i`. -/
  | waiting (i : Nat)
  deriving DecidableEq, Repr

/-- What a thread does next. -/
inductive STableCall where
  /-- It calls `Create`. -/
  | create (name : CString) (init : Int)
  /-- It calls `Wait`. -/
  | wait (name : CString)
  /-- It calls `Signal`. -/
  | signal (name : CString)
  /-- It takes one pass of the loop of `P`. -/
  | go
  deriving DecidableEq, Repr

/-- The table and its users. -/
structure STableState where
  /-- The table. -/
  tab : STable
  /-- Where each thread is. -/
  pc : Nat → STablePC

namespace STableState

/-- Thread `t` is outside again. -/
def leave (s : STableState) (t : Nat) (r : Int × STable) : STableState where
  tab := r.2
  pc := upd s.pc t (.out (some r.1))

/-- `Wait`, up to the loop of `P`. -/
def wait (s : STableState) (t : Nat) (name : CString) : STableState :=
  match s.tab.find name with
  | some i => { s with pc := upd s.pc t (.waiting i) }
  | none => s.leave t (-1, s.tab)

/-- One pass of the loop of `P`. -/
def pass (s : STableState) (t i : Nat) : Option STableState :=
  if t ∈ (s.tab.semAt i).queue then none
  else
    let q := (s.tab.semAt i).P t
    if q.2 then some (s.leave t (0, s.tab.setSem i q.1))
    else some { s with tab := s.tab.setSem i q.1 }

/-- One step of thread `l.1`. -/
def step (s : STableState) (l : Nat × STableCall) : Option STableState :=
  match s.pc l.1, l.2 with
  | .out _, .create name init => some (s.leave l.1 (s.tab.create name init))
  | .out _, .wait name => some (s.wait l.1 name)
  | .out _, .signal name => some (s.leave l.1 (s.tab.signal name))
  | .waiting i, .go => s.pass l.1 i
  | _, _ => none

/-- The runs of the table, with any number of threads. -/
def sys : Base.System STableState (Nat × STableCall) where
  init := fun s => s = ⟨STable.new, fun _ => .out none⟩
  step := step

end STableState

end Nachos
