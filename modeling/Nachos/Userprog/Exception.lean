import Nachos.Filesys.OpenFile
import Nachos.Machine.Translate
import Nachos.Threads.PTable
import Nachos.Userprog.SynchConsole

/-!
# System calls: `userprog/exception.cc`

`ExceptionHandler` is one `switch` inside another. A case ends in `return`, which goes
back to the user program, or in `break`, which leads out of the switch to the
`ASSERTNOTREACHED` at the end of the function. Before it returns, a case has to call
`increasePC`: the machine does not advance past a system call by itself.

The handler is followed for one process. Its registers, its page table, its memory and
its file table belong to it alone. The process table, the named semaphores and the
display are shared: a call into them is a run of their own system that lasts until
the caller is through, along any schedule. The schedules, the characters that the
keyboard will deliver to the caller and the host are part of the state.

`MAX_LENGTH_FILENAME` is 32, and `Exec` and the calls for semaphores read one character
more; `RW_ERROR_FILE` is -1 and `RW_END_FILE` is -2.

`new` never returns `NULL`, so the branches for that are left out; a negative size
makes it throw, and nothing catches that. What lies behind a buffer of the kernel is
not modelled: the handler stops where `ReadString` stores a character there. The word
behind the file table is part of the state, since `Read` and `Write` use what they find
in it.
-/

namespace Nachos

open Base (upd)

/-! ## The keyboard -/

/-- Code that takes characters from the keyboard: what it computes, and what it leaves. `none` when
it waits for more than there is. -/
abbrev Scan (α : Type) := List UInt8 → Option (α × List UInt8)

/-- `GetChar`. -/
def getChar : Scan UInt8
  | [] => none
  | c :: rest => some (c, rest)

/-- The loop of `SynchConsoleInput::Read`, with room for so many characters. `ch` is the last
one taken, if any was. -/
def readFrom : List UInt8 → Nat → List UInt8 → UInt8 → Option ((Int × List UInt8) × List UInt8)
  | rest, 0, into, ch => some ((if ch = 1 then -1 else (into.length : Int), into), rest)
  | [], _ + 1, _, _ => none
  | c :: rest, n + 1, into, _ =>
      -- `EOF` is the character 255, taken as a signed one
      if c = 255 then readFrom rest (n + 1) into c
      else if c = 10 ∨ c = 1 then some ((if c = 1 then -1 else (into.length : Int), into), rest)
      else readFrom rest n (into ++ [c]) c

/-- `SynchConsoleInput::Read`: what it returns, and the characters it stores. With nothing to read
it tests `ch` without having set it. -/
def readConsole (numBytes : Int) (ch : UInt8) : Scan (Int × List UInt8) :=
  fun input => readFrom input numBytes.toNat [] ch

/-- `clearInputBuffer`: the rest of the line is dropped. -/
def clearInputBuffer : Scan Unit
  | [] => none
  | c :: rest => if c ≠ 10 ∧ c ≠ 255 then clearInputBuffer rest else some ((), rest)

/-- The first loop of `ReadNum`: the first character that is no blank. -/
def skipBlanks : Scan UInt8
  | [] => none
  | c :: rest => if c = 32 then skipBlanks rest else some (c, rest)

/-- What the second loop of `ReadNum` finds. -/
inductive NumLine where
  /-- The end of the line, with `res` and `flagZero`. -/
  | number (res : Int) (flagZero : Bool)
  /-- A character that does not belong there. -/
  | other
  deriving DecidableEq, Repr

/-- What a `long long` holds after a computation whose exact result is `x`. -/
def toInt64 (x : Int) : Int := x.bmod 18446744073709551616

/-- The second loop of `ReadNum`. -/
def readDigits : List UInt8 → Int → Bool → Bool → Option (NumLine × List UInt8)
  | [], _, _, _ => none
  | c :: rest, res, isEnd, flagZero =>
      if c = 10 then some (.number res flagZero, rest)
      else if 48 ≤ c ∧ c ≤ 57 ∧ isEnd = false then
        readDigits rest (toInt64 (res * 10 + (c.toNat - 48))) isEnd true
      else if c = 32 then readDigits rest res true flagZero
      else some (.other, rest)

/-- The loop of `ReadString`, with `inputLength` characters in `strName`: what it adds to them
before the end of the line. `strName` has `length` bytes, and the loop ends with `none` when it
stores a character, or the terminator, behind them. -/
def readLine (length : Int) : Nat → Scan (Option (List UInt8))
  | _, [] => none
  | inputLength, c :: rest =>
      if length ≤ inputLength then some (none, rest)
      else if c = 10 then some (some [], rest)
      else (readLine length (inputLength + 1) rest).map fun p => (p.1.map (c :: ·), p.2)

/-! ## The state -/

/-- The kernel as the handler of one system call finds it. -/
structure Kernel (η : Type) where
  /-- The machine, with the registers and the page table of the caller. -/
  machine : Machine
  currentThread : Uid
  /-- `fileTable` of each PCB, and what lies behind it. -/
  fileTables : Uid → Nat → Option OpenFile
  /-- The host. -/
  host : η
  /-- The characters that the keyboard will deliver to the caller. -/
  input : List UInt8
  /-- What went to the standard output of the host. -/
  printed : List String
  /-- The process table. -/
  pTab : PState
  /-- What the processes do while the caller is in it. -/
  pTabRun : List (Uid × Act)
  /-- The semaphore table. -/
  sTab : STableState
  /-- What the threads do while the caller is in it. -/
  sTabRun : List (Nat × STableCall)
  /-- The display. -/
  display : ConsoleState
  /-- What happens to it while the caller is using it. -/
  displayRun : List ConsoleEvent

/-- The code of a case. -/
abbrev Handler (η : Type) := EStateM Stop (Kernel η)

/-- How a case ends. -/
inductive Exit where
  /-- `return`. -/
  | ret
  /-- `break`. -/
  | brk
  deriving DecidableEq, Repr

namespace Handler

variable {η : Type}

/-- `ReadRegister`. -/
def readRegister (num : Nat) : Handler η Int :=
  fun k => .ok (k.machine.readRegister num).toInt k

/-- `WriteRegister`. -/
def writeRegister (num : Nat) (value : Int) : Handler η Unit :=
  modify fun k => { k with machine := k.machine.writeRegister num (BitVec.ofInt 32 value) }

/-- The text of a string of C. -/
def text (s : CString) : String := String.ofList (s.map fun c => Char.ofNat c.toNat)

/-- `printf`, to the output of the host. -/
def printf (text : String) : Handler η Unit :=
  modify fun k => { k with printed := k.printed ++ [text] }

/-- Something that only the host is concerned with. -/
def onHost {α : Type} (x : HostM η α) : Handler η α := fun k =>
  match x k.host with
  | .ok a h => .ok a { k with host := h }
  | .error e h => .error e { k with host := h }

/-- Something that only the keyboard is concerned with. -/
def keyboard {α : Type} (f : Scan α) : Handler η α := fun k =>
  match f k.input with
  | some (a, rest) => .ok a { k with input := rest }
  | none => .error .blocked k

/-- `new char[size]`. -/
def newChar (size : Int) : Handler η Unit := assert (0 ≤ size)

/-- `fileTable[id]`. -/
def fileAt (fileSystem : Uid) (id : Int) : Handler η (Option OpenFile) :=
  fun k => .ok (k.fileTables fileSystem id.toNat) k

/-- An assignment to `fileTable[id]`, or to the object it points to. -/
def setFile (fileSystem : Uid) (id : Int) (file : Option OpenFile) : Handler η Unit :=
  modify fun k =>
    { k with
      fileTables := upd k.fileTables fileSystem (upd (k.fileTables fileSystem) id.toNat file) }

/-! ### Memory of the user -/

/-- What the handler prints about an exception that is no system call. -/
def exceptionText : ExceptionType → String
  | .pageFaultException => "\n\n khong tim duoc trang phu hop."
  | .readOnlyException => "\n\n loi co gang viet vao trang chi danh cho doc."
  | .busErrorException => "\n\n bien dich den dia chi thuc khong hop le."
  | .addressErrorException =>
      "\n\n dia chi truy cap ngoai khong gian vung nho hoac khong duoc danh dau."
  | .overflowException => "\n\n Cong tru so nguyen bi vuot qua gioi han."
  | .illegalInstrException => "\n\n instr chua duoc dinh nghia."
  | .numExceptionTypes => "\n\n Khong dung kieu du lieu so"
  | .noException => ""
  | .syscallException => ""

/-- The cases of `ExceptionHandler` for such an exception: `SysHalt` does not return. -/
def fault {α : Type} (which : ExceptionType) : Handler η α := do
  printf (exceptionText which)
  throw .halted

/-- `ReadMem` of one byte, called by the kernel. -/
def readMem (addr : Int) : Handler η Int := fun k =>
  match k.machine.readMem addr 1 with
  | none => .error .aborted k
  | some (.error which) => fault which k
  | some (.ok (value, machine)) => .ok value { k with machine := machine }

/-- `WriteMem` of one byte, called by the kernel. -/
def writeMem (addr value : Int) : Handler η Unit := fun k =>
  match k.machine.writeMem addr 1 value with
  | none => .error .aborted k
  | some (.error which) => fault which k
  | some (.ok machine) => .ok () { k with machine := machine }

/-- The loop of `User2System`, with `n` characters to go. -/
def user2SystemFrom : Nat → Int → Handler η CString
  | 0, _ => pure []
  | n + 1, virAddr => do
      let oneChar ← readMem (toInt32 virAddr)
      if oneChar = 0 then pure []
      else
        let rest ← user2SystemFrom n (virAddr + 1)
        pure (UInt8.ofNat (toUInt32 oneChar % 256) :: rest)

/-- `User2System`: what is in the buffer before its first zero. The rest of it is zero. -/
def user2System (virAddr limit : Int) : Handler η CString := do
  newChar (toInt32 (limit + 1))
  user2SystemFrom limit.toNat virAddr

/-- A byte as a signed character. -/
def signedChar (c : UInt8) : Int := (c.toNat : Int).bmod 256

/-- The loop of `System2User` from index `i`, with `n` characters to go. -/
def system2UserFrom (virtAddr : Int) (buffer : List UInt8) : Nat → Nat → Handler η Int
  | 0, i => pure i
  | n + 1, i => do
      let oneChar := signedChar (buffer.getD i 0)
      writeMem (toInt32 (virtAddr + i)) oneChar
      if oneChar = 0 then pure (i + 1) else system2UserFrom virtAddr buffer n (i + 1)

/-- `System2User`. -/
def system2User (virtAddr len : Int) (buffer : List UInt8) : Handler η Int :=
  if len < 0 then pure (-1)
  else if len = 0 then pure len
  else system2UserFrom virtAddr buffer len.toNat 0

/-! ### Calls into what the processes share -/

/-- The end of a wait: the answer, with the new state put in place. -/
def resume {α σ ι : Type} (put : σ → List ι → Kernel η) (k : Kernel η) :
    Option (Except Stop α × σ × List ι) → EStateM.Result Stop (Kernel η) α
  | none => .error .blocked k
  | some (.ok a, s, run) => .ok a (put s run)
  | some (.error e, s, run) => .error e (put s run)

/-- Process `u` is back in its handler, or there is nothing to go back to. -/
def backFromPTab (u : Uid) (s : PState) : Option (Except Stop Int) :=
  match s.status with
  | .halted => some (.error .halted)
  | .aborted => some (.error .aborted)
  | .crashed => some (.error .crashed)
  | .running =>
      match s.pc u with
      | .user ret => some (.ok (ret.getD (-1)))
      | _ => none

/-- A call of `ExecUpdate`, `JoinUpdate` or `ExitUpdate`. -/
def callPTab (a : Act) : Handler η Int := fun k =>
  let called := (PState.step k.pTab (k.currentThread, a)).getD k.pTab
  resume (fun s run => { k with pTab := s, pTabRun := run }) k
    (PState.sys.await (backFromPTab k.currentThread) called k.pTabRun)

/-- `ExecUpdate`. -/
def execUpdate (filename : CString) : Handler η Int :=
  callPTab (.exec (some (text filename)))

/-- `JoinUpdate`. -/
def joinUpdate (pID : Int) : Handler η Int := callPTab (.join pID)

/-- `ExitUpdate`. -/
def exitUpdate (exitCode : Int) : Handler η Int := callPTab (.exit exitCode)

/-- Thread `t` is back from the semaphore table. -/
def backFromSTab (t : Nat) (s : STableState) : Option (Except Stop Int) :=
  match s.pc t with
  | .out ret => some (.ok (ret.getD (-1)))
  | .waiting _ => none

/-- A call of `Create`, `Wait` or `Signal`. -/
def callSTab (c : STableCall) : Handler η Int := fun k =>
  let called := (STableState.step k.sTab (k.currentThread, c)).getD k.sTab
  resume (fun s run => { k with sTab := s, sTabRun := run }) k
    (STableState.sys.await (backFromSTab k.currentThread) called k.sTabRun)

/-- Thread `t` is back from the display, or the display stopped the kernel. -/
def backFromDisplay (t : Nat) (s : ConsoleState) : Option (Except Stop Unit) :=
  if s.aborted then some (.error .aborted)
  else if s.pc t = .idle then some (.ok ())
  else none

/-- A call of `PutChar` or `Write` of `SynchConsoleOutput`, or several calls of the former. -/
def callDisplay (c : ConsoleCall) : Handler η Unit := fun k =>
  let called := (ConsoleState.step k.display (.call k.currentThread c)).getD k.display
  resume (fun s run => { k with display := s, displayRun := run }) k
    (ConsoleState.sys.await (backFromDisplay k.currentThread) called k.displayRun)

/-! ### The exits -/

/-- `increasePC`: each program counter gets what the next one had. -/
def increasePC : Handler η Unit :=
  modify fun k =>
    let m := k.machine.writeRegister prevPCReg (k.machine.readRegister pcReg)
    let m := m.writeRegister pcReg (m.readRegister pcReg + 4)
    { k with machine := m.writeRegister nextPCReg (m.readRegister pcReg + 4) }

/-- `increasePC(); return;` -/
def leave : Handler η Exit := do
  increasePC
  pure .ret

/-- `increasePC(); break;` -/
def leaveSwitch : Handler η Exit := do
  increasePC
  pure .brk

/-- The exits with a result in register 2. -/
def leaveWith (result : Int) : Handler η Exit := do
  writeRegister 2 result
  leave

/-- The exits with a message as well. -/
def leaveSaying (text : String) (result : Int) : Handler η Exit := do
  printf text
  leaveWith result

/-! ## The cases -/

variable (H : HostOps η)

/-- `SC_Add`. -/
def scAdd : Handler η Exit := do
  let op1 ← readRegister 4
  let op2 ← readRegister 5
  leaveWith (toInt32 (op1 + op2))

/-- The end of `SC_ReadNum`, for a line without other characters. Its `INT_MIN` is `-INT_MAX`. -/
def leaveNumber (isNegative : Bool) (res : Int) (flagZero : Bool) : Handler η Exit :=
  let res := if isNegative then toInt64 (-res) else res
  if res > 2147483647 then leaveSaying "\nSo qua lon" 0
  else if res < -2147483647 then leaveSaying "\nSo qua be" 0
  else if isNegative ∧ res = 0 ∧ flagZero = false then
    leaveSaying "\nKhong phai la so nguyen ma chi la dau (-)" 0
  else leaveWith res

/-- `SC_ReadNum`. -/
def scReadNum : Handler η Exit := do
  let c ← keyboard skipBlanks
  if c = 45 ∨ (48 ≤ c ∧ c ≤ 57) then
    let res : Int := if c = 45 then 0 else c.toNat - 48
    match ← keyboard (fun input => readDigits input res false false) with
    | .number res flagZero => leaveNumber (c = 45) res flagZero
    | .other =>
        printf "\nError!!!This is not a number"
        writeRegister 2 0
        keyboard clearInputBuffer
        leave
  else if c = 10 then leaveSaying "\nNguoi dung chua nhap so" 0
  else
    writeRegister 2 0
    printf "khong phai so nguyen"
    keyboard clearInputBuffer
    leave

/-- `SC_PrintNum`. -/
def scPrintNum : Handler η Exit := do
  let number ← readRegister 4
  if number = 0 then
    callDisplay (.writeStdout [48])
    leave
  else
    callDisplay (.writeStdout (printNumBuffer number))
    leave

/-- `SC_PrintString`. -/
def scPrintString : Handler η Exit := do
  let virtAddr ← readRegister 4
  let buffer ← user2System virtAddr 255
  callDisplay (.printString buffer)
  leave

/-- `SC_ReadString`. The length is compared after the copy. -/
def scReadString : Handler η Exit := do
  let virAddr ← readRegister 4
  let length ← readRegister 5
  newChar length
  match ← keyboard (readLine length 0) with
  | none => throw .crashed
  | some strName =>
      let numBytes ← system2User virAddr strName.length strName
      if (strName.length : Int) > length then
        printf "\nChuoi nhap co do dai qua lon so voi quy dinh mat roi\n"
        leave
      else if numBytes = 0 then
        printf "Chuoi rong\n"
        leave
      else if numBytes > 2147483647 then
        printf "\nChuoi qua lon so vs he thong"
        leave
      else leave

/-- `SC_RandomNum`. -/
def scRandomNum : Handler η Exit := do
  let result ← onHost (hostCall H.rand)
  leaveWith result

/-- `SC_ReadChar`. -/
def scReadChar : Handler η Exit := do
  let result ← keyboard getChar
  if result = 10 then
    printf "\nERROR: Ban nhap ky tu rong!"
    leaveWith (signedChar result)
  else
    let c ← keyboard getChar
    if c ≠ 10 then
      printf "\nERROR: Ban nhap nhieu hon 1 ky tu!"
      keyboard clearInputBuffer
      leaveWith 0
    else leaveWith (signedChar result)

/-- `SC_PrintChar`. -/
def scPrintChar : Handler η Exit := do
  let c ← readRegister 4
  callDisplay (.printChar (UInt8.ofNat (toUInt32 c % 256)))
  leave

/-- `SC_CreateFile`. -/
def scCreateFile : Handler η Exit := do
  let virAddr ← readRegister 4
  let filename ← user2System virAddr 32
  if (← onHost (FileSystem.create H filename)) = false then
    leaveSaying ("\n Error create file '" ++ text filename ++ "'") (-1)
  else leaveWith 0

/-- `SC_Open`, once it has its arguments. A file that does not open leaves register 2 alone. -/
def openSlot (fileSystem : Uid) (fileName : CString) (type freeSlot : Int) : Handler η Exit :=
  if type = inputType then do
    writeRegister 2 0
    writeRegister 2 (-1)
    leaveSwitch
  else if type = outputType then do
    writeRegister 2 1
    writeRegister 2 (-1)
    leaveSwitch
  else if freeSlot ≠ -1 then do
    match ← onHost (FileSystem.openType H fileName type) with
    | some file =>
        setFile fileSystem freeSlot (some file)
        leaveWith freeSlot
    | none => leave
  else do
    writeRegister 2 (-1)
    leaveSwitch

/-- `SC_Open`. -/
def scOpen (fileSystem : Uid) : Handler η Exit := do
  let virAddr ← readRegister 4
  let type ← readRegister 5
  let fileName ← user2System virAddr 32
  let k ← get
  openSlot H fileSystem fileName type (FileSystem.findFreeSlot (k.fileTables fileSystem))

/-- `SC_Close`, once it has its argument. The destructor of the file closes its descriptor. -/
def closeSlot (fileSystem : Uid) (id : Int) : Handler η Exit :=
  if 2 ≤ id ∧ id ≤ (maxFileOpen : Int) - 1 then do
    match ← fileAt fileSystem id with
    | some file =>
        let _ ← onHost (closeFile H file.file)
        setFile fileSystem id none
        leaveWith 0
    | none => leaveWith (-1)
  else do
    writeRegister 2 (-1)
    leaveSwitch

/-- `SC_Close`. -/
def scClose (fileSystem : Uid) : Handler η Exit := do
  let id ← readRegister 4
  closeSlot H fileSystem id

/-- The end of `SC_Seek`, for a position that is not `-1`. -/
def seekTo (fileSystem : Uid) (id : Int) (file : OpenFile) (position : Int) : Handler η Exit := do
  let length ← onHost (file.length H)
  if position > length ∨ position < 0 then
    leaveSaying "\nLoi di chuyen con tro file den vi tri nay." (-1)
  else
    let file ← onHost (file.seek H position)
    setFile fileSystem id (some file)
    leaveWith position

/-- `SC_Seek`. -/
def scSeek (fileSystem : Uid) : Handler η Exit := do
  let position ← readRegister 4
  let id ← readRegister 5
  if id < 0 ∨ id ≥ maxFileOpen then
    leaveSaying "\nLoi di chuyen con tro vi id nam ngoai bang mo ta file." (-1)
  else
    match ← fileAt fileSystem id with
    | none => leaveSaying "\nLoi di chuyen con tro vi file nay khong ton tai." (-1)
    | some file =>
        if id = 0 ∨ id = 1 then leaveSaying "\nLoi di chuyen con tro tren file console." (-1)
        else if position = -1 then
          let position ← onHost (file.length H)
          seekTo H fileSystem id file position
        else seekTo H fileSystem id file position

/-- `SC_Read` from the keyboard. -/
def readStdin (virAddr charcount : Int) : Handler η Exit := do
  let ch ← onHost (hostCall fun s => (H.unset s, s))
  let r ← keyboard (readConsole charcount (UInt8.ofNat (toUInt32 ch % 256)))
  let _ ← system2User virAddr r.1 r.2
  leaveWith r.1

/-- `SC_Read` from a file of the host, from `curPosition` on. -/
def readFile (fileSystem : Uid) (virAddr charcount id : Int) (file : OpenFile) (curPosition : Int) :
    Handler η Exit := do
  let r ← onHost (file.read H charcount)
  setFile fileSystem id (some r.2)
  if r.1.1 > 0 then
    let p ← onHost (r.2.getCurrentOffset H)
    setFile fileSystem id (some p.2)
    let readBytes := toInt32 (p.1 - curPosition)
    let _ ← system2User virAddr readBytes r.1.2
    leaveWith readBytes
  else leaveWith (-2)

/-- `SC_Read`. -/
def scRead (fileSystem : Uid) : Handler η Exit := do
  let virAddr ← readRegister 4
  let charcount ← readRegister 5
  let id ← readRegister 6
  if id < 0 ∨ id > maxFileOpen then leaveSaying "\nInvalid file id." (-1)
  else
    match ← fileAt fileSystem id with
    | none => leaveSaying "\nFile does not exist in file table" (-1)
    | some file =>
        if id = indexStdout then leaveSaying "\nCan't read file stdout." (-1)
        else
          let p ← onHost (file.getCurrentOffset H)
          setFile fileSystem id (some p.2)
          newChar charcount
          if id = indexStdin then readStdin H virAddr charcount
          else readFile H fileSystem virAddr charcount id p.2 p.1

/-- `SC_Join`. -/
def scJoin : Handler η Exit := do
  let pID ← readRegister 4
  let result ← joinUpdate pID
  leaveWith result

/-- `SC_Write` to a file of the host, from `curPosition` on. There is neither `return` nor `break`
after a write of nothing, nor for a file of another type: what follows is `SC_Join`. -/
def writeToFile (fileSystem : Uid) (buffer : List UInt8) (charcount id : Int) (file : OpenFile)
    (curPosition : Int) : Handler η Exit := do
  if file.type = readwriteType then
    let w ← onHost (file.write H buffer charcount)
    setFile fileSystem id (some w.2)
    if w.1 > 0 then
      let p ← onHost (w.2.getCurrentOffset H)
      setFile fileSystem id (some p.2)
      leaveWith (toInt32 (p.1 - curPosition))
    else
      writeRegister 2 (-2)
      scJoin
  else scJoin

/-- `SC_Write`. -/
def scWrite (fileSystem : Uid) : Handler η Exit := do
  let virAddr ← readRegister 4
  let charcount ← readRegister 5
  let id ← readRegister 6
  if id < 0 ∨ id > maxFileOpen then leaveSaying "\nInvalid file id." (-1)
  else
    match ← fileAt fileSystem id with
    | none => leaveSaying "\nFile does not exist in file table" (-1)
    | some file =>
        if file.type = readonlyType ∨ id = indexStdin then
          leaveSaying "\nCan't write in file stdin or file only read." (-1)
        else
          let p ← onHost (file.getCurrentOffset H)
          setFile fileSystem id (some p.2)
          let buffer ← user2System virAddr charcount
          if id = indexStdout then
            callDisplay (.writeStdout buffer)
            leaveWith ((buffer.length : Int) - 1)
          else
            -- the whole array of the kernel, with the zeros that follow the text
            let array := buffer ++ List.replicate (charcount.toNat + 1 - buffer.length) 0
            writeToFile H fileSystem array charcount id p.2 p.1

/-- `SC_Exec`. The file is opened once to see whether it is there. -/
def scExec : Handler η Exit := do
  let virtAddr ← readRegister 4
  let name ← user2System virtAddr 33
  match ← onHost (FileSystem.open_ H name) with
  | none => leaveSaying "\nExec:: Can't open this file." (-1)
  | some file =>
      let _ ← onHost (closeFile H file.file)
      let id ← execUpdate name
      leaveWith id

/-- `SC_Exit`. -/
def scExit : Handler η Exit := do
  let exitStatus ← readRegister 4
  let _ ← exitUpdate exitStatus
  leave

/-- What the three cases for semaphores do once they have their arguments. -/
def semaphoreCase (virtAddr : Int) (call : CString → STableCall) (failed : String) :
    Handler η Exit := do
  let name ← user2System virtAddr 33
  let res ← callSTab (call name)
  if res = -1 then leaveSaying failed (-1) else leaveWith res

/-- `SC_CreateSemaphore`. -/
def scCreateSemaphore : Handler η Exit := do
  let virtAddr ← readRegister 4
  let semval ← readRegister 5
  semaphoreCase virtAddr (fun name => .create name semval) "\n Khong the khoi tao semaphore"

/-- `SC_Wait`. -/
def scWait : Handler η Exit := do
  let virtAddr ← readRegister 4
  semaphoreCase virtAddr .wait "\n Khong ton tai ten semaphore nay!"

/-- `SC_Signal`. -/
def scSignal : Handler η Exit := do
  let virtAddr ← readRegister 4
  semaphoreCase virtAddr .signal "\n Khong ton tai ten semaphore nay!"

end Handler

/-! ## The dispatcher -/

/-- The system calls that there is a case for. -/
inductive Syscall where
  | halt
  | exit
  | exec
  | join
  | createFile
  | open_
  | read
  | write
  | seek
  | close
  | add
  | readNum
  | randomNum
  | readChar
  | printChar
  | printNum
  | readString
  | printString
  | createSemaphore
  | wait
  | signal
  deriving DecidableEq, Repr

/-- The codes of `syscall.h`. -/
def Syscall.ofCode (type : Int) : Option Syscall :=
  if type = 0 then some .halt
  else if type = 1 then some .exit
  else if type = 2 then some .exec
  else if type = 3 then some .join
  else if type = 4 then some .createFile
  else if type = 6 then some .open_
  else if type = 7 then some .read
  else if type = 8 then some .write
  else if type = 9 then some .seek
  else if type = 10 then some .close
  else if type = 42 then some .add
  else if type = 43 then some .readNum
  else if type = 44 then some .randomNum
  else if type = 45 then some .readChar
  else if type = 46 then some .printChar
  else if type = 47 then some .printNum
  else if type = 50 then some .readString
  else if type = 51 then some .printString
  else if type = 60 then some .createSemaphore
  else if type = 61 then some .wait
  else if type = 62 then some .signal
  else none

/-- The case of a system call. `SysHalt` does not return. -/
def Syscall.body {η : Type} (H : HostOps η) (fileSystem : Uid) : Syscall → Handler η Exit
  | .halt => throw .halted
  | .exit => Handler.scExit
  | .exec => Handler.scExec H
  | .join => Handler.scJoin
  | .createFile => Handler.scCreateFile H
  | .open_ => Handler.scOpen H fileSystem
  | .read => Handler.scRead H fileSystem
  | .write => Handler.scWrite H fileSystem
  | .seek => Handler.scSeek H fileSystem
  | .close => Handler.scClose H fileSystem
  | .add => Handler.scAdd
  | .readNum => Handler.scReadNum
  | .randomNum => Handler.scRandomNum H
  | .readChar => Handler.scReadChar
  | .printChar => Handler.scPrintChar
  | .printNum => Handler.scPrintNum
  | .readString => Handler.scReadString
  | .printString => Handler.scPrintString
  | .createSemaphore => Handler.scCreateSemaphore
  | .wait => Handler.scWait
  | .signal => Handler.scSignal

namespace Kernel

variable {η : Type}

/-- `getFileTable(currentThread->processID)`, named by the PCB it belongs to. -/
def fileSystem (k : Kernel η) : Option Uid := k.pTab.pcb (k.pTab.obj k.currentThread).pid

/-- The system call that register 2 asks for, if there is a case for it. -/
def syscall (k : Kernel η) : Option Syscall := Syscall.ofCode (k.machine.readRegister 2).toInt

/-- The two switches. -/
def dispatch (H : HostOps η) (which : ExceptionType) : Handler η Exit := fun k =>
  match k.fileSystem with
  | none => .error .crashed k
  | some fileSystem =>
      match which with
      | .noException => .ok .ret k
      | .syscallException =>
          match k.syscall with
          | some c => c.body H fileSystem k
          | none => .ok .brk k
      | which => Handler.fault which k

/-- How `ExceptionHandler` ends. -/
inductive Outcome (η : Type) where
  /-- It returns. -/
  | returned (k : Kernel η)
  /-- It reaches the `ASSERTNOTREACHED` at its end. -/
  | notReached
  /-- It stops before. -/
  | stopped (why : Stop)

/-- `ExceptionHandler`. -/
def exceptionHandler (H : HostOps η) (which : ExceptionType) (k : Kernel η) : Outcome η :=
  match dispatch H which k with
  | .ok .ret k' => .returned k'
  | .ok .brk _ => .notReached
  | .error why _ => .stopped why

end Kernel

end Nachos
