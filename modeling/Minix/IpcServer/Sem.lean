/-
  IpcServer/Sem.lean --- the semaphores of the IPC server: `servers/ipc/sem.c`, `utility.c` and
  the loop of `main.c`.

  A function of the server has no result when it reads or moves memory outside of a waiting
  list.  Messages to processes are returned in the order in which they are sent.  What the
  caller's memory and the allocator answer is a part of the request.
-/
import Mathlib.Algebra.Ring.Nat
import Mathlib.Algebra.Ring.Int.Defs
import Minix.Foundation.CountedArray

set_option autoImplicit false

namespace Minix.IpcServer

open Minix.Foundation

/-! ## Constants of `sys/ipc.h` and `sys/sem.h` -/

def semmni : Nat := 128

def semmsl : Nat := 250

def semopm : Nat := 32

def semvmx : Nat := 32767

def ipcCreat : Nat := 0o1000

def ipcExcl : Nat := 0o2000

/-- `IPC_PRIVATE` -/
def ipcPrivate : Int := 0

/-- `NR_PROCS` -/
def nrProcs : Nat := 256

/-- Values of `unsigned short`. -/
def ushortSize : Nat := 65536

abbrev Endpoint := Int

/-- The type of a reply. -/
inductive Status
  | ok
  | eperm
  | enoent
  | eintr
  | e2big
  | eagain
  | enomem
  | eacces
  | efault
  | eexist
  | einval
  | efbig
  | enospc
  | erange
  | eidrm
deriving DecidableEq, Repr

/-! ## Tables -/

/-- `struct waiting` -/
structure Waiting where
  who : Endpoint
  val : Int
deriving DecidableEq, Repr

/-- `struct semaphore`; `semzcnt` and `semncnt` are the counts of the two lists. -/
structure Semaphore where
  semval : Nat
  zlist : CountedArray Waiting
  nlist : CountedArray Waiting
  sempid : Int
deriving DecidableEq, Repr

/-- A semaphore after `memset`. -/
def Semaphore.clear : Semaphore := ⟨0, .empty, .empty, 0⟩

/-- The part of `struct ipc_perm` that is read. -/
structure IpcPerm where
  uid : Nat
  gid : Nat
  cuid : Nat
  cgid : Nat
  mode : Nat
deriving DecidableEq, Repr

/-- `struct sem_struct`; there are `sem_nsems` semaphores. -/
structure SemStruct where
  key : Int
  id : Int
  semPerm : IpcPerm
  sems : List Semaphore
deriving DecidableEq, Repr

/-- The tables of the server: `sem_list` up to `sem_list_nr`, and `identifier`. -/
structure State where
  semList : List SemStruct
  identifier : Int
deriving DecidableEq, Repr

/-- `struct sembuf`; of the flags only `IPC_NOWAIT` is read. -/
structure Sembuf where
  semNum : Nat
  semOp : Int
  nowait : Bool
deriving DecidableEq, Repr

/-- Who calls: the endpoint, and what `getnuid`, `getngid` and `getnpid` answer. -/
structure Caller where
  who : Endpoint
  uid : Nat
  gid : Nat
  pid : Int
deriving DecidableEq, Repr

/-- A message sent with `sendnb`. -/
structure Send where
  dest : Endpoint
  type : Status
deriving DecidableEq, Repr

/-- The file mode class that applies: a shift of the mode. -/
def permShift (req : IpcPerm) (c : Caller) : Nat :=
  if c.uid = req.uid ∨ c.uid = req.cuid then 6
  else if c.gid = req.gid ∨ c.gid = req.cgid then 3
  else 0

/-- `check_perm` -/
def checkPerm (req : IpcPerm) (c : Caller) (mode : Nat) : Bool :=
  let mode := mode &&& 0o666
  if c.uid = 0 then true
  else
    let reqMode := (req.mode >>> permShift req c) &&& 7
    let curMode := (mode >>> permShift req c) &&& 7
    curMode ≠ 0 ∧ curMode &&& reqMode = curMode

/-! ## Sets -/

/-- `sem_find_key`, as an index of `sem_list` -/
def State.semFindKey (s : State) (key : Int) : Option Nat :=
  if key = ipcPrivate then none else s.semList.findIdx? fun sem => sem.key = key

/-- `sem_find_id`, as an index of `sem_list` -/
def State.semFindId (s : State) (id : Int) : Option Nat :=
  s.semList.findIdx? fun sem => sem.id = id

/-- The set with an identifier, and its index. -/
def State.semAt (s : State) (id : Int) : Option (Nat × SemStruct) :=
  (s.semFindId id).bind fun i => (s.semList[i]?).map fun sem => (i, sem)

/-- What `do_semget` puts at the end of the list. -/
def newSet (c : Caller) (key : Int) (nsems : Nat) (flag : Nat) (id : Int) : SemStruct where
  key := key
  id := id
  semPerm := ⟨c.uid, c.gid, c.uid, c.gid, flag &&& 0o777⟩
  sems := List.replicate nsems .clear

/-- `do_semget`: the result, `SEMGET_RETID` and the tables -/
def State.doSemget (s : State) (c : Caller) (key nsems : Int) (flag : Nat) : Status × Option Int × State :=
  match (s.semFindKey key).bind (s.semList[·]?) with
  | some sem =>
      if flag &&& ipcCreat ≠ 0 ∧ flag &&& ipcExcl ≠ 0 then (.eexist, none, s)
      else if ¬ checkPerm sem.semPerm c flag then (.eacces, none, s)
      -- The comparison is one of unsigned numbers.
      else if nsems < 0 ∨ (sem.sems.length : Int) < nsems then (.einval, none, s)
      else (.ok, some sem.id, s)
  | none =>
      if flag &&& ipcCreat = 0 then (.enoent, none, s)
      else if nsems < 0 ∨ (semmsl : Int) ≤ nsems then (.einval, none, s)
      else if s.semList.length = semmni then (.enospc, none, s)
      else
        (.ok, some s.identifier,
          { semList := s.semList ++ [newSet c key nsems.toNat flag s.identifier], identifier := s.identifier + 1 })

/-- `remove_semaphore`: the last set takes the place of the removed one. -/
def State.removeSemaphore (s : State) (i : Nat) : State :=
  match s.semList.getLast? with
  | none => s
  | some last => { s with semList := (s.semList.set i last).dropLast }

/-! ## Waking -/

/-- A function that changes an entry and sends messages, over all entries of a table. -/
def sweep {α : Type} (f : α → Option (α × List Send)) : List α → Option (List α × List Send)
  | [] => some ([], [])
  | x :: rest =>
      (f x).bind fun (x', sent) => (sweep f rest).map fun (rest', more) => (x' :: rest', sent ++ more)

/-- `remove_process` for one list: the first entry of the process. -/
def withdraw (pt : Endpoint) (l : CountedArray Waiting) : Option (CountedArray Waiting × List Send) :=
  match l.search (fun w => w.who = pt) 0 l.count with
  | none => none
  | some none => some (l, [])
  | some (some k) => (l.remove k).map fun l' => (l', [⟨pt, .eintr⟩])

/-- `remove_process` for one semaphore -/
def Semaphore.removeProcess (pt : Endpoint) (s : Semaphore) : Option (Semaphore × List Send) :=
  (withdraw pt s.zlist).bind fun (z, sent) =>
    (withdraw pt s.nlist).map fun (n, more) => ({ s with zlist := z, nlist := n }, sent ++ more)

def SemStruct.removeProcess (pt : Endpoint) (sem : SemStruct) : Option (SemStruct × List Send) :=
  (sweep (Semaphore.removeProcess pt) sem.sems).map fun (sems, sent) => ({ sem with sems := sems }, sent)

/-- `remove_process` -/
def State.removeProcess (s : State) (pt : Endpoint) : Option (State × List Send) :=
  (sweep (SemStruct.removeProcess pt) s.semList).map fun (l, sent) => ({ s with semList := l }, sent)

/-- The messages of `update_one_semaphore(sem, 1)` for one semaphore. -/
def Semaphore.dismiss (s : Semaphore) : Option (List Send) :=
  (s.zlist.read 0 s.zlist.count).bind fun z =>
    (s.nlist.read 0 s.nlist.count).map fun n => (z ++ n).map fun w => ⟨w.who, .eidrm⟩

/-- The messages of `update_one_semaphore(sem, 1)`. -/
def SemStruct.dismiss (sem : SemStruct) : Option (List Send) :=
  (sweep (fun s => s.dismiss.map fun sent => (s, sent)) sem.sems).map (·.2)

/-- A semaphore of value zero lets the first process in `zlist` go on. -/
def Semaphore.updateZero (s : Semaphore) : Option (Semaphore × List Send) :=
  if s.zlist.block.isSome ∧ s.semval = 0 then
    (s.zlist.get 0).bind fun w => (s.zlist.remove 0).map fun z => ({ s with zlist := z }, [⟨w.who, .ok⟩])
  else some (s, [])

/-- A semaphore lets the first process in `nlist` go on that it has enough for. -/
def Semaphore.updateIncrease (s : Semaphore) : Option (Semaphore × List Send) :=
  if s.nlist.block.isSome then
    match s.nlist.search (fun w => w.val ≤ s.semval) 0 s.nlist.count with
    | none => none
    | some none => some (s, [])
    | some (some j) =>
        (s.nlist.get j).bind fun w => (s.nlist.remove j).map fun n =>
          ({ s with semval := (((s.semval : Int) - w.val) % ushortSize).toNat, nlist := n }, [⟨w.who, .ok⟩])
  else some (s, [])

def Semaphore.update (s : Semaphore) : Option (Semaphore × List Send) :=
  s.updateZero.bind fun (s1, sent) => s1.updateIncrease.map fun (s2, more) => (s2, sent ++ more)

/-- `update_one_semaphore(sem, 0)` -/
def SemStruct.update (sem : SemStruct) : Option (SemStruct × List Send) :=
  (sweep Semaphore.update sem.sems).map fun (sems, sent) => ({ sem with sems := sems }, sent)

/-- `update_semaphores` -/
def State.updateSemaphores (s : State) : Option (State × List Send) :=
  (sweep SemStruct.update s.semList).map fun (l, sent) => ({ s with semList := l }, sent)

/-! ## `do_semctl` -/

/-- The command, with its argument as far as the caller's memory gives it: `none` for a copy that
fails. -/
inductive SemctlCmd
  | ipcStat (ds : Bool) (copied : Bool)
  | ipcSet (ds : Option (Nat × Nat × Nat))
  | ipcRmid
  | ipcInfo
  | semInfo
  | semStat
  | getall (memory : Bool) (copied : Bool)
  | getncnt
  | getpid
  | getval
  | getzcnt
  | setall (memory : Bool) (copied : Bool) (buf : Nat → Nat)
  | setval (val : Int)
  | unknown

/-- What goes to the caller's memory. -/
inductive Copied
  | ds (perm : IpcPerm) (nsems : Nat)
  | vals (vals : List Nat)
deriving DecidableEq, Repr

/-- The answer of the main loop: the result, `SEMGET_RETID` or `SHMCTL_RET`, and what is copied. -/
structure Answer where
  type : Status
  ret : Option Int
  copied : Option Copied
deriving DecidableEq, Repr

def Answer.of (type : Status) : Answer := ⟨type, none, none⟩

/-- The queries that look at one semaphore. -/
def SemStruct.query (sem : SemStruct) (num : Int) (f : Semaphore → Int) : Answer :=
  if num < 0 then .of .einval
  else
    match sem.sems[num.toNat]? with
    | none => .of .einval
    | some s => ⟨.ok, some (f s), none⟩

/-- The owner, the creator or the superuser. -/
def SemStruct.owned (sem : SemStruct) (c : Caller) : Bool :=
  c.uid = sem.semPerm.cuid ∨ c.uid = sem.semPerm.uid ∨ c.uid = 0

/-- The loop of `SETALL` from index `i` on: it stops at the first value that is too large. -/
def storeAll (buf : Nat → Nat) : Nat → List Semaphore → List Semaphore × Bool
  | _, [] => ([], true)
  | i, s :: sems =>
      if semvmx < buf i then (s :: sems, false)
      else ({ s with semval := buf i } :: (storeAll buf (i + 1) sems).1, (storeAll buf (i + 1) sems).2)

/-- A set of the table, changed. -/
def State.setSet (s : State) (i : Nat) (sem : SemStruct) : State := { s with semList := s.semList.set i sem }

/-- The part of `do_semctl` before `update_semaphores`: the answer, the tables, the messages, and
whether `update_semaphores` follows. -/
def State.semctl (s : State) (c : Caller) (id num : Int) (cmd : SemctlCmd) :
    Option (Answer × State × List Send × Bool) :=
  match s.semAt id with
  | none => some (.of .einval, s, [], false)
  | some (i, sem) =>
      match cmd with
      | .ipcSet ds =>
          if ¬ sem.owned c then some (.of .eperm, s, [], false)
          else
            match ds with
            | none => some (.of .einval, s, [], false)
            | some (uid, gid, mode) =>
                let perm := { sem.semPerm with
                  uid := uid, gid := gid, mode := (sem.semPerm.mode - (sem.semPerm.mode &&& 0o777)) ||| (mode &&& 0o666) }
                some (.of .ok, s.setSet i { sem with semPerm := perm }, [], false)
      | .ipcRmid =>
          if ¬ sem.owned c then some (.of .eperm, s, [], false)
          else sem.dismiss.map fun sent => (.of .ok, s.removeSemaphore i, sent, false)
      | cmd =>
          if ¬ checkPerm sem.semPerm c 0o444 then some (.of .eacces, s, [], false)
          else
            match cmd with
            | .ipcStat ds copied =>
                if ¬ ds then some (.of .efault, s, [], false)
                else if ¬ copied then some (.of .einval, s, [], false)
                else some (⟨.ok, none, some (.ds sem.semPerm sem.sems.length)⟩, s, [], false)
            | .getall memory copied =>
                if ¬ memory then some (.of .enomem, s, [], false)
                else if ¬ copied then some (.of .einval, s, [], false)
                else some (⟨.ok, none, some (.vals (sem.sems.map (·.semval)))⟩, s, [], false)
            | .getncnt => some (sem.query num fun s => s.nlist.count, s, [], false)
            | .getpid => some (sem.query num fun s => s.sempid, s, [], false)
            | .getval => some (sem.query num fun s => s.semval, s, [], false)
            | .getzcnt => some (sem.query num fun s => s.zlist.count, s, [], false)
            | .setall memory copied buf =>
                if ¬ memory then some (.of .enomem, s, [], false)
                else if ¬ copied then some (.of .einval, s, [], false)
                else
                  some (.of (if (storeAll buf 0 sem.sems).2 then .ok else .erange),
                    s.setSet i { sem with sems := (storeAll buf 0 sem.sems).1 }, [], true)
            | .setval val =>
                if ¬ checkPerm sem.semPerm c 0o222 then some (.of .eacces, s, [], false)
                else if num < 0 then some (.of .einval, s, [], false)
                else
                  match sem.sems[num.toNat]? with
                  | none => some (.of .einval, s, [], false)
                  | some sema =>
                      if val < 0 ∨ (semvmx : Int) < val then some (.of .erange, s, [], false)
                      else
                        some (.of .ok, s.setSet i { sem with sems := sem.sems.set num.toNat { sema with semval := val.toNat } },
                          [], true)
            | .unknown => some (.of .einval, s, [], false)
            | _ => some (.of .ok, s, [], false)

/-! ## `do_semop` -/

/-- The operation can be done on this value. -/
def Sembuf.possible (o : Sembuf) (val : Nat) : Bool :=
  if o.semOp = 0 then val = 0 else -o.semOp ≤ val

/-- The operation is refused because it may not wait. -/
def Sembuf.again (o : Sembuf) (val : Nat) : Bool := o.nowait ∧ ¬ o.possible val

/-- The value of a semaphore of the set. -/
def valueAt (sems : List Semaphore) (num : Nat) : Nat := (sems[num]?.getD .clear).semval

/-- The tests that come before the operations. -/
def SemStruct.semopTest (sem : SemStruct) (ops : List Sembuf) : Status :=
  if ∃ o ∈ ops, sem.sems.length ≤ o.semNum then .efbig
  else if ¬ (ops.map (·.semNum)).Nodup then .einval
  else if ∃ o ∈ ops, o.again (valueAt sem.sems o.semNum) then .eagain
  else .ok

/-- What an operation does to its semaphore: no permission, done, the caller has to wait, or the
list of waiting processes is lost. -/
inductive Turn
  | refused (s : Semaphore)
  | done (s : Semaphore)
  | waits (s : Semaphore)
  | lost (s : Semaphore)
deriving DecidableEq, Repr

/-- `s->semval += op_n` -/
def Semaphore.add (s : Semaphore) (op : Int) : Semaphore :=
  { s with semval := (((s.semval : Int) + op) % ushortSize).toNat }

/-- The caller goes to the end of `zlist`. -/
def Semaphore.awaitZero (s : Semaphore) (alloc : Bool) (w : Waiting) : Option Turn :=
  (s.zlist.push ushortSize alloc w).map fun (z, kept) =>
    if kept then .waits { s with zlist := z } else .lost { s with zlist := z }

/-- The caller goes to the end of `nlist`. -/
def Semaphore.awaitIncrease (s : Semaphore) (alloc : Bool) (w : Waiting) : Option Turn :=
  (s.nlist.push ushortSize alloc w).map fun (n, kept) =>
    if kept then .waits { s with nlist := n } else .lost { s with nlist := n }

/-- One operation.  `alter` is the check for the permission, `alloc` what `realloc` answers. -/
def Sembuf.turn (o : Sembuf) (c : Caller) (alter alloc : Bool) (s : Semaphore) : Option Turn :=
  let s := { s with sempid := c.pid }
  if 0 < o.semOp then
    if ¬ alter then some (.refused s) else some (.done (s.add o.semOp))
  else if o.semOp = 0 then
    if s.semval ≠ 0 then s.awaitZero alloc ⟨c.who, o.semOp⟩ else some (.done s)
  else
    if ¬ alter then some (.refused s)
    else if -o.semOp ≤ (s.semval : Int) then some (.done (s.add o.semOp))
    else s.awaitIncrease alloc ⟨c.who, -o.semOp⟩

/-- The loop over the operations: the result, the semaphores and `no_reply`. -/
def semopLoop (c : Caller) (alter : Bool) (alloc : Nat → Bool) :
    List Sembuf → List Semaphore → Nat → Option (Status × List Semaphore × Nat)
  | [], sems, noReply => some (.ok, sems, noReply)
  | o :: rest, sems, noReply =>
      match o.turn c alter (alloc o.semNum) (sems[o.semNum]?.getD .clear) with
      | none => none
      | some (.refused s) => some (.eacces, sems.set o.semNum s, noReply)
      | some (.done s) => semopLoop c alter alloc rest (sems.set o.semNum s) noReply
      | some (.waits s) => semopLoop c alter alloc rest (sems.set o.semNum s) (noReply + 1)
      | some (.lost s) => some (.ok, sems.set o.semNum s, noReply)

/-- What a `semop` request finds: the operations in the caller's memory, and what `malloc`,
`sys_datacopy` and `realloc` answer. -/
structure SemopArgs where
  ops : List Sembuf
  memory : Bool
  copied : Bool
  alloc : Nat → Bool

/-- The tests of `do_semop` up to the loop: the set, or the error. -/
def State.semopSet (s : State) (c : Caller) (id : Int) (a : SemopArgs) : Except Status (Nat × SemStruct) :=
  match s.semAt id with
  | none => .error .einval
  | some (i, sem) =>
      if a.ops.length = 0 then .error .einval
      else if semopm < a.ops.length then .error .e2big
      else if ¬ checkPerm sem.semPerm c 0o444 then .error .eacces
      else if ¬ a.memory then .error .enomem
      else if ¬ a.copied then .error .einval
      else
        match sem.semopTest a.ops with
        | .ok => .ok (i, sem)
        | r => .error r

/-- The part of `do_semop` before `update_semaphores`: the tables, and the reply to the caller if
there is one. -/
def State.semop (s : State) (c : Caller) (id : Int) (a : SemopArgs) : Option (State × Option Status) :=
  match s.semopSet c id a with
  | .error r => some (s, some r)
  | .ok (i, sem) =>
      (semopLoop c (checkPerm sem.semPerm c 0o222) a.alloc a.ops sem.sems 0).map fun (r, sems, noReply) =>
        (s.setSet i { sem with sems := sems }, if r ≠ .ok ∨ noReply = 0 then some r else none)

/-! ## The server -/

/-- What the server receives.  A notification from VM is answered with queries for processes that
exit or get a signal.  The calls for shared memory take identifiers. -/
inductive Input
  | semget (c : Caller) (key nsems : Int) (flag : Nat)
  | semctl (c : Caller) (id num : Int) (cmd : SemctlCmd)
  | semop (c : Caller) (id : Int) (a : SemopArgs)
  | exits (pts : List Endpoint)
  | shm (ids : Nat)

/-- `sem_process_vm_notify` -/
def State.semProcessVmNotify (s : State) : List Endpoint → Option (State × List Send)
  | [] => some (s, [])
  | pt :: pts =>
      (s.removeProcess pt).bind fun (s1, sent) =>
        (s1.semProcessVmNotify pts).map fun (s2, more) => (s2, sent ++ more)

/-- The rest of a request: `update_semaphores` where the source calls it. -/
def State.afterwards (s : State) (update : Bool) : Option (State × List Send) :=
  if update then s.updateSemaphores else some (s, [])

/-- What the server does with one message: the tables, the answer of the main loop, the reply of
`do_semop` to its caller, and the messages to processes that wait in `semop`. -/
structure Outcome where
  state : State
  answer : Option Answer
  reply : Option Status
  sent : List Send
deriving DecidableEq, Repr

/-- One round of the main loop. -/
def State.handle (s : State) : Input → Option Outcome
  | .semget c key nsems flag =>
      let (r, id, s1) := s.doSemget c key nsems flag
      some ⟨s1, some ⟨r, id, none⟩, none, []⟩
  | .semctl c id num cmd =>
      (s.semctl c id num cmd).bind fun (answer, s1, sent, update) =>
        (s1.afterwards update).map fun (s2, more) => ⟨s2, some answer, none, sent ++ more⟩
  | .semop c id a =>
      (s.semop c id a).bind fun (s1, reply) =>
        (s1.afterwards true).map fun (s2, woken) => ⟨s2, none, reply, woken⟩
  | .exits pts => (s.semProcessVmNotify pts).map fun (s1, sent) => ⟨s1, none, none, sent⟩
  | .shm ids => some ⟨{ s with identifier := s.identifier + ids }, none, none, []⟩

end Minix.IpcServer
