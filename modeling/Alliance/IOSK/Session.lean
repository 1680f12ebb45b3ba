/-!
# Sessions of the I/O service (`internal.c`, `internal.h`)

`IOSKinit` marks the entries of the session table as free, `IOSKopenSession` looks for an
entry with the mark, and `IOSKcloseSession` is to give the entry back. An entry is one
unsigned number, and the mark is -1, which the search compares with 0.

A call is `none` where it does not return: it waits for a mutex that is held, reads past a
table, or has not ended after so many rounds of its loop.
-/

namespace Alliance.IOSK

/-- `UWORD32`. -/
abbrev UWORD32 := BitVec 32

/-- `MAXCHAINLENGTH`. -/
def MAXCHAINLENGTH : Nat := 4

/-- `MAXSESSIONS`. -/
def MAXSESSIONS : Nat := 32

/-- `NOMOREHANDLES`. -/
def NOMOREHANDLES : UWORD32 := 0xffffffff

/-- `LMState`. -/
inductive LMState where
  | loaded
  | unloaded
  deriving DecidableEq

/-- `IOSKDeviceTable`: the modules of a chain, and the index of the last one. -/
structure IOSKDeviceTable where
  element : Nat → LMState
  last : UWORD32

/-- The memory of the service. -/
structure IOSK where
  /-- `session[i].chainNumber`. -/
  session : Nat → UWORD32
  deviceTable : Nat → IOSKDeviceTable
  sessionMutex : Bool
  deviceTableMutex : Bool

/-- `IOSKinit`, where the configuration describes these chains: -1 in each entry, and the
mutexes free. -/
def ioskInit (deviceTable : Nat → IOSKDeviceTable) : IOSK where
  session _ := BitVec.ofInt 32 (-1)
  deviceTable := deviceTable
  sessionMutex := false
  deviceTableMutex := false

/-- `KLmutexLock(&sessionMutex)`. -/
def lockSessions (s : IOSK) : Option IOSK :=
  if s.sessionMutex then none else some { s with sessionMutex := true }

/-- `KLmutexLock(&deviceTableMutex)`. -/
def lockDevices (s : IOSK) : Option IOSK :=
  if s.deviceTableMutex then none else some { s with deviceTableMutex := true }

/-- The search of `IOSKopenSession`: the first entry that is less than 0. -/
def findSession (s : IOSK) : Option Nat :=
  (List.range MAXSESSIONS).find? fun i => (s.session i).ult 0

/-- `for(;i>=0;i--)` over the elements of a chain, of which only the state is read. -/
def scanChain (t : IOSKDeviceTable) : Nat → UWORD32 → Option Unit
  | 0, _ => none
  | rounds + 1, i =>
    if (0 : UWORD32).ule i then
      if i.toNat < MAXCHAINLENGTH then
        match t.element i.toNat with
        | .loaded => scanChain t rounds (i - 1)
        | .unloaded => scanChain t rounds (i - 1)
      else
        none
    else
      some ()

/-- `IOSKopenSession`, with the handle that it returns. The chain is always number 0. -/
def ioskOpenSession (rounds : Nat) (s : IOSK) : Option (UWORD32 × IOSK) :=
  (lockSessions s).bind fun s =>
  match findSession s with
  | none => some (NOMOREHANDLES, { s with sessionMutex := false })
  | some handle =>
    let s := { s with session := fun i => if i = handle then 0 else s.session i }
    (lockDevices s).bind fun s =>
    (scanChain (s.deviceTable 0) rounds (s.deviceTable 0).last).bind fun _ =>
      some (BitVec.ofNat 32 handle,
        { s with
          deviceTableMutex := false
          sessionMutex := false })

/-- `IOSKcloseSession`: between the locks there are three comments. -/
def ioskCloseSession (s : IOSK) (_session : UWORD32) : Option (Bool × IOSK) :=
  (lockSessions s).bind fun s => some (true, { s with sessionMutex := false })

/-! ## What sessions are for -/

/-- A call, with the handle that is closed. -/
inductive SessionOp where
  | openSession
  | closeSession (handle : UWORD32)
  deriving DecidableEq

/-- The calls do what a table of sessions is for, where `held` are the handles of the
sessions that are open. An open returns, with a handle that nobody holds exactly if fewer
than `MAXSESSIONS` are held. A close returns, and leaves the entries of the others alone;
its handle is not held from then on. -/
def Served (s : IOSK) (held : List UWORD32) : List SessionOp → Prop
  | [] => True
  | .openSession :: ops => ∃ rounds handle s', ioskOpenSession rounds s = some (handle, s') ∧
      (handle ≠ NOMOREHANDLES ↔ held.length < MAXSESSIONS) ∧
      (handle ≠ NOMOREHANDLES → handle ∉ held) ∧
      Served s' (if handle = NOMOREHANDLES then held else handle :: held) ops
  | .closeSession handle :: ops => ∃ s', ioskCloseSession s handle = some (true, s') ∧
      (∀ i, i ≠ handle.toNat → s'.session i = s.session i) ∧
      Served s' (held.erase handle) ops

/-! ## What the calls do -/

section

variable {s : IOSK}

/-- No entry is less than 0. -/
theorem findSession_none (s : IOSK) : findSession s = none := by
  unfold findSession
  rw [List.find?_eq_none]
  intro i _
  simp [BitVec.ult]

/-- The loop over a chain does not end: after element 0 comes the largest number there is,
far behind the table. -/
theorem scanChain_none (t : IOSKDeviceTable) (rounds : Nat) (i : UWORD32) :
    scanChain t rounds i = none := by
  induction rounds generalizing i with
  | zero => rfl
  | succ rounds ih =>
      have hle : (0 : UWORD32).ule i = true := by simp [BitVec.ule]
      unfold scanChain
      rw [if_pos hle]
      split
      · split
        · exact ih (i - 1)
        · exact ih (i - 1)
      · rfl

/-- A session is never opened: the service says that its handles are used up. -/
theorem ioskOpenSession_eq (h : s.sessionMutex = false) (rounds : Nat) :
    ioskOpenSession rounds s = some (NOMOREHANDLES, s) := by
  unfold ioskOpenSession lockSessions
  rw [h]
  simp only [Bool.false_eq_true, if_false, Option.bind_some, findSession_none]
  cases s
  obtain rfl := h
  rfl

/-- Had the search found an entry, the call would not return. -/
theorem scan_after_find (rounds handle : Nat) (s : IOSK) :
    ((lockDevices s).bind fun s =>
      (scanChain (s.deviceTable 0) rounds (s.deviceTable 0).last).bind fun _ =>
        some (BitVec.ofNat 32 handle, s)) = none := by
  cases lockDevices s with
  | none => rfl
  | some s =>
      rw [Option.bind_some, scanChain_none]
      rfl

/-- Closing a session changes nothing. -/
theorem ioskCloseSession_eq (h : s.sessionMutex = false) (handle : UWORD32) :
    ioskCloseSession s handle = some (true, s) := by
  unfold ioskCloseSession lockSessions
  rw [h]
  simp only [Bool.false_eq_true, if_false, Option.bind_some]
  cases s
  obtain rfl := h
  rfl

/-- With no session open, a run of calls is served if it opens none. -/
theorem served_iff_of_free (h : s.sessionMutex = false) (ops : List SessionOp) :
    Served s [] ops ↔ SessionOp.openSession ∉ ops := by
  induction ops with
  | nil => simp [Served]
  | cons op ops ih =>
      cases op with
      | openSession =>
          refine iff_of_false ?_ fun hn => hn List.mem_cons_self
          intro hserved
          obtain ⟨rounds, handle, s', hopen, hgets, -⟩ := hserved
          rw [ioskOpenSession_eq h] at hopen
          obtain ⟨rfl, rfl⟩ := Prod.mk.inj (Option.some.inj hopen)
          exact hgets.mpr (by decide) rfl
      | closeSession handle =>
          rw [List.mem_cons, not_or, ← ih]
          constructor
          · intro hserved
            obtain ⟨s', hclose, -, hrest⟩ := hserved
            rw [ioskCloseSession_eq h] at hclose
            obtain ⟨-, rfl⟩ := Prod.mk.inj (Option.some.inj hclose)
            exact ⟨nofun, hrest⟩
          · intro hrest
            exact ⟨s, ioskCloseSession_eq h handle, fun _ _ => rfl, hrest.2⟩

end

/-- After `IOSKinit`, the calls do what they are for in the runs without an open, and in
no other. -/
theorem served_iff (deviceTable : Nat → IOSKDeviceTable) (ops : List SessionOp) :
    Served (ioskInit deviceTable) [] ops ↔ SessionOp.openSession ∉ ops :=
  served_iff_of_free rfl ops

/-- The first session is refused. -/
theorem not_served_first :
    ¬ Served (ioskInit fun _ => ⟨fun _ => .unloaded, 0⟩) [] [.openSession] := by
  intro hserved
  obtain ⟨rounds, handle, s', hopen, hgets, -⟩ := hserved
  rw [ioskOpenSession_eq rfl] at hopen
  obtain ⟨rfl, -⟩ := Prod.mk.inj (Option.some.inj hopen)
  exact hgets.mpr (by decide) rfl

end Alliance.IOSK
