import Alliance.CK.KernelStack
import Alliance.CK.ResourceMemory

/-!
# Traps and the interrupt table (`kernel.c`, `set_vec.c`, `irq.c`)

The first allocator of a trap generates a stub and installs it in the interrupt table, later ones
share it, and the last one puts the handler back that was there before. `retrostub` is the field
of a record that this handler is saved in, and `stubs` keeps account of the stubs.

The other resource calls have no part in this, so they are those of `Machine`, and with the
interrupt table left out so are the calls for traps (`ckAllocTrap_machine`,
`ckFreeTrap_machine`). What is in a stub is left out, and so is the interrupt controller, which
gets the masks.
-/

namespace Alliance.CK

open Function

def S_VEC : UADDR := 0x70#32

def D_INT : BitVec 16 := 0x0e00#16
def D_TRAP : BitVec 16 := 0x0f00#16
def D_DPL3 : BitVec 16 := 0x6000#16
def D_PRESENT : BitVec 16 := 0x8000#16

structure X86Gate where
  offset_low : BitVec 16
  selector : BitVec 16
  access : BitVec 16
  offset_high : BitVec 16
  deriving DecidableEq, Repr

/-- The address that the processor goes on at. -/
def X86Gate.handler (g : X86Gate) : UADDR := g.offset_high ++ g.offset_low

/-- What the assembler decides: how long the templates of the stubs are, and where the stub for
spurious interrupts is. -/
structure StubTemplates where
  STUBLEN : UADDR
  MIRQLEN : UADDR
  SIRQLEN : UADDR
  spurious_int : UADDR
  /-- The lengths can be rounded up. -/
  short : KL.adjustSize STUBLEN ≠ 0#32 ∧ KL.adjustSize MIRQLEN ≠ 0#32 ∧
    KL.adjustSize SIRQLEN ≠ 0#32

/-- A stub was generated for a trap, or discarded. -/
inductive StubEvent where
  | generated (trap stub : UADDR)
  | discarded (trap stub : UADDR)
  deriving DecidableEq, Repr

structure TrapKernel where
  machine : Machine
  IDT : UADDR → X86Gate
  /-- `CKTrapAlloc.retrostub` of the records. -/
  retrostub : Addr → UADDR
  IRQMaskMaster : BitVec 8
  IRQMaskSlave : BitVec 8
  stubs : List StubEvent

/-- The trap is an interrupt request. -/
def IsIRQ (trap : UADDR) : Prop := M_VEC < trap ∧ trap < S_VEC + 8#32

instance (trap : UADDR) : Decidable (IsIRQ trap) := inferInstanceAs (Decidable (_ ∧ _))

/-- The length of the stub of a trap. -/
def StubTemplates.stublen (T : StubTemplates) (trap : UADDR) : UADDR :=
  if IsIRQ trap then if S_VEC ≤ trap then T.SIRQLEN else T.MIRQLEN else T.STUBLEN

theorem StubTemplates.stublen_short (T : StubTemplates) (trap : UADDR) :
    KL.adjustSize (T.stublen trap) ≠ 0#32 := by
  unfold stublen
  split
  · split
    · exact T.short.2.2
    · exact T.short.2.1
  · exact T.short.1

namespace TrapKernel

/-! ## The interrupt table -/

def withMachine (k : TrapKernel) (m : Machine) : TrapKernel := { k with machine := m }

/-- `CKsetVector`. -/
def ckSetVector (k : TrapKernel) (handler interrupt : UADDR) (control_major : BitVec 16) :
    TrapKernel :=
  { k with
    IDT := update k.IDT (interrupt &&& 0xff#32)
      { offset_low := (handler &&& 0xffff#32).setWidth 16
        selector := KCODE
        access := control_major
        offset_high := (handler >>> 16).setWidth 16 } }

/-- `CKenableIRQ`. -/
def ckEnableIRQ (k : TrapKernel) (irq : UADDR) : TrapKernel :=
  if irq < 8#32 then { k with IRQMaskMaster := k.IRQMaskMaster &&& ~~~(1#8 <<< irq.toNat) }
  else { k with IRQMaskSlave := k.IRQMaskSlave &&& ~~~(1#8 <<< (irq &&& 7#32).toNat) }

/-- `CKdisableIRQ`. -/
def ckDisableIRQ (k : TrapKernel) (irq : UADDR) : TrapKernel :=
  if irq < 8#32 then { k with IRQMaskMaster := k.IRQMaskMaster ||| (1#8 <<< irq.toNat) }
  else { k with IRQMaskSlave := k.IRQMaskSlave ||| (1#8 <<< (irq &&& 7#32).toNat) }

/-! ## Traps -/

def setStub (k : TrapKernel) (ckres : Addr) (stub stubsize : UADDR) : TrapKernel :=
  k.withMachine
    { k.machine with
      stub := update k.machine.stub ckres stub
      stubsize := update k.machine.stubsize ckres stubsize }

def setRetrostub (k : TrapKernel) (ckres : Addr) (v : UADDR) : TrapKernel :=
  { k with retrostub := update k.retrostub ckres v }

def note (k : TrapKernel) (ev : StubEvent) : TrapKernel := { k with stubs := ev :: k.stubs }

/-- The handler that `CKpreProcessTrapAlloc` reads from a gate: the two halves, joined by `&`. -/
def readHandler (g : X86Gate) : UADDR :=
  g.offset_low.setWidth 32 &&& (g.offset_high.setWidth 32 <<< 16)

/-- `CKpreProcessTrapAlloc`. -/
def ckPreProcessTrapAlloc (T : StubTemplates) (k : TrapKernel) (trap : UADDR) (ckres : Addr) :
    Option (TrapKernel × DATA) :=
  let head := k.machine.res.trapHeads trap
  if Resources.BadTrap trap then some (k, EINRESOURCE)
  else if head ≠ NIL then
    some ((k.setStub ckres (k.machine.stub head) (k.machine.stubsize head)).setRetrostub ckres
      (k.retrostub head), 0#32)
  else if IsIRQ trap then
    (k.machine.ckMemAllocAlign (T.stublen trap) 4).map fun (m, stub) =>
      let k := ((k.withMachine m).setStub ckres stub (T.stublen trap)).note (.generated trap stub)
      ((k.ckSetVector stub trap (D_PRESENT + D_INT + D_DPL3)).ckEnableIRQ (trap - M_VEC), 0#32)
  else
    (k.machine.ckMemAllocAlign (T.stublen trap) 4).map fun (m, stub) =>
      let k := ((k.withMachine m).setStub ckres stub (T.stublen trap)).note (.generated trap stub)
      let k := k.setRetrostub ckres (readHandler (k.IDT trap))
      (k.ckSetVector stub trap (D_PRESENT + D_TRAP + D_DPL3), 0#32)

/-- The part of `CKpostProcessTrapAlloc` that takes the stub out of the interrupt table. -/
def resetVector (T : StubTemplates) (k : TrapKernel) (res : Addr) : TrapKernel :=
  let trap := (k.machine.res.mem res).trap
  if IsIRQ trap then
    (k.ckDisableIRQ (trap - M_VEC)).ckSetVector T.spurious_int trap (D_PRESENT + D_TRAP + D_DPL3)
  else k.ckSetVector (k.retrostub res) trap (D_PRESENT + D_TRAP + D_DPL3)

/-- `CKpostProcessTrapAlloc`. -/
def ckPostProcessTrapAlloc (T : StubTemplates) (k : TrapKernel) (res : Addr) :
    Option TrapKernel :=
  let trap := (k.machine.res.mem res).trap
  if k.machine.res.trapHeads trap = res ∧ (k.machine.res.mem res).ntp = NIL then
    let k := k.resetVector T res
    (k.machine.ckMemFree (k.machine.stub res) (k.machine.stubsize res)).map fun m =>
      (k.withMachine m).note (.discarded trap (k.machine.stub res))
  else some k

/-- The part of `CKallocTrap` that fills in the record, with the mutex held. -/
def fillTrap (m : Machine) (resource : Addr) (res : Resource) (owner : Addr) (flags : DATA)
    (ckres : Addr) : Machine :=
  let m := m.onRes (·.linkResource .SIGTRAP owner ckres)
  let m := m.onRes fun s => (s.setNtp ckres (s.trapHeads res.trap)).setTrapHead res.trap ckres
  let m := (m.exit .resourceAllocLock).onRes (·.setBasic .SIGTRAP owner flags ckres)
  let m := m.onRes fun s => s.setRec ckres
    { s.mem ckres with
      trap := res.trap
      sigThread := res.sigThread
      priority := res.priority }
  m.onRes (·.setDescriptor resource ckres)

/-- `CKallocTrap`. -/
def ckAllocTrap (T : StubTemplates) (validThread : Addr → Bool) (k : TrapKernel) (resource : Addr)
    (res : Resource) (owner : Addr) (flags : DATA) : Option (TrapKernel × DATA) :=
  if ¬ validThread owner then some (k, ENOVALIDTHREAD)
  else (k.machine.allocRecord .SIGTRAP).bind fun (m, ckres) =>
    if ckres = NIL then some (k.withMachine m, ENOMEM)
    else (m.enter .resourceAllocLock).bind fun m =>
      ((k.withMachine m).ckPreProcessTrapAlloc T res.trap ckres).bind fun (k, error) =>
        if error ≠ 0#32 then
          -- the size is that of the loader structure
          ((k.machine.exit .resourceAllocLock).freeRecord ckres TRAPALLOC).map fun m =>
            (k.withMachine m, error)
        else some (k.withMachine (fillTrap k.machine resource res owner flags ckres), 0#32)

/-- `CKfreeTrap`. -/
def ckFreeTrap (T : StubTemplates) (k : TrapKernel) (res : Addr) : Option (TrapKernel × DATA) :=
  (k.ckPostProcessTrapAlloc T res).bind fun k =>
    (k.machine.enter .resourceAllocLock).bind fun m =>
      (Machine.unchain (m.res.unlinkResource .SIGTRAP res) res).bind fun s =>
        (({ m with res := s }.exit .resourceAllocLock).freeRecord res
          (ResourceSignature.size .SIGTRAP)).map fun m => (k.withMachine m, 0#32)

/-! ## The system calls -/

/-- `CKresourceAllocKernelCode`. -/
def ckResourceAlloc (T : StubTemplates) (signature : Addr → ObjectSignature) (k : TrapKernel)
    (type : ResourceSignature) (resource : Addr) (res : Resource) (owner : Addr) (flags : DATA) :
    Option (TrapKernel × DATA) :=
  let validThread := fun v => decide (signature v = .SIGTHREAD)
  match type with
  | .SIGTRAP => k.ckAllocTrap T validThread resource res owner flags
  | .SIGPHYSREGION | .SIGDMA | .SIGIOREGION =>
    (k.machine.ckResourceAlloc T.stublen signature type resource res owner flags).map
      fun (m, e) => (k.withMachine m, e)

/-- `CKresourceFreeKernelCode`. -/
def ckResourceFree (T : StubTemplates) (k : TrapKernel) (resource : Addr) :
    Option (TrapKernel × DATA) :=
  match (k.machine.res.mem resource).typeSignature with
  | .SIGTRAP => k.ckFreeTrap T resource
  | .SIGPHYSREGION | .SIGDMA | .SIGIOREGION =>
    (k.machine.ckResourceFree resource).map fun (m, e) => (k.withMachine m, e)

/-! ## Steps of a call -/

variable {T : StubTemplates} {k k' : TrapKernel} {m m' : Machine} {trap : UADDR}
  {resource owner ckres r : Addr} {res : Resource} {flags e : DATA} {validThread : Addr → Bool}
  {signature : Addr → ObjectSignature} {type : ResourceSignature}

/-- The IRQ masks are the only thing that changes. -/
theorem ckEnableIRQ_eq (k : TrapKernel) (irq : UADDR) : ∃ master slave,
    k.ckEnableIRQ irq = { k with IRQMaskMaster := master, IRQMaskSlave := slave } := by
  unfold ckEnableIRQ
  split
  · exact ⟨_, k.IRQMaskSlave, rfl⟩
  · exact ⟨k.IRQMaskMaster, _, rfl⟩

theorem ckDisableIRQ_eq (k : TrapKernel) (irq : UADDR) : ∃ master slave,
    k.ckDisableIRQ irq = { k with IRQMaskMaster := master, IRQMaskSlave := slave } := by
  unfold ckDisableIRQ
  split
  · exact ⟨_, k.IRQMaskSlave, rfl⟩
  · exact ⟨k.IRQMaskMaster, _, rfl⟩

/-- **`CKpreProcessTrapAlloc`** without the interrupt table. -/
theorem ckPreProcessTrapAlloc_machine (h : k.ckPreProcessTrapAlloc T trap ckres = some (k', e)) :
    k.machine.ckPreProcessTrapAlloc T.stublen trap ckres = some (k'.machine, e) := by
  unfold ckPreProcessTrapAlloc at h
  unfold Machine.ckPreProcessTrapAlloc
  dsimp only at h
  split at h
  · next hb =>
    obtain ⟨rfl, rfl⟩ := Prod.mk.inj (Option.some.inj h)
    exact if_pos hb
  next hb =>
  rw [if_neg hb]
  split at h
  · next hh =>
    obtain ⟨rfl, rfl⟩ := Prod.mk.inj (Option.some.inj h)
    exact if_pos hh
  next hh =>
  rw [if_neg hh]
  split at h
  · obtain ⟨⟨m, stub⟩, hm, he⟩ := Option.map_eq_some_iff.mp h
    obtain ⟨rfl, rfl⟩ := Prod.mk.inj he
    obtain ⟨_, _, hk⟩ := ckEnableIRQ_eq _ (trap - M_VEC)
    refine Option.bind_eq_some_iff.mpr ⟨_, hm, ?_⟩
    rw [hk]
    rfl
  · obtain ⟨⟨m, stub⟩, hm, he⟩ := Option.map_eq_some_iff.mp h
    obtain ⟨rfl, rfl⟩ := Prod.mk.inj he
    exact Option.bind_eq_some_iff.mpr ⟨_, hm, rfl⟩

theorem ckPreProcessTrapAlloc_error (h : k.ckPreProcessTrapAlloc T trap ckres = some (k', e)) :
    Resources.BadTrap trap ∧ k' = k ∧ e = EINRESOURCE ∨ ¬ Resources.BadTrap trap ∧ e = 0#32 := by
  unfold ckPreProcessTrapAlloc at h
  dsimp only at h
  split at h
  · next hb =>
    obtain ⟨rfl, rfl⟩ := Prod.mk.inj (Option.some.inj h)
    exact .inl ⟨hb, rfl, rfl⟩
  next hb =>
  refine .inr ⟨hb, ?_⟩
  split at h
  · exact (Prod.mk.inj (Option.some.inj h)).2.symm
  split at h
  · obtain ⟨_, _, he⟩ := Option.map_eq_some_iff.mp h
    exact (Prod.mk.inj he).2.symm
  · obtain ⟨_, _, he⟩ := Option.map_eq_some_iff.mp h
    exact (Prod.mk.inj he).2.symm

/-- The two halves have no bit in common. -/
theorem readHandler_eq_zero (g : X86Gate) : readHandler g = 0#32 := by
  unfold readHandler
  refine BitVec.eq_of_getLsbD_eq fun i hi => ?_
  simp only [BitVec.getLsbD_and, BitVec.getLsbD_setWidth, BitVec.getLsbD_shiftLeft,
    BitVec.getLsbD_zero]
  by_cases hlow : i < 16
  · simp [hlow]
  · simp [BitVec.getLsbD_of_ge g.offset_low i (by omega)]

/-- The halves of an address, joined as the processor does. -/
theorem halves_append (h : UADDR) :
    (h >>> 16).setWidth 16 ++ (h &&& 0xffff#32).setWidth 16 = h := by
  have hmask : (h &&& 0xffff#32).setWidth 16 = h.setWidth 16 := by
    ext i hi
    have hbit : Nat.testBit 0xffff i = true := by
      rw [show 0xffff = 2 ^ 16 - 1 from rfl, Nat.testBit_two_pow_sub_one]
      exact decide_eq_true hi
    simp only [BitVec.getElem_setWidth, BitVec.getLsbD_and, BitVec.getLsbD_ofNat, hbit,
      Bool.and_true, Bool.and_eq_left_iff_imp, decide_eq_true_eq]
    omega
  rw [hmask]
  refine BitVec.eq_of_getLsbD_eq fun i hi => ?_
  rw [BitVec.getLsbD_append]
  by_cases hlow : i < 16
  · simp [hlow]
  · have hback : 16 + (i - 16) = i := by omega
    have hhigh : i - 16 < 16 := by omega
    simp [hlow, hback, hhigh]

/-- A vector that is set designates the handler. -/
theorem handler_ckSetVector (handler trap : UADDR) (control : BitVec 16) :
    ((k.ckSetVector handler trap control).IDT (trap &&& 0xff#32)).handler = handler := by
  unfold ckSetVector X86Gate.handler
  dsimp only
  rw [update_self]
  exact halves_append handler

/-- A vector that is not set stays as it is. -/
theorem IDT_ckSetVector_of_ne {v : UADDR} (handler trap : UADDR) (control : BitVec 16)
    (hv : v ≠ trap &&& 0xff#32) : (k.ckSetVector handler trap control).IDT v = k.IDT v :=
  update_of_ne hv ..

/-- A trap that is accepted is a byte. -/
theorem and_byte_of_accepted (h : ¬ Resources.BadTrap trap) : trap &&& 0xff#32 = trap := by
  have hlt : trap.toNat < 2 ^ 8 := by
    have hupper : ¬ 0xff < trap.toInt := fun hn => h (.inl hn)
    have hlower : ¬ trap.toInt < 0x20 := fun hn => h (.inr (.inl hn))
    rw [BitVec.toInt_eq_toNat_cond] at hupper hlower
    split at hupper <;> omega
  refine BitVec.eq_of_toNat_eq ?_
  rw [BitVec.toNat_and]
  show trap.toNat &&& (2 ^ 8 - 1) = _
  rw [Nat.and_two_pow_sub_one_eq_mod, Nat.mod_eq_of_lt hlt]

/-- The handler of a vector, the saved handlers and the account of the stubs after a first
allocator has got its stub. -/
structure Installed (T : StubTemplates) (k : TrapKernel) (trap : UADDR) (ckres : Addr) (m : Machine)
    (stub : UADDR) (k' : TrapKernel) : Prop where
  machine : k'.machine = ((k.withMachine m).setStub ckres stub (T.stublen trap)).machine
  stubs : k'.stubs = .generated trap stub :: k.stubs
  handler : (k'.IDT (trap &&& 0xff#32)).handler = stub
  gates : ∀ v, v ≠ trap &&& 0xff#32 → k'.IDT v = k.IDT v
  saved : ¬ IsIRQ trap → k'.retrostub ckres = 0#32
  retrostub : ∀ r, r ≠ ckres → k'.retrostub r = k.retrostub r

/-- **`CKpreProcessTrapAlloc`** of a trap that is accepted: the record shares the stub of the newest
allocator, or gets one of its own. -/
theorem ckPreProcessTrapAlloc_accepted (h : k.ckPreProcessTrapAlloc T trap ckres = some (k', e))
    (hb : ¬ Resources.BadTrap trap) :
    (k.machine.res.trapHeads trap ≠ NIL ∧
      k' = (k.setStub ckres (k.machine.stub (k.machine.res.trapHeads trap))
        (k.machine.stubsize (k.machine.res.trapHeads trap))).setRetrostub ckres
          (k.retrostub (k.machine.res.trapHeads trap))) ∨
    k.machine.res.trapHeads trap = NIL ∧ ∃ m stub,
      k.machine.ckMemAllocAlign (T.stublen trap) 4 = some (m, stub) ∧
        Installed T k trap ckres m stub k' := by
  unfold ckPreProcessTrapAlloc at h
  dsimp only at h
  rw [if_neg hb] at h
  split at h
  · next hh => exact .inl ⟨hh, (Prod.mk.inj (Option.some.inj h)).1.symm⟩
  next hh =>
  refine .inr ⟨not_not.mp hh, ?_⟩
  split at h
  · next hirq =>
    obtain ⟨⟨m, stub⟩, hm, he⟩ := Option.map_eq_some_iff.mp h
    obtain ⟨rfl, -⟩ := Prod.mk.inj he
    obtain ⟨_, _, hk⟩ := ckEnableIRQ_eq _ (trap - M_VEC)
    rw [hk]
    exact ⟨m, stub, hm,
      { machine := rfl
        stubs := rfl
        handler := handler_ckSetVector ..
        gates := fun v hv => IDT_ckSetVector_of_ne _ _ _ hv
        saved := fun hn => absurd hirq hn
        retrostub := fun _ _ => rfl }⟩
  · obtain ⟨⟨m, stub⟩, hm, he⟩ := Option.map_eq_some_iff.mp h
    obtain ⟨rfl, -⟩ := Prod.mk.inj he
    exact ⟨m, stub, hm,
      { machine := rfl
        stubs := rfl
        handler := handler_ckSetVector ..
        gates := fun v hv => IDT_ckSetVector_of_ne _ _ _ hv
        saved := fun _ => (update_self ..).trans (readHandler_eq_zero _)
        retrostub := fun r hr => update_of_ne hr .. }⟩

/-- The handler of a vector and the account of the stubs after the last allocator has let go. -/
structure Uninstalled (k : TrapKernel) (r : Addr) (k' : TrapKernel) : Prop where
  machine : k.machine.ckMemFree (k.machine.stub r) (k.machine.stubsize r) = some k'.machine
  stubs : k'.stubs = .discarded (k.machine.res.mem r).trap (k.machine.stub r) :: k.stubs
  handler : ¬ IsIRQ (k.machine.res.mem r).trap →
    (k'.IDT ((k.machine.res.mem r).trap &&& 0xff#32)).handler = k.retrostub r
  gates : ∀ v, v ≠ (k.machine.res.mem r).trap &&& 0xff#32 → k'.IDT v = k.IDT v
  retrostub : k'.retrostub = k.retrostub

/-- **`CKallocTrap`**: the three ways to fail, and success. -/
theorem ckAllocTrap_cases
    (h : k.ckAllocTrap T validThread resource res owner flags = some (k', e)) :
    (e = ENOVALIDTHREAD ∧ k' = k) ∨
    (∃ m, k.machine.allocRecord .SIGTRAP = some (m, NIL) ∧ e = ENOMEM ∧ k' = k.withMachine m) ∨
    validThread owner = true ∧ ∃ m₁ ckres m₂, k.machine.allocRecord .SIGTRAP = some (m₁, ckres) ∧
      ckres ≠ NIL ∧ m₁.enter .resourceAllocLock = some m₂ ∧
      ((Resources.BadTrap res.trap ∧ e = EINRESOURCE ∧
          ∃ m₃, (m₂.exit .resourceAllocLock).freeRecord ckres TRAPALLOC = some m₃ ∧
            k' = k.withMachine m₃) ∨
        ¬ Resources.BadTrap res.trap ∧ e = 0#32 ∧
          ∃ k₂, (k.withMachine m₂).ckPreProcessTrapAlloc T res.trap ckres = some (k₂, 0#32) ∧
            k' = k₂.withMachine (fillTrap k₂.machine resource res owner flags ckres)) := by
  unfold ckAllocTrap at h
  split at h
  · obtain ⟨rfl, rfl⟩ := Prod.mk.inj (Option.some.inj h)
    exact .inl ⟨rfl, rfl⟩
  next hv =>
  obtain ⟨⟨m₁, ckres⟩, hm₁, h⟩ := Option.bind_eq_some_iff.mp h
  dsimp only at h
  split at h
  · next h0 =>
    obtain ⟨rfl, rfl⟩ := Prod.mk.inj (Option.some.inj h)
    exact .inr (.inl ⟨m₁, h0 ▸ hm₁, rfl, rfl⟩)
  next h0 =>
  obtain ⟨m₂, hm₂, h⟩ := Option.bind_eq_some_iff.mp h
  obtain ⟨⟨k₂, error⟩, hk₂, h⟩ := Option.bind_eq_some_iff.mp h
  refine .inr (.inr ⟨not_not.mp hv, m₁, ckres, m₂, hm₁, h0, hm₂, ?_⟩)
  dsimp only at h
  rcases ckPreProcessTrapAlloc_error hk₂ with ⟨hb, rfl, rfl⟩ | ⟨hb, rfl⟩
  · rw [if_pos (by decide)] at h
    obtain ⟨m₃, hm₃, he⟩ := Option.map_eq_some_iff.mp h
    obtain ⟨rfl, rfl⟩ := Prod.mk.inj he
    exact .inl ⟨hb, rfl, m₃, hm₃, rfl⟩
  · rw [if_neg (not_not_intro rfl)] at h
    obtain ⟨rfl, rfl⟩ := Prod.mk.inj (Option.some.inj h)
    exact .inr ⟨hb, rfl, k₂, hk₂, rfl⟩

/-- **`CKallocTrap`** without the interrupt table. -/
theorem ckAllocTrap_machine
    (h : k.ckAllocTrap T validThread resource res owner flags = some (k', e)) :
    k.machine.ckAllocTrap T.stublen validThread resource res owner flags =
      some (k'.machine, e) := by
  unfold ckAllocTrap at h
  unfold Machine.ckAllocTrap
  split at h
  · next hv =>
    obtain ⟨rfl, rfl⟩ := Prod.mk.inj (Option.some.inj h)
    exact if_pos hv
  next hv =>
  rw [if_neg hv]
  obtain ⟨⟨m₁, ckres⟩, hm₁, h⟩ := Option.bind_eq_some_iff.mp h
  refine Option.bind_eq_some_iff.mpr ⟨_, hm₁, ?_⟩
  dsimp only at h ⊢
  split at h
  · next h0 =>
    obtain ⟨rfl, rfl⟩ := Prod.mk.inj (Option.some.inj h)
    exact if_pos h0
  next h0 =>
  rw [if_neg h0]
  obtain ⟨m₂, hm₂, h⟩ := Option.bind_eq_some_iff.mp h
  obtain ⟨⟨k₂, error⟩, hk₂, h⟩ := Option.bind_eq_some_iff.mp h
  refine Option.bind_eq_some_iff.mpr ⟨m₂, hm₂, ?_⟩
  refine Option.bind_eq_some_iff.mpr ⟨_, ckPreProcessTrapAlloc_machine hk₂, ?_⟩
  dsimp only at h ⊢
  split at h
  · next he =>
    obtain ⟨m₃, hm₃, heq⟩ := Option.map_eq_some_iff.mp h
    obtain ⟨rfl, rfl⟩ := Prod.mk.inj heq
    rw [if_pos he]
    exact Option.bind_eq_some_iff.mpr ⟨m₃, hm₃, rfl⟩
  · next he =>
    obtain ⟨rfl, rfl⟩ := Prod.mk.inj (Option.some.inj h)
    exact if_neg he

/-- What `resetVector` leaves alone, and the vector that it sets. -/
theorem resetVector_eq (T : StubTemplates) (k : TrapKernel) (r : Addr) :
    ∃ (k₀ : TrapKernel) (handler : UADDR), k.resetVector T r = k₀.ckSetVector handler
        (k.machine.res.mem r).trap
        (D_PRESENT + D_TRAP + D_DPL3) ∧ k₀.machine = k.machine ∧ k₀.IDT = k.IDT ∧
      k₀.retrostub = k.retrostub ∧ k₀.stubs = k.stubs ∧
      (¬ IsIRQ (k.machine.res.mem r).trap → handler = k.retrostub r) := by
  unfold resetVector
  dsimp only
  split
  · next hirq =>
    obtain ⟨_, _, hk⟩ := ckDisableIRQ_eq k ((k.machine.res.mem r).trap - M_VEC)
    rw [hk]
    exact ⟨_, _, rfl, rfl, rfl, rfl, rfl, fun hn => absurd hirq hn⟩
  · exact ⟨k, _, rfl, rfl, rfl, rfl, rfl, fun _ => rfl⟩

/-- **`CKpostProcessTrapAlloc`** without the interrupt table. -/
theorem ckPostProcessTrapAlloc_machine (h : k.ckPostProcessTrapAlloc T r = some k') :
    k.machine.ckPostProcessTrapAlloc r = some k'.machine := by
  unfold ckPostProcessTrapAlloc at h
  unfold Machine.ckPostProcessTrapAlloc
  dsimp only at h
  split at h
  · next hlast =>
    obtain ⟨m, hm, rfl⟩ := Option.map_eq_some_iff.mp h
    obtain ⟨k₀, handler, hk, hmachine, -⟩ := resetVector_eq T k r
    rw [hk] at hm
    change k₀.machine.ckMemFree (k₀.machine.stub r) (k₀.machine.stubsize r) = some m at hm
    rw [hmachine] at hm
    exact (if_pos hlast).trans hm
  · next hlast =>
    obtain rfl := Option.some.inj h
    exact if_neg hlast

/-- **`CKpostProcessTrapAlloc`**: the last allocator takes the stub out. -/
theorem ckPostProcessTrapAlloc_cases (h : k.ckPostProcessTrapAlloc T r = some k') :
    ((k.machine.res.trapHeads (k.machine.res.mem r).trap = r ∧ (k.machine.res.mem r).ntp = NIL) ∧
        Uninstalled k r k') ∨
      ¬ (k.machine.res.trapHeads (k.machine.res.mem r).trap = r ∧
          (k.machine.res.mem r).ntp = NIL) ∧ k' = k := by
  unfold ckPostProcessTrapAlloc at h
  dsimp only at h
  split at h
  · next hlast =>
    refine .inl ⟨hlast, ?_⟩
    obtain ⟨m, hm, rfl⟩ := Option.map_eq_some_iff.mp h
    obtain ⟨k₀, handler, hk, hmachine, hIDT, hretro, hstubs, hhandler⟩ := resetVector_eq T k r
    rw [hk] at hm ⊢
    change k₀.machine.ckMemFree (k₀.machine.stub r) (k₀.machine.stubsize r) = some m at hm
    rw [hmachine] at hm
    refine
      { machine := hm
        stubs := ?_
        handler := fun hn => hhandler hn ▸ handler_ckSetVector ..
        gates := fun v hv => ?_
        retrostub := hretro }
    · show StubEvent.discarded _ (k₀.machine.stub r) :: k₀.stubs = _
      rw [hmachine, hstubs]
    · exact (IDT_ckSetVector_of_ne _ _ _ hv).trans (congrFun hIDT v)
  · next hlast => exact .inr ⟨hlast, (Option.some.inj h).symm⟩

/-- **`CKfreeTrap`** without the interrupt table. -/
theorem ckFreeTrap_machine (h : k.ckFreeTrap T r = some (k', e)) :
    k.machine.ckFreeTrap r = some (k'.machine, e) := by
  obtain ⟨k₀, hk₀, h⟩ := Option.bind_eq_some_iff.mp h
  obtain ⟨m₁, hm₁, h⟩ := Option.bind_eq_some_iff.mp h
  obtain ⟨s, hs, h⟩ := Option.bind_eq_some_iff.mp h
  obtain ⟨m₂, hm₂, he⟩ := Option.map_eq_some_iff.mp h
  obtain ⟨rfl, rfl⟩ := Prod.mk.inj he
  refine Option.bind_eq_some_iff.mpr ⟨_, ckPostProcessTrapAlloc_machine hk₀, ?_⟩
  refine Option.bind_eq_some_iff.mpr ⟨m₁, hm₁, Option.bind_eq_some_iff.mpr ⟨s, hs, ?_⟩⟩
  exact Option.bind_eq_some_iff.mpr ⟨m₂, hm₂, rfl⟩

/-- **An allocation** without the interrupt table. -/
theorem ckResourceAlloc_machine
    (h : k.ckResourceAlloc T signature type resource res owner flags = some (k', e)) :
    k.machine.ckResourceAlloc T.stublen signature type resource res owner flags =
      some (k'.machine, e) := by
  unfold ckResourceAlloc at h
  cases type with
  | SIGTRAP => exact ckAllocTrap_machine h
  | SIGPHYSREGION | SIGDMA | SIGIOREGION =>
      obtain ⟨_, hm, he⟩ := Option.map_eq_some_iff.mp h
      obtain ⟨rfl, rfl⟩ := Prod.mk.inj he
      exact hm

/-- **A release** without the interrupt table. -/
theorem ckResourceFree_machine (h : k.ckResourceFree T r = some (k', e)) :
    k.machine.ckResourceFree r = some (k'.machine, e) := by
  unfold ckResourceFree at h
  unfold Machine.ckResourceFree
  cases htype : (k.machine.res.mem r).typeSignature with
  | SIGTRAP =>
      rw [htype] at h
      exact ckFreeTrap_machine h
  | SIGPHYSREGION | SIGDMA | SIGIOREGION =>
      rw [htype] at h
      obtain ⟨_, hm, he⟩ := Option.map_eq_some_iff.mp h
      obtain ⟨rfl, rfl⟩ := Prod.mk.inj he
      unfold Machine.ckResourceFree at hm
      rwa [htype] at hm

end TrapKernel

end Alliance.CK
