import Alliance.ABL.LoadRange

/-!
# Boot modules (`boot/ABL/script.c`)

The Cache Kernel is loaded at 0x150000, and each kernel at the first page behind what was
loaded before. What `ABLloadELF` returns is the next end of memory in use, so modules keep apart
if the load of each writes no further than that (`modules_apart`). A load has failed when the
entry point in the new record is 0, which the one of a file may be, too.

The loader's own memory, where the records are, is not part of the memory here.
-/

namespace Alliance.ABL

open Lib

/-- `ABLloadELF` of a file that is open: the address behind the highest segment, and the entry
point. What is in memory decides nothing (`load_eq`). -/
def BootFile.load (file : BootFile) (extMemTop memoffs : UADDR) : Option (UADDR × UADDR) :=
  (file.ablLoadELF extMemTop memoffs fun _ => 0#8).map fun r => (r.1, r.2.1)

/-- A load writes to an address if it changes it in some memory. -/
def BootFile.Writes (file : BootFile) (extMemTop memoffs a : UADDR) : Prop :=
  ∃ mem top entry s, file.ablLoadELF extMemTop memoffs mem = some (top, entry, s) ∧
    s.mem a ≠ mem a

/-- `bootmodule`, with its place, the file and where memory in use ended before. -/
structure BootModule where
  physstart : UADDR
  size : UADDR
  entry : UADDR
  place : UADDR
  file : BootFile
  extMemTop : UADDR

namespace BootModule

variable (m : BootModule)

def memEnd : Nat := m.physstart.toNat + m.size.toNat

/-- An address of the module's region. -/
def Region (a : UADDR) : Prop := m.physstart.toNat ≤ a.toNat ∧ a.toNat < m.memEnd

/-- The load of the module wrote to an address. -/
def Wrote (a : UADDR) : Prop := m.file.Writes m.extMemTop m.physstart a

end BootModule

/-- `sizeof(bootmodule)`. -/
def BootModule.sizeof : UADDR := 16#32

/-- The memory tops, `CK[0]`, and the list of modules; the Cache Kernel as a module; and the
kernels whose load succeeded, the last one first. -/
structure Boot where
  lowMemTop : UADDR
  extMemTop : UADDR
  CK : UADDR
  modules : List BootModule
  ck : Option BootModule
  loaded : List BootFile

/-- The first page boundary from an address on. -/
def pageAlign (top : UADDR) : UADDR :=
  if top &&& 0xfff#32 ≠ 0#32 then (top &&& ~~~0xfff#32) + 0x1000#32 else top

namespace Boot

variable (s : Boot)

/-- Before the script: nothing is loaded. -/
def start (lowMemTop extMemTop : UADDR) : Boot := ⟨lowMemTop, extMemTop, 0#32, [], none, []⟩

/-- `ABLloadCK`, where a file that cannot be opened is `none`. -/
def ablLoadCK (fname : Option BootFile) : Boot × Bool :=
  if 0x150000#32 < s.extMemTop then (s, false)
  else
    match fname.bind fun file => (file.load s.extMemTop 0x150000#32).map (file, ·) with
    | none => ({ s with CK := 0#32 }, false)
    | some (file, tempMemTop, entry) =>
      if entry = 0#32 then ({ s with CK := 0#32 }, false)
      else
        ({ s with
            extMemTop := tempMemTop
            CK := entry
            ck := some
              { physstart := 0x150000#32
                size := tempMemTop - 0x150000#32
                entry
                place := 0#32
                file
                extMemTop := s.extMemTop } }, true)

/-- `ABLloadKernel`. -/
def ablLoadKernel (fname : Option BootFile) : Boot :=
  let physstart := pageAlign s.extMemTop
  match fname.bind fun file => (file.load s.extMemTop physstart).map (file, ·) with
  | none => s
  | some (file, tempMemTop, entry) =>
    if entry = 0#32 then { s with loaded := file :: s.loaded }
    else
      { s with
        modules :=
          { physstart
            size := tempMemTop - physstart
            entry
            place := s.lowMemTop
            file
            extMemTop := s.extMemTop } :: s.modules
        lowMemTop := s.lowMemTop + BootModule.sizeof
        extMemTop := tempMemTop
        loaded := file :: s.loaded }

/-- A kernel command. -/
def step (s : Boot) (fname : Option BootFile) : Option Boot := some (s.ablLoadKernel fname)

/-! ## What the list is for -/

/-- The modules are the kernels that were loaded, on pages of their own and away from the Cache
Kernel; and a kernel that cannot be loaded changes nothing. -/
structure Apart (c : BootModule) : Prop where
  exactly : s.modules.map BootModule.file = s.loaded
  aligned : ∀ m ∈ s.modules, m.physstart.toNat % 4096 = 0
  contains : ∀ m ∈ s.modules, ∀ a, m.Wrote a → m.Region a
  kernel : ∀ m ∈ s.modules, ∀ a, m.Region a → ¬ c.Region a ∧ ¬ c.Wrote a
  disjoint : s.modules.Pairwise fun m m' => ∀ a, m.Region a → ¬ m'.Region a
  failed : ∀ fname, (∀ file ∈ fname, file.load s.extMemTop (pageAlign s.extMemTop) = none) →
    s.ablLoadKernel fname = s

/-- A kernel that is loaded has an entry point other than 0, is bounded, and there is a page
boundary in front of it. -/
def Fits (s : Boot) (fname : Option BootFile) : Prop :=
  ∀ file ∈ fname, (file.load s.extMemTop (pageAlign s.extMemTop)).isSome →
    file.header.e_entry ≠ 0#32 ∧ s.extMemTop.toNat ≤ 2 ^ 32 - 0x1000 ∧
      file.Bounded (pageAlign s.extMemTop)

end Boot

/-! ## A load -/

variable {file : BootFile} {extMemTop memoffs top entry a : UADDR}

theorem BootFile.load_eq (file : BootFile) (extMemTop memoffs : UADDR) (mem : UADDR → UBYTE) :
    file.load extMemTop memoffs =
      (file.ablLoadELF extMemTop memoffs mem).map fun r => (r.1, r.2.1) :=
  file.ablLoadELF_map extMemTop memoffs _ mem

theorem BootFile.load_entry (hs : file.load extMemTop memoffs = some (top, entry)) :
    entry = file.header.e_entry := by
  obtain ⟨⟨top, entry, s⟩, hr, he⟩ := Option.map_eq_some_iff.mp hs
  obtain ⟨-, -, -, -, hentry⟩ := ablLoadELF_cases hr
  exact (Prod.mk.inj he).2.symm.trans hentry

/-- A load of a bounded file at an address. -/
theorem BootFile.load_range (hm : memoffs ≠ 0#32) (hb : file.Bounded memoffs)
    (hs : file.load extMemTop memoffs = some (top, entry)) :
    memoffs.toNat ≤ top.toNat ∧ ∀ a, file.Writes extMemTop memoffs a →
      memoffs.toNat ≤ a.toNat ∧ a.toNat < top.toNat := by
  have haddress : file.loadAddress memoffs = memoffs := if_pos hm
  have hrange : ∀ {mem s}, file.ablLoadELF extMemTop memoffs mem = some (top, entry, s) →
      memoffs ≤ top ∧ ∀ a, ¬ (memoffs ≤ a ∧ a < top) → s.mem a = mem a := fun h => by
    have := ablLoadELF_range hb h
    rwa [haddress] at this
  constructor
  · obtain ⟨⟨t, e, s⟩, hr, he⟩ := Option.map_eq_some_iff.mp hs
    obtain ⟨rfl, rfl⟩ := Prod.mk.inj he
    exact BitVec.le_def.mp (hrange hr).1
  · rintro a ⟨mem, t, e, s, hr, hne⟩
    -- the result is the same in every memory
    rw [file.load_eq extMemTop memoffs mem, hr] at hs
    obtain ⟨rfl, rfl⟩ := Prod.mk.inj (Option.some.inj hs)
    by_contra hout
    refine hne ((hrange hr).2 a fun hin => hout ?_)
    exact ⟨BitVec.le_def.mp hin.1, BitVec.lt_def.mp hin.2⟩

/-! ## Pages -/

theorem toNat_and_low (top : UADDR) : (top &&& 0xfff#32).toNat = top.toNat % 4096 := by
  rw [BitVec.toNat_and]
  exact Nat.and_two_pow_sub_one_eq_mod top.toNat 12

theorem toNat_and_high (top : UADDR) :
    (top &&& ~~~0xfff#32).toNat = top.toNat / 4096 * 4096 := by
  have hbits : ∀ i < 32, (~~~0xfff#32).getLsbD i = decide (12 ≤ i) := by decide
  have hshift : top &&& ~~~0xfff#32 = (top >>> 12) <<< 12 := by
    refine BitVec.eq_of_getLsbD_eq fun i hi => ?_
    rw [BitVec.getLsbD_and, hbits i hi, BitVec.getLsbD_shiftLeft, BitVec.getLsbD_ushiftRight]
    by_cases h : 12 ≤ i
    · simp [h, hi, Nat.not_lt.mpr h, Nat.add_sub_cancel' h]
    · simp [h, Nat.not_le.mp h]
  have := top.isLt
  rw [hshift, BitVec.toNat_shiftLeft, BitVec.toNat_ushiftRight, Nat.shiftRight_eq_div_pow,
    Nat.shiftLeft_eq]
  omega

theorem toNat_pageAlign (h : top.toNat ≤ 2 ^ 32 - 0x1000) :
    (pageAlign top).toNat % 4096 = 0 ∧ top.toNat ≤ (pageAlign top).toNat := by
  have hlow := toNat_and_low top
  unfold pageAlign
  split
  · next hrest =>
    have hne : top.toNat % 4096 ≠ 0 := fun he => hrest (BitVec.eq_of_toNat_eq (hlow.trans he))
    rw [BitVec.toNat_add, toNat_and_high]
    show (_ + 4096) % 2 ^ 32 % 4096 = 0 ∧ _ ≤ (_ + 4096) % 2 ^ 32
    omega
  · next hrest =>
    rw [not_not.mp hrest] at hlow
    exact ⟨hlow.symm, Nat.le_refl _⟩

/-! ## Runs -/

/-- The load of a module wrote to its region only. -/
def BootModule.Contained (m : BootModule) : Prop := ∀ a, m.Wrote a → m.Region a

/-- The regions lie one behind the other, the Cache Kernel's first. -/
structure Boot.Stacked (s : Boot) (c : BootModule) : Prop where
  exactly : s.modules.map BootModule.file = s.loaded
  contained : c.Contained ∧ ∀ m ∈ s.modules, m.Contained
  aligned : ∀ m ∈ s.modules, m.physstart.toNat % 4096 = 0
  behind : c.memEnd ≤ s.extMemTop.toNat ∧
    ∀ m ∈ s.modules, c.memEnd ≤ m.physstart.toNat ∧ m.memEnd ≤ s.extMemTop.toNat
  stacked : s.modules.Pairwise fun m m' => m'.memEnd ≤ m.physstart.toNat
  used : s.extMemTop ≠ 0#32

variable {s s' : Boot} {c : BootModule}

theorem Boot.Stacked.apart (h : s.Stacked c) : s.Apart c := by
  constructor
  case exactly => exact h.exactly
  case aligned => exact h.aligned
  case contains => exact h.contained.2
  case kernel =>
    intro m hm a ha
    have hbehind := (h.behind.2 m hm).1
    have hout : ¬ c.Region a := fun hc => by
      have := ha.1
      have := hc.2
      omega
    exact ⟨hout, fun hw => hout (h.contained.1 a hw)⟩
  case disjoint =>
    refine h.stacked.imp fun hle a ha ha' => ?_
    have := ha.1
    have := ha'.2
    omega
  case failed =>
    intro fname hfails
    cases fname with
    | none => rfl
    | some file =>
        unfold ablLoadKernel
        dsimp only
        rw [Option.bind_some, hfails file rfl]
        rfl

/-- The region of a load that starts at `physstart`. -/
theorem BootModule.memEnd_eq (m : BootModule) (h : m.physstart.toNat ≤ top.toNat)
    (hsize : m.size = top - m.physstart) : m.memEnd = top.toNat := by
  rw [memEnd, hsize, BitVec.toNat_sub]
  have := top.isLt
  omega

theorem Boot.Stacked.step {fname : Option BootFile} (h : s.Stacked c) (hfits : s.Fits fname)
    (hs : s.step fname = some s') : s'.Stacked c := by
  obtain rfl := Option.some.inj hs
  cases fname with
  | none => exact h
  | some file =>
      cases hload : file.load s.extMemTop (pageAlign s.extMemTop) with
      | none =>
          rw [h.apart.failed (some file) fun f hf => by
            obtain rfl := Option.some.inj hf
            exact hload]
          exact h
      | some r =>
          obtain ⟨top, entry⟩ := r
          obtain ⟨hentry, hroom, hbounded⟩ := hfits file rfl (by rw [hload]; rfl)
          obtain ⟨halign, hle⟩ := toNat_pageAlign hroom
          have hused : s.extMemTop.toNat ≠ 0 := fun he => h.used (BitVec.eq_of_toNat_eq he)
          have hne : pageAlign s.extMemTop ≠ 0#32 := fun he => by
            rw [he] at hle
            exact hused (Nat.le_zero.mp hle)
          obtain ⟨htop, hwrites⟩ := file.load_range hne hbounded hload
          obtain rfl := BootFile.load_entry hload
          let m : BootModule :=
            { physstart := pageAlign s.extMemTop
              size := top - pageAlign s.extMemTop
              entry := file.header.e_entry
              place := s.lowMemTop
              file
              extMemTop := s.extMemTop }
          have hend : m.memEnd = top.toNat := m.memEnd_eq htop rfl
          have hnew : s.ablLoadKernel (some file) =
              { s with
                modules := m :: s.modules
                lowMemTop := s.lowMemTop + BootModule.sizeof
                extMemTop := top
                loaded := file :: s.loaded } := by
            unfold ablLoadKernel
            dsimp only
            rw [Option.bind_some, hload, Option.map_some]
            exact if_neg hentry
          rw [hnew]
          constructor
          case exactly => exact congrArg (file :: ·) h.exactly
          case contained =>
            refine ⟨h.contained.1, List.forall_mem_cons.mpr ⟨fun a ha => ?_, h.contained.2⟩⟩
            obtain ⟨hlow, hhigh⟩ := hwrites a ha
            exact ⟨hlow, hend ▸ hhigh⟩
          case aligned => exact List.forall_mem_cons.mpr ⟨halign, h.aligned⟩
          case behind =>
            refine ⟨Nat.le_trans h.behind.1 (Nat.le_trans hle htop),
              List.forall_mem_cons.mpr ⟨⟨Nat.le_trans h.behind.1 hle, Nat.le_of_eq hend⟩, ?_⟩⟩
            intro m' hm'
            obtain ⟨hck, hlow⟩ := h.behind.2 m' hm'
            exact ⟨hck, Nat.le_trans hlow (Nat.le_trans hle htop)⟩
          case stacked =>
            refine List.pairwise_cons.mpr ⟨fun m' hm' => ?_, h.stacked⟩
            exact Nat.le_trans (h.behind.2 m' hm').2 hle
          case used =>
            intro he
            rw [show top = 0#32 from he] at htop
            exact hused (Nat.le_zero.mp (Nat.le_trans hle htop))

/-- The Cache Kernel is at 0x150000. -/
theorem Boot.ablLoadCK_cases {fname : Option BootFile} (hs : s.ablLoadCK fname = (s', true)) :
    ∃ file top, fname = some file ∧
      file.load s.extMemTop 0x150000#32 = some (top, file.header.e_entry) ∧
      s' =
        { s with
          extMemTop := top
          CK := file.header.e_entry
          ck := some
            { physstart := 0x150000#32
              size := top - 0x150000#32
              entry := file.header.e_entry
              place := 0#32
              file
              extMemTop := s.extMemTop } } := by
  unfold ablLoadCK at hs
  split at hs
  · exact absurd (Prod.mk.inj hs).2 (by simp)
  · split at hs
    · exact absurd (Prod.mk.inj hs).2 (by simp)
    · next file top entry hload =>
      split at hs
      · exact absurd (Prod.mk.inj hs).2 (by simp)
      · obtain ⟨file', rfl, hload⟩ := Option.bind_eq_some_iff.mp hload
        obtain ⟨r, hr, he⟩ := Option.map_eq_some_iff.mp hload
        obtain ⟨rfl, rfl⟩ := Prod.mk.inj he
        obtain rfl := BootFile.load_entry hr
        exact ⟨file', top, rfl, hr, (Prod.mk.inj hs).1.symm⟩

theorem Boot.stacked_ck {lowMemTop : UADDR} {fname : Option BootFile}
    (hck : (start lowMemTop extMemTop).ablLoadCK fname = (s, true))
    (hbounded : ∀ file ∈ fname, file.Bounded 0x150000#32) : ∃ c, s.ck = some c ∧ s.Stacked c := by
  obtain ⟨file, top, rfl, hload, rfl⟩ := ablLoadCK_cases hck
  obtain ⟨htop, hwrites⟩ := file.load_range (by decide) (hbounded file rfl) hload
  refine ⟨_, rfl, ?_⟩
  have hend := BootModule.memEnd_eq
    { physstart := 0x150000#32
      size := top - 0x150000#32
      entry := file.header.e_entry
      place := 0#32
      file
      extMemTop } htop rfl
  constructor
  case exactly => rfl
  case contained =>
    refine ⟨fun a ha => ?_, nofun⟩
    obtain ⟨hlow, hhigh⟩ := hwrites a ha
    exact ⟨hlow, hend ▸ hhigh⟩
  case aligned => exact nofun
  case behind => exact ⟨Nat.le_of_eq hend, nofun⟩
  case stacked => exact .nil
  case used =>
    intro he
    rw [show top = 0#32 from he] at htop
    exact absurd htop (by decide)

/-- **Modules keep apart** if each file that is loaded is bounded, with an entry point other than
0 and a page boundary in front of it. -/
theorem modules_apart {lowMemTop : UADDR} {fname : Option BootFile} {ops : List (Option BootFile)}
    (hck : (Boot.start lowMemTop extMemTop).ablLoadCK fname = (s, true))
    (hbounded : ∀ file ∈ fname, file.Bounded 0x150000#32) (hr : Run Boot.step Boot.Fits s ops s') :
    ∃ c, s.ck = some c ∧ s'.Apart c := by
  obtain ⟨c, hc, hstacked⟩ := Boot.stacked_ck hck hbounded
  have hend : s'.Stacked c := hr.invariant (I := fun s => s.Stacked c) Boot.Stacked.step hstacked
  exact ⟨c, hc, hend.apart⟩

/-! ## A kernel behind a Cache Kernel of four bytes -/

open BootFile

theorem kernel_bounded {memoffs : UADDR} (h : memoffs = 0x150000#32 ∨ memoffs = 0x151000#32) :
    (kernel 4#8).Bounded memoffs := by
  have hloads : (kernel 4#8).Loads 0 := ⟨by decide, by decide +kernel⟩
  refine ⟨⟨0, hloads, by decide +kernel⟩, fun i hi => ?_, fun i hi => ?_⟩
  · obtain rfl : i = 0 := Nat.lt_one_iff.mp hi.1
    rcases h with rfl | rfl
    · exact ⟨by decide +kernel, by decide +kernel⟩
    · exact ⟨by decide +kernel, by decide +kernel⟩
  · obtain rfl : i = 0 := Nat.lt_one_iff.mp hi.1
    exact .inr ⟨by decide +kernel, 0, hloads, by decide +kernel⟩

/-- The Cache Kernel is loaded. -/
def ckLoaded : Boot := ((Boot.start 0x2000#32 0x120000#32).ablLoadCK (some (kernel 4#8))).1

theorem ckLoaded_eq :
    (Boot.start 0x2000#32 0x120000#32).ablLoadCK (some (kernel 4#8)) = (ckLoaded, true) :=
  Prod.ext rfl (by decide +kernel)

theorem modules_apart_kernel :
    ∃ s' c, Run Boot.step Boot.Fits ckLoaded [some (kernel 4#8)] s' ∧ s'.modules.length = 1 ∧
      s'.Apart c := by
  have hfits : ckLoaded.Fits (some (kernel 4#8)) := by
    intro file hfile _
    obtain rfl := Option.some.inj hfile
    have halign : pageAlign ckLoaded.extMemTop = 0x151000#32 := by decide +kernel
    exact ⟨by decide +kernel, by decide +kernel, kernel_bounded (.inr halign)⟩
  have hr : Run Boot.step Boot.Fits ckLoaded [some (kernel 4#8)] _ := .cons hfits rfl (.nil _)
  have hbounded : ∀ file ∈ some (kernel 4#8), file.Bounded 0x150000#32 := by
    intro file hfile
    obtain rfl := Option.some.inj hfile
    exact kernel_bounded (.inl rfl)
  obtain ⟨c, -, hapart⟩ := modules_apart ckLoaded_eq hbounded hr
  exact ⟨_, c, hr, by decide +kernel, hapart⟩

/-- A kernel with four bytes to be zeroed: they are behind its region. -/
theorem modules_not_apart_bss :
    ∃ s' c, Run Boot.step (fun _ _ => True) ckLoaded [some (kernel 8#8)] s' ∧
      ckLoaded.ck = some c ∧ ¬ s'.Apart c := by
  have hck : ckLoaded.ck.isSome = true := by decide +kernel
  obtain ⟨c, hc⟩ := Option.isSome_iff_exists.mp hck
  refine ⟨_, c, .cons trivial rfl (.nil _), hc, fun h => ?_⟩
  have hload : (kernel 8#8).load ckLoaded.extMemTop (pageAlign ckLoaded.extMemTop) =
      some (0x151008#32, 0x150000#32) := by decide +kernel
  obtain ⟨m, hm, hfile, htop, hstart, hsize⟩ :
      ∃ m ∈ (ckLoaded.ablLoadKernel (some (kernel 8#8))).modules, m.file = kernel 8#8 ∧
        m.extMemTop = ckLoaded.extMemTop ∧ m.physstart = pageAlign ckLoaded.extMemTop ∧
        m.size = 0x151008#32 - pageAlign ckLoaded.extMemTop := by
    unfold Boot.ablLoadKernel
    dsimp only
    rw [Option.bind_some, hload]
    exact ⟨_, .head _, rfl, rfl, rfl, rfl⟩
  have halign : pageAlign ckLoaded.extMemTop = 0x151000#32 := by decide +kernel
  have hwrote : m.Wrote 0x151010#32 := by
    rw [BootModule.Wrote, hfile, htop, hstart]
    obtain ⟨r, hr, hzero⟩ := (Option.any_eq_true _ _).mp
      (show ((kernel 8#8).ablLoadELF ckLoaded.extMemTop (pageAlign ckLoaded.extMemTop)
        fun _ => 0xff#8).any (fun r => decide (r.2.2.mem 0x151010#32 = 0#8)) = true by
          decide +kernel)
    refine ⟨_, r.1, r.2.1, r.2.2, hr, ?_⟩
    rw [of_decide_eq_true hzero]
    decide
  have hregion := (h.contains m hm _ hwrote).2
  rw [BootModule.memEnd, hstart, hsize, halign] at hregion
  exact absurd hregion (by decide)

end Alliance.ABL
