import Alliance.KL.FreeList
import Alliance.Lib.DList

/-!
# The links of the free list

Two kinds of lists go through the entries: one by address, and eight by size. `Links` says
that the first is `l` and that each size list has the entries of `l` that name it. Removing and
inserting an entry are one step on each kind, and neither changes sizes.

The start of a list is read as the link of `NIL`, so that the first entry is no exception.
-/

namespace Alliance.KL.KLfreeListDescriptor

open Function Lib
open CK (UADDR)

variable {s : KLfreeListDescriptor} {l as bs : List UADDR} {e p n v x y : UADDR} {t : Nat}
  {z : KLfreeListEntry} {P : UADDR → Prop}

/-! ## Reading links and fields -/

def nextOf (s : KLfreeListDescriptor) : UADDR → UADDR :=
  update (fun x => (s.mem x).next) NIL s.FirstFreeEntry

def prevOf (s : KLfreeListDescriptor) (x : UADDR) : UADDR := (s.mem x).prev

def nextsizeOf (s : KLfreeListDescriptor) (t : Nat) : UADDR → UADDR :=
  update (fun x => (s.mem x).nextsize) NIL (s.FirstFreeSizeEntry t)

def prevsizeOf (s : KLfreeListDescriptor) (x : UADDR) : UADDR := (s.mem x).prevsize

def sizeOf (s : KLfreeListDescriptor) (x : UADDR) : UADDR := (s.mem x).size

def tableOf (s : KLfreeListDescriptor) (x : UADDR) : Nat := (s.mem x).lookupsize

/-- What no operation on the lists changes. -/
def rest (s : KLfreeListDescriptor) : UADDR × Bool × List (UADDR × UADDR) :=
  (s.FreeMemory, s.DisallowFreeChunk, s.freedChunks)

theorem nextOf_nil : s.nextOf NIL = s.FirstFreeEntry := update_self ..

theorem nextsizeOf_nil : s.nextsizeOf t NIL = s.FirstFreeSizeEntry t := update_self ..

theorem nextOf_of_ne (h : x ≠ NIL) : s.nextOf x = (s.mem x).next := update_of_ne h ..

theorem nextsizeOf_of_ne (h : x ≠ NIL) : s.nextsizeOf t x = (s.mem x).nextsize :=
  update_of_ne h ..

/-! ## What a store changes -/

/-- A field of the headers, of all of them at once. -/
theorem field_setEntry {β : Type} (f : KLfreeListEntry → β) :
    (fun x => f ((s.setEntry e z).mem x)) = update (fun x => f (s.mem x)) e (f z) := by
  funext x
  by_cases h : x = e
  · subst h; simp [setEntry]
  · simp [setEntry, h]

@[simp] theorem setEntry_fields : (s.setEntry e z).prevOf = update s.prevOf e z.prev ∧
    (s.setEntry e z).prevsizeOf = update s.prevsizeOf e z.prevsize ∧
    (s.setEntry e z).sizeOf = update s.sizeOf e z.size ∧
    (s.setEntry e z).tableOf = update s.tableOf e z.lookupsize ∧ (s.setEntry e z).rest = s.rest :=
  ⟨field_setEntry _, field_setEntry _, field_setEntry _, field_setEntry _, rfl⟩

@[simp] theorem nextOf_setEntry : (s.setEntry e z).nextOf =
    if e = NIL then s.nextOf else update s.nextOf e z.next := by
  have h := @field_setEntry s e z _ (fun z => z.next)
  unfold nextOf
  rw [h]
  split
  · next he => rw [he, update_idem]; rfl
  · next he => exact update_comm he ..

@[simp] theorem nextsizeOf_setEntry : (s.setEntry e z).nextsizeOf =
    if e = NIL then s.nextsizeOf else fun t => update (s.nextsizeOf t) e z.nextsize := by
  have h := @field_setEntry s e z _ (fun z => z.nextsize)
  unfold nextsizeOf
  rw [h]
  split <;> funext t
  · next he => rw [he, update_idem]; rfl
  · next he => exact update_comm he ..

/-- Storing what is there already. -/
theorem update_same {β : Type} {f : UADDR → β} {b : β} (h : f e = b) : update f e b = f := by
  rw [← h, update_eq_self]

@[simp] theorem setNext_rest : (s.setNext e v).prevOf = s.prevOf ∧
    (s.setNext e v).nextsizeOf = s.nextsizeOf ∧ (s.setNext e v).prevsizeOf = s.prevsizeOf ∧
    (s.setNext e v).sizeOf = s.sizeOf ∧ (s.setNext e v).tableOf = s.tableOf ∧
    (s.setNext e v).rest = s.rest := by
  unfold setNext
  split
  · next he =>
    simp only [setEntry_fields, nextsizeOf_setEntry, if_neg he, and_true]
    exact ⟨update_same rfl, funext fun t => update_same (nextsizeOf_of_ne he),
      update_same rfl, update_same rfl, update_same rfl⟩
  · exact ⟨rfl, rfl, rfl, rfl, rfl, rfl⟩

@[simp] theorem nextOf_setNext : (s.setNext e v).nextOf = update s.nextOf e v := by
  unfold setNext
  split
  · next he => rw [nextOf_setEntry, if_neg he]
  · next he =>
    obtain rfl := not_not.mp he
    exact (update_idem ..).symm

@[simp] theorem setPrev_rest : (s.setPrev e v).nextOf = s.nextOf ∧
    (s.setPrev e v).nextsizeOf = s.nextsizeOf ∧ (s.setPrev e v).prevsizeOf = s.prevsizeOf ∧
    (s.setPrev e v).sizeOf = s.sizeOf ∧ (s.setPrev e v).tableOf = s.tableOf ∧
    (s.setPrev e v).rest = s.rest := by
  unfold setPrev
  split
  · next he =>
    simp only [setEntry_fields, nextOf_setEntry, nextsizeOf_setEntry, if_neg he, and_true]
    exact ⟨update_same (nextOf_of_ne he), funext fun t => update_same (nextsizeOf_of_ne he),
      update_same rfl, update_same rfl, update_same rfl⟩
  · exact ⟨rfl, rfl, rfl, rfl, rfl, rfl⟩

@[simp] theorem prevOf_setPrev :
    (s.setPrev e v).prevOf = if e = NIL then s.prevOf else update s.prevOf e v := by
  unfold setPrev
  by_cases he : e = NIL
  · rw [if_pos he, if_neg (not_not_intro he)]
  · rw [if_neg he, if_pos he, setEntry_fields.1]

@[simp] theorem setNextsize_rest : (s.setNextsize t e v).nextOf = s.nextOf ∧
    (s.setNextsize t e v).prevOf = s.prevOf ∧ (s.setNextsize t e v).prevsizeOf = s.prevsizeOf ∧
    (s.setNextsize t e v).sizeOf = s.sizeOf ∧ (s.setNextsize t e v).tableOf = s.tableOf ∧
    (s.setNextsize t e v).rest = s.rest := by
  unfold setNextsize
  split
  · next he =>
    simp only [setEntry_fields, nextOf_setEntry, if_neg he, and_true]
    exact ⟨update_same (nextOf_of_ne he), update_same rfl, update_same rfl, update_same rfl,
      update_same rfl⟩
  · exact ⟨rfl, rfl, rfl, rfl, rfl, rfl⟩

/-- A store into the start of another size list is none into this one. -/
@[simp] theorem nextsizeOf_setNextsize {t' : Nat} : (s.setNextsize t' e v).nextsizeOf t =
    if e = NIL ∧ t ≠ t' then s.nextsizeOf t else update (s.nextsizeOf t) e v := by
  unfold setNextsize
  by_cases he : e = NIL
  · obtain rfl := he
    by_cases ht : t = t'
    · obtain rfl := ht
      simp [nextsizeOf]
    · simp [nextsizeOf, ht]
  · simp [he]

@[simp] theorem setPrevsize_rest : (s.setPrevsize e v).nextOf = s.nextOf ∧
    (s.setPrevsize e v).nextsizeOf = s.nextsizeOf ∧ (s.setPrevsize e v).prevOf = s.prevOf ∧
    (s.setPrevsize e v).sizeOf = s.sizeOf ∧ (s.setPrevsize e v).tableOf = s.tableOf ∧
    (s.setPrevsize e v).rest = s.rest := by
  unfold setPrevsize
  split
  · next he =>
    simp only [setEntry_fields, nextOf_setEntry, nextsizeOf_setEntry, if_neg he, and_true]
    exact ⟨update_same (nextOf_of_ne he), funext fun t => update_same (nextsizeOf_of_ne he),
      update_same rfl, update_same rfl, update_same rfl⟩
  · exact ⟨rfl, rfl, rfl, rfl, rfl, rfl⟩

@[simp] theorem prevsizeOf_setPrevsize :
    (s.setPrevsize e v).prevsizeOf = if e = NIL then s.prevsizeOf else update s.prevsizeOf e v := by
  unfold setPrevsize
  by_cases he : e = NIL
  · rw [if_pos he, if_neg (not_not_intro he)]
  · rw [if_neg he, if_pos he, setEntry_fields.2.1]

@[simp] theorem setSize_rest : (s.setSize e v).nextOf = s.nextOf ∧
    (s.setSize e v).prevOf = s.prevOf ∧ (s.setSize e v).nextsizeOf = s.nextsizeOf ∧
    (s.setSize e v).prevsizeOf = s.prevsizeOf ∧ (s.setSize e v).tableOf = s.tableOf ∧
    (s.setSize e v).rest = s.rest := by
  unfold setSize
  simp only [setEntry_fields, nextOf_setEntry, nextsizeOf_setEntry, and_true]
  refine ⟨?_, update_same rfl, ?_, update_same rfl, update_same rfl⟩
  · split
    · rfl
    · next he => exact update_same (nextOf_of_ne he)
  · split
    · rfl
    · next he => exact funext fun t => update_same (nextsizeOf_of_ne he)

@[simp] theorem sizeOf_setSize : (s.setSize e v).sizeOf = update s.sizeOf e v :=
  setEntry_fields.2.2.1

/-! ## The size lists -/

/-- The entries with `P` are in the size lists, each in the one that it names. -/
def SizeLinks (s : KLfreeListDescriptor) (P : UADDR → Prop) : Prop :=
  ∀ t, ∃ m, Linked NIL NIL (s.nextsizeOf t) s.prevsizeOf m ∧ ∀ x, x ∈ m ↔ P x ∧ s.tableOf x = t

/-- The stores of `klFreeListSizeRemove`, with what is read in the state before the first. -/
theorem klFreeListSizeRemove_eq (t : Nat) (he : e ≠ NIL) : s.klFreeListSizeRemove e =
    (s.setPrevsize (s.nextsizeOf t e) (s.prevsizeOf e)).setNextsize (s.tableOf e) (s.prevsizeOf e)
      (s.nextsizeOf t e) := by
  have hnext : (s.mem e).nextsize = s.nextsizeOf t e := (nextsizeOf_of_ne he).symm
  generalize hs₁ : s.setPrevsize (s.nextsizeOf t e) (s.prevsizeOf e) = s₁
  have htable : (s₁.mem e).lookupsize = s.tableOf e := by
    rw [← hs₁]
    exact congrFun setPrevsize_rest.2.2.2.2.1 e
  have hnext₁ : (s₁.mem e).nextsize = s.nextsizeOf t e := by
    rw [← nextsizeOf_of_ne (t := t) he, ← hs₁, setPrevsize_rest.2.1]
  -- if the next entry is `e` itself, the first store is of what is there
  have hprev₁ : (s₁.mem e).prevsize = s.prevsizeOf e := by
    show s₁.prevsizeOf e = s.prevsizeOf e
    rw [← hs₁, prevsizeOf_setPrevsize]
    split
    · rfl
    · rw [update_apply]
      split
      · rfl
      · rfl
  unfold klFreeListSizeRemove
  rw [hnext, show (s.mem e).prevsize = s.prevsizeOf e from rfl, hs₁]
  simp only [htable, hnext₁, hprev₁]

theorem klFreeListSizeRemove_rest (he : e ≠ NIL) :
    (s.klFreeListSizeRemove e).nextOf = s.nextOf ∧ (s.klFreeListSizeRemove e).prevOf = s.prevOf ∧
      (s.klFreeListSizeRemove e).sizeOf = s.sizeOf ∧
      (s.klFreeListSizeRemove e).tableOf = s.tableOf ∧
      (s.klFreeListSizeRemove e).rest = s.rest := by
  rw [klFreeListSizeRemove_eq 0 he]
  simp

/-- The stores of `klFreeListSizeInsert`; the last one is into the start of the list. -/
theorem klFreeListSizeInsert_eq {table : Nat} (ht : klGetFastLookupToUse (s.sizeOf e) = table) :
    s.klFreeListSizeInsert e =
      (((s.setEntry e
        { s.mem e with
          lookupsize := table
          prevsize := NIL
          nextsize := s.nextsizeOf table NIL }).setPrevsize (s.nextsizeOf table NIL) e).setNextsize
            table NIL e) := by
  subst ht
  rw [nextsizeOf_nil]
  unfold klFreeListSizeInsert setNextsize
  rw [if_neg (not_not_intro rfl)]
  simp only [setEntry, update_self]
  rfl

theorem klFreeListSizeInsert_rest (he : e ≠ NIL) :
    (s.klFreeListSizeInsert e).nextOf = s.nextOf ∧ (s.klFreeListSizeInsert e).prevOf = s.prevOf ∧
      (s.klFreeListSizeInsert e).sizeOf = s.sizeOf ∧
      (s.klFreeListSizeInsert e).tableOf =
        update s.tableOf e (klGetFastLookupToUse (s.sizeOf e)) ∧
      (s.klFreeListSizeInsert e).rest = s.rest := by
  rw [klFreeListSizeInsert_eq rfl]
  simp only [setNextsize_rest, setPrevsize_rest, setEntry_fields, nextOf_setEntry, if_neg he,
    and_true]
  exact ⟨update_same (nextOf_of_ne he), update_same rfl, update_same rfl⟩

/-- What the size lists have is what they are read from. -/
theorem SizeLinks.congr {s' : KLfreeListDescriptor} (h : s.SizeLinks P)
    (hn : s'.nextsizeOf = s.nextsizeOf) (hp : s'.prevsizeOf = s.prevsizeOf)
    (ht : s'.tableOf = s.tableOf) : s'.SizeLinks P := by
  intro t
  obtain ⟨m, hm, hmem⟩ := h t
  refine ⟨m, ?_, ?_⟩
  · rw [hn, hp]
    exact hm
  · rw [ht]
    exact hmem

/-- **Removing** an entry from its size list. -/
theorem SizeLinks.remove (h : s.SizeLinks P) (he : P e) :
    (s.klFreeListSizeRemove e).SizeLinks fun x => P x ∧ x ≠ e := by
  obtain ⟨m₀, hm₀, hmem₀⟩ := h (s.tableOf e)
  have hein : e ∈ m₀ := (hmem₀ e).mpr ⟨he, rfl⟩
  have hnil : e ≠ NIL := fun hn => hm₀.nil_notMem (hn ▸ hein)
  intro t
  have htable := (klFreeListSizeRemove_rest (s := s) hnil).2.2.2.1
  by_cases ht : t = s.tableOf e
  · -- the list of `e`
    subst ht
    obtain ⟨as, bs, rfl⟩ := List.append_of_mem hein
    refine ⟨as ++ bs, hm₀.unlink ?_ ?_, ?_⟩
    · intro y _
      rw [klFreeListSizeRemove_eq (s.tableOf e) hnil]
      simp [update_apply]
    · intro y hy
      rw [klFreeListSizeRemove_eq (s.tableOf e) hnil]
      simp only [setNextsize_rest, prevsizeOf_setPrevsize]
      exact store_unless_nil fun hn => hm₀.nil_notMem_remove (hn ▸ hy)
    · intro x
      rw [mem_remove hm₀.nodup_tail, hmem₀, htable]
      exact and_right_comm
  · -- the neighbours of `e` are in another list
    obtain ⟨m, hm, hmem⟩ := h t
    have hout : ∀ {x}, x ∈ m → x ∉ m₀ := fun hx hx₀ =>
      ht (((hmem _).mp hx).2.symm.trans ((hmem₀ _).mp hx₀).2)
    have hnext := hm₀.fwd_mem (List.mem_cons_of_mem NIL hein)
    have hprev := hm₀.bwd_mem hein
    refine ⟨m, hm.congr ?_ ?_, ?_⟩
    · intro y hy
      rw [klFreeListSizeRemove_eq t hnil]
      simp only [nextsizeOf_setNextsize, setPrevsize_rest]
      split
      · rfl
      · next hc =>
        refine update_of_ne ?_ ..
        rintro rfl
        obtain hy | hy := List.mem_cons.mp hy
        · exact hc ⟨hy, ht⟩
        · obtain hp | hp := List.mem_cons.mp hprev
          · exact hm.nil_notMem (hp ▸ hy)
          · exact hout hy hp
    · intro y hy
      rw [klFreeListSizeRemove_eq (s.tableOf e) hnil]
      simp only [setNextsize_rest, prevsizeOf_setPrevsize]
      split
      · rfl
      · next hz =>
        refine update_of_ne ?_ ..
        rintro rfl
        exact hout hy ((List.mem_cons.mp hnext).resolve_left hz)
    · intro x
      rw [hmem, htable]
      refine ⟨fun hx => ⟨⟨hx.1, fun hxe => ht (hxe ▸ hx.2.symm)⟩, hx.2⟩, fun hx => ⟨hx.1.1, hx.2⟩⟩

/-- **Inserting** an entry into the size list of its size. -/
theorem SizeLinks.insert (h : s.SizeLinks P) (he : ¬ P e) (hnil : e ≠ NIL) :
    (s.klFreeListSizeInsert e).SizeLinks fun x => P x ∨ x = e := by
  generalize htab : klGetFastLookupToUse (s.sizeOf e) = table
  have htable := (klFreeListSizeInsert_rest (s := s) hnil).2.2.2.1
  rw [htab] at htable
  have hne : ∀ {t : Nat} {m : List UADDR}, (∀ x, x ∈ m ↔ P x ∧ s.tableOf x = t) → e ∉ m :=
    fun hm hx => he ((hm e).mp hx).1
  obtain ⟨m₀, hm₀, hmem₀⟩ := h table
  have hfirst : s.nextsizeOf table NIL ∈ NIL :: m₀ := hm₀.fwd_mem (.head _)
  intro t
  obtain ⟨m, hm, hmem⟩ := h t
  have htab' : ∀ {x}, x ≠ e → (s.klFreeListSizeInsert e).tableOf x = s.tableOf x :=
    fun hx => by rw [htable, update_of_ne hx]
  by_cases ht : t = table
  · subst ht
    obtain rfl := hm.unique hm₀
    refine ⟨e :: m, hm.insert (a := NIL) [] rfl ?_ hnil ?_ ?_, ?_⟩
    · exact fun hx => (List.mem_cons.mp hx).elim hnil (hne hmem)
    · intro y _
      rw [klFreeListSizeInsert_eq htab]
      simp only [nextsizeOf_setNextsize, setPrevsize_rest, nextsizeOf_setEntry, if_neg hnil,
        ne_eq, not_true_eq_false, and_false, if_false, update_apply]
      by_cases hy : y = NIL
      · rw [if_pos hy, if_neg (hy ▸ hnil.symm), if_pos hy]
      · simp [hy]
    · intro y hy
      rw [klFreeListSizeInsert_eq htab]
      simp only [setNextsize_rest, prevsizeOf_setPrevsize, setEntry_fields]
      have hye : e ≠ s.nextsizeOf t NIL := by
        intro hf
        obtain hf' | hf' := List.mem_cons.mp hfirst
        · exact hnil (hf.trans hf')
        · exact hne hmem (hf ▸ hf')
      rw [store_unless_nil]
      · by_cases hy : y = e
        · rw [if_pos hy, hy, if_neg hye, update_self]
        · rw [if_neg hy, update_of_ne hy]
      · rintro rfl
        exact (List.mem_cons.mp hy).elim hnil.symm hm.nil_notMem
    · intro x
      rw [List.mem_cons]
      by_cases hx : x = e
      · simp [hx, htable]
      · simp [hx, hmem, htab' hx]
  · refine ⟨m, hm.congr ?_ ?_, ?_⟩
    · intro y hy
      have hye : y ≠ e := by
        rintro rfl
        exact (List.mem_cons.mp hy).elim hnil (hne hmem)
      rw [klFreeListSizeInsert_eq htab]
      simp only [nextsizeOf_setNextsize, setPrevsize_rest, nextsizeOf_setEntry, if_neg hnil, ht,
        ne_eq, not_false_eq_true, and_self, if_true]
      exact update_of_ne hye ..
    · intro y hy
      have hye : y ≠ e := fun hye => hne hmem (hye ▸ hy)
      rw [klFreeListSizeInsert_eq htab]
      simp only [setNextsize_rest, prevsizeOf_setPrevsize, setEntry_fields]
      split
      · exact update_of_ne hye ..
      · next hz =>
        rw [update_of_ne, update_of_ne hye]
        -- the first entry of the other list is not in this one
        rintro rfl
        obtain hf | hf := List.mem_cons.mp hfirst
        · exact hz hf
        · exact ht (((hmem _).mp hy).2.symm.trans ((hmem₀ _).mp hf).2)
    · intro x
      by_cases hx : x = e
      · subst hx
        simp [hne hmem, htable, Ne.symm ht]
      · simp [hx, hmem, htab' hx]

/-! ## Both kinds of lists -/

/-- The entries are those of `l`, in this order, and in the size lists. -/
structure Links (s : KLfreeListDescriptor) (l : List UADDR) : Prop where
  addr : Linked NIL NIL s.nextOf s.prevOf l
  size : s.SizeLinks fun x => x ∈ l

theorem Links.congr {s' : KLfreeListDescriptor} (h : s.Links l) (hn : s'.nextOf = s.nextOf)
    (hp : s'.prevOf = s.prevOf) (hns : s'.nextsizeOf = s.nextsizeOf)
    (hps : s'.prevsizeOf = s.prevsizeOf) (ht : s'.tableOf = s.tableOf) : s'.Links l := by
  refine ⟨?_, h.size.congr hns hps ht⟩
  rw [hn, hp]
  exact h.addr

theorem Links.setSize (h : s.Links l) : (s.setSize e v).Links l :=
  h.congr setSize_rest.1 setSize_rest.2.1 setSize_rest.2.2.1 setSize_rest.2.2.2.1
    setSize_rest.2.2.2.2.1

theorem Links.ne_nil (h : s.Links l) (hx : x ∈ l) : x ≠ NIL :=
  fun hn => h.addr.nil_notMem (hn ▸ hx)

/-- The neighbours of an entry. -/
theorem Links.neighbours (h : s.Links (as ++ e :: bs)) :
    (s.mem e).prev = as.getLastD NIL ∧ (s.mem e).next = bs.headD NIL := by
  obtain ⟨hp, _, hn, _⟩ := h.addr.split
  exact ⟨hp, (nextOf_of_ne (h.ne_nil (by simp))).symm.trans hn⟩

/-- The stores of `klFreeListRemove`, with what is read in the state before. -/
theorem klFreeListRemove_eq (he : e ≠ NIL) : s.klFreeListRemove e =
    ((s.setNext (s.prevOf e) (s.nextOf e)).setPrev (s.nextOf e) (s.prevOf e)).klFreeListSizeRemove
      e := by
  -- if `e` points to itself, the first store is of what is there
  have hnext : ((s.setNext (s.prevOf e) (s.nextOf e)).mem e).next = s.nextOf e := by
    rw [← nextOf_of_ne he, nextOf_setNext, update_apply]
    split
    · rfl
    · rfl
  have hprev : ((s.setNext (s.prevOf e) (s.nextOf e)).mem e).prev = s.prevOf e :=
    congrFun (@setNext_rest s (s.prevOf e) (s.nextOf e)).1 e
  unfold klFreeListRemove
  rw [← nextOf_of_ne he, show (s.mem e).prev = s.prevOf e from rfl]
  simp only [hnext, hprev]

theorem klFreeListRemove_rest (he : e ≠ NIL) : (s.klFreeListRemove e).sizeOf = s.sizeOf ∧
    (s.klFreeListRemove e).tableOf = s.tableOf ∧ (s.klFreeListRemove e).rest = s.rest := by
  rw [klFreeListRemove_eq he]
  simp only [klFreeListSizeRemove_rest he, setPrev_rest, setNext_rest, and_self]

/-- **Removing** an entry. -/
theorem Links.remove (h : s.Links (as ++ e :: bs)) : (s.klFreeListRemove e).Links (as ++ bs) := by
  have he : e ≠ NIL := h.ne_nil (by simp)
  rw [klFreeListRemove_eq he]
  generalize hs₁ : (s.setNext (s.prevOf e) (s.nextOf e)).setPrev (s.nextOf e) (s.prevOf e) = s₁
  have hn : s₁.nextOf = update s.nextOf (s.prevOf e) (s.nextOf e) := by simp [← hs₁]
  have hp : s₁.prevOf = if s.nextOf e = NIL then s.prevOf
      else update s.prevOf (s.nextOf e) (s.prevOf e) := by simp [← hs₁]
  have hsize : s₁.SizeLinks fun x => x ∈ as ++ e :: bs := by
    rw [← hs₁]
    exact h.size.congr (by simp) (by simp) (by simp)
  obtain ⟨hn', hp', _⟩ := klFreeListSizeRemove_rest (s := s₁) he
  constructor
  · rw [hn', hp', hn, hp]
    refine h.addr.unlink (fun y _ => update_apply ..) fun y hy => ?_
    exact store_unless_nil fun hn => h.addr.nil_notMem_remove (hn ▸ hy)
  · intro t
    obtain ⟨m, hm, hmem⟩ := hsize.remove (e := e) (by simp) t
    exact ⟨m, hm, fun x => (hmem x).trans (and_congr_left' (mem_remove h.addr.nodup_tail).symm)⟩

/-- The entry gets its links before the entries around it point to it. -/
theorem klFreeListInsert_eq : s.klFreeListInsert p e n =
    (((s.setEntry e { s.mem e with prev := p, next := n }).setNext p e).setPrev n
      e).klFreeListSizeInsert e := rfl

theorem klFreeListInsert_rest (he : e ≠ NIL) : (s.klFreeListInsert p e n).sizeOf = s.sizeOf ∧
    (s.klFreeListInsert p e n).tableOf =
      update s.tableOf e (klGetFastLookupToUse (s.sizeOf e)) ∧
    (s.klFreeListInsert p e n).rest = s.rest := by
  have hsize : update s.sizeOf e (s.mem e).size = s.sizeOf := update_same rfl
  have htable : update s.tableOf e (s.mem e).lookupsize = s.tableOf := update_same rfl
  simp only [klFreeListInsert_eq, klFreeListSizeInsert_rest he, setPrev_rest, setNext_rest,
    setEntry_fields, hsize, htable, and_self]

/-- **Inserting** an entry between its neighbours. -/
theorem Links.insert (h : s.Links (as ++ bs)) (hp : p = as.getLastD NIL) (hn : n = bs.headD NIL)
    (he : e ∉ as ++ bs) (hnil : e ≠ NIL) : (s.klFreeListInsert p e n).Links (as ++ e :: bs) := by
  have hfwd : s.nextOf p = n := by rw [hp, hn, h.addr.fwd_getLastD]
  have hne : n ≠ e := by
    rintro rfl
    cases bs with
    | nil => exact hnil hn
    | cons b bs => exact he (by rw [hn]; simp)
  have hpe : p ≠ e := by
    rintro rfl
    have hmem : as.getLastD NIL ∈ NIL :: as := List.getLastD_mem_cons
    obtain hm | hm := List.mem_cons.mp (hp ▸ hmem)
    · exact hnil hm
    · exact he (List.mem_append_left bs hm)
  rw [klFreeListInsert_eq]
  generalize hs₁ : ((s.setEntry e { s.mem e with prev := p, next := n }).setNext p e).setPrev n e
    = s₁
  have hn₁ : s₁.nextOf = update (update s.nextOf e n) p e := by simp [← hs₁, hnil]
  have hp₁ : s₁.prevOf = if n = NIL then update s.prevOf e p
      else update (update s.prevOf e p) n e := by simp [← hs₁]
  have hsize : s₁.SizeLinks fun x => x ∈ as ++ bs := by
    rw [← hs₁]
    refine h.size.congr ?_ ?_ ?_
    · simp only [setPrev_rest, setNext_rest, nextsizeOf_setEntry, if_neg hnil]
      exact funext fun t => update_same (nextsizeOf_of_ne hnil)
    · simp only [setPrev_rest, setNext_rest, setEntry_fields]
      exact update_same rfl
    · simp only [setPrev_rest, setNext_rest, setEntry_fields]
      exact update_same rfl
  obtain ⟨hn', hp', _⟩ := klFreeListSizeInsert_rest (s := s₁) hnil
  constructor
  · rw [hn', hp', hn₁, hp₁]
    refine h.addr.insert (a := p) as hp ?_ hnil ?_ ?_
    · exact fun hx => (List.mem_cons.mp hx).elim hnil he
    · intro y _
      rw [hfwd]
      by_cases hy : y = e
      · rw [if_pos hy, hy, update_of_ne hpe.symm, update_self]
      · rw [if_neg hy, update_apply, update_of_ne hy]
    · intro y hy
      rw [hfwd]
      have hy0 : y ≠ NIL := by
        obtain rfl | hy := mem_insert.mp hy
        · exact hnil
        · exact h.ne_nil hy
      rw [store_unless_nil hy0]
      by_cases hye : y = e
      · rw [if_pos hye, hye, if_neg hne.symm, update_self]
      · rw [if_neg hye, update_of_ne hye]
  · intro t
    obtain ⟨m, hm, hmem⟩ := hsize.insert he hnil t
    refine ⟨m, hm, fun x => (hmem x).trans (and_congr_left' ?_)⟩
    exact or_comm.trans mem_insert.symm

end Alliance.KL.KLfreeListDescriptor
