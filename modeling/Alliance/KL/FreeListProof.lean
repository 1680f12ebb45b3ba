import Alliance.KL.FreeListLinks

/-!
# The entries of the free list

`Entries` says what the free list is: its entries have room for a header, they are in the size
lists of their sizes, and the next one starts behind a gap. What the list stands for is the set
of free bytes (`Free`). Here is what the operations on single entries do to it; the calls are in
`FreeListCalls`.
-/

namespace Alliance.KL.KLfreeListDescriptor

open Function Lib
open CK (UADDR)

variable {s s' : KLfreeListDescriptor} {l as bs : List UADDR} {e p n v x y data size left : UADDR}
  {t a : Nat} {fit : UADDR → UADDR → Option (UADDR × UADDR)}

/-- The first address behind an entry. -/
def endOf (s : KLfreeListDescriptor) (x : UADDR) : Nat := x.toNat + (s.sizeOf x).toNat

/-- The entries of `l` are a free list. -/
structure Entries (s : KLfreeListDescriptor) (l : List UADDR) : Prop where
  links : s.Links l
  table : ∀ x ∈ l, s.tableOf x = klGetFastLookupToUse (s.sizeOf x)
  room : ∀ x ∈ l, 24 ≤ (s.sizeOf x).toNat
  bound : ∀ x ∈ l, s.endOf x ≤ ADDRESSES
  apart : l.Pairwise fun x y => s.endOf x < y.toNat

/-- A byte of an entry. -/
def Free (s : KLfreeListDescriptor) (l : List UADDR) (a : Nat) : Prop :=
  ∃ x ∈ l, x.toNat ≤ a ∧ a < s.endOf x

theorem freeListAtBoot_entries : freeListAtBoot.Entries [] where
  links := by
    refine ⟨Linked.empty rfl, fun t => ⟨[], Linked.empty rfl, ?_⟩⟩
    simp
  table := by simp
  room := by simp
  bound := by simp
  apart := .nil

/-! ## Removing and inserting -/

theorem endOf_congr (h : s'.sizeOf = s.sizeOf) : s'.endOf = s.endOf := by
  funext x
  rw [endOf, endOf, h]

theorem Entries.remove (h : s.Entries (as ++ e :: bs)) :
    (s.klFreeListRemove e).Entries (as ++ bs) := by
  obtain ⟨hsize, htable, _⟩ := klFreeListRemove_rest (s := s) (h.links.ne_nil (x := e) (by simp))
  have hsub : ∀ x ∈ as ++ bs, x ∈ as ++ e :: bs := fun x hx => mem_insert.mpr (.inr hx)
  exact {
    links := h.links.remove
    table := fun x hx => by rw [hsize, htable]; exact h.table x (hsub x hx)
    room := fun x hx => by rw [hsize]; exact h.room x (hsub x hx)
    bound := fun x hx => by rw [endOf_congr hsize]; exact h.bound x (hsub x hx)
    apart := by
      rw [endOf_congr hsize]
      exact h.apart.sublist ((List.sublist_cons_self e bs).append_left as) }

theorem insert_endOf (hnil : e ≠ NIL) : ((s.setSize e v).klFreeListInsert p e n).endOf =
    update s.endOf e (e.toNat + v.toNat) := by
  funext x
  rw [endOf, (klFreeListInsert_rest hnil).1, sizeOf_setSize, update_apply, update_apply]
  split
  · next hx => rw [hx]
  · rfl

/-- An entry between those before and those behind it. -/
theorem Entries.insert (h : s.Entries (as ++ bs)) (hp : p = as.getLastD NIL)
    (hn : n = bs.headD NIL) (hnil : e ≠ NIL) (hroom : 24 ≤ v.toNat)
    (hbound : e.toNat + v.toNat ≤ ADDRESSES) (has : ∀ x ∈ as, s.endOf x < e.toNat)
    (hbs : ∀ y ∈ bs, e.toNat + v.toNat < y.toNat) :
    ((s.setSize e v).klFreeListInsert p e n).Entries (as ++ e :: bs) := by
  have he : e ∉ as ++ bs := by
    intro hm
    rcases List.mem_append.mp hm with hm | hm
    · have := has e hm
      unfold endOf at this
      omega
    · have := hbs e hm
      omega
  obtain ⟨hsize, htable, _⟩ := klFreeListInsert_rest (s := s.setSize e v) (p := p) (n := n) hnil
  have hv : ((s.setSize e v).klFreeListInsert p e n).sizeOf e = v := by
    rw [hsize, sizeOf_setSize, update_self]
  have hsame : ∀ x ∈ as ++ bs, ((s.setSize e v).klFreeListInsert p e n).sizeOf x = s.sizeOf x := by
    intro x hx
    rw [hsize, sizeOf_setSize, update_of_ne (ne_of_mem_of_not_mem hx he)]
  have hend : ∀ x ∈ as ++ bs, ((s.setSize e v).klFreeListInsert p e n).endOf x = s.endOf x := by
    intro x hx
    rw [insert_endOf hnil, update_of_ne (ne_of_mem_of_not_mem hx he)]
  have hend_e : ((s.setSize e v).klFreeListInsert p e n).endOf e = e.toNat + v.toNat := by
    rw [insert_endOf hnil, update_self]
  refine ⟨h.links.setSize.insert hp hn he hnil, ?_, ?_, ?_, ?_⟩
  · intro x hx
    rcases mem_insert.mp hx with rfl | hx
    · rw [htable, hsize, update_self]
    · rw [htable, update_of_ne (ne_of_mem_of_not_mem hx he), hsame x hx]
      exact (congrFun setSize_rest.2.2.2.2.1 x).trans (h.table x hx)
  · intro x hx
    rcases mem_insert.mp hx with rfl | hx
    · rwa [hv]
    · rw [hsame x hx]
      exact h.room x hx
  · intro x hx
    rcases mem_insert.mp hx with rfl | hx
    · rwa [hend_e]
    · rw [hend x hx]
      exact h.bound x hx
  · refine pairwise_insert (h.apart.imp_of_mem fun {x y} hx _ hxy => ?_) ?_ ?_
    · rwa [hend x hx]
    · intro x hx
      rw [hend x (List.mem_append_left _ hx)]
      exact has x hx
    · intro y hy
      rw [hend_e]
      exact hbs y hy

/-- An entry loses its last bytes. -/
theorem Entries.shrink (h : s.Entries (as ++ e :: bs)) (hroom : 24 ≤ v.toNat)
    (hv : v.toNat ≤ (s.sizeOf e).toNat) :
    (((s.klFreeListSizeRemove e).setSize e v).klFreeListSizeInsert e).Entries
      (as ++ e :: bs) := by
  have hmem : e ∈ as ++ e :: bs := by simp
  have hnil : e ≠ NIL := h.links.ne_nil hmem
  obtain ⟨hn₁, hp₁, hs₁, ht₁, _⟩ := klFreeListSizeRemove_rest (s := s) hnil
  generalize hs : (s.klFreeListSizeRemove e).setSize e v = s₂
  obtain ⟨hn₂, hp₂, hs₂, ht₂, _⟩ := klFreeListSizeInsert_rest (s := s₂) hnil
  have hsize : (s₂.klFreeListSizeInsert e).sizeOf = update s.sizeOf e v := by
    rw [hs₂, ← hs, sizeOf_setSize, hs₁]
  have hsize₂ : s₂.sizeOf e = v := by rw [← hs, sizeOf_setSize, update_self]
  have htable : (s₂.klFreeListSizeInsert e).tableOf =
      update s.tableOf e (klGetFastLookupToUse v) := by
    rw [ht₂, hsize₂, ← hs, setSize_rest.2.2.2.2.1, ht₁]
  have hle : ∀ x, (s₂.klFreeListSizeInsert e).endOf x ≤ s.endOf x := by
    intro x
    rw [endOf, endOf, hsize, update_apply]
    split
    · next hx => rw [hx]; omega
    · exact Nat.le_refl _
  refine ⟨⟨?_, ?_⟩, ?_, ?_, fun x hx => Nat.le_trans (hle x) (h.bound x hx), ?_⟩
  · rw [hn₂, hp₂, ← hs, setSize_rest.1, setSize_rest.2.1, hn₁, hp₁]
    exact h.links.addr
  · have hsl : s₂.SizeLinks fun x => x ∈ as ++ e :: bs ∧ x ≠ e := by
      rw [← hs]
      exact (h.links.size.remove hmem).congr setSize_rest.2.2.1 setSize_rest.2.2.2.1
        setSize_rest.2.2.2.2.1
    intro t
    obtain ⟨m, hm, hm'⟩ := hsl.insert (e := e) (fun hx => hx.2 rfl) hnil t
    refine ⟨m, hm, fun x => (hm' x).trans (and_congr_left' ?_)⟩
    by_cases hx : x = e
    · simp [hx]
    · simp [hx]
  · intro x hx
    rw [htable, hsize, update_apply, update_apply]
    split
    · rfl
    · exact h.table x hx
  · intro x hx
    rw [hsize, update_apply]
    split
    · exact hroom
    · exact h.room x hx
  · exact h.apart.imp fun {x y} hxy => Nat.lt_of_le_of_lt (hle x) hxy

/-! ## Taking a block -/

/-- The block `[data, data + size)` lies in the entry, `left` bytes are behind it, and what is
before and behind it is nothing or has room for a header. -/
structure Fits (s : KLfreeListDescriptor) (e data size left : UADDR) : Prop where
  before : data = e ∨ e.toNat + 24 ≤ data.toNat ∧ 0 < size.toNat
  behind : left = 0#32 ∨ 24 ≤ left.toNat
  ends : data.toNat + size.toNat + left.toNat = s.endOf e

/-- The entries that are left of one. -/
def remains (e data size left : UADDR) : List UADDR :=
  (if data = e then [] else [e]) ++ if left = 0#32 then [] else [data + size]

theorem Entries.around (h : s.Entries (as ++ e :: bs)) :
    (∀ x ∈ as, s.endOf x < e.toNat) ∧ (∀ y ∈ bs, s.endOf e < y.toNat) ∧
      ∀ x ∈ as, ∀ y ∈ bs, s.endOf x < y.toNat := by
  obtain ⟨_, hbs, has⟩ := List.pairwise_append.mp h.apart
  exact ⟨fun x hx => has x hx e (.head _), (List.pairwise_cons.mp hbs).1,
    fun x hx y hy => has x hx y (.tail _ hy)⟩

/-- Two entries do not share an address. -/
theorem Entries.separate (h : s.Entries l) (he : e ∈ l) (hx : x ∈ l) (hne : x ≠ e) :
    s.endOf x < e.toNat ∨ s.endOf e < x.toNat := by
  obtain ⟨as, bs, rfl⟩ := List.append_of_mem he
  obtain ⟨has, hbs, -⟩ := h.around
  rcases List.mem_append.mp hx with hx | hx
  · exact .inl (has x hx)
  · exact .inr (hbs x ((List.mem_cons.mp hx).resolve_left hne))

theorem Fits.suffix (h : s.Entries (as ++ e :: bs)) (hf : s.Fits e data size left)
    (hl : left ≠ 0#32) : (data + size).toNat = data.toNat + size.toNat := by
  have hb := h.bound e (by simp)
  have hends := hf.ends
  have hpos : 0 < left.toNat := by
    rcases hf.behind with h0 | h24
    · exact absurd h0 hl
    · omega
  rw [BitVec.toNat_add]
  unfold ADDRESSES at hb
  omega

theorem Fits.prefix (hf : s.Fits e data size left) : (data - e).toNat = data.toNat - e.toNat := by
  rcases hf.before with rfl | hb
  · simp
  · rw [BitVec.toNat_sub]
    omega

theorem toNat_pos (h : e ≠ NIL) : 0 < e.toNat :=
  Nat.pos_of_ne_zero fun h0 => h (BitVec.eq_of_toNat_eq h0)

/-- What is left behind the block is an address of its own. -/
theorem Fits.le_and_suffix (h : s.Entries (as ++ e :: bs)) (hf : s.Fits e data size left) :
    e.toNat ≤ data.toNat ∧ (left ≠ 0#32 →
      (data + size).toNat = data.toNat + size.toNat ∧ data + size ≠ NIL) := by
  have hpos := toNat_pos (h.links.ne_nil (x := e) (by simp))
  have hle : e.toNat ≤ data.toNat := by
    rcases hf.before with rfl | hb
    · exact Nat.le_refl _
    · omega
  refine ⟨hle, fun hl => ⟨hf.suffix h hl, fun h0 => ?_⟩⟩
  have hsuf := hf.suffix h hl
  rw [h0] at hsuf
  have : (NIL : UADDR).toNat = 0 := rfl
  omega

/-- The count is no part of the lists. -/
theorem Entries.count (h : s.Entries l) : { s with FreeMemory := v }.Entries l where
  links := ⟨h.links.addr, h.links.size⟩
  table := h.table
  room := h.room
  bound := h.bound
  apart := h.apart

/-- **Taking a block** out of an entry leaves a free list. -/
theorem Entries.carve (h : s.Entries (as ++ e :: bs)) (hf : s.Fits e data size left) :
    (s.carve e data size left).Entries (as ++ (remains e data size left ++ bs)) := by
  have hmem : e ∈ as ++ e :: bs := by simp
  have hbound := h.bound e hmem
  obtain ⟨has, hbs, _⟩ := h.around
  obtain ⟨hprev, hnext⟩ := h.links.neighbours
  have hpre := hf.prefix
  have hends := hf.ends
  have hnil : e ≠ NIL := h.links.ne_nil hmem
  have hsize := (klFreeListRemove_rest (s := s) hnil).1
  have hbefore := hf.before
  unfold KLfreeListDescriptor.carve remains
  rw [hprev, hnext]
  by_cases hl : left = 0#32
  · rw [if_pos hl, if_pos hl, List.append_nil]
    by_cases hd : data = e
    · rw [if_pos hd, if_pos hd]
      exact h.remove
    · rw [if_neg hd, if_neg hd]
      have hroom := (hbefore.resolve_left hd).1
      refine h.shrink ?_ ?_
      · omega
      · unfold endOf at hends
        omega
  · rw [if_neg hl, if_neg hl]
    have hleft : 24 ≤ left.toNat := hf.behind.resolve_left hl
    obtain ⟨hle, hsuf⟩ := hf.le_and_suffix h
    obtain ⟨hsuf, hnil'⟩ := hsuf hl
    by_cases hd : data = e
    · -- the rest of the entry is the only one
      rw [if_neg (not_not_intro hd), if_pos hd, List.nil_append]
      refine h.remove.insert rfl rfl hnil' hleft ?_ ?_ ?_
      · omega
      · intro x hx
        have := has x hx
        rw [endOf_congr hsize]
        omega
      · intro y hy
        have := hbs y hy
        omega
    · rw [if_pos hd, if_neg hd]
      obtain ⟨hroom, hsz⟩ := hbefore.resolve_left hd
      -- first the bytes before the block, then those behind it
      have h₁ := h.remove.insert (e := e) (v := data - e) rfl rfl hnil (by omega) (by omega)
        (fun x hx => by rw [endOf_congr hsize]; exact has x hx) fun y hy => by
          have := hbs y hy
          omega
      obtain ⟨hsize₁, _⟩ := klFreeListInsert_rest (s := (s.klFreeListRemove e).setSize e (data - e))
        (p := as.getLastD NIL) (n := bs.headD NIL) hnil
      generalize hs₁ : ((s.klFreeListRemove e).setSize e (data - e)).klFreeListInsert
        (as.getLastD NIL) e (bs.headD NIL) = s₁ at h₁ hsize₁
      have hend : s₁.endOf e = data.toNat := by
        rw [endOf, hsize₁, sizeOf_setSize, update_self, hpre]
        omega
      have has₁ := h₁.around.1
      rw [List.append_cons] at h₁
      have h₂ := h₁.insert (e := data + size) (v := left) (p := e) (n := bs.headD NIL)
        List.getLastD_concat.symm rfl hnil' hleft (by omega) ?_ ?_
      · simpa using h₂
      · -- the entries before the block end where it starts, at the latest
        intro x hx
        rcases List.mem_append.mp hx with hx | hx
        · have := has₁ x hx
          omega
        · obtain rfl := List.mem_singleton.mp hx
          omega
      · intro y hy
        have := hbs y hy
        omega

/-- The sizes of what is left of an entry. -/
theorem carve_fields (hnil : e ≠ NIL) (hsuf : left ≠ 0#32 → data + size ≠ NIL) :
    (s.carve e data size left).rest = s.rest ∧ (s.carve e data size left).sizeOf =
      if left = 0#32 then if data = e then s.sizeOf else update s.sizeOf e (data - e)
      else update (if data = e then s.sizeOf else update s.sizeOf e (data - e)) (data + size)
        left := by
  unfold KLfreeListDescriptor.carve
  by_cases hl : left = 0#32
  · by_cases hd : data = e
    · simp [hl, hd, klFreeListRemove_rest hnil]
    · simp [hl, hd, klFreeListSizeRemove_rest hnil, klFreeListSizeInsert_rest hnil]
  · by_cases hd : data = e
    · simp [hl, hd, klFreeListRemove_rest hnil, klFreeListInsert_rest (hd ▸ hsuf hl)]
    · simp [hl, hd, klFreeListRemove_rest hnil, klFreeListInsert_rest hnil,
        klFreeListInsert_rest (hsuf hl)]

/-- The bytes of a block. -/
def InBlock (data size : UADDR) (a : Nat) : Prop := data.toNat ≤ a ∧ a < data.toNat + size.toNat

theorem free_middle {ms : List UADDR} :
    s.Free (as ++ (ms ++ bs)) a ↔ s.Free (as ++ bs) a ∨ s.Free ms a := by
  simp only [Free, List.mem_append]
  grind

theorem free_congr (h : ∀ x ∈ l, s'.endOf x = s.endOf x) : s'.Free l a ↔ s.Free l a := by
  refine exists_congr fun x => and_congr_right fun hx => ?_
  rw [h x hx]

theorem free_remains : s.Free (remains e data size left) a ↔
    (data ≠ e ∧ e.toNat ≤ a ∧ a < s.endOf e) ∨
      left ≠ 0#32 ∧ (data + size).toNat ≤ a ∧ a < s.endOf (data + size) := by
  unfold Free remains
  by_cases hd : data = e <;> by_cases hl : left = 0#32 <;> simp [hd, hl]

/-- **Taking a block** takes its bytes, all of which were free. -/
theorem Entries.free_carve (h : s.Entries (as ++ e :: bs)) (hf : s.Fits e data size left) :
    (∀ a, (s.carve e data size left).Free (as ++ (remains e data size left ++ bs)) a ↔
      s.Free (as ++ e :: bs) a ∧ ¬ InBlock data size a) ∧
    ∀ a, InBlock data size a → s.Free (as ++ e :: bs) a := by
  have hnil : e ≠ NIL := h.links.ne_nil (by simp)
  have hends := hf.ends
  obtain ⟨has, hbs, _⟩ := h.around
  obtain ⟨hle, hsuf⟩ := hf.le_and_suffix h
  have hfields := (carve_fields (s := s) hnil fun hl => (hsuf hl).2).2
  -- an entry around the block is none of the two that are left
  have hsame : ∀ x ∈ as ++ bs, (s.carve e data size left).endOf x = s.endOf x := by
    intro x hx
    have hxe : x ≠ e := by
      rintro rfl
      exact (List.nodup_middle.mp h.links.addr.nodup_tail).notMem hx
    have hxd : left ≠ 0#32 → x ≠ data + size := by
      rintro hl rfl
      have hs := (hsuf hl).1
      rcases List.mem_append.mp hx with hx | hx
      · have := has _ hx
        unfold endOf at this
        omega
      · have := hbs _ hx
        omega
    rw [endOf, endOf, hfields]
    split
    · split
      · rfl
      · rw [update_of_ne hxe]
    · next hl =>
      rw [update_of_ne (hxd hl)]
      split
      · rfl
      · rw [update_of_ne hxe]
  have hbefore : data ≠ e → (s.carve e data size left).endOf e = data.toNat := by
    intro hd
    have hpre := hf.prefix
    have hroom := (hf.before.resolve_left hd).2
    rw [endOf, hfields, if_neg hd]
    split
    · rw [update_self]
      omega
    · next hl =>
      have hne : e ≠ data + size := by
        intro he
        have := (hsuf hl).1
        rw [← he] at this
        omega
      rw [update_of_ne hne, update_self]
      omega
  have hbehind : left ≠ 0#32 →
      (s.carve e data size left).endOf (data + size) = s.endOf e := by
    intro hl
    rw [endOf, hfields, if_neg hl, update_self, (hsuf hl).1]
    omega
  have hout : ∀ x ∈ as ++ bs, ∀ a, x.toNat ≤ a → a < s.endOf x → ¬ InBlock data size a := by
    intro x hx a hxa hax hin
    unfold InBlock at hin
    rcases List.mem_append.mp hx with hx | hx
    · have := has x hx
      omega
    · have := hbs x hx
      omega
  have hentry : ∀ a, s.Free (as ++ e :: bs) a ↔
      s.Free (as ++ bs) a ∨ e.toNat ≤ a ∧ a < s.endOf e := by
    intro a
    rw [← List.singleton_append, free_middle]
    simp [Free]
  constructor
  · intro a
    rw [free_middle, free_congr hsame, free_remains, hentry]
    unfold InBlock
    constructor
    · rintro (⟨x, hx, hxa⟩ | ⟨hd, hea, had⟩ | ⟨hl, hda, hae⟩)
      · exact ⟨.inl ⟨x, hx, hxa⟩, hout x hx a hxa.1 hxa.2⟩
      · rw [hbefore hd] at had
        exact ⟨.inr (by omega), by omega⟩
      · rw [hbehind hl] at hae
        have := (hsuf hl).1
        exact ⟨.inr (by omega), by omega⟩
    · rintro ⟨hx | ⟨hea, hae⟩, hnot⟩
      · exact .inl hx
      · -- a byte of the entry is before or behind the block
        by_cases hlt : a < data.toNat
        · have hd : data ≠ e := by
            rintro rfl
            omega
          exact .inr (.inl ⟨hd, hea, by rwa [hbefore hd]⟩)
        · have hl : left ≠ 0#32 := by
            intro hl
            have : left.toNat = 0 := by rw [hl]; rfl
            omega
          have := (hsuf hl).1
          exact .inr (.inr ⟨hl, by omega, by rwa [hbehind hl]⟩)
  · intro a hin
    unfold InBlock at hin
    exact (hentry a).mpr (.inr (by omega))

theorem Entries.takeBlock (h : s.Entries (as ++ e :: bs)) (hf : s.Fits e data size left) :
    (s.takeBlock e data size left).Entries (as ++ (remains e data size left ++ bs)) :=
  (h.carve hf).count

end Alliance.KL.KLfreeListDescriptor
